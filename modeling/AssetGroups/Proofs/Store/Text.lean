import AssetGroups.Proofs.Json.Codec
import AssetGroups.Proofs.Rule.Codec
import AssetGroups.Proofs.Store.Sound
import AssetGroups.Proofs.Text.Utf8

/-!
# The text of a store

A store file holds the content as text. The text is read as the content that was written exactly when
the groups are not nested too deeply: a group lies two levels deep in the file.
-/

namespace AssetGroups

open Json

/-! ## Numbers in the text -/

@[simp]
theorem Json.Value.nat_plain (n : Nat) : (Value.nat n).Plain := ⟨n, rfl⟩

theorem Condition.toJson_plain (c : Condition) : c.toJson.Plain := by
  obtain ⟨field, op, _ | value⟩ := c <;>
    simp [toJson, Value.ofMembers, Value.Plain, Value.MembersPlain]

mutual

theorem Rule.toJson_plain : (r : Rule) → r.toJson.Plain
  | .condition c => c.toJson_plain
  | .nested connective rules => by
      simp only [toJson, Value.Plain, Value.MembersPlain, true_and, and_true]
      exact allToJson_plain rules

theorem Rule.allToJson_plain : (rs : List Rule) → Value.AllPlain (allToJson rs)
  | [] => trivial
  | r :: rs => ⟨toJson_plain r, allToJson_plain rs⟩

end

theorem Group.toJson_plain (g : Group) : g.toJson.Plain := by
  have hrules : g.rules.toJson.Plain := g.rules.toRule.toJson_plain
  obtain ⟨_ | id, name, rules⟩ := g <;>
    simp [toJson, Value.ofMembers, Value.Plain, Value.MembersPlain, hrules]

namespace Database

theorem toJson_plain (db : Database) : db.toJson.Plain := by
  have hall := Value.allPlain_map fun g (_ : g ∈ db.groups) => g.toJson_plain
  simp [toJson, Value.Plain, Value.MembersPlain, hall]

/-! ## Reading the file -/

/-- How deep a group may be nested by itself if the file that holds it is to be read. -/
def groupRoom : Nat := textRoom - 2

/-- The file that holds the content can be read: its counter fits in a word and no group is nested too
deeply. -/
structure Readable (db : Database) : Prop where
  lastId : db.lastId < Text.wordLimit
  shallow : ∀ g ∈ db.groups, g.toJson.depth ≤ groupRoom

instance (db : Database) : Decidable db.Readable :=
  decidable_of_iff (db.lastId < Text.wordLimit ∧ ∀ g ∈ db.groups, g.toJson.depth ≤ groupRoom)
    ⟨fun ⟨h, h'⟩ => ⟨h, h'⟩, fun ⟨h, h'⟩ => ⟨h, h'⟩⟩

theorem depth_le_textRoom {db : Database} :
    db.toJson.depth ≤ textRoom ↔ ∀ g ∈ db.groups, g.toJson.depth ≤ groupRoom := by
  rw [← Value.depthOfItems_map_le]
  simp only [toJson, Value.nat, Value.depth, Value.depthOfMembers, groupRoom, textRoom]
  omega

/-- The members of a content as they are written. -/
def written (db : Database) : List (Written Database) :=
  [⟨"last-id", .nat db.lastId, fun d => { d with lastId := db.lastId }⟩,
    ⟨"groups", .list (db.groups.map Group.toJson), fun d => { d with groups := db.groups }⟩]

theorem decoder_inverts {db : Database} (hlast : db.lastId < Text.wordLimit)
    (hids : ∀ id ∈ db.ids, id < Text.wordLimit) : decoder.Inverts db.toJson db := by
  have hgroups : (Decoder.listOf Group.decoder).Inverts (.list (db.groups.map Group.toJson))
      db.groups :=
    Decoder.listOf_inverts fun g hg => g.decoder_inverts fun id hid =>
      hids id (mem_ids.mpr ⟨g, hg, hid⟩)
  refine Decoder.record_inverts {} db.written ?_ ?_ ?_
  · simp only [written, List.forall_mem_cons]
    exact ⟨.of_inverts rfl (Decoder.word_inverts hlast) rfl, .of_inverts rfl hgroups rfl, by simp⟩
  · simp [written]
  · simp [Member.optional]

theorem decoder_overflow {db : Database} (hlast : ¬ db.lastId < Text.wordLimit) (room : Nat) :
    ∃ fault, decoder room (.ofValue db.toJson) = .error fault := by
  have hword : ∀ room, Decoder.word room (.ofValue (.nat db.lastId)) =
      .error (Source.ofValue (.nat db.lastId)).fault := by
    intro room
    simp [Value.nat, Source.ofValue, Decoder.word, Numeral.word?, Numeral.ofNat,
      Text.ofDigits_digitsOf, hlast]
  cases room with
  | zero => exact ⟨_, rfl⟩
  | succ room =>
      refine ⟨(Source.ofValue (.nat db.lastId)).fault, ?_⟩
      simp [decoder, toJson, Source.ofValue, Source.ofEntries, Decoder.record, Decoder.fillByKey,
        Member.optional, hword, Except.map]

theorem ofText_eq_decode (db : Database) : ofText db.text =
    match decoder textRoom (.ofValue db.toJson) with
    | .ok db => .ok db
    | .error _ => .error (.serialization "not a group database") := by
  have hblank : Text.allBlank db.text.toList = false := by
    rw [text, Value.pretty, String.toList_ofList, toJson, Value.write]
    rfl
  rw [ofText, hblank, text, decodeText_pretty decoder db.toJson_plain]
  rfl

theorem ofText_eq_error {s : String} {e : GroupError} (h : ofText s = .error e) :
    e = .serialization "not a group database" := by
  unfold ofText at h
  split at h
  · cases h
  · split at h
    · cases h
    · exact (Except.error.inj h).symm

theorem ofText_words {db : Database} (hlast : db.lastId < Text.wordLimit)
    (hids : ∀ id ∈ db.ids, id < Text.wordLimit) : ofText db.text =
      if ∀ g ∈ db.groups, g.toJson.depth ≤ groupRoom then .ok db
      else .error (.serialization "not a group database") := by
  rw [ofText_eq_decode, decoder_inverts hlast hids textRoom]
  simp only [← depth_le_textRoom]
  by_cases hdepth : db.toJson.depth ≤ textRoom <;> simp [hdepth]

/-- The text of a content is taken for the content, or for nothing. -/
theorem ofText_text {db : Database} (h : db.Fits) : ofText db.text =
    if db.Readable then .ok db else .error (.serialization "not a group database") := by
  by_cases hlast : db.lastId < Text.wordLimit
  · rw [ofText_words hlast fun id hid => (h id hid).elim (Nat.lt_of_le_of_lt · hlast) fun hlt => hlt]
    by_cases hshallow : ∀ g ∈ db.groups, g.toJson.depth ≤ groupRoom
    · rw [if_pos hshallow, if_pos ⟨hlast, hshallow⟩]
    · rw [if_neg hshallow, if_neg fun hreadable => hshallow hreadable.shallow]
  · obtain ⟨fault, hfault⟩ := decoder_overflow hlast textRoom
    rw [ofText_eq_decode, hfault, if_neg fun hreadable => hlast hreadable.lastId]

/-! ## Octets -/

/-- What is written is text. -/
theorem ofOctets_encode (path s : String) : ofOctets path (Text.Utf8.encode s) = ofText s := by
  rw [ofOctets, Text.Utf8.decode?_encode]

theorem ofOctets_octets (path : String) (db : Database) :
    ofOctets path db.octets = ofText db.text :=
  ofOctets_encode path db.text

theorem ofOctets_eq_ok {path : String} {octets : List UInt8} {db : Database} :
    ofOctets path octets = .ok db ↔
      ∃ s, Text.Utf8.decode? octets = some s ∧ ofText s = .ok db := by
  unfold ofOctets
  cases Text.Utf8.decode? octets <;> simp

/-- A file fails for what its text is, or because it is no text. -/
theorem ofOctets_eq_error {path : String} {octets : List UInt8} {e : GroupError}
    (h : ofOctets path octets = .error e) : e = .serialization "not a group database" ∨
      e = .storage path "stream did not contain valid UTF-8" := by
  unfold ofOctets at h
  split at h
  · exact Or.inl (ofText_eq_error h)
  · exact Or.inr (Except.error.inj h).symm

/-! ## Numbers that were read -/

/-- The counter and the ids are words. -/
def InWords (db : Database) : Prop :=
  db.lastId < Text.wordLimit ∧ ∀ g ∈ db.groups, ∀ id ∈ g.id, id < Text.wordLimit

theorem groupDecoder_yields :
    Group.decoder.Yields fun g => ∀ id ∈ g.id, id < Text.wordLimit := by
  refine Decoder.record_yields (by simp) ?_
  simp only [List.forall_mem_cons]
  have hany : ∀ {α : Type} (d : Decoder α), d.Yields fun _ => True := fun _ _ _ _ _ => trivial
  exact ⟨Member.optional_preserves (Decoder.nullable_yields Decoder.word_yields) fun _ _ h _ => h,
    Member.optional_preserves (hany _) fun _ _ _ h => h,
    Member.optional_preserves (hany _) fun _ _ _ h => h, by simp⟩

theorem decoder_yields : decoder.Yields InWords := by
  refine Decoder.record_yields ⟨by decide, by simp⟩ ?_
  simp only [List.forall_mem_cons]
  exact ⟨Member.optional_preserves Decoder.word_yields fun _ _ hlast h => ⟨hlast, h.2⟩,
    Member.optional_preserves (Decoder.listOf_yields groupDecoder_yields)
      fun _ _ hgroups h => ⟨h.1, hgroups⟩, by simp⟩

theorem InWords.fits {db : Database} (h : db.InWords) : db.Fits := by
  intro id hid
  obtain ⟨g, hg, hgid⟩ := mem_ids.mp hid
  exact Or.inr (h.2 g hg id hgid)

/-- Whatever is read from a text has its numbers in words. -/
theorem inWords_of_ofText {s : String} {db : Database} (h : ofText s = .ok db) : db.InWords := by
  unfold ofText at h
  split at h
  · obtain rfl := Except.ok.inj h
    exact ⟨by decide, by simp⟩
  · split at h
    · rename_i read hread
      obtain rfl := Except.ok.inj h
      exact decodeText_yields decoder_yields hread
    · cases h

theorem inWords_of_ofOctets {path : String} {octets : List UInt8} {db : Database}
    (h : ofOctets path octets = .ok db) : db.InWords := by
  obtain ⟨s, -, hs⟩ := ofOctets_eq_ok.mp h
  exact inWords_of_ofText hs

end Database

end AssetGroups
