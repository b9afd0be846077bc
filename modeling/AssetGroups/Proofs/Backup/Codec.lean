import AssetGroups.Backup
import AssetGroups.Proofs.Store.Text

/-!
# Round trips over the wire

Everything that is made of groups, from a single condition to a backup, is read back from its JSON
as it was written, unless it is nested too deeply for a reader. The entries of a rule set carry no
mark of what they are; still none is taken for one of the other kind.
-/

namespace AssetGroups

open Json

private theorem yields_true {α : Type} (d : Decoder α) : d.Yields fun _ => True :=
  fun _ _ _ _ => trivial

/-! ## Rules and groups -/

theorem Condition.roundTrips : Condition.decoder.RoundTrips Condition.toJson fun _ => True :=
  .of_inverts toJson_plain (fun c _ => c.decoder_inverts) (yields_true _)

/-- A rule that is a condition is written as the condition, and any other as its rule set. -/
theorem Rule.roundTrips : Rule.decoder.RoundTrips Rule.toJson fun _ => True :=
  .of_inverts toJson_plain (fun r _ => r.decoder_inverts) (yields_true _)

theorem RuleSet.roundTrips : RuleSet.decoder.RoundTrips RuleSet.toJson fun _ => True :=
  .of_inverts (fun r => r.toRule.toJson_plain) (fun r _ => r.decoder_inverts) (yields_true _)

/-- The id, if there is one, is a word. -/
def Group.InWords (g : Group) : Prop := ∀ id ∈ g.id, id < Text.wordLimit

theorem Group.roundTrips : Group.decoder.RoundTrips Group.toJson Group.InWords :=
  .of_inverts toJson_plain (fun g hg => g.decoder_inverts hg) Database.groupDecoder_yields

theorem Database.roundTrips : Database.decoder.RoundTrips Database.toJson Database.InWords := by
  refine .of_inverts toJson_plain (fun db hdb => decoder_inverts hdb.1 fun id hid => ?_)
    decoder_yields
  obtain ⟨g, hg, hgid⟩ := mem_ids.1 hid
  exact hdb.2 g hg id hgid

/-! ## Backups -/

namespace Backup

theorem groupListDecoder_inverts {groups : List Group} (h : ∀ g ∈ groups, g.InWords) :
    groupListDecoder.Inverts (groupListJson groups) groups := by
  have hgroups : (Decoder.listOf Group.decoder).Inverts (.list (groups.map Group.toJson)) groups :=
    Decoder.listOf_inverts fun g hg => g.decoder_inverts (h g hg)
  refine Decoder.record_inverts []
    [⟨"groupList", .list (groups.map Group.toJson), fun _ => groups⟩] ?_ (by simp)
    (by simp [Member.optional])
  simp only [List.forall_mem_singleton]
  exact .of_inverts rfl hgroups rfl

theorem groupListDecoder_yields :
    groupListDecoder.Yields fun groups => ∀ g ∈ groups, g.InWords := by
  refine Decoder.record_yields (by simp) ?_
  simp only [List.forall_mem_singleton]
  exact Member.optional_preserves (Decoder.listOf_yields Database.groupDecoder_yields)
    fun _ _ h _ => h

namespace Feature

def InWords (f : Feature) : Prop := ∀ g ∈ f.groups, g.InWords

theorem toJson_plain (f : Feature) : f.toJson.Plain := by
  have hall := Value.allPlain_map fun g (_ : g ∈ f.groups) => g.toJson_plain
  simp [toJson, groupListJson, Value.Plain, Value.MembersPlain, hall]

/-- The members of a feature as they are written. -/
def written (f : Feature) : List (Written Feature) :=
  [⟨"version", .string f.version, fun f' => { f' with version := f.version }⟩,
    ⟨"data", groupListJson f.groups, fun f' => { f' with groups := f.groups }⟩]

theorem decoder_inverts {f : Feature} (h : f.InWords) : decoder.Inverts f.toJson f := by
  refine Decoder.record_inverts ⟨"", []⟩ f.written ?_ ?_ ?_
  · simp only [written, List.forall_mem_cons]
    exact ⟨.of_inverts rfl (Decoder.text_inverts f.version) rfl,
      .of_inverts rfl (groupListDecoder_inverts h) rfl, by simp⟩
  · simp [written]
  · simp [written, Member.needed]

theorem decoder_yields : decoder.Yields InWords := by
  refine Decoder.record_yields (by simp [InWords]) ?_
  simp only [List.forall_mem_cons]
  exact ⟨Member.needed_preserves (yields_true _) fun _ _ _ h => h,
    Member.needed_preserves groupListDecoder_yields fun _ _ hgroups _ => hgroups, by simp⟩

theorem roundTrips : decoder.RoundTrips toJson InWords :=
  .of_inverts toJson_plain (fun _ h => decoder_inverts h) decoder_yields

end Feature

namespace RestoreQuery

/-- Its keys are in order, no key twice, and the ids in its features are words. -/
structure WellFormed (q : RestoreQuery) : Prop where
  ascending : q.features.Ascending
  inWords : ∀ e ∈ q.features, e.2.InWords

theorem toJson_plain (q : RestoreQuery) : q.toJson.Plain := by
  have hall := Value.membersPlain_map fun e (_ : e ∈ q.features) => e.2.toJson_plain
  simp only [toJson, Value.Plain, Value.MembersPlain, and_true]
  exact hall

/-- The only member of a query as it is written. -/
def written (q : RestoreQuery) : List (Written RestoreQuery) :=
  [⟨"mapFeaturesData", .object (q.features.map fun (k, f) => (k, f.toJson)), fun _ => q⟩]

theorem decoder_inverts {q : RestoreQuery} (h : q.WellFormed) : decoder.Inverts q.toJson q := by
  have hfeatures := Decoder.dictOf_inverts h.ascending
    fun e he => Feature.decoder_inverts (h.inWords e he)
  refine Decoder.record_inverts {} q.written ?_ ?_ ?_
  · simp only [written, List.forall_mem_singleton]
    exact .of_inverts rfl hfeatures rfl
  · simp [written]
  · simp [Member.optional]

theorem decoder_yields : decoder.Yields WellFormed := by
  refine Decoder.record_yields ⟨List.Pairwise.nil, by simp⟩ ?_
  simp only [List.forall_mem_singleton]
  exact Member.optional_preserves (Decoder.dictOf_yields Feature.decoder_yields)
    fun _ _ hfeatures _ => ⟨hfeatures.1, hfeatures.2⟩

theorem roundTrips : decoder.RoundTrips toJson WellFormed :=
  .of_inverts toJson_plain (fun _ h => decoder_inverts h) decoder_yields

end RestoreQuery

/-- Reading undoes writing for conditions, rules, rule sets, groups, whole stores, features and
restore queries alike; numbers are words wherever they stand. -/
theorem wire_roundTrips :
    Condition.decoder.RoundTrips Condition.toJson (fun _ => True) ∧
      Rule.decoder.RoundTrips Rule.toJson (fun _ => True) ∧
      RuleSet.decoder.RoundTrips RuleSet.toJson (fun _ => True) ∧
      Group.decoder.RoundTrips Group.toJson Group.InWords ∧
      Database.decoder.RoundTrips Database.toJson Database.InWords ∧
      Feature.decoder.RoundTrips Feature.toJson Feature.InWords ∧
      RestoreQuery.decoder.RoundTrips RestoreQuery.toJson RestoreQuery.WellFormed :=
  ⟨Condition.roundTrips, Rule.roundTrips, RuleSet.roundTrips, Group.roundTrips,
    Database.roundTrips, Feature.roundTrips, RestoreQuery.roundTrips⟩

end Backup

end AssetGroups
