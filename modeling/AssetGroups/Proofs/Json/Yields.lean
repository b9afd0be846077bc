import AssetGroups.Proofs.Json.Inversion

/-!
# What a decoder can answer

A property that whatever is read from a text has, because the parts that it is made of have theirs.
-/

namespace AssetGroups.Json

open AssetGroups.Text

variable {α β : Type} {P : α → Prop}

/-- Whatever the decoder reads has the property. -/
def Decoder.Yields (d : Decoder α) (P : α → Prop) : Prop := ∀ room s a, d room s = .ok a → P a

/-- The record keeps the property when the member is put into it. -/
def Member.Preserves (f : Member α) (P : α → Prop) : Prop :=
  ∀ room s a b, f.put room s a = .ok b → P a → P b

namespace Decoder

theorem word_yields : Yields word (· < wordLimit) := by
  intro room s n h
  unfold word at h
  split at h
  · split at h
    · rename_i k hword
      obtain rfl := Except.ok.inj h
      unfold Numeral.word? at hword
      split at hword
      · rename_i hplain
        exact Option.some.inj hword ▸ hplain.2.2.2
      · cases hword
    · cases h
  · cases h

theorem nullable_yields {d : Decoder α} (h : d.Yields P) :
    Yields (nullable d) fun o => ∀ a ∈ o, P a := by
  intro room s o ho a ha
  unfold nullable at ho
  split at ho
  · obtain rfl := Except.ok.inj ho
    cases ha
  · cases hd : d room s with
    | error e =>
        rw [hd] at ho
        cases ho
    | ok b =>
        rw [hd] at ho
        obtain rfl := Except.ok.inj ho
        exact Option.some.inj ha ▸ h room s b hd

theorem items_yields {d : Decoder α} (h : d.Yields P) {room : Nat} {closed : Bool} {ss : List Source}
    {as : List α} (has : items d room closed ss = .ok as) : ∀ a ∈ as, P a := by
  induction ss generalizing as with
  | nil =>
      rw [items] at has
      split at has
      · obtain rfl := Except.ok.inj has
        simp
      · cases has
  | cons s ss ih =>
      rw [items] at has
      split at has
      · cases has
      · rename_i a ha
        cases hrest : items d room closed ss with
        | error e =>
            rw [hrest] at has
            cases has
        | ok rest =>
            rw [hrest] at has
            obtain rfl := Except.ok.inj has
            exact List.forall_mem_cons.mpr ⟨h room s a ha, ih hrest⟩

theorem listOf_yields {d : Decoder α} (h : d.Yields P) :
    Yields (listOf d) fun as => ∀ a ∈ as, P a := by
  intro room s as has
  unfold listOf at has
  split at has
  · cases has
  · exact items_yields h has
  · cases has

theorem entries_yields {d : Decoder α} (h : d.Yields P) {room : Nat} {closed : Bool}
    {ms : List (Option String × Source)} {es : List (String × α)}
    (hes : entries d room closed ms = .ok es) : ∀ e ∈ es, P e.2 := by
  induction ms generalizing es with
  | nil =>
      rw [entries] at hes
      split at hes
      · obtain rfl := Except.ok.inj hes
        simp
      · cases hes
  | cons m ms ih =>
      obtain ⟨_ | k, s⟩ := m
      · cases hes
      · rw [entries] at hes
        split at hes
        · cases hes
        · rename_i a ha
          cases hrest : entries d room closed ms with
          | error e =>
              rw [hrest] at hes
              cases hes
          | ok rest =>
              rw [hrest] at hes
              obtain rfl := Except.ok.inj hes
              exact List.forall_mem_cons.mpr ⟨h room s a ha, ih hrest⟩

theorem dictOf_yields {d : Decoder α} (h : d.Yields P) :
    Yields (dictOf d) fun es => Dict.Ascending es ∧ ∀ e ∈ es, P e.2 := by
  intro room s es hes
  unfold dictOf at hes
  split at hes
  · cases hes
  · rename_i room ms closed
    cases hread : entries d room closed ms with
    | error e =>
        rw [hread] at hes
        cases hes
    | ok read =>
        rw [hread] at hes
        obtain rfl := Except.ok.inj hes
        obtain ⟨hasc, hmem⟩ := Dict.ascending_ofEntries read
        exact ⟨hasc, fun e he => entries_yields h hread e (hmem e he)⟩
  · cases hes

/-! ## Records -/

theorem fillInOrder_yields {room : Nat} {closed : Bool} {fs : List (Member α)} {ss : List Source}
    {a b : α} (hfs : ∀ f ∈ fs, f.Preserves P) (ha : P a)
    (hb : fillInOrder room closed fs ss a = .ok b) : P b := by
  induction ss generalizing fs a with
  | nil =>
      cases fs <;> simp only [fillInOrder] at hb <;> grind
  | cons s ss ih =>
      cases fs with
      | nil => cases hb
      | cons f fs =>
          rw [fillInOrder] at hb
          split at hb
          · cases hb
          · rename_i c hc
            obtain ⟨hf, hfs⟩ := List.forall_mem_cons.mp hfs
            exact ih hfs (hf room s a c hc ha) hb

theorem fillByKey_yields {fs : List (Member α)} (hfs : ∀ f ∈ fs, f.Preserves P) {room : Nat}
    {closed : Bool} {seen : List String} {ms : List (Option String × Source)} {a b : α} (ha : P a)
    (hb : fillByKey fs room closed seen ms a = .ok b) : P b := by
  induction ms generalizing seen a with
  | nil => simp only [fillByKey] at hb; grind
  | cons m ms ih =>
      obtain ⟨_ | k, s⟩ := m
      · cases hb
      · rw [fillByKey] at hb
        split at hb
        · split at hb
          · exact ih ha hb
          · cases hb
        · rename_i f hf
          split at hb
          · cases hb
          · split at hb
            · cases hb
            · rename_i c hc
              exact ih (hfs f (List.mem_of_find?_eq_some hf) room s a c hc ha) hb

theorem record_yields {blank : α} {fs : List (Member α)} (hblank : P blank)
    (hfs : ∀ f ∈ fs, f.Preserves P) : Yields (record blank fs) P := by
  intro room s a ha
  unfold record at ha
  split at ha
  · cases ha
  · cases ha
  · exact fillInOrder_yields hfs hblank ha
  · exact fillByKey_yields hfs hblank ha
  · cases ha

end Decoder

namespace Member

theorem preserves_of_yields {key : String} {required : Bool} {d : Decoder β} {set : β → α → α}
    {Q : β → Prop} (hd : d.Yields Q) (hset : ∀ b a, Q b → P a → P (set b a)) :
    Preserves ⟨key, required, fun room s a => (d room s).map (set · a)⟩ P := by
  intro room s a b hb ha
  cases hread : d room s with
  | error e =>
      simp only [hread] at hb
      cases hb
  | ok c =>
      simp only [hread] at hb
      obtain rfl := Except.ok.inj hb
      exact hset c a (hd room s c hread) ha

theorem optional_preserves {key : String} {d : Decoder β} {set : β → α → α} {Q : β → Prop}
    (hd : d.Yields Q) (hset : ∀ b a, Q b → P a → P (set b a)) :
    (optional key d set).Preserves P :=
  preserves_of_yields hd hset

theorem needed_preserves {key : String} {d : Decoder β} {set : β → α → α} {Q : β → Prop}
    (hd : d.Yields Q) (hset : ∀ b a, Q b → P a → P (set b a)) :
    (needed key d set).Preserves P :=
  preserves_of_yields hd hset

end Member

theorem decodeScanned_yields {d : Decoder α} (hd : d.Yields P) {t : Scanned} {a : α}
    (h : decodeScanned d t = .ok a) : P a := by
  unfold decodeScanned at h
  dsimp only at h
  split at h
  · rename_i b hb
    split at h
    · obtain rfl := Except.ok.inj h
      exact hd textRoom _ b hb
    · cases h
  · cases h

theorem decodeText_yields {d : Decoder α} (hd : d.Yields P) {s : String} {a : α}
    (h : decodeText d s = .ok a) : P a :=
  decodeScanned_yields hd h

end AssetGroups.Json
