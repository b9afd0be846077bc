import AssetGroups.Json.Decoder

/-!
# Decoders that take back what was written

A decoder inverts a value when it reads from it what the value was made of, as soon as there is room
for the lists and objects in it. Inversion is passed on from the members to the record.
-/

namespace AssetGroups.Json

open AssetGroups.Text

variable {α β : Type}

/-! ## Dictionaries -/

namespace Dict

variable {k : String} {a : α} {d : Dict α}

theorem insert_first (h : ∀ e ∈ d, k < e.1) : insert k a d = (k, a) :: d := by
  cases d with
  | nil => rfl
  | cons e d =>
      have hlt := h e List.mem_cons_self
      have hne : k ≠ e.1 := by
        intro heq
        exact String.lt_irrefl _ (heq ▸ hlt)
      rw [insert, if_neg hne, if_pos hlt]

theorem insert_last (h : ∀ e ∈ d, e.1 < k) : insert k a d = d ++ [(k, a)] := by
  induction d with
  | nil => rfl
  | cons e d ih =>
      obtain ⟨hlt, hrest⟩ := List.forall_mem_cons.mp h
      have hne : k ≠ e.1 := by
        intro heq
        exact String.lt_irrefl _ (heq ▸ hlt)
      rw [insert, if_neg hne, if_neg (String.lt_asymm hlt), ih hrest]
      rfl

/-- Entries in the order of their keys stay as they are. -/
theorem ofEntries_ascending {entries : Dict α} (h : (entries.map Prod.fst).Pairwise (· < ·)) :
    ofEntries entries = entries := by
  have hfold : ∀ {rest front : Dict α}, ((front ++ rest).map Prod.fst).Pairwise (· < ·) →
      rest.foldl (fun d e => insert e.1 e.2 d) front = front ++ rest := by
    intro rest
    induction rest with
    | nil => exact fun {front} _ => (List.append_nil front).symm
    | cons e rest ih =>
        intro front h
        have hfront : ∀ e' ∈ front, e'.1 < e.1 := by
          rw [List.pairwise_map, List.pairwise_append] at h
          exact fun e' he' => h.2.2 e' he' e List.mem_cons_self
        rw [List.foldl_cons, insert_last hfront, ih (by simpa using h)]
        simp
  exact hfold h

def Ascending (d : Dict α) : Prop := (d.map Prod.fst).Pairwise (· < ·)

theorem mem_insert {e : String × α} (h : e ∈ insert k a d) : e = (k, a) ∨ e ∈ d := by
  fun_induction insert k a d with
  | case1 => simpa using h
  | case2 a' rest =>
      rcases List.mem_cons.1 h with rfl | h
      · exact .inl rfl
      · exact .inr (List.mem_cons_of_mem _ h)
  | case3 k' a' rest hne hlt => exact List.mem_cons.1 h
  | case4 k' a' rest hne hlt ih =>
      rcases List.mem_cons.1 h with rfl | h
      · exact .inr List.mem_cons_self
      · exact (ih h).imp id (List.mem_cons_of_mem _)

theorem Ascending.insert (h : Ascending d) : Ascending (Dict.insert k a d) := by
  simp only [Ascending, List.pairwise_map] at h ⊢
  fun_induction Dict.insert k a d with
  | case1 => exact List.pairwise_singleton _ _
  | case2 a' rest =>
      obtain ⟨hrest, htail⟩ := List.pairwise_cons.1 h
      exact List.pairwise_cons.2 ⟨hrest, htail⟩
  | case3 k' a' rest hne hlt =>
      refine List.pairwise_cons.2 ⟨fun e he => ?_, h⟩
      rcases List.mem_cons.1 he with rfl | he
      · exact hlt
      · exact String.lt_trans hlt ((List.pairwise_cons.1 h).1 e he)
  | case4 k' a' rest hne hlt ih =>
      obtain ⟨hrest, htail⟩ := List.pairwise_cons.1 h
      refine List.pairwise_cons.2 ⟨fun e he => ?_, ih htail⟩
      rcases mem_insert he with rfl | he
      · exact Std.lt_of_le_of_ne (String.not_lt.1 hlt) (Ne.symm hne)
      · exact hrest e he

/-- Whatever the entries, a dictionary made of them is in order and holds nothing else. -/
theorem ascending_ofEntries (entries : List (String × α)) :
    Ascending (ofEntries entries) ∧ ∀ e ∈ ofEntries entries, e ∈ entries := by
  have hfold : ∀ (rest : List (String × α)) (d : Dict α), Ascending d →
      Ascending (rest.foldl (fun d e => Dict.insert e.1 e.2 d) d) ∧
        ∀ e ∈ rest.foldl (fun d e => Dict.insert e.1 e.2 d) d, e ∈ d ∨ e ∈ rest := by
    intro rest
    induction rest with
    | nil => exact fun d hd => ⟨hd, fun e he => .inl he⟩
    | cons first rest ih =>
        intro d hd
        obtain ⟨hasc, hmem⟩ := ih _ (hd.insert (k := first.1) (a := first.2))
        refine ⟨hasc, fun e he => ?_⟩
        rcases hmem e he with he | he
        · rcases mem_insert he with rfl | he
          · exact .inr List.mem_cons_self
          · exact .inl he
        · exact .inr (List.mem_cons_of_mem _ he)
  obtain ⟨hasc, hmem⟩ := hfold entries [] List.Pairwise.nil
  exact ⟨hasc, fun e he => (hmem e he).resolve_left List.not_mem_nil⟩

@[simp]
theorem find?_nil : find? k ([] : Dict α) = none := rfl

theorem find?_cons (k' : String) (a : α) (d : Dict α) :
    find? k ((k', a) :: d) = if k = k' then some a else find? k d := by
  by_cases h : k = k'
  · simp [find?, h]
  · simp [find?, List.lookup_cons, beq_false_of_ne h, h]

theorem find?_insert (k' : String) (a : α) (d : Dict α) :
    find? k (insert k' a d) = if k = k' then some a else find? k d := by
  fun_induction insert k' a d with
  | case1 => exact find?_cons k' a []
  | case2 b rest => grind [find?_cons]
  | case3 k'' b rest hne hlt => exact find?_cons k' a ((k'', b) :: rest)
  | case4 k'' b rest hne hlt ih => grind [find?_cons]

/-- Something is found under the key of an entry, and has what all entries of that key have. -/
theorem exists_find?_ofEntries {entries : List (String × α)} {p : α → Prop}
    (hall : ∀ e ∈ entries, e.1 = k → p e.2) (hkey : ∃ e ∈ entries, e.1 = k) :
    ∃ a, find? k (ofEntries entries) = some a ∧ p a := by
  have hfold : ∀ {rest : List (String × α)} {d : Dict α}, (∀ e ∈ rest, e.1 = k → p e.2) →
      ((∃ a, find? k d = some a ∧ p a) ∨ ∃ e ∈ rest, e.1 = k) →
      ∃ a, find? k (rest.foldl (fun d e => insert e.1 e.2 d) d) = some a ∧ p a := by
    intro rest
    induction rest with
    | nil => exact fun _ h => by simpa using h
    | cons e rest ih =>
        intro d hall h
        obtain ⟨hfirst, hrest⟩ := List.forall_mem_cons.1 hall
        refine ih hrest ?_
        rw [find?_insert]
        by_cases hk : k = e.1
        · exact .inl ⟨e.2, if_pos hk, hfirst hk.symm⟩
        · rw [if_neg hk]
          exact h.imp_right fun hlater => by simpa [Ne.symm hk] using hlater
  exact hfold hall (.inr hkey)

/-- What all entries of a key agree on is found under the key. -/
theorem find?_ofEntries {entries : List (String × α)} (hsame : ∀ e ∈ entries, e.1 = k → e.2 = a)
    (hkey : ∃ e ∈ entries, e.1 = k) : find? k (ofEntries entries) = some a := by
  obtain ⟨_, hfind, rfl⟩ := exists_find?_ofEntries (p := (· = a)) hsame hkey
  exact hfind

end Dict

/-! ## Inversion -/

/-- The decoder reads `a` from the value when there is room for the value, and nothing otherwise. -/
def Decoder.Inverts (d : Decoder α) (v : Value) (a : α) : Prop :=
  ∀ room, d room (.ofValue v) = if v.depth ≤ room then .ok a else .error .malformed

namespace Decoder

/-! ## Plain values -/

theorem text_inverts (s : String) : Inverts text (.string s) s := by
  intro room
  simp [Source.ofValue, text, Value.depth]

theorem word_inverts {n : Nat} (h : n < wordLimit) : Inverts word (.nat n) n := by
  intro room
  simp [Value.nat, Source.ofValue, word, Numeral.word?, Numeral.ofNat, ofDigits_digitsOf, h,
    Value.depth]

theorem named_inverts {of? : String → Option α} {s : String} {a : α} (h : of? s = some a) :
    Inverts (named of?) (.string s) a := by
  intro room
  simp [Source.ofValue, named, h, Value.depth]

theorem nullable_inverts {d : Decoder α} {v : Value} {a : α} (h : d.Inverts v a)
    (hv : Source.ofValue v ≠ .null) : Inverts (nullable d) v (some a) := by
  intro room
  have hnullable : nullable d room (.ofValue v) = (d room (.ofValue v)).map some := by
    unfold nullable
    split
    · contradiction
    · rfl
  rw [hnullable, h room]
  split <;> rfl

theorem Inverts.map {d : Decoder α} {v : Value} {a : α} (h : d.Inverts v a) (f : α → β) :
    Inverts (fun room s => (d room s).map f) v (f a) := by
  intro room
  simp only [h room]
  split <;> rfl

/-! ## Lists and dictionaries -/

theorem items_inverts {d : Decoder α} {toJson : α → Value} {as : List α}
    (h : ∀ a ∈ as, d.Inverts (toJson a) a) (room : Nat) :
    items d room true (Source.ofValues (as.map toJson)) =
      if Value.depthOfItems (as.map toJson) ≤ room then .ok as else .error .malformed := by
  induction as with
  | nil => rfl
  | cons a as ih =>
      have hrest := ih fun b hb => h b (List.mem_cons_of_mem a hb)
      have hfirst := h a (by simp) room
      rw [List.map_cons, Source.ofValues, items, hfirst, hrest, Value.depthOfItems]
      simp only [Nat.max_le]
      by_cases ha : (toJson a).depth ≤ room <;>
        by_cases has : Value.depthOfItems (as.map toJson) ≤ room <;>
        simp [ha, has, Except.map]

theorem listOf_inverts {d : Decoder α} {toJson : α → Value} {as : List α}
    (h : ∀ a ∈ as, d.Inverts (toJson a) a) : Inverts (listOf d) (.list (as.map toJson)) as := by
  intro room
  rw [Source.ofValue, Value.depth]
  cases room with
  | zero => rfl
  | succ room =>
      rw [listOf, items_inverts h]
      simp

theorem entries_inverts {d : Decoder α} {toJson : α → Value} {es : List (String × α)}
    (h : ∀ e ∈ es, d.Inverts (toJson e.2) e.2) (room : Nat) :
    entries d room true (Source.ofEntries (es.map fun (k, a) => (k, toJson a))) =
      if Value.depthOfMembers (es.map fun (k, a) => (k, toJson a)) ≤ room then .ok es
      else .error .malformed := by
  induction es with
  | nil => rfl
  | cons e es ih =>
      have hrest := ih fun e' he' => h e' (List.mem_cons_of_mem e he')
      have hfirst := h e (by simp) room
      rw [List.map_cons, Source.ofEntries, entries, hfirst, hrest, Value.depthOfMembers]
      simp only [Nat.max_le]
      by_cases he : (toJson e.2).depth ≤ room <;>
        by_cases hes : Value.depthOfMembers (es.map fun (k, a) => (k, toJson a)) ≤ room <;>
        simp [he, hes, Except.map]

theorem dictOf_inverts {d : Decoder α} {toJson : α → Value} {es : Dict α} (hasc : es.Ascending)
    (h : ∀ e ∈ es, d.Inverts (toJson e.2) e.2) :
    Inverts (dictOf d) (.object (es.map fun (k, a) => (k, toJson a))) es := by
  intro room
  rw [Source.ofValue, Value.depth]
  cases room with
  | zero => rfl
  | succ room =>
      rw [dictOf, entries_inverts h]
      simp only [Nat.add_le_add_iff_right]
      split
      · rw [Except.map, Dict.ofEntries_ascending hasc]
      · rfl

/-! ## Records -/

end Decoder

/-- A member of an object that was written for a record, and what it stands for in the record. -/
structure Written (α : Type) where
  key : String
  value : Value
  set : α → α

/-- One of the members of a record takes back what was written. -/
def Written.Fits (fs : List (Member α)) (w : Written α) : Prop :=
  ∃ m, fs.find? (·.key == w.key) = some m ∧ ∀ room a, m.put room (.ofValue w.value) a =
    if w.value.depth ≤ room then .ok (w.set a) else .error .malformed

theorem Written.Fits.of_inverts {fs : List (Member α)} {w : Written α} {d : Decoder β}
    {required : Bool} {set : β → α → α} {b : β}
    (hfind : fs.find? (·.key == w.key) =
      some ⟨w.key, required, fun room s a => (d room s).map (set · a)⟩)
    (h : d.Inverts w.value b) (hset : w.set = set b) : w.Fits fs := by
  refine ⟨_, hfind, fun room a => ?_⟩
  show Except.map _ _ = _
  rw [h room, hset]
  split <;> rfl

namespace Decoder

theorem fillByKey_written {fs : List (Member α)} {room : Nat} {ws : List (Written α)}
    {seen : List String} {a : α} (hfits : ∀ w ∈ ws, w.Fits fs)
    (hnodup : (ws.map (·.key)).Nodup) (hseen : ∀ w ∈ ws, w.key ∉ seen)
    (hrequired : ∀ f ∈ fs, f.required = true → f.key ∈ seen ∨ f.key ∈ ws.map (·.key)) :
    fillByKey fs room true seen (Source.ofEntries (ws.map fun w => (w.key, w.value))) a =
      if Value.depthOfMembers (ws.map fun w => (w.key, w.value)) ≤ room then
        .ok (ws.foldl (fun a w => w.set a) a)
      else .error .malformed := by
  induction ws generalizing seen a with
  | nil =>
      have hall : ∀ f ∈ fs, f.required = true → f.key ∈ seen := by simpa using hrequired
      simpa [Source.ofEntries, fillByKey, Value.depthOfMembers] using hall
  | cons w ws ih =>
      obtain ⟨m, hfind, hput⟩ := hfits w (by simp)
      rw [List.map_cons, List.nodup_cons] at hnodup
      have hseen' : ∀ w' ∈ ws, w'.key ∉ w.key :: seen := by
        intro w' hw'
        rw [List.mem_cons, not_or]
        refine ⟨fun heq => hnodup.1 ?_, hseen w' (List.mem_cons_of_mem w hw')⟩
        exact heq ▸ List.mem_map_of_mem hw'
      have hrequired' : ∀ f ∈ fs, f.required = true →
          f.key ∈ w.key :: seen ∨ f.key ∈ ws.map (·.key) := by
        intro f hf hf'
        have := hrequired f hf hf'
        rwa [List.map_cons, List.mem_cons, or_left_comm, ← or_assoc, ← List.mem_cons] at this
      have hrec := fun a => ih (a := a) (fun w' hw' => hfits w' (List.mem_cons_of_mem w hw'))
        hnodup.2 hseen' hrequired'
      have hnot : seen.contains w.key = false := by simpa using hseen w (by simp)
      rw [List.map_cons, Source.ofEntries, fillByKey, hfind, Value.depthOfMembers]
      simp only [hnot, hput, Bool.false_eq_true, if_false, Nat.max_le, List.foldl_cons]
      by_cases hw : w.value.depth ≤ room
      · simp [hw, hrec]
      · simp [hw]

/-- A record takes back an object that was written for it, whatever the order of the members. -/
theorem record_inverts (blank : α) {fs : List (Member α)} (ws : List (Written α))
    (hfits : ∀ w ∈ ws, w.Fits fs) (hnodup : (ws.map (·.key)).Nodup)
    (hrequired : ∀ f ∈ fs, f.required = true → f.key ∈ ws.map (·.key)) :
    Inverts (record blank fs) (.object (ws.map fun w => (w.key, w.value)))
      (ws.foldl (fun a w => w.set a) blank) := by
  intro room
  rw [Source.ofValue, Value.depth]
  cases room with
  | zero => rfl
  | succ room =>
      rw [record, fillByKey_written hfits hnodup (by simp) fun f hf hf' => Or.inr (hrequired f hf hf')]
      simp

end Decoder

end AssetGroups.Json
