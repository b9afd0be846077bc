/-!
Finite sets of ids, kept as ascending lists.
-/

namespace AssetGroups

/-- Puts an id into an ascending list unless it is there. -/
def insertAscending (x : Nat) : List Nat → List Nat
  | [] => [x]
  | y :: ys => if x < y then x :: y :: ys else if x = y then y :: ys else y :: insertAscending x ys

theorem mem_insertAscending {x z : Nat} {l : List Nat} :
    z ∈ insertAscending x l ↔ z = x ∨ z ∈ l := by
  induction l with
  | nil => simp [insertAscending]
  | cons y ys ih =>
    simp only [insertAscending]
    split
    · simp
    · split
      · next h => subst h; simp
      · simp only [List.mem_cons, ih]; grind

theorem pairwise_insertAscending {x : Nat} {l : List Nat} (h : l.Pairwise (· < ·)) :
    (insertAscending x l).Pairwise (· < ·) := by
  induction l with
  | nil => simp [insertAscending]
  | cons y ys ih =>
    rw [List.pairwise_cons] at h
    simp only [insertAscending]
    split
    · next hxy =>
      refine List.pairwise_cons.2 ⟨fun z hz => ?_, List.pairwise_cons.2 h⟩
      rcases List.mem_cons.1 hz with rfl | hz
      · exact hxy
      · exact Nat.lt_trans hxy (h.1 z hz)
    · split
      · exact List.pairwise_cons.2 h
      · next hle hne =>
        refine List.pairwise_cons.2 ⟨fun z hz => ?_, ih h.2⟩
        rcases mem_insertAscending.1 hz with rfl | hz
        · omega
        · exact h.1 z hz

structure IdSet where
  ids : List Nat
  ascending : ids.Pairwise (· < ·)

namespace IdSet

instance : Membership Nat IdSet := ⟨fun s x => x ∈ s.ids⟩

instance (x : Nat) (s : IdSet) : Decidable (x ∈ s) := inferInstanceAs (Decidable (x ∈ s.ids))

def empty : IdSet := ⟨[], .nil⟩

instance : Inhabited IdSet := ⟨empty⟩

def insert (x : Nat) (s : IdSet) : IdSet :=
  ⟨insertAscending x s.ids, pairwise_insertAscending s.ascending⟩

def ofList (l : List Nat) : IdSet := l.foldr insert empty

def filter (p : Nat → Bool) (s : IdSet) : IdSet := ⟨s.ids.filter p, s.ascending.filter p⟩

def inter (s t : IdSet) : IdSet := s.filter (· ∈ t)

def diff (s t : IdSet) : IdSet := s.filter (· ∉ t)

def union (s t : IdSet) : IdSet := s.ids.foldr insert t

/-! ## Members -/

variable {x y : Nat} {s t : IdSet}

theorem mem_ids : x ∈ s.ids ↔ x ∈ s := Iff.rfl

@[simp]
theorem not_mem_empty : x ∉ empty := List.not_mem_nil

@[simp]
theorem mem_insert : x ∈ s.insert y ↔ x = y ∨ x ∈ s := mem_insertAscending

theorem mem_foldr_insert {l : List Nat} : x ∈ l.foldr insert s ↔ x ∈ l ∨ x ∈ s := by
  induction l with
  | nil => simp
  | cons y ys ih => simp only [List.foldr_cons, mem_insert, ih, List.mem_cons, or_assoc]

@[simp]
theorem mem_ofList {l : List Nat} : x ∈ ofList l ↔ x ∈ l := by
  simp [ofList, mem_foldr_insert]

theorem mem_filter {p : Nat → Bool} : x ∈ s.filter p ↔ x ∈ s ∧ p x = true := List.mem_filter

@[simp]
theorem mem_inter : x ∈ s.inter t ↔ x ∈ s ∧ x ∈ t := by simp [inter, mem_filter]

@[simp]
theorem mem_diff : x ∈ s.diff t ↔ x ∈ s ∧ x ∉ t := by simp [diff, mem_filter]

@[simp]
theorem mem_union : x ∈ s.union t ↔ x ∈ s ∨ x ∈ t := mem_foldr_insert

end IdSet

end AssetGroups
