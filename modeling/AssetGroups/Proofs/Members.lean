/-!
# Lists in which one member goes on

Callers, writers and scripts that are under way stand in lists. One at a time goes on and the others stay
as they are, and a new one comes behind them.
-/

namespace AssetGroups

variable {α : Type} {as : List α} {j k : Nat} {a b : α}

theorem getElem?_set_cases (h : (as.set k a)[j]? = some b) :
    j = k ∧ b = a ∨ j ≠ k ∧ as[j]? = some b := by
  rw [List.getElem?_set] at h
  split at h
  · rename_i hkj
    split at h
    · exact Or.inl ⟨hkj.symm, (Option.some.inj h).symm⟩
    · cases h
  · rename_i hkj
    exact Or.inr ⟨fun hjk => hkj hjk.symm, h⟩

theorem getElem?_set_at (h : as[k]? = some b) (a : α) : (as.set k a)[k]? = some a :=
  List.getElem?_set_self (List.getElem?_eq_some_iff.mp h).1

/-- What holds of a list and of a member holds when that one takes the place of another. -/
theorem forall_mem_set {p : α → Prop} (has : ∀ b ∈ as, p b) (ha : p a) : ∀ b ∈ as.set k a, p b := by
  intro b hb
  rcases List.mem_or_eq_of_mem_set hb with hb | rfl
  · exact has b hb
  · exact ha

theorem getElem?_concat_cases (h : (as ++ [a])[j]? = some b) :
    as[j]? = some b ∨ j = as.length ∧ b = a := by
  rw [List.getElem?_append] at h
  split at h
  · exact Or.inl h
  · rename_i hlt
    obtain ⟨hone, rfl⟩ := List.getElem?_eq_some_iff.mp h
    rw [List.length_singleton] at hone
    exact Or.inr ⟨by omega, by simp⟩

end AssetGroups
