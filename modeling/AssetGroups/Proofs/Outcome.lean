import AssetGroups.Error

/-!
# Work that answers or fails

When a chain of steps that may fail answers, with what, and as which of them it fails.
-/

namespace AssetGroups

variable {α β : Type} {x : Except GroupError α} {b : β}

@[simp]
theorem throw_eq_error (e : GroupError) : (throw e : Except GroupError α) = .error e := rfl

theorem bind_eq_ok {f : α → Except GroupError β} :
    x >>= f = .ok b ↔ ∃ a, x = .ok a ∧ f a = .ok b := by
  cases x <;> simp [bind, Except.bind]

theorem map_eq_ok {f : α → β} : f <$> x = .ok b ↔ ∃ a, x = .ok a ∧ b = f a := by
  cases x <;> simp [Functor.map, Except.map, eq_comm]

theorem bind_eq_error {f : α → Except GroupError β} {e : GroupError} :
    x >>= f = .error e ↔ x = .error e ∨ ∃ a, x = .ok a ∧ f a = .error e := by
  cases x <;> simp [bind, Except.bind]

theorem map_eq_error {f : α → β} {e : GroupError} : f <$> x = .error e ↔ x = .error e := by
  cases x <;> simp [Functor.map, Except.map]

theorem pure_eq_ok {a : β} : (pure a : Except GroupError β) = .ok b ↔ b = a := by
  simp [pure, Except.pure, eq_comm]

end AssetGroups
