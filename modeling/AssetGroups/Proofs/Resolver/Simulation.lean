import AssetGroups.Resolver

/-!
# Resolution in related monads

Rules are resolved in a monad of the caller's choice. If two monads are related in a way that their
operations respect, and the groups that rules refer to are answered in a related way, so are the rules.
-/

namespace AssetGroups

variable {m n : Type → Type} [Monad m] [MonadExceptOf GroupError m] [Monad n]
    [MonadExceptOf GroupError n]

/-- The operations that resolution is made of respect the relation. -/
structure Simulates (R : (α : Type) → m α → n α → Prop) : Prop where
  pure {α : Type} (a : α) : R α (Pure.pure a) (Pure.pure a)
  throw {α : Type} (e : GroupError) : R α (throw e) (throw e)
  bind {α β : Type} {x : m α} {y : n α} {f : α → m β} {g : α → n β} :
    R α x y → (∀ a, R β (f a) (g a)) → R β (x >>= f) (y >>= g)

theorem check_simulates {R : (α : Type) → m α → n α → Prop} (h : Simulates R) {α : Type} {p : Prop}
    [Decidable p] {e : GroupError} {x : m α} {y : n α} (hrest : R α x y) :
    R α (if p then do throw e; x else x) (if p then do throw e; y else y) := by
  split
  · exact h.bind (h.throw e) fun _ => hrest
  · exact hrest

namespace Resolver

variable {R : (α : Type) → m α → n α → Prop}

/-! ## Rules -/

section

variable {inv : Inventory} {refer : String → m IdSet} {refer' : String → n IdSet}

theorem condition_simulates (h : Simulates R) (hrefer : ∀ value, R _ (refer value) (refer' value))
    (c : Condition) : R _ (condition inv refer c) (condition inv refer' c) := by
  unfold condition
  refine check_simulates h (check_simulates h ?_)
  by_cases hfield : c.field = .group
  · simp only [hfield, if_true]
    exact check_simulates h (h.bind (hrefer _) fun found => h.pure _)
  · simp only [hfield, if_false]
    cases positive? inv c.field c.operator (c.value.getD "") with
    | some found => exact h.pure _
    | none => exact h.throw _

mutual

theorem compile_simulates (h : Simulates R) (hrefer : ∀ value, R _ (refer value) (refer' value)) :
    (r : Rule) → R _ (compile inv refer r) (compile inv refer' r)
  | .condition c => by
      simp only [compile]
      exact condition_simulates h hrefer c
  | .nested connective rules => by
      simp only [compile]
      cases connective.check rules with
      | error v => exact h.throw _
      | ok => exact h.bind (compileAll_simulates h hrefer rules) fun ss => h.pure _

theorem compileAll_simulates (h : Simulates R)
    (hrefer : ∀ value, R _ (refer value) (refer' value)) :
    (rs : List Rule) → R _ (compileAll inv refer rs) (compileAll inv refer' rs)
  | [] => by
      simp only [compileAll]
      exact h.pure _
  | r :: rs => by
      simp only [compileAll]
      exact h.bind (compile_simulates h hrefer r) fun s =>
        h.bind (compileAll_simulates h hrefer rs) fun ss => h.pure _

end

end

/-! ## Groups -/

variable {r : Resolver} {lookup : Nat → m Group} {lookup' : Nat → n Group}

/-- The induction is on the number of references that may still follow one another. -/
theorem follow_simulates (h : Simulates R) (hlookup : ∀ id, R _ (lookup id) (lookup' id))
    (allowance : Nat) (trail : List Nat) (value : String) :
    R _ (follow r lookup allowance trail value) (follow r lookup' allowance trail value) := by
  induction allowance generalizing trail value with
  | zero =>
      unfold follow
      cases referredId? value with
      | none => exact h.throw _
      | some id =>
          simp only
          split
          · exact h.throw _
          · exact h.throw _
  | succ n ih =>
      unfold follow
      cases referredId? value with
      | none => exact h.throw _
      | some id =>
          simp only
          split
          · exact h.throw _
          · exact h.bind (hlookup id) fun g => compile_simulates h (ih (trail ++ [id])) _

theorem resolveFrom_simulates (h : Simulates R) (hlookup : ∀ id, R _ (lookup id) (lookup' id))
    (trail : List Nat) (rules : RuleSet) :
    R _ (r.resolveFrom lookup trail rules) (r.resolveFrom lookup' trail rules) :=
  h.bind (compile_simulates h (follow_simulates h hlookup _ trail) rules.toRule) fun _ => h.pure _

theorem resolveId_simulates (h : Simulates R) (hlookup : ∀ id, R _ (lookup id) (lookup' id))
    (id : Nat) : R _ (r.resolveId lookup id) (r.resolveId lookup' id) :=
  h.bind (hlookup id) fun g => resolveFrom_simulates h hlookup g.id.toList g.rules

theorem resolve_simulates (h : Simulates R) (hlookup : ∀ id, R _ (lookup id) (lookup' id))
    (g : Group) : R _ (r.resolve lookup g) (r.resolve lookup' g) := by
  unfold resolve
  cases g.check with
  | error v => exact h.throw _
  | ok => exact resolveFrom_simulates h hlookup g.id.toList g.rules

end Resolver

end AssetGroups
