import AssetGroups.Proofs.Guarantee
import AssetGroups.Proofs.Resolver.References

/-!
# What resolving a group guarantees

Rules are resolved only after every group that they refer to has been; they fail for what is wrong with
them, or as one of their references does.
-/

namespace AssetGroups.Resolver

variable {P : Site → Prop} {R : Site → Site → Prop} {E : GroupError → Prop} {K : String → Prop}

/-! ## Rules -/

theorem check_guarantees {α : Type} {Q : α → Prop} {p : Prop} [Decidable p] {e : GroupError}
    {w : Work α} (he : E e) (hw : w.Guarantees P R Q E) :
    Work.Guarantees P R Q E (if p then do throw e; w else w) := by
  split
  · exact .bind (Q := fun _ => False) (.throw he) fun _ => False.elim
  · exact hw

/-- What may be wrong with a rule itself. -/
structure RuleErrors (E : GroupError → Prop) : Prop where
  violation : ∀ v, E (.ofViolation v)
  field : E (.unsupportedField Field.unknown.text)

section

variable {inv : Inventory} {refer : String → Work IdSet}

theorem condition_guarantees (hE : RuleErrors E) {c : Condition} (hrefer : c.field = .group →
      (refer (c.value.getD "")).Guarantees P R (fun _ => K (c.value.getD "")) E) :
    (condition inv refer c).Guarantees P R
      (fun _ => ∀ value ∈ (Rule.condition c).references, K value) E := by
  unfold condition
  refine check_guarantees (hE.violation _) (check_guarantees (hE.violation _) ?_)
  by_cases hgroup : c.field = .group
  · simp only [hgroup, if_true]
    refine check_guarantees (hE.violation _) (.bind (hrefer hgroup) fun found hfound => .pure ?_)
    simpa [Rule.references, hgroup] using hfound
  · simp only [hgroup, if_false]
    cases hpositive : positive? inv c.field c.operator (c.value.getD "") with
    | some found => exact .pure (by simp [Rule.references, hgroup])
    | none =>
        rw [positive?_eq_none inv _ _ hgroup] at hpositive
        exact .throw (hpositive ▸ hE.field)

mutual

theorem compile_guarantees (hE : RuleErrors E) : (r : Rule) →
    (∀ value ∈ r.references, (refer value).Guarantees P R (fun _ => K value) E) →
    (compile inv refer r).Guarantees P R (fun _ => ∀ value ∈ r.references, K value) E
  | .condition c, hrefer => by
      rw [compile]
      refine condition_guarantees hE fun hgroup => hrefer _ ?_
      rw [Rule.references, if_pos hgroup]
      exact List.mem_singleton_self _
  | .nested connective rules, hrefer => by
      rw [compile]
      cases connective.check rules with
      | error v => exact .throw (hE.violation v)
      | ok => exact .bind (compileAll_guarantees hE rules hrefer) fun _ hall => .pure hall

theorem compileAll_guarantees (hE : RuleErrors E) : (rs : List Rule) →
    (∀ value ∈ Rule.allReferences rs, (refer value).Guarantees P R (fun _ => K value) E) →
    (compileAll inv refer rs).Guarantees P R (fun _ => ∀ value ∈ Rule.allReferences rs, K value) E
  | [], _ => by
      rw [compileAll]
      exact .pure (by simp [Rule.allReferences])
  | r :: rs, hrefer => by
      simp only [Rule.allReferences, List.mem_append, or_imp, forall_and] at hrefer ⊢
      rw [compileAll]
      exact .bind (compile_guarantees hE r hrefer.1) fun _ hfirst =>
        .bind (compileAll_guarantees hE rs hrefer.2) fun _ hrest => .pure ⟨hfirst, hrest⟩

end

end

/-! ## Groups -/

/-- What is relied on when groups are resolved: what is looked up is stored, and the errors are those of
looking up and of resolving the rules given or stored. -/
structure Relies (P : Site → Prop) (R : Site → Site → Prop) (E : GroupError → Prop)
    (stored : Group → Prop) (lookup : Nat → Work Group) (linked : String → Prop) : Prop
    extends RuleErrors E where
  cycle : ∀ trail, E (.cycle trail)
  tooDeep : ∀ limit, E (.tooDeep limit)
  unlinked : ∀ value, linked value → referredId? value = none → E (.noLinkedGroup value)
  lookup : ∀ id, (lookup id).Guarantees P R stored E
  links : ∀ g, stored g → ∀ value ∈ g.rules.references, linked value

namespace Relies

variable {stored : Group → Prop} {lookup : Nat → Work Group} {linked : String → Prop} {r : Resolver}
    (h : Relies P R E stored lookup linked)
include h

/-- The induction is on the number of references that may still follow one another. -/
theorem follow (allowance : Nat) (trail : List Nat) {value : String} (hvalue : linked value) :
    (Resolver.follow r lookup allowance trail value).Guarantees P R (fun _ => ∃ g, stored g) E := by
  induction allowance generalizing trail value with
  | zero =>
      unfold Resolver.follow
      cases hid : referredId? value with
      | none => exact .throw (h.unlinked value hvalue hid)
      | some id =>
          simp only
          split
          · exact .throw (h.cycle _)
          · exact .throw (h.tooDeep _)
  | succ n ih =>
      unfold Resolver.follow
      cases hid : referredId? value with
      | none => exact .throw (h.unlinked value hvalue hid)
      | some id =>
          simp only
          split
          · exact .throw (h.cycle _)
          · refine .bind (h.lookup id) fun g hg => ?_
            exact (compile_guarantees (K := fun _ => True) h.toRuleErrors _ fun value hvalue =>
              (ih _ (h.links g hg value hvalue)).mono (fun _ _ => trivial) fun _ he => he).mono
                (fun _ _ => ⟨g, hg⟩) fun _ he => he

theorem resolveFrom (trail : List Nat) {rules : RuleSet}
    (hrules : ∀ value ∈ rules.references, linked value) :
    (r.resolveFrom lookup trail rules).Guarantees P R
      (fun _ => ∀ value ∈ rules.references, ∃ g, stored g) E :=
  .bind (compile_guarantees h.toRuleErrors _ fun value hvalue =>
    h.follow _ trail (hrules value hvalue)) fun _ hall => .pure hall

theorem resolveId (id : Nat) :
    (r.resolveId lookup id).Guarantees P R (fun _ => ∃ g, stored g) E :=
  .bind (h.lookup id) fun g hg =>
    (h.resolveFrom _ (h.links g hg)).mono (fun _ _ => ⟨g, hg⟩) fun _ he => he

theorem resolve {g : Group} (hrules : ∀ value ∈ g.rules.references, linked value) :
    (r.resolve lookup g).Guarantees P R
      (fun _ => ∀ value ∈ g.rules.references, ∃ g, stored g) E := by
  unfold Resolver.resolve
  cases g.check with
  | error v => exact .throw (h.violation v)
  | ok => exact h.resolveFrom _ hrules

end Relies

end AssetGroups.Resolver
