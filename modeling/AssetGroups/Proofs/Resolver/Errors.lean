import AssetGroups.Proofs.Resolver.Preview

/-!
# Why groups are not resolved

Rules that have passed their check fail in their references only: one of them leads back to a group that
is being resolved, follows too many others, or leads to no stored group. Every stored group has passed its
check, so resolution finds nothing else wrong with it, and with a group that is given to it only what the
check does.
-/

namespace AssetGroups

theorem Group.rules_check {g : Group} (h : g.check = .ok ()) : g.rules.check = .ok () :=
  (check_eq_ok.mp h).2

theorem GroupError.ofViolation_ne_cyclic (v : Violation) (path : String) :
    ofViolation v ≠ .cyclicReference path := by
  simp [ofViolation]

theorem Rule.checkAll_cons_ok {r : Rule} {rs : List Rule} :
    Rule.checkAll (r :: rs) = .ok () ↔ r.check = .ok () ∧ Rule.checkAll rs = .ok () := by
  rw [checkAll]
  cases r.check <;> simp

/-! ## References that lead nowhere -/

/-- The rules refer to a group by `value`, be it in the rules of a group that they refer to. -/
inductive RuleSet.Involves (stored? : Nat → Option Group) (value : String) : RuleSet → Prop where
  | own {rules : RuleSet} (hvalue : value ∈ rules.references) : Involves stored? value rules
  | through {rules : RuleSet} {link : String} {id : Nat} {g : Group} (hlink : link ∈ rules.references)
      (hid : Resolver.referredId? link = some id) (hg : stored? id = some g)
      (h : Involves stored? value g.rules) : Involves stored? value rules

/-- No stored group is meant by `value`, which is what the error says. -/
inductive Dangling (stored? : Nat → Option Group) (value : String) : GroupError → Prop where
  | noId (h : Resolver.referredId? value = none) : Dangling stored? value (.noLinkedGroup value)
  | noGroup {id : Nat} (hid : Resolver.referredId? value = some id) (hg : stored? id = none) :
      Dangling stored? value (.noGroupWithId id)

/-- The error is that of a reference, in the rules or in those that they lead to, to no stored group. -/
def RuleSet.Dangles (stored? : Nat → Option Group) (rules : RuleSet) (e : GroupError) : Prop :=
  ∃ value, rules.Involves stored? value ∧ Dangling stored? value e

/-- What may keep rules that have passed their check from being resolved. -/
def RuleSet.Fails (stored? : Nat → Option Group) (rules : RuleSet) (e : GroupError) : Prop :=
  (∃ path, e = .cyclicReference path) ∨ rules.Dangles stored? e

/-- None of this is said to be wrong with the rules themselves. -/
theorem RuleSet.Fails.cases {stored? : Nat → Option Group} {rules : RuleSet} {e : GroupError}
    (h : rules.Fails stored? e) :
    (∃ path, e = .cyclicReference path) ∨ ∃ text, e = .notFound text := by
  rcases h with hcycle | ⟨_, -, hdangling⟩
  · exact Or.inl hcycle
  · cases hdangling with
    | noId => exact Or.inr ⟨_, rfl⟩
    | noGroup => exact Or.inr ⟨_, rfl⟩

namespace Resolver

variable {inv : Inventory} {refer : String → Except GroupError IdSet} {e : GroupError}

/-! ## Rules -/

/-- A condition fails as its reference does, or for what its check finds wrong with it. -/
theorem condition_fails {c : Condition} (h : condition inv refer c = .error e) :
    (c.field = .group ∧ refer (c.value.getD "") = .error e) ∨
      c.check ≠ .ok () ∧ ∀ path, e ≠ .cyclicReference path := by
  by_cases hvalue : c.value.getD "" = ""
  · obtain rfl : .ofViolation .valueExpected = e := by
      simpa [condition, hvalue, bind_eq_error] using h
    exact Or.inr ⟨by simp [Condition.check, lacksText, hvalue, ite_eq_iff],
      GroupError.ofViolation_ne_cyclic _⟩
  by_cases hop : c.operator = .unknown
  · obtain rfl : .ofViolation .operatorExpected = e := by
      simpa [condition, hvalue, hop, bind_eq_error] using h
    exact Or.inr ⟨by simp [Condition.check, hop, ite_eq_iff], GroupError.ofViolation_ne_cyclic _⟩
  by_cases hfield : c.field = .group
  · by_cases hlink : c.operator ≠ .equals ∧ c.operator ≠ .differs
    · obtain rfl : .ofViolation .linkExpected = e := by
        simpa [condition, hvalue, hop, hfield, hlink, bind_eq_error] using h
      exact Or.inr ⟨by simp [Condition.check, hfield, hlink, ite_eq_iff],
        GroupError.ofViolation_ne_cyclic _⟩
    · refine Or.inl ⟨hfield, ?_⟩
      simpa [condition, hvalue, hop, hfield, hlink, map_eq_error] using h
  · cases hp : positive? inv c.field c.operator (c.value.getD "") with
    | none =>
        have hunknown := (positive?_eq_none inv _ _ hfield).mp hp
        obtain rfl : .unsupportedField c.field.text = e := by
          simpa [condition, hvalue, hop, hfield, hp] using h
        exact Or.inr ⟨by simp [Condition.check, hunknown], by simp⟩
    | some found =>
        simp [condition, hvalue, hop, hfield, hp, pure, Except.pure] at h

mutual

/-- A rule fails as one of its references does, or for what its check finds wrong with it. -/
theorem compile_fails : (r : Rule) → compile inv refer r = .error e →
    (∃ value ∈ r.references, refer value = .error e) ∨
      r.check ≠ .ok () ∧ ∀ path, e ≠ .cyclicReference path
  | .condition c, h => by
      rw [compile] at h
      refine (condition_fails h).imp_left fun ⟨hfield, hrefer⟩ => ⟨_, ?_, hrefer⟩
      rw [Rule.references, if_pos hfield]
      exact List.mem_singleton_self _
  | .nested connective rules, h => by
      rw [compile] at h
      rw [Rule.check]
      cases hconnective : connective.check rules with
      | error v =>
          rw [hconnective] at h
          cases h
          exact Or.inr ⟨by simp, GroupError.ofViolation_ne_cyclic v⟩
      | ok =>
          rw [hconnective] at h
          exact compileAll_fails rules (map_eq_error.mp h)

theorem compileAll_fails : (rs : List Rule) → compileAll inv refer rs = .error e →
    (∃ value ∈ Rule.allReferences rs, refer value = .error e) ∨
      Rule.checkAll rs ≠ .ok () ∧ ∀ path, e ≠ .cyclicReference path
  | [], h => by
      rw [compileAll] at h
      cases h
  | r :: rs, h => by
      rw [compileAll] at h
      rw [Rule.allReferences]
      rcases bind_eq_error.mp h with h | ⟨s, -, h⟩
      · rcases compile_fails r h with ⟨value, hvalue, hrefer⟩ | ⟨hcheck, hpath⟩
        · exact Or.inl ⟨value, List.mem_append_left _ hvalue, hrefer⟩
        · exact Or.inr ⟨fun hall => hcheck (Rule.checkAll_cons_ok.mp hall).1, hpath⟩
      · rcases compileAll_fails rs (map_eq_error.mp h) with ⟨value, hvalue, hrefer⟩ | ⟨hcheck, hpath⟩
        · exact Or.inl ⟨value, List.mem_append_right _ hvalue, hrefer⟩
        · exact Or.inr ⟨fun hall => hcheck (Rule.checkAll_cons_ok.mp hall).2, hpath⟩

end

/-- A rule that passes its check fails as one of its references does. -/
theorem compile_fails_of_check {r : Rule} (hcheck : r.check = .ok ())
    (h : compile inv refer r = .error e) : ∃ value ∈ r.references, refer value = .error e :=
  (compile_fails r h).resolve_right fun hfails => hfails.1 hcheck

/-! ## Groups -/

theorem follow_error {r : Resolver} {lookup : Nat → Except GroupError Group} {allowance : Nat}
    {trail : List Nat} {value : String}
    (h : follow r lookup allowance trail value = .error e) :
    (referredId? value = none ∧ e = .noLinkedGroup value) ∨
      ∃ id, referredId? value = some id ∧ ((id ∈ trail ∧ e = .cycle (trail ++ [id])) ∨
        e = .tooDeep r.maxDepth ∨ ∃ left, allowance = left + 1 ∧ id ∉ trail ∧
          (lookup id = .error e ∨ ∃ g, lookup id = .ok g ∧
            compile r.inventory (follow r lookup left (trail ++ [id])) g.rules.toRule = .error e)) := by
  rw [follow.eq_def] at h
  cases hid : referredId? value with
  | none =>
      simp only [hid] at h
      cases h
      exact Or.inl ⟨rfl, rfl⟩
  | some id =>
      simp only [hid] at h
      refine Or.inr ⟨id, rfl, ?_⟩
      by_cases hmem : id ∈ trail
      · rw [if_pos (List.contains_iff_mem.mpr hmem)] at h
        cases h
        exact Or.inl ⟨hmem, rfl⟩
      · rw [if_neg (mt List.contains_iff_mem.mp hmem)] at h
        cases allowance with
        | zero =>
            cases h
            exact Or.inr (Or.inl rfl)
        | succ left => exact Or.inr (Or.inr ⟨left, rfl, hmem, bind_eq_error.mp h⟩)

theorem resolve_error {r : Resolver} {lookup : Nat → Except GroupError Group} {g : Group}
    (h : r.resolve lookup g = .error e) : (∃ v, g.check = .error v ∧ e = .ofViolation v) ∨
      g.check = .ok () ∧ r.resolveFrom lookup g.id.toList g.rules = .error e := by
  unfold resolve at h
  cases hcheck : g.check with
  | error v =>
      rw [hcheck] at h
      exact Or.inl ⟨v, rfl, (Except.error.inj h).symm⟩
  | ok =>
      rw [hcheck] at h
      exact Or.inr ⟨rfl, h⟩

variable {r : Resolver} {db : Database} (hchecked : ∀ g ∈ db.groups, g.check = .ok ())
include hchecked

/-- The induction is on the number of references that may still follow one another. -/
theorem follow_fails (allowance : Nat) {trail : List Nat} {value : String} {rules : RuleSet}
    (hvalue : value ∈ rules.references)
    (h : follow r (groupIn (.ok db)) allowance trail value = .error e) :
    rules.Fails db.byId? e := by
  induction allowance using Nat.strong_induction_on generalizing trail value rules with
  | _ allowance ih =>
      rcases follow_error h with ⟨hnone, rfl⟩ | ⟨id, hid, ⟨-, rfl⟩ | rfl | ⟨left, rfl, -, hrest⟩⟩
      · exact Or.inr ⟨value, .own hvalue, .noId hnone⟩
      · exact Or.inl ⟨_, rfl⟩
      · exact Or.inl ⟨_, rfl⟩
      · rcases hrest with hlookup | ⟨g, hlookup, hcompile⟩
        · obtain ⟨hnone, rfl⟩ := Database.byId_eq_error.mp hlookup
          exact Or.inr ⟨value, .own hvalue, .noGroup hid hnone⟩
        · have hg : db.byId? id = some g := Database.byId_eq_ok.mp hlookup
          have hrules := Group.rules_check (hchecked g (List.mem_of_find?_eq_some hg))
          obtain ⟨link, hlink, hfollow⟩ := compile_fails_of_check hrules hcompile
          rcases ih left left.lt_succ_self hlink hfollow with hcycle | ⟨other, hinvolves, hdangling⟩
          · exact Or.inl hcycle
          · exact Or.inr ⟨other, .through hvalue hid hg hinvolves, hdangling⟩

theorem resolveFrom_fails {trail : List Nat} {rules : RuleSet} (hrules : rules.check = .ok ())
    (h : r.resolveFrom (groupIn (.ok db)) trail rules = .error e) : rules.Fails db.byId? e := by
  obtain ⟨value, hvalue, hfollow⟩ := compile_fails_of_check hrules (map_eq_error.mp h)
  exact follow_fails hchecked _ hvalue hfollow

theorem resolve_fails {g : Group} (h : r.resolve (groupIn (.ok db)) g = .error e) :
    (∃ v, g.check = .error v ∧ e = .ofViolation v) ∨ g.check = .ok () ∧ g.rules.Fails db.byId? e :=
  (resolve_error h).imp_right fun ⟨hcheck, hfrom⟩ =>
    ⟨hcheck, resolveFrom_fails hchecked (Group.rules_check hcheck) hfrom⟩

end Resolver

namespace Service

/-- Wherever jobs have led to, a stored group is not refused for what is wrong with it or with those that it
refers to, and a group that is given is refused for it exactly when its check refuses it. -/
theorem resolve_errors (sv : Service) {n : Nat} {sch : Schedule Unit}
    (hreached : Schedule.Reached sv n sch) (i : Nat) {db : Database}
    (hcontent : (sch.cluster.site i).content sv.storage = .ok db)
    (hquiet : (sch.cluster.site i).disk.refusals = []) :
    (∀ id e, ((sv.resolve (.id id)).outcome (sch.cluster.site i)).1 = .error e →
      (∃ path, e = .cyclicReference path) ∨ (db.byId? id = none ∧ e = .noGroupWithId id) ∨
        ∃ g, db.byId? id = some g ∧ g.rules.Dangles db.byId? e) ∧
    ∀ g answer, ((sv.resolve (.group g)).outcome (sch.cluster.site i)).1 = answer →
      (∀ text, answer = .error (.validation text) ↔ ∃ v, g.check = .error v ∧ text = v.message) ∧
      (∀ e, answer = .error e → g.check = .ok () → g.rules.Fails db.byId? e) ∧
      ∀ field, answer ≠ .error (.unsupportedField field) := by
  have hchecked := ((hreached.wholesome.2.2 i).sound hcontent).checked
  have hanswerId := fun id => (sv.resolveId_reads id).fst_eq (s := sch.cluster.site i) hquiet
  have hanswer := fun g => (sv.resolveGroup_reads g).fst_eq (s := sch.cluster.site i) hquiet
  simp only [hcontent] at hanswerId hanswer
  constructor
  · intro id e he
    rw [hanswerId id] at he
    rcases bind_eq_error.mp he with hnone | ⟨g, hg, hfrom⟩
    · exact Or.inr (Or.inl (Database.byId_eq_error.mp hnone))
    · have hg : db.byId? id = some g := Database.byId_eq_ok.mp hg
      have hrules := Group.rules_check (hchecked g (List.mem_of_find?_eq_some hg))
      rcases Resolver.resolveFrom_fails hchecked hrules hfrom with hcycle | hdangles
      · exact Or.inl hcycle
      · exact Or.inr (Or.inr ⟨g, hg, hdangles⟩)
  · rintro g answer rfl
    rw [hanswer g]
    refine ⟨fun text => ⟨fun h => ?_, ?_⟩, fun e he hcheck => ?_, fun field h => ?_⟩
    · rcases Resolver.resolve_fails hchecked h with ⟨v, hcheck, htext⟩ | ⟨-, hfails⟩
      · exact ⟨v, hcheck, GroupError.validation.inj htext⟩
      · rcases hfails.cases with ⟨_, hother⟩ | ⟨_, hother⟩ <;> cases hother
    · rintro ⟨v, hcheck, rfl⟩
      unfold Resolver.resolve
      rw [hcheck]
      rfl
    · rcases Resolver.resolve_fails hchecked he with ⟨v, hrefused, -⟩ | ⟨-, hfails⟩
      · rw [hcheck] at hrefused
        cases hrefused
      · exact hfails
    · rcases Resolver.resolve_fails hchecked h with ⟨v, -, hother⟩ | ⟨-, hfails⟩
      · cases hother
      · rcases hfails.cases with ⟨_, hother⟩ | ⟨_, hother⟩ <;> cases hother

/-- A group that refers to one that is not stored. -/
def astray : Group where
  name := "astray"
  rules := ⟨.and, [.condition (.of .group .equals "7")]⟩

theorem resolve_errors_astray :
    ∃ db, (shallowSchedule.cluster.site 0).content shallow.storage = .ok db ∧
      ((shallow.resolve (.group astray)).outcome (shallowSchedule.cluster.site 0)).1 =
        .error (.noGroupWithId 7) ∧
      astray.rules.Fails db.byId? (.noGroupWithId 7) ∧
      ((shallow.resolve (.group { astray with name := " " })).outcome
        (shallowSchedule.cluster.site 0)).1 = .error (.validation "Name expected") := by
  have hcontent : (shallowSchedule.cluster.site 0).content shallow.storage =
      .ok (shallowSchedule.cluster.site 0).slot.database :=
    if_pos ⟨rfl, by decide +kernel⟩
  have hastray : ((shallow.resolve (.group astray)).outcome (shallowSchedule.cluster.site 0)).1 =
      .error (.noGroupWithId 7) := by
    decide +kernel
  obtain ⟨-, hgiven⟩ := resolve_errors shallow shallowSchedule_reached 0 hcontent (by decide +kernel)
  exact ⟨_, hcontent, hastray, (hgiven astray _ rfl).2.1 _ hastray (by decide +kernel),
    ((hgiven _ _ rfl).1 _).mpr ⟨.nameExpected, by decide +kernel, rfl⟩⟩

end Service

end AssetGroups
