import AssetGroups.Proofs.Resolver.Compile
import Mathlib.Data.List.Chain
import Mathlib.Logic.Relation

/-!
# References between groups

The groups that are stored form a graph, in which a group is linked to those that its conditions refer
to. Resolution follows the links depth first and keeps a trail; whether it succeeds depends on the
graph alone.
-/

namespace AssetGroups

/-! ## Links -/

mutual

/-- The texts by which a rule refers to groups, wherever they stand in its tree. -/
def Rule.references : Rule → List String
  | .condition c => if c.field = .group then [c.value.getD ""] else []
  | .nested _ rules => Rule.allReferences rules

def Rule.allReferences : List Rule → List String
  | [] => []
  | r :: rs => r.references ++ Rule.allReferences rs

end

def RuleSet.references (r : RuleSet) : List String := r.toRule.references

/-- The rules of the group with the id `a` refer to the id `b`. -/
def Links (stored? : Nat → Option Group) (a b : Nat) : Prop :=
  ∃ g, stored? a = some g ∧ ∃ value ∈ g.rules.references, Resolver.referredId? value = some b

/-- `b` can be reached from `a`, which can be reached from itself. -/
def Reaches (stored? : Nat → Option Group) : Nat → Nat → Prop :=
  Relation.ReflTransGen (Links stored?)

/-- What the graph has to be like for the group with an id to be resolved: every group that can be
reached is stored, passes its check and refers to stored groups by their ids, none of them leads back
to itself, and at most `limit` references follow one another. -/
structure Resolvable (stored? : Nat → Option Group) (limit id : Nat) : Prop where
  stored : ∃ g, stored? id = some g
  checked : ∀ a, Reaches stored? id a → ∀ g, stored? a = some g → g.rules.check = .ok ()
  linked : ∀ a, Reaches stored? id a → ∀ g, stored? a = some g → ∀ value ∈ g.rules.references,
    ∃ b, Resolver.referredId? value = some b ∧ ∃ h, stored? b = some h
  acyclic : ∀ a, Reaches stored? id a → ¬ Relation.TransGen (Links stored?) a a
  bounded : ∀ path, List.IsChain (Links stored?) (id :: path) → path.length ≤ limit

namespace Resolver

/-! ## Rules -/

section

variable {inv : Inventory} {refer : String → Except GroupError IdSet}

theorem condition_resolves {c : Condition} :
    (∃ s, condition inv refer c = .ok s) ↔
      c.check = .ok () ∧ (c.field = .group → ∃ s, refer (c.value.getD "") = .ok s) := by
  constructor
  · rintro ⟨s, hs⟩
    obtain ⟨hcheck, found, hfound, -⟩ := condition_ok.mp hs
    refine ⟨hcheck, fun hfield => ⟨found, ?_⟩⟩
    rwa [Finds, if_pos hfield] at hfound
  · rintro ⟨hcheck, hrefer⟩
    by_cases hfield : c.field = .group
    · obtain ⟨found, hfound⟩ := hrefer hfield
      exact ⟨_, condition_ok.mpr ⟨hcheck, found, by rwa [Finds, if_pos hfield], rfl⟩⟩
    · have hknown : c.field ≠ .unknown := by
        intro hunknown
        simp [Condition.check, hunknown] at hcheck
      obtain ⟨found, hfound⟩ := Option.ne_none_iff_exists'.mp
        (mt (positive?_eq_none inv c.operator (c.value.getD "") hfield).mp hknown)
      exact ⟨_, condition_ok.mpr ⟨hcheck, found, by rwa [Finds, if_neg hfield], rfl⟩⟩

mutual

/-- A rule is resolved when it passes its check and every reference in it is. -/
theorem compile_resolves : (r : Rule) → ((∃ s, compile inv refer r = .ok s) ↔
    r.check = .ok () ∧ ∀ value ∈ r.references, ∃ s, refer value = .ok s)
  | .condition c => by
      rw [compile, condition_resolves, Rule.check, Rule.references]
      by_cases hfield : c.field = .group <;> simp [hfield]
  | .nested connective rules => by
      have hall := compileAll_resolves rules
      simp only [compile_nested_ok, Rule.check, Rule.references]
      cases connective.check rules with
      | error v => simp
      | ok =>
          rw [← hall]
          simp only [true_and]
          exact ⟨fun ⟨_, ss, hss, _⟩ => ⟨ss, hss⟩, fun ⟨ss, hss⟩ => ⟨_, ss, hss, rfl⟩⟩

theorem compileAll_resolves : (rs : List Rule) → ((∃ ss, compileAll inv refer rs = .ok ss) ↔
    Rule.checkAll rs = .ok () ∧ ∀ value ∈ Rule.allReferences rs, ∃ s, refer value = .ok s)
  | [] => by simp [compileAll, pure_eq_ok, Rule.checkAll, Rule.allReferences]
  | r :: rs => by
      have hfirst := compile_resolves r
      have hrest := compileAll_resolves rs
      simp only [compileAll_cons_ok, Rule.checkAll, Rule.allReferences, List.mem_append, or_imp,
        forall_and]
      cases hcheck : r.check with
      | error v =>
          simp only [hcheck, reduceCtorEq, false_and, iff_false] at hfirst ⊢
          rintro ⟨_, s, _, hs, _⟩
          exact hfirst ⟨s, hs⟩
      | ok =>
          simp only [hcheck, true_and] at hfirst
          rw [← hfirst, and_left_comm, ← hrest]
          constructor
          · rintro ⟨_, s, ss, hs, hss, -⟩
            exact ⟨⟨s, hs⟩, ss, hss⟩
          · rintro ⟨⟨s, hs⟩, ss, hss⟩
            exact ⟨_, s, ss, hs, hss, rfl⟩

end

end

/-! ## Answers to references -/

section

variable {m : Type → Type} [Monad m] [MonadExceptOf GroupError m] {inv : Inventory}
    {refer refer' : String → m IdSet}

theorem condition_congr {c : Condition}
    (h : c.field = .group → refer (c.value.getD "") = refer' (c.value.getD "")) :
    condition inv refer c = condition inv refer' c := by
  unfold condition
  by_cases hfield : c.field = .group
  · simp only [h hfield]
  · simp only [hfield, if_false]

mutual

/-- Resolving looks at nothing but the answers to the references in the rule. -/
theorem compile_congr : (r : Rule) → (∀ value ∈ r.references, refer value = refer' value) →
    compile inv refer r = compile inv refer' r
  | .condition c, h => by
      rw [compile, compile]
      refine condition_congr fun hfield => h _ ?_
      rw [Rule.references, if_pos hfield]
      exact List.mem_singleton_self _
  | .nested connective rules, h => by
      rw [compile, compile, compileAll_congr rules h]

theorem compileAll_congr : (rs : List Rule) →
    (∀ value ∈ Rule.allReferences rs, refer value = refer' value) →
    compileAll inv refer rs = compileAll inv refer' rs
  | [], _ => by
      rw [compileAll, compileAll]
  | r :: rs, h => by
      simp only [Rule.allReferences, List.mem_append] at h
      rw [compileAll, compileAll, compile_congr r fun v hv => h v (Or.inl hv),
        compileAll_congr rs fun v hv => h v (Or.inr hv)]

end

theorem resolveFrom_congr {r : Resolver} {lookup lookup' : Nat → m Group} {trail trail' : List Nat}
    {rules : RuleSet} (h : ∀ value ∈ rules.references,
      follow r lookup (r.maxDepth + 1 - trail.length) trail value =
        follow r lookup' (r.maxDepth + 1 - trail'.length) trail' value) :
    resolveFrom r lookup trail rules = resolveFrom r lookup' trail' rules := by
  unfold resolveFrom
  rw [compile_congr rules.toRule h]

end

section

variable {inv : Inventory} {refer : String → Except GroupError IdSet} {value : String}
    {e : GroupError}

theorem condition_error {c : Condition} (hcheck : c.check = .ok ()) (hfield : c.field = .group)
    (hrefer : refer (c.value.getD "") = .error e) : condition inv refer c = .error e := by
  have hop : c.operator ≠ .unknown := by
    intro hop
    simp [Condition.check, hop, hfield] at hcheck
  have hvalue : c.value.getD "" ≠ "" := by
    intro hvalue
    simp [Condition.check, lacksText, hvalue, hop, hfield] at hcheck
  have hlink : ¬ (c.operator ≠ .equals ∧ c.operator ≠ .differs) := by
    intro hlink
    simp [Condition.check, lacksText, hvalue, hop, hfield, hlink] at hcheck
  simp [condition, hvalue, hop, hfield, hlink, hrefer]

mutual

/-- A rule that passes its check fails as its first reference does. -/
theorem compile_error (he : refer value = .error e) : (r : Rule) → (rest : List String) →
    r.check = .ok () → r.references = value :: rest → compile inv refer r = .error e
  | .condition c, rest, hcheck, hrefs => by
      rw [Rule.references] at hrefs
      split at hrefs
      · rename_i hfield
        obtain ⟨rfl, -⟩ := List.cons.inj hrefs
        rw [compile]
        exact condition_error hcheck hfield he
      · cases hrefs
  | .nested connective rules, rest, hcheck, hrefs => by
      rw [Rule.check] at hcheck
      rw [Rule.references] at hrefs
      rw [compile]
      cases hconnective : connective.check rules with
      | error v =>
          rw [hconnective] at hcheck
          cases hcheck
      | ok =>
          rw [hconnective] at hcheck
          simp only [compileAll_error he rules rest hcheck hrefs]
          rfl

theorem compileAll_error (he : refer value = .error e) : (rs : List Rule) → (rest : List String) →
    Rule.checkAll rs = .ok () → Rule.allReferences rs = value :: rest →
    compileAll inv refer rs = .error e
  | [], _, _, hrefs => by cases hrefs
  | r :: rs, rest, hcheck, hrefs => by
      rw [Rule.checkAll] at hcheck
      rw [Rule.allReferences] at hrefs
      rw [compileAll]
      cases hfirst : r.check with
      | error v =>
          rw [hfirst] at hcheck
          cases hcheck
      | ok =>
          rw [hfirst] at hcheck
          cases hown : r.references with
          | nil =>
              rw [hown] at hrefs
              obtain ⟨s, hs⟩ := (compile_resolves r).mpr ⟨hfirst, by simp [hown]⟩
              rw [hs, compileAll_error he rs rest hcheck hrefs]
              rfl
          | cons first others =>
              rw [hown] at hrefs
              obtain ⟨hvalue, -⟩ := List.cons.inj hrefs
              rw [hvalue] at hown
              rw [compile_error he r others hfirst hown]
              rfl

end

theorem resolveFrom_error {r : Resolver} {lookup : Nat → Except GroupError Group} {trail : List Nat}
    {rules : RuleSet} {rest : List String} (hcheck : rules.check = .ok ())
    (hrefs : rules.references = value :: rest)
    (he : follow r lookup (r.maxDepth + 1 - trail.length) trail value = .error e) :
    resolveFrom r lookup trail rules = .error e := by
  unfold resolveFrom
  rw [compile_error he rules.toRule rest hcheck hrefs]
  rfl

end

/-! ## Groups -/

variable {r : Resolver} {lookup : Nat → Except GroupError Group}

theorem resolveId_of_lookup {id : Nat} {g : Group} (hg : lookup id = .ok g)
    (hid : g.id = some id) : r.resolveId lookup id = r.resolveFrom lookup [id] g.rules := by
  rw [resolveId, hg]
  show r.resolveFrom lookup g.id.toList g.rules = _
  rw [hid]
  rfl

/-- The group with an id is resolved below a trail that ends with it. -/
def Opens (r : Resolver) (lookup : Nat → Except GroupError Group) (allowance : Nat)
    (trail : List Nat) (id : Nat) : Prop :=
  ∃ g, lookup id = .ok g ∧
    ∃ s, compile r.inventory (follow r lookup allowance trail) g.rules.toRule = .ok s

theorem follow_resolves {allowance : Nat} {trail : List Nat} {value : String} :
    (∃ s, follow r lookup allowance trail value = .ok s) ↔
      ∃ id left, referredId? value = some id ∧ id ∉ trail ∧ allowance = left + 1 ∧
        Opens r lookup left (trail ++ [id]) id := by
  simp only [follow_ok, Opens]
  constructor
  · rintro ⟨s, id, g, left, hid, hmem, hleft, hg, hs⟩
    exact ⟨id, left, hid, hmem, hleft, g, hg, s, hs⟩
  · rintro ⟨id, left, hid, hmem, hleft, g, hg, s, hs⟩
    exact ⟨s, id, g, left, hid, hmem, hleft, hg, hs⟩

theorem opens_iff {allowance : Nat} {trail : List Nat} {id : Nat} :
    Opens r lookup allowance trail id ↔
      ∃ g, lookup id = .ok g ∧ g.rules.check = .ok () ∧ ∀ value ∈ g.rules.references,
        ∃ b left, referredId? value = some b ∧ b ∉ trail ∧ allowance = left + 1 ∧
          Opens r lookup left (trail ++ [b]) b := by
  rw [Opens]
  simp only [compile_resolves, follow_resolves]
  rfl

/-- The group with the id and all that can be reached from it are stored, pass their checks and refer
to groups by ids. -/
def Wired (stored? : Nat → Option Group) (id : Nat) : Prop :=
  ∀ a, Reaches stored? id a → ∃ g, stored? a = some g ∧ g.rules.check = .ok () ∧
    ∀ value ∈ g.rules.references, ∃ b, referredId? value = some b

/-- From the id on, a chain of references has at most `allowance` members, all of them different and
none of them on the trail. -/
def Clear (stored? : Nat → Option Group) (allowance : Nat) (trail : List Nat) (id : Nat) : Prop :=
  ∀ path, List.IsChain (Links stored?) (id :: path) →
    path.length ≤ allowance ∧ path.Nodup ∧ ∀ b ∈ path, b ∉ trail

section

variable {stored? : Nat → Option Group}

theorem Wired.of_link {a b : Nat} (h : Wired stored? a) (hlink : Links stored? a b) :
    Wired stored? b :=
  fun c hc => h c (Relation.ReflTransGen.head hlink hc)

theorem wired_iff {a : Nat} :
    Wired stored? a ↔ ∃ g, stored? a = some g ∧ g.rules.check = .ok () ∧
      ∀ value ∈ g.rules.references, ∃ b, referredId? value = some b ∧ Wired stored? b := by
  constructor
  · intro h
    obtain ⟨g, hg, hcheck, hrefs⟩ := h a .refl
    refine ⟨g, hg, hcheck, fun value hvalue => ?_⟩
    obtain ⟨b, hb⟩ := hrefs value hvalue
    exact ⟨b, hb, h.of_link ⟨g, hg, value, hvalue, hb⟩⟩
  · rintro ⟨g, hg, hcheck, hrefs⟩ c hc
    rcases Relation.ReflTransGen.cases_head hc with rfl | ⟨b, ⟨g', hg', value, hvalue, hb⟩, hbc⟩
    · exact ⟨g, hg, hcheck, fun value hvalue => ⟨_, (hrefs value hvalue).choose_spec.1⟩⟩
    · obtain rfl : g = g' := by simpa [hg] using hg'
      obtain ⟨b', hb', hwired⟩ := hrefs value hvalue
      obtain rfl : b' = b := by simpa [hb] using hb'.symm
      exact hwired c hbc

theorem clear_iff {allowance : Nat} {trail : List Nat} {a : Nat} :
    Clear stored? allowance trail a ↔ ∀ b, Links stored? a b → b ∉ trail ∧
      ∃ left, allowance = left + 1 ∧ Clear stored? left (trail ++ [b]) b := by
  constructor
  · intro h b hlink
    have hsingle := h [b] (by simpa using hlink)
    refine ⟨hsingle.2.2 b (by simp), allowance - 1, by have := hsingle.1; simp at this; omega, ?_⟩
    intro path hpath
    obtain ⟨hlength, hnodup, htrail⟩ := h (b :: path) (.cons_cons hlink hpath)
    rw [List.nodup_cons] at hnodup
    refine ⟨by simp at hlength; omega, hnodup.2, fun c hc => ?_⟩
    rw [List.mem_append, List.mem_singleton, not_or]
    exact ⟨htrail c (List.mem_cons_of_mem b hc), fun hcb => hnodup.1 (hcb ▸ hc)⟩
  · intro h path hpath
    cases path with
    | nil => simp
    | cons b path =>
        rw [List.isChain_cons_cons] at hpath
        obtain ⟨hb, left, rfl, hclear⟩ := h b hpath.1
        obtain ⟨hlength, hnodup, htrail⟩ := hclear path hpath.2
        refine ⟨by simpa using hlength, List.nodup_cons.mpr ⟨fun hmem => ?_, hnodup⟩, ?_⟩
        · exact htrail b hmem (by simp)
        · intro c hc
          rcases List.mem_cons.mp hc with rfl | hc
          · exact hb
          · exact fun hct => htrail c hc (List.mem_append_left _ hct)

end

/-- The induction is on the allowance; the trail grows with every reference. -/
theorem opens_iff_clear {stored? : Nat → Option Group}
    (hlookup : ∀ id g, lookup id = .ok g ↔ stored? id = some g) (allowance : Nat)
    (trail : List Nat) (id : Nat) :
    Opens r lookup allowance trail id ↔ Wired stored? id ∧ Clear stored? allowance trail id := by
  induction allowance using Nat.strong_induction_on generalizing trail id with
  | _ allowance ih =>
      rw [opens_iff, wired_iff, clear_iff]
      constructor
      · rintro ⟨g, hg, hcheck, hrefs⟩
        have hg := (hlookup id g).mp hg
        refine ⟨⟨g, hg, hcheck, fun value hvalue => ?_⟩, ?_⟩
        · obtain ⟨b, left, hb, -, rfl, hopens⟩ := hrefs value hvalue
          exact ⟨b, hb, ((ih left left.lt_succ_self _ b).mp hopens).1⟩
        · rintro b ⟨g', hg', value, hvalue, hb⟩
          obtain rfl : g = g' := by simpa [hg] using hg'
          obtain ⟨b', left, hb', hmem, rfl, hopens⟩ := hrefs value hvalue
          obtain rfl : b' = b := by simpa [hb] using hb'.symm
          exact ⟨hmem, left, rfl, ((ih left left.lt_succ_self _ b').mp hopens).2⟩
      · rintro ⟨⟨g, hg, hcheck, hrefs⟩, hclear⟩
        refine ⟨g, (hlookup id g).mpr hg, hcheck, fun value hvalue => ?_⟩
        obtain ⟨b, hb, hwired⟩ := hrefs value hvalue
        obtain ⟨hmem, left, rfl, hfrom⟩ := hclear b ⟨g, hg, value, hvalue, hb⟩
        exact ⟨b, left, hb, hmem, rfl, (ih left left.lt_succ_self _ b).mpr ⟨hwired, hfrom⟩⟩

/-! ## The whole graph -/

section

variable {stored? : Nat → Option Group} {id : Nat}

theorem reaches_of_mem_chain {path : List Nat} (hpath : List.IsChain (Links stored?) (id :: path)) :
    ∀ a ∈ id :: path, Reaches stored? id a := by
  intro a ha
  rcases List.mem_cons.mp ha with rfl | ha
  · exact .refl
  · exact hpath.cons_induction (fun b => Reaches stored? id b) path
      (fun _ _ hlink hb => hb.tail hlink) .refl a ha

theorem nodup_iff_acyclic :
    (∀ path, List.IsChain (Links stored?) (id :: path) → (id :: path).Nodup) ↔
      ∀ a, Reaches stored? id a → ¬ Relation.TransGen (Links stored?) a a := by
  constructor
  · intro h a ha hcycle
    obtain ⟨forth, hforth, hlast⟩ := List.exists_isChain_cons_of_relationReflTransGen ha
    obtain ⟨b, hlink, hback⟩ := Relation.TransGen.head'_iff.mp hcycle
    obtain ⟨back, hback, hlast'⟩ := List.exists_isChain_cons_of_relationReflTransGen hback
    have hchain : List.IsChain (Links stored?) (id :: (forth ++ b :: back)) := by
      rw [← List.cons_append, List.isChain_append]
      refine ⟨hforth, hback, fun x hx y hy => ?_⟩
      rw [List.getLast?_eq_getLast_of_ne_nil (List.cons_ne_nil id forth), Option.mem_some_iff] at hx
      rw [List.head?_cons, Option.mem_some_iff] at hy
      rwa [← hx, ← hy, hlast]
    have hdisjoint := List.disjoint_of_nodup_append (List.cons_append ▸ h _ hchain)
    exact hdisjoint (hlast ▸ List.getLast_mem _) (hlast' ▸ List.getLast_mem _)
  · intro h path hpath
    have htrans : (id :: path).Pairwise (Relation.TransGen (Links stored?)) :=
      List.isChain_iff_pairwise.mp (hpath.imp fun _ _ hlink => .single hlink)
    refine htrans.imp_of_mem fun {a b} ha _ hab heq => ?_
    exact h a (reaches_of_mem_chain hpath a ha) (heq ▸ hab)

theorem resolvable_iff {limit : Nat} :
    Resolvable stored? limit id ↔ Wired stored? id ∧ Clear stored? limit [id] id := by
  constructor
  · intro h
    constructor
    · intro a ha
      have hstored : ∃ g, stored? a = some g := by
        rcases Relation.ReflTransGen.cases_tail ha with rfl | ⟨c, hc, g, hg, value, hvalue, hb⟩
        · exact h.stored
        · obtain ⟨b, hb', hstored⟩ := h.linked c hc g hg value hvalue
          rw [hb, Option.some.injEq] at hb'
          exact hb' ▸ hstored
      obtain ⟨g, hg⟩ := hstored
      refine ⟨g, hg, h.checked a ha g hg, fun value hvalue => ?_⟩
      obtain ⟨b, hb, -⟩ := h.linked a ha g hg value hvalue
      exact ⟨b, hb⟩
    · intro path hpath
      have hnodup := List.nodup_cons.mp (nodup_iff_acyclic.mpr h.acyclic path hpath)
      refine ⟨h.bounded path hpath, hnodup.2, fun b hb => ?_⟩
      rw [List.mem_singleton]
      rintro rfl
      exact hnodup.1 hb
  · rintro ⟨hwired, hclear⟩
    refine ⟨?_, ?_, ?_, nodup_iff_acyclic.mp fun path hpath => ?_, fun path hpath => ?_⟩
    · obtain ⟨g, hg, -⟩ := hwired id .refl
      exact ⟨g, hg⟩
    · intro a ha g hg
      obtain ⟨g', hg', hcheck, -⟩ := hwired a ha
      obtain rfl : g = g' := by simpa [hg] using hg'
      exact hcheck
    · intro a ha g hg value hvalue
      obtain ⟨g', hg', -, hrefs⟩ := hwired a ha
      obtain rfl : g = g' := by simpa [hg] using hg'
      obtain ⟨b, hb⟩ := hrefs value hvalue
      obtain ⟨h, hh, -⟩ := hwired b (Relation.ReflTransGen.tail ha ⟨g, hg, value, hvalue, hb⟩)
      exact ⟨b, hb, h, hh⟩
    · obtain ⟨-, hnodup, htrail⟩ := hclear path hpath
      exact List.nodup_cons.mpr ⟨fun hmem => htrail id hmem (by simp), hnodup⟩
    · exact (hclear path hpath).1

theorem resolveId_resolves {r : Resolver} (lookup : Nat → Except GroupError Group)
    (hlookup : ∀ id g, lookup id = .ok g ↔ stored? id = some g)
    (hid : ∀ g, stored? id = some g → g.id = some id) :
    (∃ found, r.resolveId lookup id = .ok found) ↔ Resolvable stored? r.maxDepth id := by
  rw [resolvable_iff, ← opens_iff_clear hlookup (r := r), Opens]
  simp only [resolveId, resolveFrom, bind_eq_ok, pure_eq_ok]
  constructor
  · rintro ⟨_, g, hg, s, hs, -⟩
    rw [hid g ((hlookup id g).mp hg)] at hs
    exact ⟨g, hg, s, hs⟩
  · rintro ⟨g, hg, s, hs⟩
    refine ⟨_, g, hg, s, ?_, rfl⟩
    rw [hid g ((hlookup id g).mp hg)]
    exact hs

end

end Resolver

end AssetGroups
