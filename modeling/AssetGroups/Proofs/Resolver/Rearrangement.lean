import AssetGroups.Proofs.Resolver.Theorems
import Mathlib.Data.List.Sort

/-!
# Order and repetition

Members of a rule set may change their places and be repeated, at any depth, in the rules that are
resolved and in every stored group: what is found stays the same, and so does whether anything is found
at all. The results of members are joined by their ids alone, and every member is resolved, whatever
those before it found.
-/

namespace AssetGroups

/-! ## Rearranged groups -/

/-- Members of the rule sets in a tree stand at other places or more often. -/
inductive Rule.Rearranged : Rule → Rule → Prop where
  | refl (r : Rule) : Rearranged r r
  | symm {r r' : Rule} (h : Rearranged r r') : Rearranged r' r
  | trans {r r' r'' : Rule} (h : Rearranged r r') (h' : Rearranged r' r'') : Rearranged r r''
  | reordered {connective : Connective} {rs rs' : List Rule} (h : rs.Perm rs') :
      Rearranged (.nested connective rs) (.nested connective rs')
  | repeated {connective : Connective} {r : Rule} {rs : List Rule} (h : r ∈ rs) :
      Rearranged (.nested connective rs) (.nested connective (r :: rs))
  | inside {connective : Connective} (before : List Rule) {after : List Rule} {r r' : Rule}
      (h : Rearranged r r') :
      Rearranged (.nested connective (before ++ r :: after))
        (.nested connective (before ++ r' :: after))

structure Group.Rearranged (g g' : Group) : Prop where
  id_eq : g.id = g'.id
  name_eq : g.name = g'.name
  rules : g.rules.toRule.Rearranged g'.rules.toRule

theorem Group.Rearranged.refl (g : Group) : g.Rearranged g := ⟨rfl, rfl, .refl _⟩

/-- Stores that keep rearranged groups at the same places answer every id by rearranged groups. -/
theorem Database.byId?_rearranged {db db' : Database}
    (h : List.Forall₂ Group.Rearranged db.groups db'.groups) (id : Nat) :
    Option.Rel Group.Rearranged (db.byId? id) (db'.byId? id) := by
  unfold Database.byId?
  generalize db.groups = gs, db'.groups = gs' at h ⊢
  induction h with
  | nil => exact .none
  | cons hg _ ih =>
      rw [List.find?_cons, List.find?_cons, hg.id_eq]
      split
      · exact .some hg
      · exact ih

theorem Site.groupIn_of_stored? {cfg : Storage} {s : Site} {id : Nat} {g : Group}
    (h : s.stored? cfg id = some g) : groupIn (s.content cfg) id = .ok g := by
  unfold stored? at h
  cases hg : groupIn (s.content cfg) id with
  | error e => simp [hg, Except.toOption] at h
  | ok g' =>
      rw [hg] at h
      exact congrArg Except.ok (Option.some.inj h)

theorem Site.stored?_of_content {cfg : Storage} {s : Site} {db : Database}
    (hcontent : s.content cfg = .ok db) (id : Nat) : s.stored? cfg id = db.byId? id := by
  rw [stored?, hcontent]
  show (db.byId id).toOption = _
  rw [Database.byId]
  cases db.byId? id <;> rfl

/-! ## Equal success -/

/-- Both succeed with the same result, or neither succeeds. -/
def Concur {α : Type} (x y : Except GroupError α) : Prop := ∀ a, x = .ok a ↔ y = .ok a

namespace Concur

variable {α : Type} {x y z : Except GroupError α}

theorem refl (x : Except GroupError α) : Concur x x := fun _ => Iff.rfl

theorem symm (h : Concur x y) : Concur y x := fun a => (h a).symm

theorem trans (h : Concur x y) (h' : Concur y z) : Concur x z := fun a => (h a).trans (h' a)

end Concur

theorem concur_simulates :
    Simulates (m := Except GroupError) (n := Except GroupError) fun _ => Concur where
  pure a := .refl _
  throw e := .refl _
  bind := by
    intro _ _ x y f g hxy hfg b
    simp only [bind_eq_ok, hxy _, hfg _ b]

theorem bind_concur {α : Type} {x y : Except GroupError Group} {f f' : Group → Except GroupError α}
    (h : Option.Rel Group.Rearranged x.toOption y.toOption)
    (hf : ∀ g g', g.Rearranged g' → Concur (f g) (f' g')) : Concur (x >>= f) (y >>= f') := by
  cases x with
  | error e =>
      cases y with
      | error e' => exact fun _ => ⟨nofun, nofun⟩
      | ok g' => cases h
  | ok g =>
      cases y with
      | error e' => cases h
      | ok g' =>
          obtain ⟨hg⟩ := h
          exact hf g g' hg

/-! ## Rule sets -/

theorem IdSet.eq_of_mem {s t : IdSet} (h : ∀ x, x ∈ s ↔ x ∈ t) : s = t := by
  obtain ⟨ids, hids⟩ := s
  obtain ⟨ids', hids'⟩ := t
  obtain rfl : ids = ids' := hids.eq_of_mem_iff hids' h
  rfl

theorem Connective.check_eq_ok {connective : Connective} {rules : List Rule} :
    connective.check rules = .ok () ↔ rules ≠ [] ∧ connective ≠ .unknown := by
  simp [check, ite_eq_iff]

namespace Resolver

theorem joinAll_congr {connective : Connective} {ss ss' : List IdSet}
    (hconnective : connective ≠ .unknown) (h : ∀ s, s ∈ ss ↔ s ∈ ss') :
    joinAll connective ss = joinAll connective ss' := by
  cases connective with
  | and =>
      by_cases hne : ss = []
      · obtain rfl : ss' = [] := List.eq_nil_iff_forall_not_mem.mpr fun s hs => by
          simpa [hne] using (h s).mpr hs
        rw [hne]
      · have hne' : ss' ≠ [] := by
          obtain ⟨s, hs⟩ := List.exists_mem_of_ne_nil ss hne
          exact List.ne_nil_of_mem ((h s).mp hs)
        exact IdSet.eq_of_mem fun x => by simp only [mem_joinAll_and hne, mem_joinAll_and hne', h]
  | or => exact IdSet.eq_of_mem fun x => by simp only [mem_joinAll_or, h]
  | unknown => contradiction

section

variable {inv : Inventory} {refer : String → Except GroupError IdSet} {s : IdSet}

theorem mem_compileAll {rs : List Rule} {ss : List IdSet} (h : compileAll inv refer rs = .ok ss) :
    s ∈ ss ↔ ∃ r ∈ rs, compile inv refer r = .ok s := by
  induction rs generalizing ss with
  | nil =>
      rw [compileAll, pure_eq_ok] at h
      simp [h]
  | cons r rs ih =>
      obtain ⟨first, rest, hfirst, hrest, rfl⟩ := compileAll_cons_ok.mp h
      simp [ih hrest, hfirst, eq_comm]

theorem exists_compileAll {rs : List Rule} :
    (∃ ss, compileAll inv refer rs = .ok ss) ↔ ∀ r ∈ rs, ∃ s, compile inv refer r = .ok s := by
  induction rs with
  | nil => simp [compileAll, pure_eq_ok]
  | cons r rs ih =>
      rw [List.forall_mem_cons, ← ih]
      simp only [compileAll_cons_ok]
      constructor
      · rintro ⟨_, s, ss, hs, hss, -⟩
        exact ⟨⟨s, hs⟩, ss, hss⟩
      · rintro ⟨⟨s, hs⟩, ss, hss⟩
        exact ⟨_, s, ss, hs, hss, rfl⟩

/-- Nothing but what its members find makes a difference to a rule set, neither how often they find it
nor in which order. -/
theorem compile_members {connective : Connective} {rs rs' : List Rule}
    (hto : ∀ r ∈ rs, ∃ r' ∈ rs', Concur (compile inv refer r) (compile inv refer r'))
    (hfrom : ∀ r' ∈ rs', ∃ r ∈ rs, Concur (compile inv refer r) (compile inv refer r'))
    (h : compile inv refer (.nested connective rs) = .ok s) :
    compile inv refer (.nested connective rs') = .ok s := by
  obtain ⟨hcheck, ss, hss, rfl⟩ := compile_nested_ok.mp h
  obtain ⟨hne, hconnective⟩ := Connective.check_eq_ok.mp hcheck
  obtain ⟨ss', hss'⟩ : ∃ ss', compileAll inv refer rs' = .ok ss' := by
    refine exists_compileAll.mpr fun r' hr' => ?_
    obtain ⟨r, hr, hconcur⟩ := hfrom r' hr'
    obtain ⟨t, ht⟩ := exists_compileAll.mp ⟨ss, hss⟩ r hr
    exact ⟨t, (hconcur t).mp ht⟩
  have hne' : rs' ≠ [] := by
    obtain ⟨r, hr⟩ := List.exists_mem_of_ne_nil rs hne
    obtain ⟨r', hr', -⟩ := hto r hr
    exact List.ne_nil_of_mem hr'
  refine compile_nested_ok.mpr ⟨Connective.check_eq_ok.mpr ⟨hne', hconnective⟩, ss', hss',
    joinAll_congr hconnective fun t => ?_⟩
  rw [mem_compileAll hss, mem_compileAll hss']
  constructor
  · rintro ⟨r, hr, ht⟩
    obtain ⟨r', hr', hconcur⟩ := hto r hr
    exact ⟨r', hr', (hconcur t).mp ht⟩
  · rintro ⟨r', hr', ht⟩
    obtain ⟨r, hr, hconcur⟩ := hfrom r' hr'
    exact ⟨r, hr, (hconcur t).mpr ht⟩

theorem compile_members_concur {connective : Connective} {rs rs' : List Rule}
    (hto : ∀ r ∈ rs, ∃ r' ∈ rs', Concur (compile inv refer r) (compile inv refer r'))
    (hfrom : ∀ r' ∈ rs', ∃ r ∈ rs, Concur (compile inv refer r) (compile inv refer r')) :
    Concur (compile inv refer (.nested connective rs))
      (compile inv refer (.nested connective rs')) := by
  refine fun s => ⟨compile_members hto hfrom, compile_members (fun r' hr' => ?_) fun r hr => ?_⟩
  · exact (hfrom r' hr').imp fun _ => And.imp_right Concur.symm
  · exact (hto r hr).imp fun _ => And.imp_right Concur.symm

theorem compile_rearranged {r r' : Rule} (h : r.Rearranged r') :
    Concur (compile inv refer r) (compile inv refer r') := by
  induction h with
  | refl r => exact .refl _
  | symm _ ih => exact ih.symm
  | trans _ _ ih ih' => exact ih.trans ih'
  | reordered h =>
      exact compile_members_concur (fun r hr => ⟨r, h.mem_iff.mp hr, .refl _⟩)
        fun r hr => ⟨r, h.mem_iff.mpr hr, .refl _⟩
  | repeated h =>
      refine compile_members_concur (fun r hr => ⟨r, List.mem_cons_of_mem _ hr, .refl _⟩)
        fun r hr => ⟨r, ?_, .refl _⟩
      rcases List.mem_cons.mp hr with rfl | hr
      · exact h
      · exact hr
  | @inside connective before after r r' _ ih =>
      -- every member is its own counterpart, apart from the one that is rearranged
      have hown : ∀ other, other ∈ before ∨ other ∈ after →
          ∀ m, other ∈ before ++ m :: after := by
        intro other hother m
        simp only [List.mem_append, List.mem_cons]
        tauto
      have hsplit : ∀ other m, other ∈ before ++ m :: after →
          other = m ∨ other ∈ before ∨ other ∈ after := by
        intro other m hother
        simp only [List.mem_append, List.mem_cons] at hother
        tauto
      refine compile_members_concur (fun other hother => ?_) fun other hother => ?_
      · rcases hsplit other r hother with rfl | hother
        · exact ⟨r', by simp, ih⟩
        · exact ⟨other, hown other hother r', .refl _⟩
      · rcases hsplit other r' hother with rfl | hother
        · exact ⟨r, by simp, ih⟩
        · exact ⟨other, hown other hother r, .refl _⟩

end

/-! ## Groups -/

section

variable {r : Resolver} {lookup lookup' : Nat → Except GroupError Group}
  (hlookup : ∀ id, Option.Rel Group.Rearranged (lookup id).toOption (lookup' id).toOption)
include hlookup

/-- The induction is on the number of references that may still follow one another. -/
theorem follow_rearranged (allowance : Nat) (trail : List Nat) (value : String) :
    Concur (follow r lookup allowance trail value) (follow r lookup' allowance trail value) := by
  induction allowance generalizing trail value with
  | zero =>
      rw [follow, follow]
      exact .refl _
  | succ left ih =>
      rw [follow, follow]
      cases referredId? value with
      | none => exact .refl _
      | some id =>
          simp only
          split
          · exact .refl _
          · exact bind_concur (hlookup id) fun g g' hg => (compile_rearranged hg.rules).trans
              (compile_simulates concur_simulates (ih (trail ++ [id])) _)

theorem resolveFrom_rearranged (trail : List Nat) {rules rules' : RuleSet}
    (hrules : rules.toRule.Rearranged rules'.toRule) :
    Concur (r.resolveFrom lookup trail rules) (r.resolveFrom lookup' trail rules') := by
  refine concur_simulates.bind ?_ fun _ => .refl _
  exact (compile_rearranged hrules).trans
    (compile_simulates concur_simulates (follow_rearranged hlookup _ trail) _)

theorem resolveId_rearranged (id : Nat) :
    Concur (r.resolveId lookup id) (r.resolveId lookup' id) := by
  refine bind_concur (hlookup id) fun g g' hg => ?_
  rw [hg.id_eq]
  exact resolveFrom_rearranged hlookup _ hg.rules

end

end Resolver

namespace Resolver

variable {r : Resolver} {lookup lookup' : Nat → Except GroupError Group}

/-- Rules that are resolved have passed their check, so that the name alone is left to be checked. -/
theorem resolve_eq_ok {g : Group} {found : List Inventory.AssetRef} :
    r.resolve lookup g = .ok found ↔
      Text.allBlank g.name.toList = false ∧ r.resolveFrom lookup g.id.toList g.rules = .ok found := by
  unfold resolve
  cases hcheck : g.check with
  | error v =>
      simp only [throw_eq_error, reduceCtorEq, false_iff, not_and]
      intro hname hfound
      obtain ⟨s, hs, -⟩ := bind_eq_ok.mp hfound
      have hrules : g.rules.check = .ok () := ((compile_resolves _).mp ⟨s, hs⟩).1
      rw [Group.check_eq_ok.mpr ⟨hname, hrules⟩] at hcheck
      cases hcheck
  | ok => simp [(Group.check_eq_ok.mp hcheck).1]

theorem resolve_rearranged
    (hlookup : ∀ id, Option.Rel Group.Rearranged (lookup id).toOption (lookup' id).toOption)
    {g g' : Group} (hg : g.Rearranged g') : Concur (r.resolve lookup g) (r.resolve lookup' g') := by
  intro found
  rw [resolve_eq_ok, resolve_eq_ok, hg.name_eq, hg.id_eq,
    resolveFrom_rearranged hlookup g'.id.toList hg.rules found]

/-! ## Rules that fail -/

/-- Resolving a rule below a trail comes to the rule `part` below the trail `below`: it stands in the tree
of the rule, or in that of a group to which references lead from there. -/
inductive Meets (lookup : Nat → Except GroupError Group) (part : Rule) (below : List Nat) :
    List Nat → Rule → Prop where
  | here : Meets lookup part below below part
  | member {trail : List Nat} {connective : Connective} {rs : List Rule} {r : Rule} (hr : r ∈ rs)
      (h : Meets lookup part below trail r) : Meets lookup part below trail (.nested connective rs)
  | referred {trail : List Nat} {c : Condition} {id : Nat} {g : Group} (hfield : c.field = .group)
      (hid : referredId? (c.value.getD "") = some id) (hg : lookup id = .ok g)
      (h : Meets lookup part below (trail ++ [id]) g.rules.toRule) :
      Meets lookup part below trail (.condition c)

/-- Nothing that is met is passed over. -/
theorem Meets.resolves {part rule : Rule} {below trail : List Nat}
    (h : Meets lookup part below trail rule)
    (hrule : ∃ s, compile r.inventory (follow r lookup (r.maxDepth + 1 - trail.length) trail) rule =
      .ok s) :
    ∃ s, compile r.inventory (follow r lookup (r.maxDepth + 1 - below.length) below) part =
      .ok s := by
  induction h with
  | here => exact hrule
  | member hr _ ih =>
      obtain ⟨s, hs⟩ := hrule
      obtain ⟨-, ss, hss, -⟩ := compile_nested_ok.mp hs
      exact ih (exists_compileAll.mp ⟨ss, hss⟩ _ hr)
  | @referred trail c id g hfield hid hg _ ih =>
      rw [compile, condition_resolves] at hrule
      obtain ⟨s, hs⟩ := hrule.2 hfield
      obtain ⟨id', g', left, hid', -, hleft, hg', hcompile⟩ := follow_ok.mp hs
      obtain rfl : id = id' := by simpa [hid] using hid'
      obtain rfl : g = g' := by simpa [hg] using hg'
      refine ih ⟨s, ?_⟩
      obtain rfl : left = r.maxDepth + 1 - (trail ++ [id]).length := by
        rw [List.length_append, List.length_singleton]
        omega
      exact hcompile

/-- A rule on its own, as the only member of a rule set. -/
def alone (part : Rule) : RuleSet := ⟨.and, [part]⟩

theorem Meets.fails {part : Rule} {rules : RuleSet} {below trail : List Nat}
    (h : Meets lookup part below trail rules.toRule)
    (hpart : ∃ e, r.resolveFrom lookup below (alone part) = .error e) :
    ∃ e, r.resolveFrom lookup trail rules = .error e := by
  cases hrules : r.resolveFrom lookup trail rules with
  | error e => exact ⟨e, rfl⟩
  | ok found =>
      obtain ⟨s, hs, -⟩ := bind_eq_ok.mp hrules
      obtain ⟨t, ht⟩ := h.resolves ⟨s, hs⟩
      obtain ⟨e, he⟩ := hpart
      have halone : ∃ u, compile r.inventory (follow r lookup (r.maxDepth + 1 - below.length) below)
          (alone part).toRule = .ok u :=
        ⟨_, compile_nested_ok.mpr ⟨rfl, [t],
          compileAll_cons_ok.mpr ⟨t, [], ht, by rw [compileAll, pure_eq_ok], rfl⟩, rfl⟩⟩
      obtain ⟨u, hu⟩ := halone
      rcases bind_eq_error.mp he with he | ⟨_, -, he⟩
      · rw [hu] at he
        cases he
      · cases he

end Resolver

namespace Service

open Resolver

/-- Let two stores answer every id by groups that are the same up to the order and the repetition of
members. Then a stored group, a group that is given and rules on their own are resolved at one as at
the other, also when they are rearranged themselves. A rule that fails on its own makes fail all that
resolving comes to it from, whatever stands beside it. -/
theorem resolution_ignores_arrangement (sv : Service) {s s' : Site} (hquiet : s.disk.refusals = [])
    (hquiet' : s'.disk.refusals = [])
    (hstored : ∀ id, Option.Rel Group.Rearranged (s.stored? sv.storage id)
      (s'.stored? sv.storage id)) :
    (∀ id, Concur ((sv.resolve (.id id)).outcome s).1 ((sv.resolve (.id id)).outcome s').1) ∧
    (∀ g g', g.Rearranged g' →
      Concur ((sv.resolve (.group g)).outcome s).1 ((sv.resolve (.group g')).outcome s').1) ∧
    (∀ rules rules' : RuleSet, rules.toRule.Rearranged rules'.toRule →
      Concur ((sv.resolveRules rules).outcome s).1 ((sv.resolveRules rules').outcome s').1) ∧
    ∀ part below,
      (∃ e, sv.resolver.resolveFrom (groupIn (s.content sv.storage)) below (alone part) = .error e) →
      (∀ id g, s.stored? sv.storage id = some g →
        Meets (groupIn (s.content sv.storage)) part below g.id.toList g.rules.toRule →
        ∃ e, ((sv.resolve (.id id)).outcome s).1 = .error e) ∧
      (∀ g : Group, Meets (groupIn (s.content sv.storage)) part below g.id.toList g.rules.toRule →
        ∃ e, ((sv.resolve (.group g)).outcome s).1 = .error e) ∧
      ∀ rules : RuleSet, Meets (groupIn (s.content sv.storage)) part below [] rules.toRule →
        ∃ e, ((sv.resolveRules rules).outcome s).1 = .error e := by
  have hid := fun id => (sv.resolveId_reads id).fst_eq hquiet
  have hgroup := fun g => (sv.resolveGroup_reads g).fst_eq hquiet
  have hrules := fun rules => (sv.resolveRules_reads rules).fst_eq hquiet
  refine ⟨fun id => ?_, fun g g' hg => ?_, fun rules rules' h => ?_, fun part below hpart =>
    ⟨fun id g hg hmeets => ?_, fun g hmeets => ?_, fun rules hmeets => ?_⟩⟩
  · rw [hid, (sv.resolveId_reads id).fst_eq hquiet']
    exact resolveId_rearranged hstored id
  · rw [hgroup, (sv.resolveGroup_reads g').fst_eq hquiet']
    exact resolve_rearranged hstored hg
  · rw [hrules, (sv.resolveRules_reads rules').fst_eq hquiet']
    exact resolveFrom_rearranged hstored [] h
  · obtain ⟨e, he⟩ := hmeets.fails hpart
    refine ⟨e, ?_⟩
    rw [hid]
    exact bind_eq_error.mpr (Or.inr ⟨g, Site.groupIn_of_stored? hg, he⟩)
  · obtain ⟨e, he⟩ := hmeets.fails hpart
    rw [hgroup]
    cases hfound : sv.resolver.resolve (groupIn (s.content sv.storage)) g with
    | error e => exact ⟨e, rfl⟩
    | ok found =>
        rw [(resolve_eq_ok.mp hfound).2] at he
        cases he
  · rw [hrules]
    exact hmeets.fails hpart

/-- The groups of the samples, in three of which members stand at other places or twice. -/
def shuffledGroups : Database where
  lastId := 6
  groups := [
    ⟨some 1, "in the lab", ⟨.and, [.condition (.of .location .equals "lab"),
      .condition (.of .location .equals "lab")]⟩⟩,
    ⟨some 2, "hosts", ⟨.and, [.condition (.of .subtype .contains "serv"),
      .condition (.of .group .equals "1")]⟩⟩,
    ⟨some 3, "elsewhere or cared for", ⟨.or, [.condition (.of .group .differs " 1 "),
      .condition (.of .contact .equals "bob")]⟩⟩,
    ⟨some 4, "either", ⟨.or, [.condition (.of .group .equals "2"),
      .nested .and [.condition (.of .group .equals "3"), .condition (.of .group .equals "3")]]⟩⟩,
    ⟨some 5, "there", ⟨.and, [.condition (.of .group .equals "6")]⟩⟩,
    ⟨some 6, "and back", ⟨.and, [.condition (.of .group .differs "5")]⟩⟩]

theorem shuffledGroups_rearranged :
    List.Forall₂ Group.Rearranged sampleGroups.groups shuffledGroups.groups :=
  .cons ⟨rfl, rfl, .repeated List.mem_cons_self⟩ <|
    .cons ⟨rfl, rfl, .reordered (.swap _ _ _)⟩ <|
    .cons (.refl _) <|
    .cons ⟨rfl, rfl, .inside [_] (.repeated List.mem_cons_self)⟩ <|
    .cons (.refl _) <| .cons (.refl _) .nil

def shuffledSite : Site := { slot := ⟨true, shuffledGroups⟩ }

/-- Nothing is called nobody, and yet the reference is followed. -/
def doubtful : Group where
  name := "doubtful"
  rules := ⟨.and, [.condition (.of .name .equals "nobody"),
    .nested .or [.condition (.of .group .equals "5")]]⟩

/-- The reference from the group 6 back to 5 fails. -/
theorem resolution_ignores_arrangement_sample :
    ((sample.resolve (.id 4)).outcome shuffledSite).1 = .ok [⟨4, "power"⟩] ∧
      ∃ e, ((sample.resolve (.group doubtful)).outcome sampleSite).1 = .error e := by
  have hstored : ∀ id, Option.Rel Group.Rearranged (sampleSite.stored? sample.storage id)
      (shuffledSite.stored? sample.storage id) := by
    intro id
    have hcontent : sampleSite.content sample.storage = .ok sampleGroups := rfl
    have hcontent' : shuffledSite.content sample.storage = .ok shuffledGroups := rfl
    rw [Site.stored?_of_content hcontent, Site.stored?_of_content hcontent']
    exact Database.byId?_rearranged shuffledGroups_rearranged id
  obtain ⟨hid, -, -, hfails⟩ := resolution_ignores_arrangement sample rfl rfl hstored
  refine ⟨(hid 4 _).mp (by decide +kernel), ?_⟩
  refine (hfails (.condition (.of .group .differs "5")) [5, 6]
    ⟨.cycle [5, 6, 5], by decide +kernel⟩).2.1 doubtful ?_
  have hfive : referredId? "5" = some 5 := by decide +kernel
  have hsix : referredId? "6" = some 6 := by decide +kernel
  exact .member (.tail _ (.head _)) (.member (.head _) (.referred rfl hfive rfl
    (.member (.head _) (.referred rfl hsix rfl (.member (.head _) .here)))))

end Service

end AssetGroups
