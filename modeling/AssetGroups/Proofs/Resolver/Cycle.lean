import AssetGroups.Proofs.Resolver.Errors
import AssetGroups.Proofs.Text.Numerals

/-!
# Cycles that are reported

When a reference leads back to a group that is being resolved, the error names the way from the first
group on the trail to that reference. Here every step of this way is shown to be a reference that
stands in the group before, so that nothing of what was resolved earlier is on it.
-/

namespace AssetGroups

/-! ## Texts of errors -/

namespace GroupError

theorem cycle_inj {path path' : List Nat} : cycle path = cycle path' ↔ path = path' := by
  rw [cycle, cycle, cyclicReference.injEq]
  exact Text.numerals_inj (c := ' ') rfl rfl

theorem cycle_ne_tooDeep (path : List Nat) (limit : Nat) : cycle path ≠ tooDeep limit := by
  intro h
  rw [cycle, tooDeep, cyclicReference.injEq] at h
  have hdigit := Text.isDigit_head?_numerals " -> " path 'g' (by
    rw [h, String.toList_append]
    rfl)
  cases hdigit

end GroupError

/-! ## Circles -/

def RuleSet.RefersTo (rules : RuleSet) (id : Nat) : Prop :=
  ∃ value ∈ rules.references, Resolver.referredId? value = some id

/-- The path goes from group to group along references, and ends at a group that it has passed; no
other group is passed twice. -/
structure Circles (graph? : Nat → Option Group) (path : List Nat) : Prop where
  linked : path.IsChain (Links graph?)
  distinct : path.dropLast.Nodup
  returns : ∃ a ∈ path.dropLast, path.getLast? = some a

/-- A cyclic reference that is reported is there: either the limit is exceeded, or the error names a
circle, which begins where `start` says. -/
structure Truthful (graph? : Nat → Option Group) (start : Nat → Prop) (limit : Nat) (e : GroupError) :
    Prop where
  told : ∀ text, e = .cyclicReference text → e = .tooDeep limit ∨ ∃ path, e = .cycle path
  real : ∀ path, e = .cycle path → Circles graph? path ∧ ∃ a, path.head? = some a ∧ start a

section

variable {graph? : Nat → Option Group} {start : Nat → Prop} {limit : Nat}

theorem Truthful.of_other {e : GroupError} (h : ∀ text, e ≠ .cyclicReference text) :
    Truthful graph? start limit e where
  told _ he := absurd he (h _)
  real _ he := absurd he (h _)

theorem Truthful.imp {start' : Nat → Prop} {e : GroupError} (h : Truthful graph? start limit e)
    (himp : ∀ a, start a → start' a) : Truthful graph? start' limit e where
  told := h.told
  real path he := (h.real path he).imp_right fun ⟨a, ha, hstart⟩ => ⟨a, ha, himp a hstart⟩

theorem Truthful.tooDeep : Truthful graph? start limit (.tooDeep limit) where
  told _ _ := Or.inl rfl
  real _ he := absurd he.symm (GroupError.cycle_ne_tooDeep _ limit)

theorem Truthful.cycle {path : List Nat} (hcircles : Circles graph? path)
    (hstart : ∃ a, path.head? = some a ∧ start a) : Truthful graph? start limit (.cycle path) where
  told _ _ := Or.inr ⟨path, rfl⟩
  real _ he := GroupError.cycle_inj.mp he ▸ ⟨hcircles, hstart⟩

end

namespace Resolver

/-! ## The trail -/

variable {r : Resolver} {lookup : Nat → Except GroupError Group} {graph? : Nat → Option Group}
  {start : Nat → Prop}

/-- What is known while `rules` are resolved below a trail: it follows references from its beginning to
the group of these rules. A group that is not on the trail is looked up as it is in the graph. -/
structure OnTrail (lookup : Nat → Except GroupError Group) (graph? : Nat → Option Group)
    (start : Nat → Prop) (trail : List Nat) (rules : RuleSet) : Prop where
  distinct : trail.Nodup
  linked : trail.IsChain (Links graph?)
  begins : ∀ a, trail.head? = some a → start a
  first : trail = [] → ∀ a, rules.RefersTo a → start a
  last : ∀ a, trail.getLast? = some a → ∃ g, graph? a = some g ∧ g.rules = rules
  ahead : ∀ id, id ∉ trail → ∀ g, lookup id = .ok g → graph? id = some g

namespace OnTrail

variable {trail : List Nat} {rules : RuleSet} {id : Nat}

theorem isChain_snoc (h : OnTrail lookup graph? start trail rules) (hid : rules.RefersTo id) :
    (trail ++ [id]).IsChain (Links graph?) := by
  refine h.linked.append (.singleton id) fun a ha b hb => ?_
  obtain ⟨g, hg, rfl⟩ := h.last a ha
  cases hb
  exact ⟨g, hg, hid⟩

theorem head?_snoc (h : OnTrail lookup graph? start trail rules) (hid : rules.RefersTo id) :
    ∃ a, (trail ++ [id]).head? = some a ∧ start a := by
  cases htrail : trail with
  | nil => exact ⟨id, rfl, h.first htrail id hid⟩
  | cons a rest => exact ⟨a, rfl, h.begins a (by rw [htrail, List.head?_cons])⟩

theorem snoc (h : OnTrail lookup graph? start trail rules) (hid : rules.RefersTo id)
    (hmem : id ∉ trail) {g : Group} (hg : lookup id = .ok g) :
    OnTrail lookup graph? start (trail ++ [id]) g.rules where
  distinct := by
    rw [← List.concat_eq_append]
    exact h.distinct.concat hmem
  linked := h.isChain_snoc hid
  begins a ha := by
    obtain ⟨b, hb, hstart⟩ := h.head?_snoc hid
    rw [ha] at hb
    cases hb
    exact hstart
  first hnil := absurd hnil (by simp)
  last a ha := by
    rw [List.getLast?_append, List.getLast?_singleton, Option.some_or] at ha
    cases ha
    exact ⟨g, h.ahead id hmem g hg, rfl⟩
  ahead b hb := h.ahead b fun hmem => hb (List.mem_append_left _ hmem)

theorem circles (h : OnTrail lookup graph? start trail rules) (hid : rules.RefersTo id)
    (hmem : id ∈ trail) : Circles graph? (trail ++ [id]) where
  linked := h.isChain_snoc hid
  distinct := by
    rw [List.dropLast_concat]
    exact h.distinct
  returns := ⟨id, by rwa [List.dropLast_concat], by simp⟩

end OnTrail

/-! ## Resolution -/

section

variable (hlookup : ∀ id text, lookup id ≠ .error (.cyclicReference text))
include hlookup

/-- The induction is on the number of references that may still follow one another. -/
theorem follow_truthful (allowance : Nat) {trail : List Nat} {rules : RuleSet} {value : String}
    {e : GroupError} (htrail : OnTrail lookup graph? start trail rules)
    (hvalue : value ∈ rules.references) (h : follow r lookup allowance trail value = .error e) :
    Truthful graph? start r.maxDepth e := by
  induction allowance using Nat.strong_induction_on generalizing trail rules value with
  | _ allowance ih =>
      rcases follow_error h with
        ⟨-, rfl⟩ | ⟨id, hid, ⟨hmem, rfl⟩ | rfl | ⟨left, rfl, hmem, herror | ⟨g, hg, hcompile⟩⟩⟩
      · exact .of_other nofun
      · have hrefers : rules.RefersTo id := ⟨value, hvalue, hid⟩
        exact .cycle (htrail.circles hrefers hmem) (htrail.head?_snoc hrefers)
      · exact .tooDeep
      · apply Truthful.of_other
        rintro text rfl
        exact hlookup id text herror
      · rcases compile_fails g.rules.toRule hcompile with ⟨link, hlink, hfollow⟩ | ⟨-, hother⟩
        · exact ih left left.lt_succ_self (htrail.snoc ⟨value, hvalue, hid⟩ hmem hg) hlink hfollow
        · exact .of_other hother

theorem resolveFrom_truthful {trail : List Nat} {rules : RuleSet} {e : GroupError}
    (htrail : OnTrail lookup graph? start trail rules)
    (h : r.resolveFrom lookup trail rules = .error e) : Truthful graph? start r.maxDepth e := by
  rcases compile_fails rules.toRule (map_eq_error.mp h) with ⟨value, hvalue, hfollow⟩ | ⟨-, hother⟩
  · exact follow_truthful hlookup _ htrail hvalue hfollow
  · exact .of_other hother

end

end Resolver

/-! ## Where the trail begins -/

namespace Group

/-- A way that begins with a group begins at its id or, without one, at the id of a group that it refers
to. -/
def Begins (g : Group) (a : Nat) : Prop := g.id = some a ∨ g.id = none ∧ g.rules.RefersTo a

/-- The groups that are stored, but the group itself for its id. -/
def within (g : Group) (stored? : Nat → Option Group) (id : Nat) : Option Group :=
  if g.id = some id then some g else stored? id

theorem within_eq_self {g : Group} {stored? : Nat → Option Group}
    (h : ∀ id, g.id = some id → stored? id = some g) : g.within stored? = stored? := by
  funext id
  unfold within
  split
  · rename_i hid
    exact (h id hid).symm
  · rfl

theorem onTrail {lookup : Nat → Except GroupError Group} {stored? : Nat → Option Group}
    (hstored : ∀ id g, lookup id = .ok g → stored? id = some g) (g : Group) :
    Resolver.OnTrail lookup (g.within stored?) g.Begins g.id.toList g.rules := by
  cases hid : g.id with
  | none =>
      refine ⟨.nil, .nil, nofun, fun _ a ha => Or.inr ⟨hid, ha⟩, nofun, fun id _ h hh => ?_⟩
      rw [within, hid, if_neg nofun]
      exact hstored id h hh
  | some id =>
      refine ⟨List.nodup_singleton id, .singleton id, ?_, nofun, ?_, fun b hb h hh => ?_⟩
      · rintro a ⟨⟩
        exact Or.inl hid
      · rintro a ⟨⟩
        exact ⟨g, if_pos hid, rfl⟩
      -- the group itself is on the trail, so whatever is looked up is another one
      · rw [within, if_neg]
        · exact hstored b h hh
        · rw [hid]
          rintro ⟨⟩
          exact hb (List.mem_singleton_self id)

end Group

/-! ## At a service -/

namespace Service

variable {cfg : Storage} {s : Site}

theorem content_ne_cyclic (cfg : Storage) (s : Site) (text : String) :
    s.content cfg ≠ .error (.cyclicReference text) := by
  intro h
  rcases Site.content_eq_error h with he | ⟨_, _, he⟩ <;> cases he

theorem groupIn_ne_cyclic (cfg : Storage) (s : Site) (id : Nat) (text : String) :
    groupIn (s.content cfg) id ≠ .error (.cyclicReference text) := by
  intro h
  rcases bind_eq_error.mp h with h | ⟨db, -, h⟩
  · exact content_ne_cyclic cfg s text h
  · cases (Database.byId_eq_error.mp h).2

theorem id_of_groupIn {c : Except GroupError Database} {id : Nat} {g : Group}
    (h : groupIn c id = .ok g) : g.id = some id := by
  obtain ⟨db, -, hdb⟩ := bind_eq_ok.mp h
  exact Database.id_of_byId? (Database.byId_eq_ok.mp hdb)

theorem resolveFrom_truthful (sv : Service) {s : Site} (g : Group) {e : GroupError}
    (h : sv.resolver.resolveFrom (groupIn (s.content sv.storage)) g.id.toList g.rules = .error e) :
    Truthful (g.within (s.stored? sv.storage)) g.Begins sv.resolver.maxDepth e :=
  Resolver.resolveFrom_truthful (groupIn_ne_cyclic sv.storage s)
    (g.onTrail fun _ _ => Site.stored?_of_groupIn) h

theorem truthful_of_reads {α : Type} {w : Work α} {answer : Except GroupError α} {e : GroupError}
    {graph? : Nat → Option Group} {start : Nat → Prop} {limit : Nat}
    (hreads : Work.Reads cfg (s.content cfg) w answer) (he : (w.outcome s).1 = .error e)
    (h : answer = .error e → Truthful graph? start limit e) : Truthful graph? start limit e := by
  rcases (hreads s rfl).answered with hanswer | ⟨path, cause, -, hrefused⟩
  · exact h (hanswer ▸ he)
  · rw [hrefused] at he
    cases he
    exact .of_other nofun

/-- Whatever fails at a service with a cyclic reference, of a stored group, of a group that is given or
of rules on their own: there is a cycle of references where the error says. -/
theorem resolve_cycles (sv : Service) (s : Site) (e : GroupError) :
    (∀ id, ((sv.resolve (.id id)).outcome s).1 = .error e →
      Truthful (s.stored? sv.storage) (· = id) sv.resolver.maxDepth e) ∧
    (∀ g, ((sv.resolve (.group g)).outcome s).1 = .error e →
      Truthful (g.within (s.stored? sv.storage)) g.Begins sv.resolver.maxDepth e) ∧
    (∀ rules, ((sv.resolveRules rules).outcome s).1 = .error e →
      Truthful (s.stored? sv.storage) rules.RefersTo sv.resolver.maxDepth e) := by
  refine ⟨fun id he => ?_, fun g he => ?_, fun rules he => ?_⟩
  · apply truthful_of_reads (sv.resolveId_reads id) he
    intro h
    rcases bind_eq_error.mp h with h | ⟨g, hg, h⟩
    · apply Truthful.of_other
      rintro text rfl
      exact groupIn_ne_cyclic _ _ id text h
    · have hid := id_of_groupIn hg
      have htruthful := resolveFrom_truthful sv g h
      rw [Group.within_eq_self fun b hb => ?_] at htruthful
      · refine htruthful.imp fun a ha => ?_
        rcases ha with ha | ⟨hnone, -⟩
        · exact Option.some.inj (ha.symm.trans hid)
        · cases hid.symm.trans hnone
      · cases hid.symm.trans hb
        exact Site.stored?_of_groupIn hg
  · apply truthful_of_reads (sv.resolveGroup_reads g) he
    intro h
    rcases Resolver.resolve_error h with ⟨v, -, rfl⟩ | ⟨-, h⟩
    · exact .of_other (GroupError.ofViolation_ne_cyclic v)
    · exact resolveFrom_truthful sv g h
  · apply truthful_of_reads (sv.resolveRules_reads rules) he
    intro h
    have htruthful := resolveFrom_truthful sv { rules } h
    rw [Group.within_eq_self fun _ hid => by cases hid] at htruthful
    refine htruthful.imp fun a ha => ?_
    rcases ha with ⟨⟨⟩⟩ | ⟨-, ha⟩
    exact ha

/-- The group 6 as it would be with a reference more; the group 5 is stored. -/
def detour : Group where
  id := some 6
  name := "detour"
  rules := ⟨.and, [.condition (.of .group .equals "1"),
    .nested .or [.condition (.of .name .equals "srv"), .condition (.of .group .differs " 5 ")]]⟩

theorem resolve_cycles_sample :
    ((sample.resolve (.id 5)).outcome sampleSite).1 = .error (.cycle [5, 6, 5]) ∧
      Circles (sampleSite.stored? sample.storage) [5, 6, 5] ∧
      ((sample.resolve (.group detour)).outcome sampleSite).1 = .error (.cycle [6, 5, 6]) ∧
      Circles (detour.within (sampleSite.stored? sample.storage)) [6, 5, 6] := by
  have hstored : ((sample.resolve (.id 5)).outcome sampleSite).1 = .error (.cycle [5, 6, 5]) := by
    decide +kernel
  have hgiven : ((sample.resolve (.group detour)).outcome sampleSite).1 =
      .error (.cycle [6, 5, 6]) := by
    decide +kernel
  exact ⟨hstored, (((resolve_cycles sample sampleSite _).1 5 hstored).real _ rfl).1,
    hgiven, (((resolve_cycles sample sampleSite _).2.1 detour hgiven).real _ rfl).1⟩

end Service

end AssetGroups
