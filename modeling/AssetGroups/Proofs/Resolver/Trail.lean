import AssetGroups.Proofs.Outcome
import AssetGroups.Proofs.Resolver.Simulation
import Mathlib.Data.List.Nodup

/-!
# Resolution with one trail

A resolution gives every group that it is led to a trail of its own. Here a single trail is kept: the
id of a group is put at its end while the group is resolved and is taken away afterwards, whether or
not that fails, and nothing is counted but what is on the trail. Such a run goes as the resolution
does, even if every look-up is answered from another content.
-/

namespace AssetGroups.Resolver

variable {ω α β : Type}

/-! ## Runs -/

/-- What a run changes: its trail, the list of all that the trail was set to, and the world that
answers its look-ups. -/
structure Progress (ω : Type) where
  trail : List Nat
  trails : List (List Nat) := []
  world : ω

/-- Computations that ask a world, which is another one after each answer. -/
abbrev Asking (ω : Type) := ExceptT GroupError (StateM ω)

/-- Computations that keep a trail besides; they may go on for ever. -/
abbrev InPlace (ω : Type) := ExceptT GroupError (StateT (Progress ω) Option)

def Asking.answer (x : Asking ω α) (world : ω) : Except GroupError α × ω := Id.run (x.run.run world)

/-- How a run ends; `none` as long as it does not. -/
def InPlace.run? (x : InPlace ω α) (p : Progress ω) : Option (Except GroupError α × Progress ω) :=
  x.run.run p

namespace InPlace

def unfinished : InPlace ω α := ExceptT.mk fun _ => none

def ask (x : Asking ω α) : InPlace ω α :=
  ExceptT.mk fun p => some ((x.answer p.world).1, { p with world := (x.answer p.world).2 })

def getTrail : InPlace ω (List Nat) := ExceptT.mk fun p => some (.ok p.trail, p)

def setTrail (trail : List Nat) : InPlace ω Unit :=
  ExceptT.mk fun p => some (.ok (), { p with trail, trails := p.trails ++ [trail] })

/-- With `id` at the end of the trail until `x` has succeeded or failed. -/
def below (id : Nat) (x : InPlace ω α) : InPlace ω α := do
  setTrail ((← getTrail) ++ [id])
  let answer ← ExceptT.lift x.run
  setTrail (← getTrail).dropLast
  liftExcept answer

/-- Resolves the group that a condition refers to. References may follow one another without an end,
so that the run is given up after `levels` of them. -/
def follow (r : Resolver) (lookup : Nat → Asking ω Group) : (levels : Nat) → String → InPlace ω IdSet
  | 0, _ => unfinished
  | levels + 1, value =>
    match referredId? value with
    | none => throw (GroupError.noLinkedGroup value)
    | some id => do
      let trail ← getTrail
      if trail.contains id then throw (GroupError.cycle (trail ++ [id]))
      else if r.maxDepth < trail.length then throw (GroupError.tooDeep r.maxDepth)
      else
        let g ← ask (lookup id)
        below id (compile r.inventory (follow r lookup levels) g.rules.toRule)

end InPlace

/-! ## Related runs -/

theorem Asking.answer_bind (x : Asking ω α) (f : α → Asking ω β) (world : ω) :
    (x >>= f).answer world = match (x.answer world).1 with
      | .error e => (.error e, (x.answer world).2)
      | .ok a => (f a).answer (x.answer world).2 := by
  simp only [answer, ExceptT.run_bind, StateT.run_bind, Id.run_bind]
  cases (x.run.run world).run.1 <;> rfl

theorem InPlace.run?_bind (x : InPlace ω α) (f : α → InPlace ω β) (p : Progress ω) :
    (x >>= f).run? p = (x.run? p).bind fun q => match q.1 with
      | .error e => some (.error e, q.2)
      | .ok a => (f a).run? q.2 := by
  simp only [run?, ExceptT.run_bind, StateT.run_bind]
  refine congrArg (x.run.run p).bind (funext fun q => ?_)
  cases q.1 <;> rfl

/-- A trail without repetitions that is not longer than `limit`. -/
structure Proper (limit : Nat) (trail : List Nat) : Prop where
  distinct : trail.Nodup
  short : trail.length ≤ limit

/-- With the trail `trail`, `x` comes to the end that `y` comes to. It leaves the trail as it was, and
sets it to proper ones only. -/
def Mirrors (limit : Nat) (trail : List Nat) (α : Type) (x : InPlace ω α) (y : Asking ω α) : Prop :=
  ∀ p : Progress ω, p.trail = trail → ∃ more, (∀ t ∈ more, Proper limit t) ∧
    x.run? p = some ((y.answer p.world).1, ⟨trail, p.trails ++ more, (y.answer p.world).2⟩)

theorem mirrors_simulates (limit : Nat) (trail : List Nat) :
    Simulates (m := InPlace ω) (n := Asking ω) (Mirrors limit trail) where
  pure a := by
    rintro p rfl
    exact ⟨[], by simp, by simp; rfl⟩
  throw e := by
    rintro p rfl
    exact ⟨[], by simp, by simp; rfl⟩
  bind := by
    rintro α β x y f g hx hf p rfl
    obtain ⟨more, hmore, hrun⟩ := hx p rfl
    rw [InPlace.run?_bind, hrun, Asking.answer_bind, Option.bind_some]
    cases (y.answer p.world).1 with
    | error e => exact ⟨more, hmore, rfl⟩
    | ok a =>
        obtain ⟨more', hmore', hrun'⟩ := hf a ⟨p.trail, p.trails ++ more, (y.answer p.world).2⟩ rfl
        refine ⟨more ++ more', ?_, ?_⟩
        · simpa [or_imp, forall_and] using ⟨hmore, hmore'⟩
        · rw [← List.append_assoc]
          exact hrun'

theorem ask_mirrors (limit : Nat) (trail : List Nat) (x : Asking ω α) :
    Mirrors limit trail α (.ask x) x := by
  rintro p rfl
  exact ⟨[], by simp, by simp; rfl⟩

theorem InPlace.run?_below (id : Nat) (x : InPlace ω α) (p : Progress ω) :
    (below id x).run? p =
      (x.run? ⟨p.trail ++ [id], p.trails ++ [p.trail ++ [id]], p.world⟩).map fun q =>
        (q.1, ⟨q.2.trail.dropLast, q.2.trails ++ [q.2.trail.dropLast], q.2.world⟩) := by
  have hlift (q : Progress ω) : run? (ExceptT.lift x.run) q =
      (x.run? q).map fun o => (.ok o.1, o.2) := by
    simp [run?, Option.map_eq_bind]
  simp only [below, run?_bind]
  show (run? (ExceptT.lift x.run) _).bind _ = _
  rw [hlift]
  cases x.run? ⟨p.trail ++ [id], p.trails ++ [p.trail ++ [id]], p.world⟩ with
  | none => rfl
  | some q =>
      obtain ⟨answer, q⟩ := q
      cases answer <;> rfl

theorem below_mirrors {limit : Nat} {trail : List Nat} {id : Nat} {x : InPlace ω α} {y : Asking ω α}
    (htrail : Proper limit trail) (hid : Proper limit (trail ++ [id]))
    (h : Mirrors limit (trail ++ [id]) α x y) : Mirrors limit trail α (.below id x) y := by
  rintro p rfl
  obtain ⟨more, hmore, hrun⟩ := h ⟨p.trail ++ [id], p.trails ++ [p.trail ++ [id]], p.world⟩ rfl
  refine ⟨(p.trail ++ [id]) :: more ++ [p.trail], ?_, ?_⟩
  · simpa [or_imp, forall_and] using ⟨hid, hmore, htrail⟩
  · rw [InPlace.run?_below, hrun]
    simp

theorem getTrail_mirrors {limit : Nat} {trail : List Nat} {f : List Nat → InPlace ω α}
    {y : Asking ω α} (h : Mirrors limit trail α (f trail) y) :
    Mirrors limit trail α (InPlace.getTrail >>= f) y := by
  rintro p rfl
  exact h p rfl

theorem Proper.snoc {limit id : Nat} {trail : List Nat} (h : Proper limit trail) (hid : id ∉ trail)
    (hlength : trail.length < limit) : Proper limit (trail ++ [id]) where
  distinct := by
    rw [← List.concat_eq_append]
    exact h.distinct.concat hid
  short := by simpa using Nat.succ_le_of_lt hlength

theorem Proper.of_length_le_one {limit : Nat} {trail : List Nat} (h : trail.length ≤ 1) :
    Proper (limit + 1) trail := by
  refine ⟨?_, by omega⟩
  match trail, h with
  | [], _ => exact List.nodup_nil
  | [a], _ => exact List.nodup_singleton a

/-! ## References -/

/-- The induction is on the levels; with every reference that is followed, the trail gets longer. -/
theorem follow_mirrors (r : Resolver) (lookup : Nat → Asking ω Group) (levels : Nat)
    {trail : List Nat} (htrail : Proper (r.maxDepth + 1) trail)
    (hlevels : r.maxDepth + 1 - trail.length < levels) (value : String) :
    Mirrors (r.maxDepth + 1) trail IdSet (InPlace.follow r lookup levels value)
      (follow r lookup (r.maxDepth + 1 - trail.length) trail value) := by
  induction levels generalizing trail value with
  | zero => omega
  | succ levels ih =>
      have hsim : Simulates (m := InPlace ω) (n := Asking ω) (Mirrors (r.maxDepth + 1) trail) :=
        mirrors_simulates _ _
      rw [InPlace.follow, follow.eq_def]
      cases hid : referredId? value with
      | none => simpa [hid] using hsim.throw _
      | some id =>
          simp only [hid]
          refine getTrail_mirrors ?_
          by_cases hmem : trail.contains id = true
          · simpa only [hmem, if_true] using hsim.throw _
          · simp only [hmem]
            -- the allowance is used up when the trail has got too long, and not before
            rcases Nat.lt_or_ge r.maxDepth trail.length with hdeep | hdeep
            · rw [if_pos hdeep, Nat.sub_eq_zero_of_le hdeep]
              exact hsim.throw _
            · have hlonger : Proper (r.maxDepth + 1) (trail ++ [id]) :=
                htrail.snoc (by simpa using hmem) (Nat.lt_succ_of_le hdeep)
              have hfollow := ih hlonger (by simp; omega)
              rw [List.length_append, List.length_singleton, Nat.add_sub_add_right] at hfollow
              rw [if_neg (Nat.not_lt_of_le hdeep), Nat.succ_sub hdeep]
              exact hsim.bind (ask_mirrors _ _ _) fun g => below_mirrors htrail hlonger
                (compile_simulates (mirrors_simulates _ _) hfollow g.rules.toRule)

/-! ## Levels -/

/-- However `x` ends, `y` ends in the same way. -/
def Ends (α : Type) (x y : InPlace ω α) : Prop :=
  ∀ p result, x.run? p = some result → y.run? p = some result

theorem Ends.refl (x : InPlace ω α) : Ends α x x := fun _ _ h => h

theorem ends_simulates : Simulates (m := InPlace ω) (n := InPlace ω) Ends where
  pure _ _ _ h := h
  throw _ _ _ h := h
  bind := by
    intro α β x y f g hxy hfg p result hresult
    rw [InPlace.run?_bind, Option.bind_eq_some_iff] at hresult
    obtain ⟨⟨answer, q⟩, hx, hf⟩ := hresult
    rw [InPlace.run?_bind, hxy p _ hx, Option.bind_some]
    cases answer with
    | error e => exact hf
    | ok a => exact hfg a q result hf

theorem below_ends {id : Nat} {x y : InPlace ω α} (h : Ends α x y) :
    Ends α (.below id x) (.below id y) := by
  intro p result hresult
  rw [InPlace.run?_below, Option.map_eq_some_iff] at hresult
  obtain ⟨inner, hx, rfl⟩ := hresult
  rw [InPlace.run?_below, h _ inner hx, Option.map_some]

/-- A run that ends is not changed by more levels. -/
theorem follow_ends (r : Resolver) (lookup : Nat → Asking ω Group) {levels more : Nat}
    (hle : levels ≤ more) (value : String) :
    Ends IdSet (InPlace.follow r lookup levels value) (InPlace.follow r lookup more value) := by
  induction levels generalizing more value with
  | zero =>
      intro p result hresult
      cases hresult
  | succ levels ih =>
      obtain ⟨more, rfl⟩ := Nat.exists_eq_succ_of_ne_zero (Nat.ne_zero_of_lt hle)
      have hfollow := ih (Nat.le_of_succ_le_succ hle)
      rw [InPlace.follow, InPlace.follow]
      cases referredId? value with
      | none => exact .refl _
      | some id =>
          refine ends_simulates.bind (.refl _) fun trail => ?_
          split
          · exact .refl _
          · split
            · exact .refl _
            · exact ends_simulates.bind (.refl _) fun g =>
                below_ends (compile_simulates ends_simulates hfollow g.rules.toRule)

/-- Whatever is answered to its look-ups, a run with one trail ends, and it ends as the resolution
does. The trail is then what it was before; on the way all ids on it are different, and there are no
more of them than one for each reference that may follow another. -/
theorem compile_ends (r : Resolver) (lookup : Nat → Asking ω Group) (rule : Rule) (p : Progress ω)
    (htrail : p.trail.length ≤ 1) :
    ∃ outcome q more,
      (∀ levels, r.maxDepth + 1 < levels →
        (compile r.inventory (InPlace.follow r lookup levels) rule).run? p = some (outcome, q)) ∧
      q.trail = p.trail ∧ q.trails = p.trails ++ more ∧
      (∀ t ∈ p.trail :: more, t.Nodup ∧ t.length ≤ r.maxDepth + 1) ∧
      (outcome, q.world) = Asking.answer (compile r.inventory
        (follow r lookup (r.maxDepth + 1 - p.trail.length) p.trail) rule) p.world := by
  have hproper : Proper (r.maxDepth + 1) p.trail := .of_length_le_one htrail
  obtain ⟨more, hmore, hrun⟩ := compile_simulates (mirrors_simulates _ _)
    (follow_mirrors r lookup (r.maxDepth + 2) hproper (by omega)) rule p rfl
  refine ⟨_, _, more, fun levels hlevels => compile_simulates ends_simulates
    (follow_ends r lookup hlevels) rule p _ hrun, rfl, rfl, ?_, rfl⟩
  exact List.forall_mem_cons.mpr ⟨⟨hproper.distinct, hproper.short⟩,
    fun t ht => ⟨(hmore t ht).distinct, (hmore t ht).short⟩⟩

/-- Every look-up is answered by a group that refers to another id than the one before. -/
def turning (_ : Nat) : Asking Nat Group :=
  modifyGet fun n =>
    ({ rules := ⟨.and, [.condition (.of .group .equals (toString (n % 3 + 1)))]⟩ }, n + 1)

def turningRule : Rule :=
  .nested .or [.condition (.of .group .equals "1"), .condition (.of .group .equals "4")]

theorem compile_ends_turning :
    ∃ q : Progress Nat,
      InPlace.run? (compile {} (InPlace.follow {} turning 12) turningRule) ⟨[], [], 1⟩ =
        some (.error (.cycle [1, 2, 3, 1]), q) ∧
      q.trail = [] ∧ q.world = 4 := by
  obtain ⟨outcome, q, more, hrun, htrail, -, -, hanswer⟩ :=
    compile_ends {} turning turningRule ⟨[], [], 1⟩ (by decide)
  have hcycle : IdSet.ids <$> (Asking.answer (compile {} (follow {} turning 11 []) turningRule) 1).1 =
      .error (.cycle [1, 2, 3, 1]) := by
    decide +kernel
  have hworld : (Asking.answer (compile {} (follow {} turning 11 []) turningRule) 1).2 = 4 := by
    decide +kernel
  have houtcome := (congrArg Prod.fst hanswer).trans (map_eq_error.mp hcycle)
  exact ⟨q, by rw [hrun 12 (by decide), ← houtcome], htrail, (congrArg Prod.snd hanswer).trans hworld⟩

end AssetGroups.Resolver
