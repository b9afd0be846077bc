import AssetGroups.Proofs.Store.Alone

/-!
# Scripts among others

What can be said of a script when others act between its steps: what each of its steps does, and which
steps it has taken when it answers.
-/

namespace AssetGroups

namespace Script

variable {σ α β : Type} {R : σ → σ → Prop}

/-! ## What each step does -/

/-- Every step is within the relation, whatever state it finds. -/
def Within (R : σ → σ → Prop) : Script σ α → Prop
  | .done _ => True
  | .step act next => ∀ s, R s (act s) ∧ (next s).Within R
  | .takeTurn next => next.Within R
  | .giveTurn next => next.Within R

namespace Within

theorem bind {x : Script σ α} {f : α → Script σ β} (hx : x.Within R) (hf : ∀ a, (f a).Within R) :
    (x >>= f).Within R := by
  show (x.bind f).Within R
  induction x with
  | done a => exact hf a
  | step act next ih => exact fun s => ⟨(hx s).1, ih s (hx s).2⟩
  | takeTurn next ih => exact ih hx
  | giveTurn next ih => exact ih hx

theorem pure (a : α) : (Pure.pure a : Script σ α).Within R := trivial

theorem once {f : σ → α × σ} (hf : ∀ s, R s (f s).2) : (Script.once f).Within R :=
  fun s => ⟨hf s, trivial⟩

theorem map {x : Script σ α} (hx : x.Within R) (f : α → β) : (f <$> x).Within R :=
  hx.bind fun _ => trivial

theorem inTurn {x : Script σ α} (hx : x.Within R) : x.inTurn.Within R :=
  hx.bind (f := fun a => .giveTurn (.done a)) fun _ => trivial

theorem mapM {f : α → Script σ β} (hf : ∀ a, (f a).Within R) (as : List α) :
    (as.mapM f).Within R := by
  have hloop : ∀ bs : List β, (List.mapM.loop f as bs).Within R := by
    induction as with
    | nil => exact fun bs => .pure _
    | cons a as ih => exact fun bs => (hf a).bind fun b => ih (b :: bs)
  exact hloop []

end Within

/-! ## Which steps were taken -/

/-- The second script is what is left of the first after some steps: each pair holds the state that a
step found and the one that it left. Giving and taking the turn are no steps. -/
inductive Leads : Script σ α → List (σ × σ) → Script σ α → Prop where
  | refl (x : Script σ α) : Leads x [] x
  | step {act : σ → σ} {next : σ → Script σ α} {steps : List (σ × σ)} {y : Script σ α} (s : σ) :
      Leads (next s) steps y → Leads (.step act next) ((s, act s) :: steps) y
  | takeTurn {next y : Script σ α} {steps : List (σ × σ)} :
      Leads next steps y → Leads (.takeTurn next) steps y
  | giveTurn {next y : Script σ α} {steps : List (σ × σ)} :
      Leads next steps y → Leads (.giveTurn next) steps y

variable {steps : List (σ × σ)}

namespace Leads

variable {x y : Script σ α}

theorem trans {z : Script σ α} {more : List (σ × σ)} (h : x.Leads steps y) (h' : y.Leads more z) :
    x.Leads (steps ++ more) z := by
  induction h with
  | refl x => exact h'
  | step s _ ih => exact .step s (ih h')
  | takeTurn _ ih => exact .takeTurn (ih h')
  | giveTurn _ ih => exact .giveTurn (ih h')

theorem within (h : x.Leads steps y) (hx : x.Within R) : y.Within R := by
  induction h with
  | refl x => exact hx
  | step s _ ih => exact ih (hx s).2
  | takeTurn _ ih => exact ih hx
  | giveTurn _ ih => exact ih hx

theorem forall_within (h : x.Leads steps y) (hx : x.Within R) :
    ∀ p ∈ steps, R p.1 p.2 := by
  induction h with
  | refl x => simp
  | step s _ ih => exact List.forall_mem_cons.mpr ⟨(hx s).1, ih (hx s).2⟩
  | takeTurn _ ih => exact ih hx
  | giveTurn _ ih => exact ih hx

end Leads

/-- The script answers `a` after having taken the steps. -/
def Answers (x : Script σ α) (steps : List (σ × σ)) (a : α) : Prop := x.Leads steps (.done a)

section

variable {a : α} {b : β}

theorem answers_done {a' : α} :
    (Script.done a' : Script σ α).Answers steps a ↔ steps = [] ∧ a' = a := by
  constructor
  · intro h
    cases h
    exact ⟨rfl, rfl⟩
  · rintro ⟨rfl, rfl⟩
    exact .refl _

theorem answers_step {act : σ → σ} {next : σ → Script σ α} :
    (Script.step act next).Answers steps a ↔
      ∃ s rest, steps = (s, act s) :: rest ∧ (next s).Answers rest a := by
  constructor
  · intro h
    cases h with
    | step s h => exact ⟨s, _, rfl, h⟩
  · rintro ⟨s, rest, rfl, h⟩
    exact .step s h

theorem answers_takeTurn {next : Script σ α} :
    (Script.takeTurn next).Answers steps a ↔ next.Answers steps a :=
  ⟨fun h => by cases h; assumption, .takeTurn⟩

theorem answers_giveTurn {next : Script σ α} :
    (Script.giveTurn next).Answers steps a ↔ next.Answers steps a :=
  ⟨fun h => by cases h; assumption, .giveTurn⟩

theorem answers_bind {x : Script σ α} {f : α → Script σ β} :
    (x >>= f).Answers steps b ↔
      ∃ a first rest, steps = first ++ rest ∧ x.Answers first a ∧ (f a).Answers rest b := by
  show (x.bind f).Answers steps b ↔ _
  induction x generalizing steps with
  | done a =>
      simp only [bind, answers_done]
      constructor
      · exact fun h => ⟨a, [], steps, rfl, ⟨rfl, rfl⟩, h⟩
      · rintro ⟨_, _, _, rfl, ⟨rfl, rfl⟩, h⟩
        exact h
  | step act next ih =>
      simp only [bind, answers_step, ih]
      constructor
      · rintro ⟨s, _, rfl, a, first, rest, rfl, hfirst, hrest⟩
        exact ⟨a, (s, act s) :: first, rest, rfl, ⟨s, first, rfl, hfirst⟩, hrest⟩
      · rintro ⟨a, _, rest, rfl, ⟨s, first, rfl, hfirst⟩, hrest⟩
        exact ⟨s, first ++ rest, rfl, a, first, rest, rfl, hfirst, hrest⟩
  | takeTurn next ih => simp only [bind, answers_takeTurn, ih]
  | giveTurn next ih => simp only [bind, answers_giveTurn, ih]

theorem answers_once {f : σ → α × σ} :
    (once f).Answers steps a ↔ ∃ s, steps = [(s, (f s).2)] ∧ (f s).1 = a := by
  simp only [once, answers_step, answers_done]
  constructor
  · rintro ⟨s, _, rfl, rfl, ha⟩
    exact ⟨s, rfl, ha⟩
  · rintro ⟨s, rfl, ha⟩
    exact ⟨s, [], rfl, rfl, ha⟩

theorem answers_map {x : Script σ α} {f : α → β} :
    (f <$> x).Answers steps b ↔ ∃ a, x.Answers steps a ∧ f a = b := by
  show (x >>= fun a => .done (f a)).Answers steps b ↔ _
  simp only [answers_bind, answers_done]
  constructor
  · rintro ⟨a, first, _, rfl, ha, rfl, rfl⟩
    exact ⟨a, by simpa using ha, rfl⟩
  · rintro ⟨a, ha, rfl⟩
    exact ⟨a, steps, [], by simp, ha, rfl, rfl⟩

theorem answers_inTurn {x : Script σ α} : x.inTurn.Answers steps a ↔ x.Answers steps a := by
  show (Script.takeTurn (x >>= fun a => .giveTurn (.done a))).Answers steps a ↔ _
  simp only [answers_takeTurn, answers_bind, answers_giveTurn, answers_done]
  constructor
  · rintro ⟨_, first, _, rfl, h, rfl, rfl⟩
    simpa using h
  · exact fun h => ⟨a, steps, [], by simp, h, rfl, rfl⟩

end

/-! ## With nobody else acting -/

/-- Each step finds what the one before it has left. -/
def Linked : σ → List (σ × σ) → σ → Prop
  | s, [], t => s = t
  | s, (u, v) :: steps, t => s = u ∧ Linked v steps t

theorem Linked.related (hrefl : ∀ s, R s s) (htrans : ∀ s t u, R s t → R t u → R s u) {s t : σ}
    (h : Linked s steps t) (hsteps : ∀ p ∈ steps, R p.1 p.2) : R s t := by
  induction steps generalizing s with
  | nil =>
      obtain rfl : s = t := h
      exact hrefl s
  | cons p steps ih =>
      obtain ⟨rfl, hrest⟩ := h
      obtain ⟨hp, hsteps⟩ := List.forall_mem_cons.mp hsteps
      exact htrans _ _ _ hp (ih hrest hsteps)

/-- A script that runs by itself answers after steps that are linked. -/
theorem answers_run (x : Script σ α) (s : σ) :
    ∃ steps, x.Answers steps (x.run s).1 ∧ Linked s steps (x.run s).2 := by
  induction x generalizing s with
  | done a => exact ⟨[], answers_done.mpr ⟨rfl, rfl⟩, rfl⟩
  | step act next ih =>
      obtain ⟨steps, hanswers, hlinked⟩ := ih s (act s)
      exact ⟨(s, act s) :: steps, answers_step.mpr ⟨s, steps, rfl, hanswers⟩, rfl, hlinked⟩
  | takeTurn next ih =>
      obtain ⟨steps, hanswers, hlinked⟩ := ih s
      exact ⟨steps, answers_takeTurn.mpr hanswers, hlinked⟩
  | giveTurn next ih =>
      obtain ⟨steps, hanswers, hlinked⟩ := ih s
      exact ⟨steps, answers_giveTurn.mpr hanswers, hlinked⟩

end Script

/-! ## Work -/

namespace Work

variable {α β : Type} {R : Site → Site → Prop}

theorem run_asWork_bind (a : Acquisition α) (f : α → Work β) :
    (a.asWork >>= f).run = .step (fun s => (a.run s).2) fun s =>
      match (a.run s).1 with
      | .ok b => (f b).run
      | .error e => .done (.error e) := by
  show Script.step _ _ = _
  congr 1
  funext s
  show Script.bind (.done (a.run s).1) _ = _
  cases (a.run s).1 <;> rfl

theorem map_monadLift (f : α → β) (x : Except GroupError α) :
    f <$> (MonadLift.monadLift x : Work α) = MonadLift.monadLift (x.map f) := by
  cases x <;> rfl

def Within (R : Site → Site → Prop) (w : Work α) : Prop := w.run.Within R

namespace Within

theorem pure (a : α) : Within R (Pure.pure a : Work α) := trivial

theorem throw (e : GroupError) : Within R (MonadExcept.throw e : Work α) := trivial

theorem bind {w : Work α} {f : α → Work β} (hw : Within R w) (hf : ∀ a, Within R (f a)) :
    Within R (w >>= f) := by
  refine Script.Within.bind (x := w.run) hw fun r => ?_
  cases r with
  | error e => trivial
  | ok a => exact hf a

theorem map {w : Work α} (hw : Within R w) (f : α → β) : Within R (f <$> w) := by
  refine Script.Within.bind (x := w.run) hw fun r => ?_
  cases r <;> trivial

theorem asWork {a : Acquisition α} (ha : ∀ s, R s (a.run s).2) : Within R a.asWork :=
  Script.Within.once ha

theorem inTurn {w : Work α} (hw : Within R w) : Within R (inTurn w) := Script.Within.inTurn hw

theorem lift {x : Script Site α} (hx : x.Within R) : Within R (ExceptT.lift x) :=
  hx.bind fun _ => trivial

theorem monadLift (x : Except GroupError α) : Within R (MonadLift.monadLift x : Work α) := by
  cases x <;> trivial

end Within

/-- The work answers, or fails, after the steps. -/
def Answers (w : Work α) (steps : List (Site × Site)) (r : Except GroupError α) : Prop :=
  w.run.Answers steps r

section

variable {steps : List (Site × Site)} {a : α} {b : β}

theorem answers_pure {r : Except GroupError α} :
    Answers (pure a) steps r ↔ steps = [] ∧ .ok a = r := Script.answers_done

theorem answers_throw {e : GroupError} {r : Except GroupError α} :
    Answers (throw e) steps r ↔ steps = [] ∧ .error e = r := Script.answers_done

theorem answers_bind {w : Work α} {f : α → Work β} {r : Except GroupError β} :
    Answers (w >>= f) steps r ↔
      (∃ a first rest, steps = first ++ rest ∧ Answers w first (.ok a) ∧ Answers (f a) rest r) ∨
        ∃ e, Answers w steps (.error e) ∧ .error e = r := by
  show (w.run >>= _ : Script Site _).Answers steps r ↔ _
  rw [Script.answers_bind]
  constructor
  · rintro ⟨e | a, first, rest, rfl, hfirst, hrest⟩
    · obtain ⟨rfl, hr⟩ := Script.answers_done.mp hrest
      exact Or.inr ⟨e, by rwa [List.append_nil], hr⟩
    · exact Or.inl ⟨a, first, rest, rfl, hfirst, hrest⟩
  · rintro (⟨a, first, rest, rfl, hfirst, hrest⟩ | ⟨e, he, hr⟩)
    · exact ⟨.ok a, first, rest, rfl, hfirst, hrest⟩
    · exact ⟨.error e, steps, [], by simp, he, Script.answers_done.mpr ⟨rfl, hr⟩⟩

theorem answers_bind_ok {w : Work α} {f : α → Work β} :
    Answers (w >>= f) steps (.ok b) ↔
      ∃ a first rest, steps = first ++ rest ∧ Answers w first (.ok a) ∧ Answers (f a) rest (.ok b) := by
  simp [answers_bind]

theorem answers_bind_pure {w : Work α} {f : α → β} {r : Except GroupError β} :
    Answers (w >>= fun a => pure (f a)) steps r ↔ ∃ r', Answers w steps r' ∧ r'.map f = r := by
  rw [answers_bind]
  constructor
  · rintro (⟨a, first, _, rfl, hfirst, hrest⟩ | ⟨e, he, rfl⟩)
    · obtain ⟨rfl, rfl⟩ := answers_pure.mp hrest
      exact ⟨.ok a, by rwa [List.append_nil], rfl⟩
    · exact ⟨.error e, he, rfl⟩
  · rintro ⟨e | a, h, rfl⟩
    · exact Or.inr ⟨e, h, rfl⟩
    · exact Or.inl ⟨a, steps, [], (List.append_nil steps).symm, h, answers_pure.mpr ⟨rfl, rfl⟩⟩

theorem answers_asWork {x : Acquisition α} {r : Except GroupError α} :
    Answers x.asWork steps r ↔ ∃ s, steps = [(s, (x.run s).2)] ∧ (x.run s).1 = r :=
  Script.answers_once

theorem answers_monadLift {x r : Except GroupError α} :
    Answers (MonadLift.monadLift x : Work α) steps r ↔ steps = [] ∧ x = r := by
  cases x <;> exact Script.answers_done

theorem answers_inTurn {w : Work α} {r : Except GroupError α} :
    Answers (inTurn w) steps r ↔ Answers w steps r := Script.answers_inTurn

theorem answers_outcome (w : Work α) (s : Site) :
    ∃ steps, Answers w steps (w.outcome s).1 ∧ Script.Linked s steps (w.outcome s).2 :=
  w.run.answers_run s

/-- What holds of each step of work that nobody else acts besides holds from its beginning to its end. -/
theorem Within.outcome_related {R : Site → Site → Prop} {w : Work α} (R' : Site → Site → Prop)
    (hw : w.Within R) (himp : ∀ s t, R s t → R' s t) (hrefl : ∀ s, R' s s)
    (htrans : ∀ s t u, R' s t → R' t u → R' s u) (s : Site) : R' s (w.outcome s).2 := by
  obtain ⟨steps, hanswers, hlinked⟩ := w.answers_outcome s
  exact hlinked.related hrefl htrans fun p hp =>
    himp p.1 p.2 (Script.Leads.forall_within hanswers hw p hp)

end

end Work

end AssetGroups
