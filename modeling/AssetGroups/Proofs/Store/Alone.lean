import AssetGroups.Job.Basic

/-!
# Work with nobody else acting

The outcome of work at a site on which nobody else acts meanwhile: the answer and the site that is left
behind. The outcome of a chain of steps is put together from the outcomes of the steps.
-/

namespace AssetGroups

variable {α β : Type}

/-- An answer, or the error that kept it from being given, and the site that is left behind. -/
abbrev Outcome (α : Type) := Except GroupError α × Site

/-- The outcome of a step, and of what follows it if it gives an answer. -/
def Outcome.andThen (o : Outcome α) (next : α → Site → Outcome β) : Outcome β :=
  match o with
  | (.ok a, t) => next a t
  | (.error e, t) => (.error e, t)

@[simp]
theorem Outcome.andThen_ok (a : α) (t : Site) (next : α → Site → Outcome β) :
    Outcome.andThen (.ok a, t) next = next a t := rfl

@[simp]
theorem Outcome.andThen_error (e : GroupError) (t : Site) (next : α → Site → Outcome β) :
    Outcome.andThen (.error e, t) next = (.error e, t) := rfl

theorem Outcome.eq_of_fst {o : Outcome α} {r : Except GroupError α} (h : o.1 = r) : o = (r, o.2) :=
  Prod.ext h rfl

/-! ## Acquisitions -/

namespace Acquisition

@[simp]
theorem run_pure (a : α) (s : Site) : (pure a : Acquisition α).run s = (.ok a, s) := rfl

theorem run_bind (x : Acquisition α) (f : α → Acquisition β) (s : Site) :
    (x >>= f).run s = Outcome.andThen (x.run s) fun a t => (f a).run t := by
  rw [ExceptT.run_bind]
  simp only [bind, StateT.bind]
  rcases h : x.run s with ⟨_ | _, _⟩ <;> rfl

@[simp]
theorem run_onDisk (f : Disk → Except GroupError α × Disk) (s : Site) :
    (onDisk f).run s = ((f s.disk).1, { s with disk := (f s.disk).2 }) := rfl

@[simp]
theorem run_get (s : Site) : (get : Acquisition Site).run s = (.ok s, s) := rfl

@[simp]
theorem run_modify (f : Site → Site) (s : Site) :
    (modify f : Acquisition Unit).run s = (.ok (), f s) := rfl

@[simp]
theorem run_database (s : Site) : database.run s = (.ok s.slot.database, s) := rfl

@[simp]
theorem run_known? (s : Site) :
    known?.run s = (.ok (if s.slot.loaded then some s.slot.database else none), s) := rfl

end Acquisition

/-! ## Work -/

namespace Work

/-- What becomes of work at a site, and the site after it. -/
def outcome (w : Work α) (s : Site) : Outcome α := w.run.run s

@[simp]
theorem outcome_pure (a : α) (s : Site) : outcome (pure a) s = (.ok a, s) := rfl

theorem outcome_bind (w : Work α) (f : α → Work β) (s : Site) :
    outcome (w >>= f) s = (outcome w s).andThen fun a t => outcome (f a) t := by
  show ((w.run >>= _ : Script Site _)).run s = _
  rw [Script.run_bind]
  unfold outcome
  rcases w.run.run s with ⟨_ | _, _⟩ <;> rfl

theorem outcome_map (f : α → β) (w : Work α) (s : Site) :
    outcome (f <$> w) s = ((outcome w s).1.map f, (outcome w s).2) := by
  show ((w.run >>= _ : Script Site _)).run s = _
  rw [Script.run_bind]
  unfold outcome
  rcases w.run.run s with ⟨_ | _, _⟩ <;> rfl

@[simp]
theorem outcome_asWork (a : Acquisition α) (s : Site) : outcome a.asWork s = a.run s := rfl

@[simp]
theorem outcome_monadLift (x : Except GroupError α) (s : Site) :
    outcome (MonadLift.monadLift x : Work α) s = (x, s) := by
  cases x <;> rfl

@[simp]
theorem outcome_inTurn (w : Work α) (s : Site) : outcome (inTurn w) s = outcome w s :=
  Script.run_inTurn w.run s

theorem outcome_discard (w : Work α) (s : Site) :
    outcome (discard w) s = ((outcome w s).1.map fun _ => (), (outcome w s).2) :=
  outcome_map _ w s

theorem outcome_bind_ok {w : Work α} {f : α → Work β} {s u : Site} {b : β} :
    outcome (w >>= f) s = (.ok b, u) ↔
      ∃ a t, outcome w s = (.ok a, t) ∧ outcome (f a) t = (.ok b, u) := by
  rw [outcome_bind]
  rcases outcome w s with ⟨_ | a, t⟩
  · simp
  · simp [and_assoc]

end Work

end AssetGroups
