import AssetGroups.Proofs.Script
import Mathlib.Data.List.Forall2

/-!
# What scripts guarantee

A script may rely on something of every state that it finds, whoever has left it. Relying on this it
guarantees something of each of its steps, and of its answer.
-/

namespace AssetGroups

namespace Script

variable {σ α β : Type} {P : σ → Prop} {R : σ → σ → Prop} {Q Q' : α → Prop} {x : Script σ α}

/-- As long as every step finds a state with `P`, each is within `R`, and the answer has `Q`. -/
def Guarantees (P : σ → Prop) (R : σ → σ → Prop) (Q : α → Prop) : Script σ α → Prop
  | .done a => Q a
  | .step act next => ∀ s, P s → R s (act s) ∧ (next s).Guarantees P R Q
  | .takeTurn next => next.Guarantees P R Q
  | .giveTurn next => next.Guarantees P R Q

namespace Guarantees

theorem pure {a : α} (h : Q a) : (Pure.pure a : Script σ α).Guarantees P R Q := h

theorem once {f : σ → α × σ} (h : ∀ s, P s → R s (f s).2 ∧ Q (f s).1) :
    (Script.once f).Guarantees P R Q := h

theorem mono (h : x.Guarantees P R Q) (himp : ∀ a, Q a → Q' a) : x.Guarantees P R Q' := by
  induction x with
  | done a => exact himp a h
  | step act next ih => exact fun s hs => ⟨(h s hs).1, ih s (h s hs).2⟩
  | takeTurn next ih => exact ih h
  | giveTurn next ih => exact ih h

/-- Every script may take steps and answer. -/
theorem any (x : Script σ α) : x.Guarantees P (fun _ _ => True) fun _ => True := by
  induction x with
  | done a => trivial
  | step act next ih => exact fun s _ => ⟨trivial, ih s⟩
  | takeTurn next ih => exact ih
  | giveTurn next ih => exact ih

theorem bind {T : β → Prop} {f : α → Script σ β} (hx : x.Guarantees P R Q)
    (hf : ∀ a, Q a → (f a).Guarantees P R T) : (x >>= f).Guarantees P R T := by
  show (x.bind f).Guarantees P R T
  induction x with
  | done a => exact hf a hx
  | step act next ih => exact fun s hs => ⟨(hx s hs).1, ih s (hx s hs).2⟩
  | takeTurn next ih => exact ih hx
  | giveTurn next ih => exact ih hx

theorem map {T : β → Prop} {f : α → β} (hx : x.Guarantees P R Q) (hf : ∀ a, Q a → T (f a)) :
    (f <$> x).Guarantees P R T :=
  hx.bind hf

theorem inTurn (hx : x.Guarantees P R Q) : x.inTurn.Guarantees P R Q :=
  hx.bind (f := fun a => .giveTurn (.done a)) fun _ => id

theorem mapM {T : α → β → Prop} {f : α → Script σ β} {as : List α}
    (hf : ∀ a ∈ as, (f a).Guarantees P R (T a)) :
    (as.mapM f).Guarantees P R (List.Forall₂ T as) := by
  induction as with
  | nil => exact .pure .nil
  | cons a as ih =>
      obtain ⟨ha, has⟩ := List.forall_mem_cons.mp hf
      rw [List.mapM_cons]
      exact ha.bind fun b hb => (ih has).bind fun bs hbs => .pure (.cons hb hbs)

theorem mapM_forall {T : β → Prop} {f : α → Script σ β} {as : List α}
    (hf : ∀ a ∈ as, (f a).Guarantees P R T) :
    (as.mapM f).Guarantees P R fun bs => ∀ b ∈ bs, T b := by
  refine (mapM (T := fun _ => T) hf).mono fun bs h => ?_
  induction h with
  | nil => simp
  | cons hb _ ih => exact List.forall_mem_cons.mpr ⟨hb, ih (List.forall_mem_cons.mp hf).2⟩

/-! ## Steps that were taken -/

theorem leads {y : Script σ α} {steps : List (σ × σ)} (h : x.Guarantees P R Q)
    (hleads : x.Leads steps y) (hP : ∀ p ∈ steps, P p.1) :
    y.Guarantees P R Q ∧ ∀ p ∈ steps, R p.1 p.2 := by
  induction hleads with
  | refl x => exact ⟨h, by simp⟩
  | step s _ ih =>
      obtain ⟨hs, hrest⟩ := List.forall_mem_cons.mp hP
      obtain ⟨hy, hsteps⟩ := ih (h s hs).2 hrest
      exact ⟨hy, List.forall_mem_cons.mpr ⟨(h s hs).1, hsteps⟩⟩
  | takeTurn _ ih => exact ih h hP
  | giveTurn _ ih => exact ih h hP

theorem answers {steps : List (σ × σ)} {a : α} (h : x.Guarantees P R Q)
    (hanswers : x.Answers steps a) (hP : ∀ p ∈ steps, P p.1) : Q a :=
  (h.leads hanswers hP).1

/-- A script that runs by itself, and leaves what it relies on as it was, gives its answer. -/
theorem run (h : x.Guarantees P R Q) (hkeeps : ∀ s t, P s → R s t → P t) {s : σ} (hs : P s) :
    Q (x.run s).1 := by
  induction x generalizing s with
  | done a => exact h
  | step act next ih => exact ih s (h s hs).2 (hkeeps _ _ hs (h s hs).1)
  | takeTurn next ih => exact ih h hs
  | giveTurn next ih => exact ih h hs

end Guarantees

end Script

/-! ## Work -/

namespace Work

variable {α β : Type} {P : Site → Prop} {R : Site → Site → Prop} {Q Q' : α → Prop} {T : β → Prop}
    {E E' : GroupError → Prop} {w : Work α}

/-- The answer has `Q`, or the error has `E`. -/
def Ends (Q : α → Prop) (E : GroupError → Prop) : Except GroupError α → Prop
  | .ok a => Q a
  | .error e => E e

/-- Work whose answer has `Q`, or whose error has `E`. -/
def Guarantees (P : Site → Prop) (R : Site → Site → Prop) (Q : α → Prop) (E : GroupError → Prop)
    (w : Work α) : Prop :=
  w.run.Guarantees P R (Ends Q E)

namespace Guarantees

theorem pure {a : α} (h : Q a) : Guarantees P R Q E (Pure.pure a : Work α) := h

theorem throw {e : GroupError} (h : E e) : Guarantees P R Q E (MonadExcept.throw e : Work α) := h

theorem bind {f : α → Work β} (hw : w.Guarantees P R Q E)
    (hf : ∀ a, Q a → (f a).Guarantees P R T E) : (w >>= f).Guarantees P R T E := by
  refine Script.Guarantees.bind (x := w.run) hw fun r hr => ?_
  cases r with
  | error e => exact hr
  | ok a => exact hf a hr

theorem map {f : α → β} (hw : w.Guarantees P R Q E) (hf : ∀ a, Q a → T (f a)) :
    (f <$> w).Guarantees P R T E := by
  rw [map_eq_pure_bind]
  exact hw.bind fun a ha => .pure (hf a ha)

theorem mono (hw : w.Guarantees P R Q E) (hQ : ∀ a, Q a → Q' a) (hE : ∀ e, E e → E' e) :
    w.Guarantees P R Q' E' := by
  refine Script.Guarantees.mono hw fun r hr => ?_
  cases r with
  | error e => exact hE e hr
  | ok a => exact hQ a hr

theorem asWork {a : Acquisition α} (h : ∀ s, P s → R s (a.run s).2 ∧ Ends Q E (a.run s).1) :
    a.asWork.Guarantees P R Q E :=
  Script.Guarantees.once h

theorem monadLift {x : Except GroupError α} (h : Ends Q E x) :
    Guarantees P R Q E (MonadLift.monadLift x : Work α) := by
  cases x <;> exact h

theorem inTurn (hw : w.Guarantees P R Q E) : (inTurn w).Guarantees P R Q E :=
  Script.Guarantees.inTurn hw

/-- Work that is looked at from outside always answers. -/
theorem lift (hw : w.Guarantees P R Q E) :
    Guarantees P R (Ends Q E) E' (ExceptT.lift w.run) :=
  Script.Guarantees.map hw fun _ => id

end Guarantees

end Work

end AssetGroups
