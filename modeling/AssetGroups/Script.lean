/-!
Scripts: computations on a shared state, cut into indivisible steps. Between two steps of a script
others may act on the state; a script that runs by itself is the special case in which nobody does.
-/

namespace AssetGroups

/-- An answer, or a step: what it makes of the state it finds, and how the script goes on after having
seen that state. A script that has taken the turn keeps it until it gives it back, and meanwhile
holds up every other one that is about to take it. -/
inductive Script (σ α : Type) where
  | done (answer : α)
  | step (act : σ → σ) (next : σ → Script σ α)
  | takeTurn (next : Script σ α)
  | giveTurn (next : Script σ α)

namespace Script

variable {σ α β : Type}

def bind : Script σ α → (α → Script σ β) → Script σ β
  | .done a, f => f a
  | .step act next, f => .step act fun s => (next s).bind f
  | .takeTurn next, f => .takeTurn (next.bind f)
  | .giveTurn next, f => .giveTurn (next.bind f)

instance : Monad (Script σ) where
  pure := .done
  bind := bind

theorem bind_done (x : Script σ α) : x.bind .done = x := by
  induction x with
  | done a => rfl
  | step act next ih => simp only [bind, ih]
  | takeTurn next ih => simp only [bind, ih]
  | giveTurn next ih => simp only [bind, ih]

theorem bind_assoc {γ : Type} (x : Script σ α) (f : α → Script σ β) (g : β → Script σ γ) :
    (x.bind f).bind g = x.bind fun a => (f a).bind g := by
  induction x with
  | done a => rfl
  | step act next ih => simp only [bind, ih]
  | takeTurn next ih => simp only [bind, ih]
  | giveTurn next ih => simp only [bind, ih]

instance : LawfulMonad (Script σ) := .mk' (Script σ) bind_done (fun _ _ => rfl) bind_assoc

/-- A single step that answers with something it saw. -/
def once (f : σ → α × σ) : Script σ α := .step (fun s => (f s).2) fun s => .done (f s).1

/-- A script that has the turn from its beginning to its end. -/
def inTurn (x : Script σ α) : Script σ α := .takeTurn (x.bind fun a => .giveTurn (.done a))

/-- Runs a script to its end with nobody else acting, so that it has the turn as soon as it asks. -/
def run : Script σ α → σ → α × σ
  | .done a, s => (a, s)
  | .step act next, s => (next s).run (act s)
  | .takeTurn next, s => next.run s
  | .giveTurn next, s => next.run s

@[simp]
theorem run_pure (a : α) (s : σ) : (pure a : Script σ α).run s = (a, s) := rfl

@[simp]
theorem run_once (f : σ → α × σ) (s : σ) : (once f).run s = f s := rfl

theorem run_bind (x : Script σ α) (f : α → Script σ β) (s : σ) :
    (x >>= f).run s = (f (x.run s).1).run (x.run s).2 := by
  show (x.bind f).run s = _
  induction x generalizing s with
  | done a => rfl
  | step act next ih => simp only [bind, run, ih]
  | takeTurn next ih => simp only [bind, run, ih]
  | giveTurn next ih => simp only [bind, run, ih]

@[simp]
theorem run_inTurn (x : Script σ α) (s : σ) : x.inTurn.run s = x.run s :=
  run_bind x (fun a => .giveTurn (.done a)) s

end Script

end AssetGroups
