import AssetGroups.Proofs.Event.Ledger

/-!
# Having the turn

A script that takes the turn for all of its steps has it until it has taken the last one. Meanwhile the
content changes only by its own steps, or by those of a script at another instance: every instance has a
turn of its own to give.
-/

namespace AssetGroups

variable {κ α β : Type} {cfg : Storage} {allowed : Database → Database → Prop}

/-! ## Scripts that have the turn -/

namespace Script

variable {σ : Type} {x y : Script σ α} {steps : List (σ × σ)}

/-- The turn is neither taken nor given back. -/
def OnlySteps : Script σ α → Prop
  | .done _ => True
  | .step _ next => ∀ s, (next s).OnlySteps
  | .takeTurn _ => False
  | .giveTurn _ => False

theorem OnlySteps.bind {f : α → Script σ β} (hx : x.OnlySteps) (hf : ∀ a, (f a).OnlySteps) :
    (x >>= f).OnlySteps := by
  show (x.bind f).OnlySteps
  induction x with
  | done a => exact hf a
  | step act next ih => exact fun s => ih s (hx s)
  | takeTurn next => cases hx
  | giveTurn next => cases hx

/-- The script goes on to give the turn back, after which it ends. -/
def Finishing : Script σ α → Prop
  | .done _ => False
  | .step _ next => ∀ s, (next s).Finishing
  | .takeTurn _ => False
  | .giveTurn next => ∃ a, next = .done a

theorem OnlySteps.finishing (hx : x.OnlySteps) (f : α → β) :
    (x >>= fun a => .giveTurn (.done (f a))).Finishing := by
  show (x.bind _).Finishing
  induction x with
  | done a => exact ⟨f a, rfl⟩
  | step act next ih => exact fun s => ih s (hx s)
  | takeTurn next => cases hx
  | giveTurn next => cases hx

theorem map_inTurn (f : α → β) (x : Script σ α) :
    f <$> x.inTurn = .takeTurn (x >>= fun a => .giveTurn (.done (f a))) := by
  show Script.takeTurn ((x.bind _).bind _) = .takeTurn (x.bind _)
  rw [bind_assoc]
  rfl

theorem Finishing.leads (hx : x.Finishing) (h : x.Leads steps y) :
    y.Finishing ∨ ∃ a, y = .done a := by
  induction h with
  | refl x => exact Or.inl hx
  | step s _ ih => exact ih (hx s)
  | takeTurn => cases hx
  | giveTurn h =>
      obtain ⟨a, rfl⟩ := hx
      cases h
      exact Or.inr ⟨a, rfl⟩

/-- Who gives the turn back must have it. -/
theorem Finishing.not_outside {x : Script Site α} {τ : Stage} (hx : x.Finishing) :
    ¬ x.Announcing cfg .outside τ := by
  intro hout
  induction x with
  | done a => cases hx
  -- on whatever site: a step taken without the turn leaves the script without it
  | step act next ih =>
      obtain ⟨ρ, hstep, hnext⟩ := hout {}
      cases hstep
      exact ih _ (hx _) hnext
  | takeTurn next => cases hx
  | giveTurn next => cases hout.1

end Script

theorem Work.onlySteps_closed (cfg : Storage) : Work.Closed cfg fun _ w => w.run.OnlySteps where
  pure _ := trivial
  throw _ := trivial
  bind {_ _ w _} hw hf := Script.OnlySteps.bind (x := w.run) hw fun r => by
    cases r with
    | error e => trivial
    | ok a => exact hf a
  kept _ _ := trivial

/-! ## Whose turn it is -/

theorem Stage.Step.stage {s t : Site} {ρ : Stage} {r : Running α} {owed : Option Event}
    (h : Stage.Step cfg s t (r.stage owed) ρ) : ∃ owed', ρ = r.stage owed' := by
  by_cases hhas : r.hasTurn = true
  · simp only [Running.stage, if_pos hhas] at h ⊢
    cases h with
    | kept => exact ⟨owed, rfl⟩
    | changed => exact ⟨_, rfl⟩
    | published => exact ⟨_, rfl⟩
  · simp only [Running.stage, if_neg hhas] at h ⊢
    cases h
    exact ⟨none, rfl⟩

namespace Schedule

variable {s s' : Schedule α} {k : Nat} {r r' : Running α}

/-- Every script announces what it changes, and of those at one instance at most one has the turn. -/
structure TakesTurns (cfg : Storage) (s : Schedule α) : Prop where
  staged : ∀ r ∈ s.running, ∃ owed, r.script.Announcing cfg (r.stage owed) .outside
  single : ∀ (j k : Nat) (r r' : Running α), s.running[j]? = some r → s.running[k]? = some r' →
    r.place = r'.place → r.hasTurn = true → r'.hasTurn = true → j = k

namespace TakesTurns

/-- Of all scripts but one nothing changes. -/
theorem set (h : s.TakesTurns cfg) (hk : s.running[k]? = some r) (c : Cluster)
    (hplace : r'.place = r.place)
    (hscript : ∃ owed, r'.script.Announcing cfg (r'.stage owed) .outside)
    (hturn : r'.hasTurn = true → r.hasTurn = true ∨ s.turnTaken r.place = false) :
    TakesTurns cfg ⟨c, s.running.set k r'⟩ where
  staged := forall_mem_set h.staged hscript
  single := by
    have hother : ∀ {j : Nat} {r'' : Running α}, j ≠ k → s.running[j]? = some r'' →
        r''.place = r.place → r'.hasTurn = true → r''.hasTurn = false := by
      intro j r'' hne hj hsame hhas'
      refine Bool.eq_false_iff.mpr fun hhas'' => ?_
      rcases hturn hhas' with hhas | hfree
      · exact hne (h.single _ _ _ _ hj hk hsame hhas'' hhas)
      · rw [turnTaken, List.any_eq_false] at hfree
        simpa [hsame, hhas''] using hfree r'' (List.mem_of_getElem? hj)
    intro i j r₁ r₂ hi hj hsame h₁ h₂
    rcases getElem?_set_cases hi with ⟨hik, rfl⟩ | ⟨hik, hi'⟩ <;>
      rcases getElem?_set_cases hj with ⟨hjk, rfl⟩ | ⟨hjk, hj'⟩
    · rw [hik, hjk]
    · simp [hother hjk hj' (hsame.symm.trans hplace) h₁] at h₂
    · simp [hother hik hi' (hsame.trans hplace) h₂] at h₁
    · exact h.single i j r₁ r₂ hi' hj' hsame h₁ h₂

theorem advance (h : s.TakesTurns cfg) (hadvance : s.advance? k = some s') : s'.TakesTurns cfg := by
  obtain ⟨r, hk, ⟨act, next, hscript, rfl⟩ | ⟨next, hscript, hfree, rfl⟩ | ⟨next, hscript, rfl⟩⟩ :=
    advance_inv hadvance
  all_goals
    obtain ⟨owed, hstage⟩ := h.staged r (List.mem_of_getElem? hk)
    rw [hscript] at hstage
  · obtain ⟨ρ, hstep, hnext⟩ := hstage (s.cluster.site r.place)
    obtain ⟨owed', rfl⟩ := hstep.stage
    exact h.set hk _ rfl ⟨owed', hnext⟩ Or.inl
  · exact h.set hk _ rfl ⟨none, hstage.2⟩ fun _ => Or.inr hfree
  · exact h.set hk _ rfl ⟨none, hstage.2⟩ fun hhas => by cases hhas

theorem start (h : s.TakesTurns cfg) (i : Nat) {script : Script Site α}
    (hscript : script.Announcing cfg .outside .outside) : (s.start i script).TakesTurns cfg where
  staged := by
    intro r hr
    rcases List.mem_append.mp hr with hr | hr
    · exact h.staged r hr
    · rw [List.mem_singleton.mp hr]
      exact ⟨none, hscript⟩
  single := by
    intro j k r r' hj hk hsame hhas hhas'
    exact h.single j k r r' (getElem?_start hj hhas) (getElem?_start hk hhas') hsame hhas hhas'

end TakesTurns

end Schedule

namespace Session

variable {x : Session κ α} {contents : Nat → Database} {b k i t u m p : Nat} {what : κ}
    {script next : Script Site α}

theorem takesTurns (hscript : ∀ what, (x.script what).Announcing cfg .outside .outside) (t : Nat) :
    (x.state t).TakesTurns cfg := by
  induction t with
  | zero => exact ⟨by simp [state], by simp [state]⟩
  | succ t ih =>
      rcases x.state_cases t with ⟨i, what, -, -, hstate⟩ | ⟨k, -, hadvance⟩ | ⟨-, hstate⟩ |
        ⟨refusals, -, hstate⟩ | hstate
      · exact hstate ▸ ih.start i (hscript what)
      · exact ih.advance hadvance
      · exact hstate ▸ ⟨ih.staged, ih.single⟩
      · exact hstate ▸ ⟨ih.staged, ih.single⟩
      · exact hstate ▸ ih

/-- The `k`-th script is under way at the instance `i` and has the turn. -/
def HasTurn (x : Session κ α) (t k i : Nat) : Prop :=
  ∃ r, (x.state t).running[k]? = some r ∧ r.place = i ∧ r.hasTurn = true

theorem Left.hasTurn (h : x.Left t k i script) (hfinishing : script.Finishing)
    (hturns : (x.state t).TakesTurns cfg) : x.HasTurn t k i := by
  obtain ⟨-, r, hk, hplace, rfl⟩ := h
  refine ⟨r, hk, hplace, ?_⟩
  by_contra hhasnot
  obtain ⟨owed, hstage⟩ := hturns.staged r (List.mem_of_getElem? hk)
  rw [Running.stage, if_neg hhasnot] at hstage
  exact hfinishing.not_outside hstage

/-- At a moment a script of another instance goes on. -/
def Foreign (x : Session κ α) (t i : Nat) : Prop :=
  ∃ k j script, x.moves t = .advance k ∧ x.Left t k j script ∧ j ≠ i

/-- Only by a step can a script that goes on change something. -/
theorem Left.steady_or_step (h : x.Left t k i script) (hmove : x.moves t = .advance k) :
    (x.site t i).Steady cfg (x.site (t + 1) i) ∨
      ∃ act next, script = .step act next ∧ x.site (t + 1) i = act (x.site t i) := by
  obtain ⟨script', -, hcontinues⟩ := h.continues
  cases hcontinues with
  | waits hother => exact absurd hmove hother
  | stays _ hstate =>
      rw [site, site, hstate]
      exact Or.inl (.refl _)
  | steps _ hsite => exact Or.inr ⟨_, _, rfl, hsite⟩
  | turns _ _ hsite =>
      rw [hsite]
      exact Or.inl (.refl _)

theorem Contents.of_outside {τ : Stage} (h : x.Contents cfg allowed contents)
    (hleft : x.Left t k i script) (hmove : x.moves t = .advance k)
    (hscript : script.Announcing cfg .outside τ) : contents (t + 1) = contents t := by
  refine h.of_steady hleft hmove ?_
  rcases hleft.steady_or_step hmove with hsteady | ⟨act, next, rfl, hsite⟩
  · exact hsteady
  · obtain ⟨ρ, hstep, -⟩ := hscript (x.site t i)
    rw [hsite]
    cases hstep with
    | kept hkept => exact hkept.toSteady

/-- While a script has the turn, nobody else at its instance changes the content. -/
theorem Contents.apart (h : x.Contents cfg allowed contents) (hturns : (x.state t).TakesTurns cfg)
    (hturn : x.HasTurn t k i) (hchange : contents (t + 1) ≠ contents t) :
    x.moves t = .advance k ∨ x.Foreign t i := by
  rcases h.follows t with ⟨hsame, -⟩ | ⟨k', j, script, hmove, hleft, -, -⟩
  · exact absurd hsame hchange
  · by_cases hij : j = i
    · obtain ⟨r, hk, hplace, hhas⟩ := hturn
      obtain ⟨-, r', hk', hplace', rfl⟩ := id hleft
      obtain ⟨owed, hstage⟩ := hturns.staged r' (List.mem_of_getElem? hk')
      by_cases hhas' : r'.hasTurn = true
      · obtain rfl := hturns.single k k' r r' hk hk' (by rw [hplace, hplace', hij]) hhas hhas'
        exact Or.inl hmove
      -- a script without the turn only reads
      · rw [Running.stage, if_neg hhas'] at hstage
        exact absurd (h.of_outside hleft hmove hstage) hchange
    · exact Or.inr ⟨k', j, script, hmove, hleft, hij⟩

/-! ## From the first step to the last -/

theorem Left.finishing_later (h : x.Left u k i script) (hfinishing : script.Finishing)
    (hup : u ≤ p) : ∃ script', x.Left p k i script' ∧ (script'.Finishing ∨ ∃ a, script' = .done a) := by
  induction p, hup using Nat.le_induction with
  | base => exact ⟨script, h, Or.inl hfinishing⟩
  | succ p _ ih =>
      obtain ⟨script', hleft, hcases⟩ := ih
      obtain ⟨script'', hleft', hcontinues⟩ := hleft.continues
      refine ⟨script'', hleft', ?_⟩
      cases hcontinues with
      | waits => exact hcases
      | stays => exact hcases
      | steps =>
          rcases hcases with hfinishing | ⟨a, ha⟩
          · exact Or.inl (hfinishing _)
          · cases ha
      | turns _ hturn =>
          rcases hcases with hfinishing | ⟨a, rfl⟩
          · rcases hturn with rfl | rfl
            · cases hfinishing
            · exact Or.inr hfinishing
          · rcases hturn with hturn | hturn <;> cases hturn

theorem Asked.finishing (h : x.Asked b k i what) (hscript : x.script what = .takeTurn next)
    (hnext : next.Finishing) (hleft : x.Left u k i script) (hbegun : script ≠ .takeTurn next) :
    script.Finishing ∨ ∃ a, script = .done a := by
  obtain ⟨-, r, hk, -⟩ := id hleft
  obtain ⟨_, times, hleft', -, hleads⟩ := h.history (h.lt_of_running hk)
  obtain ⟨-, rfl⟩ := hleft.unique hleft'
  rw [hscript] at hleads
  generalize x.seen i times = steps at hleads
  cases hleads with
  | refl => exact absurd rfl hbegun
  | takeTurn hleads => exact hnext.leads hleads

/-- A script that takes the turn for all of its steps has it from the first to the last. -/
theorem Asked.has_turn (h : x.Asked b k i what) (hscript : x.script what = .takeTurn next)
    (hnext : next.Finishing) (hturns : (x.state p).TakesTurns cfg) (hfirst : x.Steps u k i)
    (hlast : x.Steps m k i) (hup : u ≤ p) (hpm : p ≤ m) : x.HasTurn p k i := by
  obtain ⟨-, act, rest, hleft⟩ := hfirst
  have hfinishing : (Script.step act rest).Finishing :=
    (h.finishing hscript hnext hleft (by simp)).resolve_right (by simp)
  obtain ⟨script', hleft', hfinishing' | ⟨a, rfl⟩⟩ := hleft.finishing_later hfinishing hup
  · exact hleft'.hasTurn hfinishing' hturns
  -- it cannot have ended, since its last step is still to come
  · obtain ⟨-, _, _, hstep⟩ := hlast
    cases (hstep.unique (hleft'.later hpm)).2

/-- From its first step to its last, the content is changed by its own steps or at other instances. -/
theorem Asked.apart (h : x.Asked b k i what) (hscript : x.script what = .takeTurn next)
    (hnext : next.Finishing) (hcontents : x.Contents cfg allowed contents)
    (hturns : (x.state p).TakesTurns cfg) (hfirst : x.Steps u k i) (hlast : x.Steps m k i)
    (hup : u ≤ p) (hpm : p ≤ m) (hchange : contents (p + 1) ≠ contents p) :
    x.Steps p k i ∨ x.Foreign p i := by
  have hturn := h.has_turn hscript hnext hturns hfirst hlast hup hpm
  refine (hcontents.apart hturns hturn hchange).imp_left fun hmove => ⟨hmove, ?_⟩
  obtain ⟨r, hk, -⟩ := hturn
  obtain ⟨script, -, hleft, -⟩ := h.history (h.lt_of_running hk)
  rcases hleft.steady_or_step hmove with hsteady | ⟨act, next, rfl, -⟩
  · exact absurd (hcontents.of_steady hleft hmove hsteady) hchange
  · exact ⟨act, next, hleft⟩

/-! ## Being answered -/

theorem Left.turn (h : x.Left t k i script) (hmove : x.moves t = .advance k)
    (hturn : script = .takeTurn next ∧ (x.state t).turnTaken i = false ∨ script = .giveTurn next) :
    x.Left (t + 1) k i next := by
  obtain ⟨hopened, r, hk, rfl, rfl⟩ := h
  obtain ⟨hasTurn, hadvance⟩ : ∃ hasTurn, (x.state t).advance? k = some
      { x.state t with running := (x.state t).running.set k { r with hasTurn, script := next } } := by
    rcases hturn with ⟨hscript, hfree⟩ | hscript
    · exact ⟨true, by simp [Schedule.advance?, hk, hscript, hfree]⟩
    · exact ⟨false, by simp [Schedule.advance?, hk, hscript]⟩
  rw [Left, state, hmove, Session.next, hadvance]
  exact ⟨hopened, _, List.getElem?_set_self (List.getElem?_eq_some_iff.mp hk).1, rfl, rfl⟩

section

variable (hfair : ∀ t, ∃ u, t ≤ u ∧ x.moves u = .advance k)
include hfair

/-- A script stays as it is until it is its move. -/
theorem Left.next_move (h : x.Left b k i script) :
    ∃ u, x.moves u = .advance k ∧ x.Left u k i script := by
  obtain ⟨u, hbu, hmove⟩ := hfair b
  obtain ⟨d, rfl⟩ := Nat.exists_eq_add_of_le hbu
  induction d generalizing b with
  | zero => exact ⟨b, hmove, h⟩
  | succ d ih =>
      by_cases hnow : x.moves b = .advance k
      · exact ⟨b, hnow, h⟩
      · rw [← Nat.add_assoc, Nat.add_right_comm] at hmove
        exact ih (h.wait hnow) (Nat.le_add_right _ d) hmove

/-- A script that goes on often enough is answered, or gets to where it takes the turn. -/
theorem Left.goes_on (h : x.Left b k i script) : ∃ t script' steps, x.Left t k i script' ∧
    script.Leads steps script' ∧ ((∃ a, script' = .done a) ∨ ∃ next, script' = .takeTurn next) := by
  induction script generalizing b with
  | done a => exact ⟨b, _, _, h, .refl _, Or.inl ⟨a, rfl⟩⟩
  | takeTurn next => exact ⟨b, _, _, h, .refl _, Or.inr ⟨next, rfl⟩⟩
  | step act next ih =>
      obtain ⟨u, hmove, hleft⟩ := h.next_move hfair
      obtain ⟨t, script', steps, hleft', hleads, hend⟩ := ih _ (hleft.step hmove).1
      exact ⟨t, script', _, hleft', .step _ hleads, hend⟩
  | giveTurn next ih =>
      obtain ⟨u, hmove, hleft⟩ := h.next_move hfair
      obtain ⟨t, script', steps, hleft', hleads, hend⟩ := ih (hleft.turn hmove (Or.inr rfl))
      exact ⟨t, script', steps, hleft', .giveTurn hleads, hend⟩

theorem Left.answered_of_finishing (h : x.Left b k i script)
    (hfinishing : script.Finishing ∨ ∃ a, script = .done a) : ∃ t a, (x.state t).answer? k = some a := by
  rcases hfinishing with hfinishing | ⟨a, rfl⟩
  · obtain ⟨t, script', steps, hleft, hleads, ⟨a, rfl⟩ | ⟨next, rfl⟩⟩ := h.goes_on hfair
    · exact ⟨t, a, hleft.answer⟩
    · rcases hfinishing.leads hleads with hturn | ⟨a, hturn⟩ <;> cases hturn
  · exact ⟨b, a, h.answer⟩

/-- It is answered unless somebody else has the turn whenever it could go on. -/
theorem Asked.exists_answer_in_turn (h : x.Asked b k i what)
    (hscript : x.script what = .takeTurn next) (hnext : next.Finishing) :
    (∃ t a, (x.state t).answer? k = some a) ∨
      ∀ t, b < t → x.moves t = .advance k → (x.state t).turnTaken i = true := by
  by_cases hfree : ∃ t, b < t ∧ x.moves t = .advance k ∧ (x.state t).turnTaken i = false
  · obtain ⟨t, hbt, hmove, hfree⟩ := hfree
    obtain ⟨script, _, hleft, -, -⟩ := h.history hbt
    refine Or.inl ?_
    by_cases hbegun : script = .takeTurn next
    · exact (hleft.turn hmove (Or.inl ⟨hbegun, hfree⟩)).answered_of_finishing hfair (Or.inl hnext)
    · exact hleft.answered_of_finishing hfair (h.finishing hscript hnext hleft hbegun)
  · refine Or.inr fun t hbt hmove => ?_
    by_contra htaken
    exact hfree ⟨t, hbt, hmove, Bool.eq_false_iff.mpr htaken⟩

end

end Session

end AssetGroups
