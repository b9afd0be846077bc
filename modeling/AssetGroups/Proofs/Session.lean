import AssetGroups.Proofs.Cluster
import AssetGroups.Session
import Mathlib.Order.Lattice

/-!
# Histories of sessions

At each moment of a session the store holds a content, which only a step of a script replaces. What
was asked for is answered after steps that were taken at moments of their own, between the question and
the answer.
-/

namespace AssetGroups

theorem Move.getD_ne_join {κ : Type} {moves : List (Move κ)} (h : .join ∉ moves) (t : Nat) :
    moves.getD t (.refuse []) ≠ .join := by
  intro hjoin
  rw [List.getD_eq_getElem?_getD] at hjoin
  cases ht : moves[t]? with
  | none =>
      rw [ht] at hjoin
      cases hjoin
  | some move =>
      rw [ht, Option.getD_some] at hjoin
      exact h (hjoin ▸ List.mem_of_getElem? ht)

namespace Session

variable {κ α : Type} {x : Session κ α} {cfg : Storage} {allowed : Database → Database → Prop}
    {b k i t : Nat} {what : κ} {r : Running α}

/-! ## Moments -/

theorem state_cases (x : Session κ α) (t : Nat) :
    (∃ i what, x.moves t = .ask i what ∧ i < (x.state t).cluster.instances.length ∧
        x.state (t + 1) = (x.state t).start i (x.script what)) ∨
      (∃ k, x.moves t = .advance k ∧ (x.state t).advance? k = some (x.state (t + 1))) ∨
      (x.moves t = .join ∧
        x.state (t + 1) = { x.state t with cluster := (x.state t).cluster.join }) ∨
      (∃ refusals, x.moves t = .refuse refusals ∧
        x.state (t + 1) = (x.state t).refuse refusals) ∨
      x.state (t + 1) = x.state t := by
  have hstate : x.state (t + 1) = x.next (x.state t) (x.moves t) := rfl
  cases hmove : x.moves t with
  | ask i what =>
      by_cases hopened : i < (x.state t).cluster.instances.length
      · rw [hmove, next, if_pos hopened] at hstate
        exact Or.inl ⟨i, what, rfl, hopened, hstate⟩
      · rw [hmove, next, if_neg hopened] at hstate
        exact Or.inr (Or.inr (Or.inr (Or.inr hstate)))
  | advance k =>
      rw [hmove, next] at hstate
      cases hadvance : (x.state t).advance? k with
      | none =>
          rw [hadvance] at hstate
          exact Or.inr (Or.inr (Or.inr (Or.inr hstate)))
      | some s' =>
          rw [hadvance, Option.getD_some] at hstate
          exact Or.inr (Or.inl ⟨k, rfl, by rw [hstate, hadvance]⟩)
  | join =>
      rw [hmove] at hstate
      exact Or.inr (Or.inr (Or.inl ⟨rfl, hstate⟩))
  | refuse refusals =>
      rw [hmove] at hstate
      exact Or.inr (Or.inr (Or.inr (Or.inl ⟨refusals, rfl, hstate⟩)))

theorem lengths_le (x : Session κ α) (t : Nat) :
    (x.state t).cluster.instances.length ≤ (x.state (t + 1)).cluster.instances.length ∧
      (x.state t).running.length ≤ (x.state (t + 1)).running.length := by
  rcases x.state_cases t with ⟨i, what, -, -, hstate⟩ | ⟨k, -, hadvance⟩ | ⟨-, hstate⟩ |
    ⟨refusals, -, hstate⟩ | hstate
  · rw [hstate]
    simp [Schedule.start]
  · obtain ⟨hinstances, hrunning⟩ := Schedule.advance_lengths hadvance
    exact ⟨Nat.le_of_eq hinstances.symm, Nat.le_of_eq hrunning.symm⟩
  · rw [hstate]
    simp [Cluster.join]
  · rw [hstate]
    exact ⟨Nat.le_refl _, Nat.le_refl _⟩
  · rw [hstate]
    exact ⟨Nat.le_refl _, Nat.le_refl _⟩

/-- A script stays where it is while others go on. -/
theorem running_of_ne (hk : (x.state t).running[k]? = some r) (hmove : x.moves t ≠ .advance k) :
    (x.state (t + 1)).running[k]? = some r := by
  rw [← hk]
  rcases x.state_cases t with ⟨i, what, -, -, hstate⟩ | ⟨j, hj, hadvance⟩ | ⟨-, hstate⟩ |
    ⟨refusals, -, hstate⟩ | hstate
  · rw [hstate, Schedule.start]
    exact List.getElem?_append_left (List.getElem?_eq_some_iff.mp hk).1
  · have hjk : j ≠ k := fun heq => hmove (heq ▸ hj)
    obtain ⟨r', -, ⟨_, _, -, hstate⟩ | ⟨_, _, -, hstate⟩⟩ := Schedule.advance_cases hadvance <;>
      rw [hstate] <;> exact List.getElem?_set_ne hjk
  · rw [hstate]
  · rw [hstate]
    rfl
  · rw [hstate]

/-! ## What is left of a script -/

/-- The `k`-th script is under way at the instance `i`, and `script` is what is left of it. -/
def Left (x : Session κ α) (t k i : Nat) (script : Script Site α) : Prop :=
  i < (x.state t).cluster.instances.length ∧
    ∃ r, (x.state t).running[k]? = some r ∧ r.place = i ∧ r.script = script

/-- What may become at a moment of the rest of the `k`-th script at the instance `i`. -/
inductive Continues (x : Session κ α) (t k i : Nat) : Script Site α → Script Site α → Prop where
  | waits {script : Script Site α} (hmove : x.moves t ≠ .advance k) : Continues x t k i script script
  | stays {script : Script Site α} (hmove : x.moves t = .advance k)
      (hstate : x.state (t + 1) = x.state t) (hstep : ∀ act next, script ≠ .step act next) :
      Continues x t k i script script
  | steps {act : Site → Site} {next : Site → Script Site α} (hmove : x.moves t = .advance k)
      (hsite : x.site (t + 1) i = act (x.site t i)) :
      Continues x t k i (.step act next) (next (x.site t i))
  | turns {script script' : Script Site α} (hmove : x.moves t = .advance k)
      (hturn : script = .takeTurn script' ∨ script = .giveTurn script')
      (hsite : x.site (t + 1) i = x.site t i) : Continues x t k i script script'

namespace Left

variable {script : Script Site α} {act : Site → Site} {next : Site → Script Site α} {a : α}

theorem wait (h : x.Left t k i script) (hmove : x.moves t ≠ .advance k) :
    x.Left (t + 1) k i script := by
  obtain ⟨hopened, r, hk, hplace, hscript⟩ := h
  exact ⟨Nat.lt_of_lt_of_le hopened (x.lengths_le t).1, r, running_of_ne hk hmove, hplace, hscript⟩

theorem continues (h : x.Left t k i script) :
    ∃ script', x.Left (t + 1) k i script' ∧ x.Continues t k i script script' := by
  by_cases hmove : x.moves t = .advance k
  · have hleft := h
    obtain ⟨hopened, r, hk, rfl, rfl⟩ := h
    have hlt := (List.getElem?_eq_some_iff.mp hk).1
    cases hadvance : (x.state t).advance? k with
    | none =>
        have hstate : x.state (t + 1) = x.state t := by rw [state, hmove, Session.next, hadvance]; rfl
        refine ⟨r.script, ?_, .stays hmove hstate fun act next hscript => ?_⟩
        · rw [Left, hstate]
          exact hleft
        · simp [Schedule.advance?, hk, hscript] at hadvance
    | some s' =>
        have hstate : x.state (t + 1) = s' := by rw [state, hmove, Session.next, hadvance]; rfl
        obtain ⟨r', hk', hcases⟩ := Schedule.advance_cases hadvance
        obtain rfl : r = r' := Option.some.inj (hk.symm.trans hk')
        rcases hcases with ⟨act, next, hscript, rfl⟩ | ⟨next, hasTurn, hturn, rfl⟩
        · refine ⟨next (x.site t r.place), ⟨?_, { r with script := next (x.site t r.place) }, ?_, rfl,
            rfl⟩, ?_⟩
          · rw [hstate, Cluster.length_setSite]
            exact hopened
          · rw [hstate]
            exact List.getElem?_set_self hlt
          · rw [hscript]
            refine .steps hmove ?_
            rw [site, hstate]
            exact Cluster.site_setSite hopened
        · refine ⟨next, ⟨?_, { r with hasTurn, script := next }, ?_, rfl, rfl⟩, .turns hmove hturn ?_⟩
          · rw [hstate]
            exact hopened
          · rw [hstate]
            exact List.getElem?_set_self hlt
          · rw [site, site, hstate]
  · exact ⟨script, h.wait hmove, .waits hmove⟩

theorem step (h : x.Left t k i (.step act next)) (hmove : x.moves t = .advance k) :
    x.Left (t + 1) k i (next (x.site t i)) ∧ x.site (t + 1) i = act (x.site t i) := by
  obtain ⟨script', hleft, hcontinues⟩ := h.continues
  cases hcontinues with
  | waits hother => exact absurd hmove hother
  | stays _ _ hstep => exact absurd rfl (hstep act next)
  | steps _ hsite => exact ⟨hleft, hsite⟩
  | turns _ hturn => rcases hturn with hturn | hturn <;> cases hturn

theorem stays (h : x.Left t k i (.done a)) (hmove : x.moves t = .advance k) :
    x.state (t + 1) = x.state t := by
  obtain ⟨script', -, hcontinues⟩ := h.continues
  cases hcontinues with
  | waits hother => exact absurd hmove hother
  | stays _ hstate => exact hstate
  | turns _ hturn => rcases hturn with hturn | hturn <;> cases hturn

theorem unique {j : Nat} {script' : Script Site α} (h : x.Left t k i script)
    (h' : x.Left t k j script') : i = j ∧ script = script' := by
  obtain ⟨-, r, hk, rfl, rfl⟩ := h
  obtain ⟨-, r', hk', rfl, rfl⟩ := h'
  obtain rfl := Option.some.inj (hk.symm.trans hk')
  exact ⟨rfl, rfl⟩

theorem slot_of_other {j : Nat} (h : x.Left t k i script) (hmove : x.moves t = .advance k)
    (hij : i ≠ j) : (x.site (t + 1) j).slot = (x.site t j).slot := by
  obtain ⟨-, r, hk, rfl, -⟩ := h
  rw [site, site, state, hmove, Session.next]
  cases hadvance : (x.state t).advance? k with
  | none => rfl
  | some s' =>
      obtain ⟨r', hk', ⟨act, next, -, rfl⟩ | ⟨next, hasTurn, -, rfl⟩⟩ :=
        Schedule.advance_cases hadvance
      · obtain rfl : r = r' := Option.some.inj (hk.symm.trans hk')
        rw [Option.getD_some, Cluster.site_setSite_of_ne hij]
      · rfl

theorem answer_eq_some (h : x.Left t k i script) :
    (x.state t).answer? k = some a ↔ script = .done a := by
  obtain ⟨-, ⟨place, hasTurn, script⟩, hk, rfl, rfl⟩ := h
  cases script <;> simp [Schedule.answer?, hk]

theorem answer (h : x.Left t k i (.done a)) : (x.state t).answer? k = some a :=
  h.answer_eq_some.mpr rfl

theorem unanswered (h : x.Left t k i (.step act next)) : (x.state t).answer? k = none := by
  cases hanswer : (x.state t).answer? k with
  | none => rfl
  | some a => cases h.answer_eq_some.mp hanswer

theorem later (h : x.Left b k i (.done a)) (hbt : b ≤ t) : x.Left t k i (.done a) := by
  induction t, hbt using Nat.le_induction with
  | base => exact h
  | succ t hbt ih =>
      by_cases hmove : x.moves t = .advance k
      · rw [Left, ih.stays hmove]
        exact ih
      · exact ih.wait hmove

theorem cases_step (h : x.Left b k i (.step act next)) (hbt : b ≤ t) :
    (x.Left t k i (.step act next) ∧ ∀ u, b ≤ u → u < t → x.moves u ≠ .advance k) ∨
      ∃ u, b ≤ u ∧ u < t ∧ x.moves u = .advance k ∧ (∀ v, b ≤ v → v < u → x.moves v ≠ .advance k) ∧
        x.Left u k i (.step act next) ∧ x.Left (u + 1) k i (next (x.site u i)) ∧
        x.site (u + 1) i = act (x.site u i) := by
  induction t, hbt using Nat.le_induction with
  | base => exact Or.inl ⟨h, fun u hbu hub => absurd hub (Nat.not_lt_of_le hbu)⟩
  | succ t hbt ih =>
      rcases ih with ⟨hleft, hwaits⟩ | ⟨u, hbu, hut, hstep⟩
      · by_cases hmove : x.moves t = .advance k
        · obtain ⟨hnext, hsite⟩ := hleft.step hmove
          exact Or.inr ⟨t, hbt, Nat.lt_succ_self t, hmove, hwaits, hleft, hnext, hsite⟩
        · refine Or.inl ⟨hleft.wait hmove, fun u hbu hut => ?_⟩
          rcases Nat.lt_succ_iff_lt_or_eq.mp hut with hut | rfl
          · exact hwaits u hbu hut
          · exact hmove
      · exact Or.inr ⟨u, hbu, Nat.lt_succ_of_lt hut, hstep⟩

end Left

/-! ## What was asked -/

/-- At the moment `b` the instance `i` was asked for something: the `k`-th question of the session. -/
structure Asked (x : Session κ α) (b k i : Nat) (what : κ) : Prop where
  move : x.moves b = .ask i what
  opened : i < (x.state b).cluster.instances.length
  number : (x.state b).running.length = k

/-- What the steps at some moments found and left at an instance. -/
def seen (x : Session κ α) (i : Nat) (times : List Nat) : List (Site × Site) :=
  times.map fun t => (x.site t i, x.site (t + 1) i)

/-- Moments one after another at which the `k`-th script went on, between `b` and `t`. -/
structure Moments (x : Session κ α) (b k t : Nat) (times : List Nat) : Prop where
  ascending : times.Pairwise (· < ·)
  between : ∀ u ∈ times, b < u ∧ u < t
  own : ∀ u ∈ times, x.moves u = .advance k

theorem Moments.later {times : List Nat} (h : x.Moments b k t times) : x.Moments b k (t + 1) times :=
  ⟨h.ascending, fun u hu => ⟨(h.between u hu).1, Nat.lt_succ_of_lt (h.between u hu).2⟩, h.own⟩

theorem Moments.sublist {times part : List Nat} (h : x.Moments b k t times)
    (hpart : part.Sublist times) : x.Moments b k t part where
  ascending := h.ascending.sublist hpart
  between u hu := h.between u (hpart.subset hu)
  own u hu := h.own u (hpart.subset hu)

theorem Moments.append {times : List Nat} (h : x.Moments b k t times) (hbt : b < t)
    (hmove : x.moves t = .advance k) : x.Moments b k (t + 1) (times ++ [t]) where
  ascending := by
    refine List.pairwise_append.mpr ⟨h.ascending, List.pairwise_singleton _ _, fun u hu v hv => ?_⟩
    rw [List.mem_singleton.mp hv]
    exact (h.between u hu).2
  between := by
    intro u hu
    rcases List.mem_append.mp hu with hu | hu
    · exact h.later.between u hu
    · rw [List.mem_singleton.mp hu]
      exact ⟨hbt, Nat.lt_succ_self t⟩
  own := by
    intro u hu
    rcases List.mem_append.mp hu with hu | hu
    · exact h.own u hu
    · rw [List.mem_singleton.mp hu]
      exact hmove

theorem Asked.left (h : x.Asked b k i what) : x.Left (b + 1) k i (x.script what) := by
  refine ⟨Nat.lt_of_lt_of_le h.opened (x.lengths_le b).1, { place := i, script := x.script what },
    ?_, rfl, rfl⟩
  rw [state, h.move, next, if_pos h.opened, Schedule.start, ← h.number, List.getElem?_concat_length]

/-- At a moment the `k`-th script takes a step. -/
def Steps (x : Session κ α) (t k i : Nat) : Prop :=
  x.moves t = .advance k ∧ ∃ act next, x.Left t k i (.step act next)

/-- What became of the script: the moments are all those at which it took a step. -/
theorem Asked.full_history (h : x.Asked b k i what) (ht : b < t) :
    ∃ script times, x.Left t k i script ∧ x.Moments b k t times ∧
      (x.script what).Leads (x.seen i times) script ∧
      ∀ u, b < u → u < t → (u ∈ times ↔ x.Steps u k i) := by
  induction t, ht using Nat.le_induction with
  | base => exact ⟨_, [], h.left, ⟨.nil, by simp, by simp⟩, .refl _, fun u hbu hut => by omega⟩
  | succ t ht ih =>
      obtain ⟨script, times, hleft, hmoments, hleads, hsteps⟩ := ih
      have hquiet (hstill : ¬ x.Steps t k i) :
          ∀ u, b < u → u < t + 1 → (u ∈ times ↔ x.Steps u k i) := by
        intro u hbu hut
        rcases Nat.lt_succ_iff_lt_or_eq.mp hut with hut | rfl
        · exact hsteps u hbu hut
        · exact iff_of_false (fun hu => Nat.lt_irrefl u (hmoments.between u hu).2) hstill
      obtain ⟨script', hleft', hcontinues⟩ := hleft.continues
      cases hcontinues with
      | waits hmove =>
          exact ⟨script, times, hleft', hmoments.later, hleads, hquiet fun hstep => hmove hstep.1⟩
      | stays hmove hstate hnone =>
          refine ⟨script, times, hleft', hmoments.later, hleads, hquiet ?_⟩
          rintro ⟨-, act, next, hstep⟩
          exact hnone act next (hleft.unique hstep).2
      | steps hmove hsite =>
          refine ⟨_, times ++ [t], hleft', hmoments.append ht hmove, ?_, fun u hbu hut => ?_⟩
          · rw [seen, List.map_append, List.map_singleton, hsite]
            exact hleads.trans (.step _ (.refl _))
          · rw [List.mem_append, List.mem_singleton]
            rcases Nat.lt_succ_iff_lt_or_eq.mp hut with hut | rfl
            · rw [hsteps u hbu hut]
              exact or_iff_left (Nat.ne_of_lt hut)
            · exact iff_of_true (Or.inr rfl) ⟨hmove, _, _, hleft⟩
      -- taking or giving the turn is no step, so its moment is none of those
      | turns hmove hturn =>
          refine ⟨script', times, hleft', hmoments.later, ?_, hquiet ?_⟩
          · rw [← List.append_nil (x.seen _ _)]
            rcases hturn with rfl | rfl
            · exact hleads.trans (.takeTurn (.refl _))
            · exact hleads.trans (.giveTurn (.refl _))
          · rintro ⟨-, act, next, hstep⟩
            rcases hturn with rfl | rfl <;> cases (hleft.unique hstep).2

theorem Asked.history (h : x.Asked b k i what) (ht : b < t) :
    ∃ script times, x.Left t k i script ∧ x.Moments b k t times ∧
      (x.script what).Leads (x.seen i times) script := by
  obtain ⟨script, times, hleft, hmoments, hleads, -⟩ := h.full_history ht
  exact ⟨script, times, hleft, hmoments, hleads⟩

theorem Asked.lt_of_running (h : x.Asked b k i what) (hk : (x.state t).running[k]? = some r) :
    b < t := by
  by_contra hle
  have hlength := monotone_nat_of_le_succ (fun t => (x.lengths_le t).2) (Nat.le_of_not_lt hle)
  have hlt := (List.getElem?_eq_some_iff.mp hk).1
  rw [h.number] at hlength
  omega

theorem Asked.lt_of_answer (h : x.Asked b k i what) {a : α} (ha : (x.state t).answer? k = some a) :
    b < t := by
  unfold Schedule.answer? at ha
  split at ha
  · rename_i hk
    exact h.lt_of_running hk
  · cases ha

/-- What was asked for is answered after the steps that its script took meanwhile. -/
theorem Asked.full_answers (h : x.Asked b k i what) {a : α} (ha : (x.state t).answer? k = some a) :
    ∃ times, x.Moments b k t times ∧ (x.script what).Answers (x.seen i times) a ∧
      ∀ u, b < u → u < t → (u ∈ times ↔ x.Steps u k i) := by
  obtain ⟨script, times, hleft, hmoments, hleads, hsteps⟩ := h.full_history (h.lt_of_answer ha)
  obtain rfl := hleft.answer_eq_some.mp ha
  exact ⟨times, hmoments, hleads, hsteps⟩

/-- What was asked for is answered after steps at moments between the question and the answer. -/
theorem Asked.answers (h : x.Asked b k i what) {a : α} (ha : (x.state t).answer? k = some a) :
    ∃ times, x.Moments b k t times ∧ (x.script what).Answers (x.seen i times) a := by
  obtain ⟨times, hmoments, hanswers, -⟩ := h.full_answers ha
  exact ⟨times, hmoments, hanswers⟩

theorem exists_asked_of_running (hk : (x.state t).running[k]? = some r) :
    ∃ b i what, x.Asked b k i what := by
  induction t generalizing r with
  | zero => cases hk
  | succ t ih =>
      have hlt := (List.getElem?_eq_some_iff.mp hk).1
      rcases x.state_cases t with ⟨i, what, hmove, hopened, hstate⟩ | ⟨j, -, hadvance⟩ |
        ⟨-, hstate⟩ | ⟨refusals, -, hstate⟩ | hstate
      · rw [hstate, Schedule.start, List.length_append, List.length_singleton] at hlt
        by_cases hlast : (x.state t).running.length = k
        · exact ⟨t, i, what, hmove, hopened, hlast⟩
        · exact ih (List.getElem?_eq_getElem (by omega))
      · rw [(Schedule.advance_lengths hadvance).2] at hlt
        exact ih (List.getElem?_eq_getElem hlt)
      all_goals
        rw [hstate] at hk
        exact ih hk

theorem Left.exists_asked {script : Script Site α} (h : x.Left t k i script) :
    ∃ b what, x.Asked b k i what ∧ b < t := by
  obtain ⟨-, r, hk, -⟩ := id h
  obtain ⟨b, j, what, hasked⟩ := exists_asked_of_running hk
  have hbt := hasked.lt_of_running hk
  obtain ⟨_, -, hleft, -⟩ := hasked.history hbt
  obtain ⟨rfl, -⟩ := h.unique hleft
  exact ⟨b, what, hasked, hbt⟩

theorem Asked.own_step {R : Site → Site → Prop} (h : x.Asked b k i what) (hrefl : ∀ s, R s s)
    (hscript : (x.script what).Within R) (ht : b < t) (hmove : x.moves t = .advance k) :
    R (x.site t i) (x.site (t + 1) i) := by
  obtain ⟨script, times, hleft, -, hleads⟩ := h.history ht
  have hwithin := hleads.within hscript
  obtain ⟨script', -, hcontinues⟩ := hleft.continues
  cases hcontinues with
  | waits hother => exact absurd hmove hother
  | stays _ hstate =>
      rw [site, site, hstate]
      exact hrefl _
  | steps _ hsite =>
      rw [hsite]
      exact (hwithin _).1
  | turns _ _ hsite =>
      rw [hsite]
      exact hrefl _

/-- At the moment `t` the `k`-th script takes the step with which it answers. -/
structure Ends (x : Session κ α) (t k : Nat) (a : α) : Prop where
  move : x.moves t = .advance k
  before : (x.state t).answer? k = none
  after : (x.state (t + 1)).answer? k = some a

/-! ## The content of the store -/

theorem within {R : Site → Site → Prop} (hscript : ∀ what, (x.script what).Within R) (t : Nat) :
    (x.state t).Within R := by
  induction t with
  | zero =>
      intro r hr
      cases hr
  | succ t ih =>
      rcases x.state_cases t with ⟨i, what, -, hopened, hstate⟩ | ⟨k, -, hadvance⟩ |
        ⟨-, hstate⟩ | ⟨refusals, -, hstate⟩ | hstate
      · rw [hstate]
        exact ih.start hopened (hscript what)
      · exact (ih.advance hadvance).1
      · rw [hstate]
        intro r hr
        have hlength : (x.state t).cluster.instances.length ≤
            (x.state t).cluster.join.instances.length := by simp [Cluster.join]
        exact ⟨Nat.lt_of_lt_of_le (ih r hr).1 hlength, (ih r hr).2⟩
      · rw [hstate]
        exact ih
      · rw [hstate]
        exact ih

/-- A single instance stays alone when no other one is opened. -/
theorem alone (hone : x.instances = 1) (hnever : ∀ t, x.moves t ≠ .join) (t : Nat) :
    (x.state t).cluster.instances.length = 1 := by
  induction t with
  | zero => rw [state, Cluster.opened, List.length_replicate, hone]
  | succ t ih =>
      rcases x.state_cases t with ⟨i, what, -, -, hstate⟩ | ⟨k, -, hadvance⟩ |
        ⟨hjoin, -⟩ | ⟨refusals, -, hstate⟩ | hstate
      · rw [hstate]
        exact ih
      · exact (Schedule.advance_lengths hadvance).1.trans ih
      · exact absurd hjoin (hnever t)
      · rw [hstate]
        exact ih
      · rw [hstate]
        exact ih

/-- Only with a lock file may there be more than one instance. -/
def Shared (x : Session κ α) (cfg : Storage) : Prop :=
  cfg.isDurable = true ∨ x.instances = 1 ∧ ∀ t, x.moves t ≠ .join

theorem Shared.alone (h : x.Shared cfg) (t : Nat) :
    (x.state t).cluster.instances.length = 1 ∨ cfg.isDurable = true :=
  h.symm.imp_left fun ⟨hone, hnever⟩ => Session.alone hone hnever t

/-- At a moment the content `db` is followed by `db'`: nothing changes at any instance, or the step of a
script replaces the one by the other. -/
def Follows (x : Session κ α) (cfg : Storage) (allowed : Database → Database → Prop) (t : Nat)
    (db db' : Database) : Prop :=
  (db' = db ∧ ∀ i, (x.site t i).Steady cfg (x.site (t + 1) i)) ∨
    ∃ k i script, x.moves t = .advance k ∧ x.Left t k i script ∧ allowed db db' ∧
      (x.site t i).Changed cfg (x.site (t + 1) i) db db'

/-- What the store holds at each moment. -/
structure Contents (x : Session κ α) (cfg : Storage) (allowed : Database → Database → Prop)
    (contents : Nat → Database) : Prop where
  begins : x.first.content cfg = .ok (contents 0)
  holds : ∀ t, (x.state t).cluster.Holds cfg (contents t) x.first.store
  fits : ∀ t, (contents t).Fits
  follows : ∀ t, x.Follows cfg allowed t (contents t) (contents (t + 1))

theorem exists_follows (hscript : ∀ what, (x.script what).Within (Site.Step cfg allowed))
    (hshared : x.Shared cfg) {t : Nat} {db : Database} {first : Entry}
    (hholds : (x.state t).cluster.Holds cfg db first) (hfits : db.Fits) :
    ∃ db', x.Follows cfg allowed t db db' ∧ (x.state (t + 1)).cluster.Holds cfg db' first := by
  rcases x.state_cases t with ⟨i, what, -, -, hstate⟩ | ⟨k, hmove, hadvance⟩ |
    ⟨-, hstate⟩ | ⟨refusals, -, hstate⟩ | hstate
  · rw [hstate]
    exact ⟨db, Or.inl ⟨rfl, fun i => by rw [site, site, hstate]; exact .refl _⟩, hholds⟩
  · rcases (within hscript t).advance_holds hfits (hshared.alone t) hholds hadvance with
      ⟨hafter, hsteady⟩ | ⟨db', r, hallowed, hafter, hk, hchanged⟩
    · exact ⟨db, Or.inl ⟨rfl, hsteady⟩, hafter⟩
    · have hplace := (within hscript t r (List.mem_of_getElem? hk)).1
      exact ⟨db', Or.inr ⟨k, r.place, r.script, hmove, ⟨hplace, r, hk, rfl, rfl⟩, hallowed, hchanged⟩,
        hafter⟩
  · rw [hstate]
    refine ⟨db, Or.inl ⟨rfl, fun i => ?_⟩, hholds.join⟩
    rw [site, site, hstate, Cluster.site_join]
    exact .refl _
  · rw [hstate]
    refine ⟨db, Or.inl ⟨rfl, fun i => ?_⟩, hholds.store, hholds.slots⟩
    rw [site, site, hstate]
    exact .of_store rfl
  · rw [hstate]
    exact ⟨db, Or.inl ⟨rfl, fun i => by rw [site, site, hstate]; exact .refl _⟩, hholds⟩

/-- From the content that the disk holds at first, each step leads to the next one. -/
theorem exists_contents {db : Database}
    (hscript : ∀ what, (x.script what).Within (Site.Step cfg allowed)) (hshared : x.Shared cfg)
    (hfirst : x.first.content cfg = .ok db)
    (hallowed : ∀ db db', allowed db db' → db.CountsOn db') :
    ∃ contents, x.Contents cfg allowed contents := by
  have hnext : ∀ t
      (db : { db : Database // (x.state t).cluster.Holds cfg db x.first.store ∧ db.Fits }),
      ∃ db' : { db : Database // (x.state (t + 1)).cluster.Holds cfg db x.first.store ∧ db.Fits },
        x.Follows cfg allowed t db.1 db'.1 := by
    rintro t ⟨db, hholds, hfits⟩
    obtain ⟨db', hfollows, hholds'⟩ := exists_follows hscript hshared hholds hfits
    refine ⟨⟨db', hholds', ?_⟩, hfollows⟩
    rcases hfollows with ⟨rfl, -⟩ | ⟨_, _, _, -, -, hdb, -⟩
    · exact hfits
    · exact hfits.countsOn (hallowed db db' hdb)
  choose follow hfollow using hnext
  let contents : (t : Nat) →
      { db : Database // (x.state t).cluster.Holds cfg db x.first.store ∧ db.Fits } :=
    fun t => Nat.rec ⟨db, Cluster.holds_opened x.instances hfirst,
      (Disk.inWords_of_content hfirst).fits⟩ follow t
  exact ⟨fun t => (contents t).1, hfirst, fun t => (contents t).2.1, fun t => (contents t).2.2,
    fun t => hfollow t (contents t)⟩

namespace Contents

variable {contents : Nat → Database}

theorem eq_first (h : x.Contents cfg allowed contents) {db : Database}
    (hfirst : x.first.content cfg = .ok db) : contents 0 = db :=
  Except.ok.inj (h.begins.symm.trans hfirst)

theorem site (h : x.Contents cfg allowed contents) (t i : Nat) :
    (x.site t i).Holds cfg (contents t) x.first.store :=
  (h.holds t).site i

/-- The file is what was written last, or still what it was at first. -/
theorem store_cases (h : x.Contents cfg allowed contents) (t : Nat) :
    (x.disk t).store = .file (contents t).octets ∨
      (x.disk t).store = x.first.store ∧ contents t = contents 0 := by
  refine (h.holds t).store.imp_right fun ⟨hstore, hcontent⟩ => ⟨hstore, ?_⟩
  rw [Disk.content_congr cfg hstore] at hcontent
  exact (h.eq_first hcontent).symm

variable {script : Script Site α}

/-- A script that leaves the content as it finds it leaves the contents of the session. -/
theorem of_steady (h : x.Contents cfg allowed contents) (hleft : x.Left t k i script)
    (hmove : x.moves t = .advance k) (hsteady : (x.site t i).Steady cfg (x.site (t + 1) i)) :
    contents (t + 1) = contents t := by
  rcases h.follows t with ⟨hsame, -⟩ | ⟨k', i', _, hmove', hleft', -, hchanged⟩
  · exact hsame
  · obtain rfl : k = k' := by simpa [hmove] using hmove'
    obtain ⟨rfl, -⟩ := hleft.unique hleft'
    exact hchanged.eq_of_steady (h.fits (t + 1)) hsteady

/-- A change that the step of a script makes is that of the contents. -/
theorem of_changed (h : x.Contents cfg allowed contents) (hleft : x.Left t k i script)
    (hmove : x.moves t = .advance k) {db db' : Database}
    (hchanged : (x.site t i).Changed cfg (x.site (t + 1) i) db db')
    (hcounts : db.CountsOn db') : contents t = db ∧ contents (t + 1) = db' := by
  obtain rfl := (h.site t i).eq_of_content (h.fits t) hchanged.content
  refine ⟨rfl, ?_⟩
  rcases h.follows t with ⟨hsame, hsteady⟩ | ⟨k', i', _, hmove', hleft', -, hchanged'⟩
  · rw [hsame, hchanged.eq_of_steady ((h.fits t).countsOn hcounts) (hsteady i)]
  · obtain rfl : k = k' := by simpa [hmove] using hmove'
    obtain ⟨rfl, -⟩ := hleft.unique hleft'
    have hslot := hchanged.slot.symm.trans hchanged'.slot
    exact (congrArg Slot.database hslot).symm

theorem slot_next (h : x.Contents cfg allowed contents) (t i : Nat) :
    (x.site (t + 1) i).slot = (x.site t i).slot ∨
      (x.site (t + 1) i).slot = ⟨true, contents (t + 1)⟩ := by
  rcases h.follows t with ⟨hsame, hsteady⟩ | ⟨k, j, _, hmove, hleft, -, hchanged⟩
  · refine (hsteady i).slot.imp_right fun ⟨db, hcontent, hslot⟩ => ?_
    rw [hslot, hsame, (h.site t i).eq_of_content (h.fits t) hcontent]
  · by_cases hij : j = i
    · exact Or.inr (hij ▸ hchanged.slot)
    · exact Or.inl (hleft.slot_of_other hmove hij)

theorem slot_since (h : x.Contents cfg allowed contents)
    (hslot : (x.site b i).slot = ⟨true, contents b⟩) (hbt : b ≤ t) :
    ∃ u, b ≤ u ∧ u ≤ t ∧ (x.site t i).slot = ⟨true, contents u⟩ := by
  induction t, hbt using Nat.le_induction with
  | base => exact ⟨b, Nat.le_refl b, Nat.le_refl b, hslot⟩
  | succ t hbt ih =>
      rcases h.slot_next t i with hsame | hnow
      · obtain ⟨u, hbu, hut, hslot⟩ := ih
        exact ⟨u, hbu, Nat.le_succ_of_le hut, hsame.trans hslot⟩
      · exact ⟨t + 1, Nat.le_succ_of_le hbt, Nat.le_refl _, hnow⟩

theorem loaded_later (h : x.Contents cfg allowed contents)
    (hloaded : (x.site b i).slot.loaded = true) (hbt : b ≤ t) :
    (x.site t i).slot.loaded = true := by
  induction t, hbt using Nat.le_induction with
  | base => exact hloaded
  | succ t _ ih =>
      rcases h.slot_next t i with hsame | hnow
      · rw [hsame]
        exact ih
      · rw [hnow]

/-- An instance that is alone knows the content once it has read it. -/
theorem slot_alone (h : x.Contents cfg allowed contents)
    (halone : ∀ t, (x.state t).cluster.instances.length = 1)
    (hloaded : (x.site t 0).slot.loaded = true) : (x.site t 0).slot.database = contents t := by
  induction t with
  | zero =>
      rw [Session.site, state, Cluster.site_opened_slot] at hloaded
      cases hloaded
  | succ t ih =>
      rcases h.follows t with ⟨hsame, hsteady⟩ | ⟨k, i, _, -, hleft, -, hchanged⟩
      · rcases (hsteady 0).slot with hslot | ⟨db, hcontent, hslot⟩
        · rw [hslot] at hloaded ⊢
          rw [hsame]
          exact ih hloaded
        · rw [hslot, hsame]
          exact (h.site t 0).eq_of_content (h.fits t) hcontent
      · obtain rfl : i = 0 := Nat.lt_one_iff.mp (halone t ▸ hleft.1)
        rw [hchanged.slot]

theorem induction (h : x.Contents cfg allowed contents) {P : Database → Prop}
    (hbegins : P (contents 0)) (hallowed : ∀ db db', P db → allowed db db' → P db') (t : Nat) :
    P (contents t) := by
  induction t with
  | zero => exact hbegins
  | succ t ih =>
      rcases h.follows t with ⟨hsame, -⟩ | ⟨_, _, _, -, -, hdb, -⟩
      · exact hsame ▸ ih
      · exact hallowed _ _ ih hdb

theorem countsOn (h : x.Contents cfg allowed contents)
    (hallowed : ∀ db db', allowed db db' → db.CountsOn db') (t : Nat) :
    (contents t).CountsOn (contents (t + 1)) := by
  rcases h.follows t with ⟨hsame, -⟩ | ⟨_, _, _, -, -, hdb, -⟩
  · exact hsame ▸ .refl _
  · exact hallowed _ _ hdb

end Contents

end Session

end AssetGroups
