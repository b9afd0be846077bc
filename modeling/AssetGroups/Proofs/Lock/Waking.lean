import AssetGroups.Lock.Monitor
import AssetGroups.Proofs.Lock.Phases

/-!
# Nobody sleeps through its turn

A thread that is asleep while it could be admitted has a notification coming. So whenever nothing is left
to do but to arrive and to go out, those who wait do so for somebody inside.
-/

namespace AssetGroups.Lock.Monitor

variable {s t : Monitor} {k : Nat} {p q : Point} {step : Step} {steps : List Step}

/-- A thread has changed the gate and is still to notify. -/
def Notifying (s : Monitor) : Prop := ∃ (j : Nat) (p : Point), s.points[j]? = some p ∧ p.willNotify

/-! ## What every step keeps -/

/-- One thread at most has the gate; those who wait have not passed their check; one that is going to
sleep is not admitted, and one that is asleep and would be admitted has a notification coming. -/
structure Watchful (s : Monitor) : Prop where
  orderly : s.callers.Orderly
  length : s.points.length = s.callers.all.length
  owner : ∀ k, s.owner = some k ↔ ∃ p, s.points[k]? = some p ∧ p.owns
  waiting : ∀ (k : Nat) (p : Point) (c : Caller), s.points[k]? = some p →
    s.callers.all[k]? = some c → (c.phase = .waiting ↔ p.waits)
  refused : ∀ (k : Nat) (c : Caller), s.points[k]? = some .refused → s.callers.all[k]? = some c →
    ¬ s.callers.gate.admits c.mode c.ticket
  heard : ∀ (k : Nat) (c : Caller), s.points[k]? = some .asleep → s.callers.all[k]? = some c →
    s.callers.gate.admits c.mode c.ticket → s.Notifying

theorem watchful_empty : Watchful {} where
  orderly := Callers.orderly_empty
  length := rfl
  owner := by simp
  waiting := by simp
  refused := by simp
  heard := by simp

namespace Watchful

theorem caller_at (h : s.Watchful) (hk : s.points[k]? = some p) : ∃ c, s.callers.all[k]? = some c := by
  obtain ⟨hlt, -⟩ := List.getElem?_eq_some_iff.mp hk
  exact ⟨_, List.getElem?_eq_getElem (h.length ▸ hlt)⟩

theorem point_at (h : s.Watchful) {c : Caller} (hk : s.callers.all[k]? = some c) :
    ∃ p, s.points[k]? = some p := by
  obtain ⟨hlt, -⟩ := List.getElem?_eq_some_iff.mp hk
  exact ⟨_, List.getElem?_eq_getElem (h.length.symm ▸ hlt)⟩

/-- The gate belongs to nobody but the thread itself. -/
def Free (s : Monitor) (k : Nat) : Prop := s.owner = none ∨ s.owner = some k

theorem free_of_owns (h : s.Watchful) (hk : s.points[k]? = some p) (howns : p.owns) : Free s k :=
  Or.inr ((h.owner k).mpr ⟨p, hk, howns⟩)

theorem not_owns_of_free (h : s.Watchful) (hfree : Free s k) {j : Nat} (hjk : j ≠ k)
    (hj : s.points[j]? = some p) : ¬ p.owns := by
  intro howns
  have howner := (h.owner j).mpr ⟨p, hj, howns⟩
  rcases hfree with hnone | hk
  · simp [hnone] at howner
  · exact hjk (Option.some.inj (howner.symm.trans hk))

theorem owner_set (h : s.Watchful) (hk : s.points[k]? = some q) (hfree : Free s k) (p : Point)
    (j : Nat) :
    (if p.owns then some k else none) = some j ↔
      ∃ r, (s.points.set k p)[j]? = some r ∧ r.owns := by
  constructor
  · intro howner
    split at howner
    · obtain rfl := Option.some.inj howner
      exact ⟨p, getElem?_set_at hk p, ‹_›⟩
    · cases howner
  · rintro ⟨r, hr, howns⟩
    rcases getElem?_set_cases hr with ⟨rfl, rfl⟩ | ⟨hjk, hj⟩
    · rw [if_pos howns]
    · exact absurd howns (h.not_owns_of_free hfree hjk hj)

/-! ### Steps that leave the gate as it is -/

/-- A thread goes on to another point, with the gate or without it. -/
theorem goOn (h : s.Watchful) (hk : s.points[k]? = some q) (hfree : Free s k)
    (hwaits : p.waits = q.waits) (hnotify : q.willNotify → p.willNotify)
    (hblocked : p = .refused ∨ p = .asleep → ∀ c, s.callers.all[k]? = some c →
      ¬ s.callers.gate.admits c.mode c.ticket) :
    Watchful { s with
      owner := if p.owns then some k else none
      points := s.points.set k p } := by
  constructor
  case orderly => exact h.orderly
  case length => rw [List.length_set]; exact h.length
  case owner => exact h.owner_set hk hfree p
  case waiting =>
    intro j r c hj hc
    rcases getElem?_set_cases hj with ⟨rfl, rfl⟩ | ⟨-, hj⟩
    · rw [hwaits]
      exact h.waiting j q c hk hc
    · exact h.waiting j r c hj hc
  case refused =>
    intro j c hj hc
    rcases getElem?_set_cases hj with ⟨rfl, rfl⟩ | ⟨-, hj⟩
    · exact hblocked (Or.inl rfl) c hc
    · exact h.refused j c hj hc
  case heard =>
    intro j c hj hc hadmits
    rcases getElem?_set_cases hj with ⟨rfl, rfl⟩ | ⟨-, hj⟩
    · exact absurd hadmits (hblocked (Or.inr rfl) c hc)
    · obtain ⟨i, r, hi, hr⟩ := h.heard j c hj hc hadmits
      by_cases hik : i = k
      · subst hik
        obtain rfl : q = r := Option.some.inj (hk.symm.trans hi)
        exact ⟨i, p, getElem?_set_at hk p, hnotify hr⟩
      · exact ⟨i, r, by rw [List.getElem?_set_ne (Ne.symm hik), hi], hr⟩

theorem notify (h : s.Watchful) (hk : s.points[k]? = some .announcing) :
    Watchful { s with points := (s.points.set k .through).map Point.wake } := by
  have hcases : ∀ (j : Nat) (r : Point), ((s.points.set k .through).map Point.wake)[j]? = some r →
      r ≠ .asleep ∧ ∃ q, s.points[j]? = some q ∧ r.waits = q.waits ∧ r.owns = q.owns ∧
        (r = .refused → q = .refused) := by
    intro j r hj
    rw [List.getElem?_map, Option.map_eq_some_iff] at hj
    obtain ⟨q, hq, rfl⟩ := hj
    rcases getElem?_set_cases hq with ⟨rfl, rfl⟩ | ⟨-, hq⟩
    · exact ⟨by decide, .announcing, hk, rfl, rfl, by decide⟩
    · refine ⟨?_, q, hq, ?_⟩ <;> cases q <;> simp [Point.wake, Point.waits, Point.owns]
  constructor
  case orderly => exact h.orderly
  case length => rw [List.length_map, List.length_set]; exact h.length
  case owner =>
    intro j
    rw [h.owner j]
    constructor
    · rintro ⟨q, hq, howns⟩
      have hjk : j ≠ k := by
        rintro rfl
        obtain rfl := Option.some.inj (hk.symm.trans hq)
        cases howns
      refine ⟨q.wake, ?_, ?_⟩
      · rw [List.getElem?_map, List.getElem?_set_ne (Ne.symm hjk), hq]
        rfl
      · cases q <;> simp_all [Point.wake, Point.owns]
    · rintro ⟨r, hr, howns⟩
      obtain ⟨-, q, hq, -, hsame, -⟩ := hcases j r hr
      exact ⟨q, hq, hsame ▸ howns⟩
  case waiting =>
    intro j r c hj hc
    obtain ⟨-, q, hq, hsame, -, -⟩ := hcases j r hj
    rw [hsame]
    exact h.waiting j q c hq hc
  case refused =>
    intro j c hj hc
    obtain ⟨-, q, hq, -, -, hrefused⟩ := hcases j _ hj
    exact h.refused j c (hrefused rfl ▸ hq) hc
  case heard =>
    intro j c hj
    exact absurd rfl (hcases j _ hj).1

/-! ### Steps of the callers -/

theorem arrive (h : s.Watchful) (hfree : s.owner = none) {mode : Mode} {callers : Callers}
    (hcallers : s.callers.next? (.arrive mode) = some callers) :
    Watchful { callers, owner := some s.points.length, points := s.points ++ [.checking] } := by
  have horderly := h.orderly.next hcallers
  obtain rfl := Callers.next_arrive hcallers
  -- Who has a point from before is a caller from before.
  have hold : ∀ (j : Nat) (r : Point) (c : Caller), s.points[j]? = some r →
      (s.callers.all ++ [{ mode, ticket := s.callers.gate.nextTicket }])[j]? = some c →
      s.callers.all[j]? = some c := by
    intro j r c hj hc
    obtain ⟨hlt, -⟩ := List.getElem?_eq_some_iff.mp hj
    rwa [List.getElem?_append_left (h.length ▸ hlt)] at hc
  constructor
  case orderly => exact horderly
  case length => simp [h.length]
  case owner =>
    intro j
    constructor
    · intro howner
      obtain rfl := Option.some.inj howner
      exact ⟨.checking, by simp, rfl⟩
    · rintro ⟨r, hr, howns⟩
      rcases getElem?_concat_cases hr with hr | ⟨rfl, -⟩
      · have howner := (h.owner j).mpr ⟨r, hr, howns⟩
        rw [hfree] at howner
        cases howner
      · rfl
  case waiting =>
    intro j r c hj hc
    rcases getElem?_concat_cases hj with hr | ⟨rfl, rfl⟩
    · exact h.waiting j r c hr (hold j r c hr hc)
    · rw [h.length, List.getElem?_concat_length] at hc
      simp [← Option.some.inj hc, Point.waits]
  case refused =>
    intro j c hj hc
    rcases getElem?_concat_cases hj with hr | ⟨-, hr⟩
    · exact h.refused j c hr (hold j _ c hr hc)
    · cases hr
  case heard =>
    intro j c hj hc hadmits
    rcases getElem?_concat_cases hj with hr | ⟨-, hr⟩
    · obtain ⟨i, r, hi, hnotify⟩ := h.heard j c hr (hold j _ c hr hc) hadmits
      exact ⟨i, r, by rw [List.getElem?_append_left (List.getElem?_eq_some_iff.mp hi).1, hi], hnotify⟩
    · cases hr

theorem use (h : s.Watchful) {callers : Callers} {c : Caller} {phase : Phase}
    (horderly : callers.Orderly) (hk : s.callers.all[k]? = some c) (hinside : c.phase ≠ .waiting)
    (hphase : phase ≠ .waiting) (hcallers : callers = s.callers.proceed k c phase s.callers.gate) :
    Watchful { s with callers } := by
  subst hcallers
  constructor
  case orderly => exact horderly
  case length => simp [h.length, Callers.proceed]
  case owner => exact h.owner
  case waiting =>
    intro j r d hj hd
    rcases Callers.proceed_cases hd with ⟨rfl, rfl⟩ | ⟨-, hd⟩
    · rw [← h.waiting j r c hj hk]
      exact iff_of_false hphase hinside
    · exact h.waiting j r d hj hd
  case refused =>
    intro j d hj hd
    rcases Callers.proceed_cases hd with ⟨rfl, rfl⟩ | ⟨-, hd⟩
    · exact h.refused j c hj hk
    · exact h.refused j d hj hd
  case heard =>
    intro j d hj hd
    rcases Callers.proceed_cases hd with ⟨rfl, rfl⟩ | ⟨-, hd⟩
    · exact h.heard j c hj hk
    · exact h.heard j d hj hd

/-- A thread changes the gate. Unless it tells the others, nobody is admitted after that. -/
theorem change (h : s.Watchful) {callers : Callers} {c : Caller} {phase : Phase}
    {announces : Bool} (horderly : callers.Orderly) (hk : s.callers.all[k]? = some c)
    (hfree : Free s k) (hphase : phase ≠ .waiting)
    (hcallers : callers.all = s.callers.all.set k { c with phase })
    (hquiet : announces = false → ∀ mode ticket, ¬ callers.gate.admits mode ticket) :
    Watchful { callers, owner := some k, points := s.points.set k (.changed announces) } := by
  obtain ⟨q, hq⟩ := h.point_at hk
  constructor
  case orderly => exact horderly
  case length => rw [List.length_set, hcallers, List.length_set]; exact h.length
  case owner => exact h.owner_set hq hfree (.changed announces)
  case waiting =>
    intro j r d hj hd
    rw [hcallers] at hd
    rcases getElem?_set_cases hj with ⟨rfl, rfl⟩ | ⟨hjk, hj⟩
    · rw [getElem?_set_at hk] at hd
      obtain rfl := Option.some.inj hd
      simp [Point.waits, hphase]
    · rw [List.getElem?_set_ne (Ne.symm hjk)] at hd
      exact h.waiting j r d hj hd
  case refused =>
    intro j d hj
    rcases getElem?_set_cases hj with ⟨-, heq⟩ | ⟨hjk, hj⟩
    · cases heq
    · exact absurd rfl (h.not_owns_of_free hfree hjk hj)
  case heard =>
    intro j d hj hd hadmits
    cases announces with
    | false => exact absurd hadmits (hquiet rfl d.mode d.ticket)
    | true => exact ⟨k, .changed true, getElem?_set_at hq _, rfl⟩

/-! ### All steps -/

theorem use_next (h : s.Watchful) {move : Move} (hnext : s.use? k move = some t)
    (hmove : move = .take k ∨ move = .drop k) : t.Watchful := by
  rw [use?] at hnext
  split at hnext
  case isFalse => cases hnext
  obtain ⟨callers, hcallers, hnext⟩ := Option.bind_eq_some_iff.mp hnext
  obtain rfl := Option.some.inj hnext
  have horderly := h.orderly.next hcallers
  rcases hmove with rfl | rfl
  · obtain ⟨c, hk, hphase, hafter⟩ := Callers.next_take hcallers
    exact h.use horderly hk (by simp [hphase]) (by decide) hafter
  · obtain ⟨c, hk, hphase, hafter⟩ := Callers.next_drop hcallers
    exact h.use horderly hk (by simp [hphase]) (by decide) hafter

theorem goOut_next (h : s.Watchful) {move : Move} (hnext : s.goOut? k move = some t)
    (hmove : move = .fail k ∨ move = .leave k) : t.Watchful := by
  rw [goOut?] at hnext
  split at hnext
  case isFalse => cases hnext
  rename_i hguard
  obtain ⟨callers, hcallers, hnext⟩ := Option.bind_eq_some_iff.mp hnext
  obtain rfl := Option.some.inj hnext
  have horderly := h.orderly.next hcallers
  rcases hmove with rfl | rfl
  · obtain ⟨c, hk, -, -, rfl⟩ := Callers.next_fail hcallers
    exact h.change horderly hk (Or.inl hguard.2) (by decide) rfl (by simp)
  · obtain ⟨c, hk, -, rfl⟩ := Callers.next_leave hcallers
    exact h.change horderly hk (Or.inl hguard.2) (by decide) rfl (by simp)

theorem check_next (h : s.Watchful) (hnext : s.next? (.check k) = some t) : t.Watchful := by
  rw [next?] at hnext
  split at hnext
  case isFalse => cases hnext
  rename_i hpoint
  have hfree := h.free_of_owns hpoint rfl
  obtain ⟨c, hk, hnext⟩ := Option.bind_eq_some_iff.mp hnext
  split at hnext
  · obtain ⟨callers, hcallers, hnext⟩ := Option.bind_eq_some_iff.mp hnext
    obtain rfl := Option.some.inj hnext
    have horderly := h.orderly.next hcallers
    obtain ⟨d, hd, -, -, rfl⟩ := Callers.next_enter hcallers
    obtain rfl : c = d := Option.some.inj (hk.symm.trans hd)
    have howner : s.owner = some k := (h.owner k).mpr ⟨_, hpoint, rfl⟩
    rw [howner]
    refine h.change horderly hk hfree (by decide) rfl fun hwrite mode ticket hadmits => ?_
    -- After a writer nobody is admitted, so that it needs to tell nobody.
    obtain hmode : c.mode = .write := by cases hc : c.mode <;> simp [hc] at hwrite ⊢
    cases mode <;> simp [Gate.admits, Gate.allows, Gate.letIn, hmode] at hadmits
  · rename_i hadmits
    obtain rfl := Option.some.inj hnext
    have howner : s.owner = some k := (h.owner k).mpr ⟨_, hpoint, rfl⟩
    have hgoOn := h.goOn (p := .refused) hpoint hfree rfl id fun _ d hd => by
      obtain rfl : c = d := Option.some.inj (hk.symm.trans hd)
      exact hadmits
    rwa [show (if Point.refused.owns then some k else none) = s.owner from howner.symm] at hgoOn

theorem next (h : s.Watchful) (hnext : s.next? step = some t) : t.Watchful := by
  cases step with
  | arrive mode =>
      rw [next?] at hnext
      split at hnext
      case isFalse => cases hnext
      obtain ⟨callers, hcallers, hnext⟩ := Option.bind_eq_some_iff.mp hnext
      obtain rfl := Option.some.inj hnext
      exact h.arrive ‹_› hcallers
  | check k => exact h.check_next hnext
  | sleep k =>
      rw [next?] at hnext
      split at hnext
      case isFalse => cases hnext
      rename_i hpoint
      obtain rfl := Option.some.inj hnext
      exact h.goOn (p := .asleep) hpoint (h.free_of_owns hpoint rfl) rfl id
        fun _ c hk => h.refused k c hpoint hk
  | unlock k =>
      rw [next?] at hnext
      split at hnext
      case h_2 => cases hnext
      rename_i announces hpoint
      obtain rfl := Option.some.inj hnext
      cases announces with
      | false =>
          exact h.goOn (p := .through) hpoint (h.free_of_owns hpoint rfl) rfl id (by simp)
      | true =>
          exact h.goOn (p := .announcing) hpoint (h.free_of_owns hpoint rfl) rfl id (by simp)
  | notify k =>
      rw [next?] at hnext
      split at hnext
      case isFalse => cases hnext
      obtain rfl := Option.some.inj hnext
      exact h.notify ‹_›
  | relock k =>
      rw [next?] at hnext
      split at hnext
      case isFalse => cases hnext
      rename_i hguard
      obtain rfl := Option.some.inj hnext
      exact h.goOn (p := .checking) hguard.1 (Or.inl hguard.2) rfl (by simp [Point.willNotify])
        (by simp)
  | take k => exact h.use_next hnext (Or.inl rfl)
  | drop k => exact h.use_next hnext (Or.inr rfl)
  | fail k => exact h.goOut_next hnext (Or.inl rfl)
  | leave k => exact h.goOut_next hnext (Or.inr rfl)

theorem run (h : s.Watchful) (hrun : s.run? steps = some t) : t.Watchful := by
  induction steps generalizing s with
  | nil =>
      cases hrun
      exact h
  | cons step steps ih =>
      obtain ⟨u, hstep, hrest⟩ := Option.bind_eq_some_iff.mp hrun
      exact ih (h.next hstep) hrest

end Watchful

/-! ## When nothing moves -/

/-- No thread can move, except that one arrives or that one inside goes out. -/
def Quiet (s : Monitor) : Prop :=
  ∀ step t, s.next? step = some t →
    (∃ mode, step = .arrive mode) ∨ ∃ k, step = .drop k ∨ step = .leave k

namespace Watchful

theorem owner_none (h : s.Watchful) (hquiet : s.Quiet) : s.owner = none := by
  by_contra howner
  obtain ⟨k, howner⟩ := Option.ne_none_iff_exists'.mp howner
  obtain ⟨p, hk, howns⟩ := (h.owner k).mp howner
  cases p with
  | checking =>
      obtain ⟨c, hc⟩ := h.caller_at hk
      have hwaiting := (h.waiting k _ c hk hc).mpr rfl
      by_cases hadmits : s.callers.gate.admits c.mode c.ticket
      · have hmove := hquiet (.check k) _ (by
          simp only [next?, hk, if_true, hc, Option.bind_eq_bind, Option.bind_some, hadmits,
            Callers.next?, hwaiting, and_self]
          rfl)
        simp at hmove
      · have hmove := hquiet (.check k) _ (by
          simp only [next?, hk, if_true, hc, Option.bind_eq_bind, Option.bind_some, hadmits]
          rfl)
        simp at hmove
  | refused =>
      have hmove := hquiet (.sleep k) _ (by rw [next?, if_pos hk])
      simp at hmove
  | changed announces =>
      have hmove := hquiet (.unlock k) _ (by
        simp only [next?, hk]
        rfl)
      simp at hmove
  | asleep => cases howns
  | woken => cases howns
  | announcing => cases howns
  | through => cases howns

theorem point_of_quiet (h : s.Watchful) (hquiet : s.Quiet) (hk : s.points[k]? = some p) :
    p = .asleep ∨ p = .through := by
  have howner := h.owner_none hquiet
  have hnot : ¬ p.owns := by
    intro howns
    rw [(h.owner k).mpr ⟨p, hk, howns⟩] at howner
    cases howner
  cases p with
  | asleep => exact Or.inl rfl
  | through => exact Or.inr rfl
  | woken =>
      have hmove := hquiet (.relock k) _ (by rw [next?, if_pos ⟨hk, howner⟩])
      simp at hmove
  | announcing =>
      have hmove := hquiet (.notify k) _ (by rw [next?, if_pos hk])
      simp at hmove
  | checking => exact absurd rfl hnot
  | refused => exact absurd rfl hnot
  | changed announces => exact absurd rfl hnot

theorem not_notifying (h : s.Watchful) (hquiet : s.Quiet) : ¬ s.Notifying := by
  rintro ⟨j, p, hj, hnotify⟩
  rcases h.point_of_quiet hquiet hj with rfl | rfl <;> cases hnotify

theorem phase_of_inside (h : s.Watchful) (hquiet : s.Quiet) {c : Caller}
    (hk : s.callers.all[k]? = some c) (hinside : c.isInside) :
    c.phase = .holding ∨ c.phase = .leaving := by
  obtain ⟨hwaiting, hgone⟩ := Caller.isInside_iff.mp hinside
  cases hphase : c.phase with
  | waiting => exact absurd hphase hwaiting
  | gone => exact absurd hphase hgone
  | holding => exact Or.inl rfl
  | leaving => exact Or.inr rfl
  | admitted =>
      obtain ⟨p, hp⟩ := h.point_at hk
      have hwaits := h.waiting k p c hp hk
      rcases h.point_of_quiet hquiet hp with rfl | rfl
      · exact absurd (hwaits.mpr rfl) hwaiting
      · have hmove := hquiet (.take k) _ (by
          simp only [next?, use?, hp, if_true, Callers.next?, hk, Option.bind_eq_bind,
            Option.bind_some, hphase]
          rfl)
        simp at hmove

theorem not_allows_served (h : s.Watchful) (hquiet : s.Quiet) {c : Caller}
    (hk : s.callers.all[s.callers.gate.serving]? = some c) : ¬ s.callers.gate.allows c.mode := by
  intro hallows
  obtain ⟨p, hp⟩ := h.point_at hk
  have hwaiting := (h.orderly.waiting _ c hk).mpr (Nat.le_refl _)
  have hwaits := (h.waiting _ p c hp hk).mp hwaiting
  rcases h.point_of_quiet hquiet hp with rfl | rfl
  · refine h.not_notifying hquiet (h.heard _ c hp hk ?_)
    rw [Gate.admits, (h.orderly.ticket_eq hk).1, hallows]
    simp
  · cases hwaits

end Watchful

/-- In every state that threads get to, one that is asleep with its ticket served and its mode allowed
has a notification coming from a thread that has changed the gate. So where only arrivals and those
inside can make a difference, the first who waits does not share with somebody who has the data or is on
its way out, and nobody waits at an idle gate. -/
theorem run_watchful (hrun : run? {} steps = some s) :
    (∀ (k : Nat) (c : Caller), s.points[k]? = some .asleep → s.callers.all[k]? = some c →
      s.callers.gate.admits c.mode c.ticket →
      ∃ (j : Nat) (p : Point), s.points[j]? = some p ∧ p.willNotify) ∧
    (s.Quiet →
      (∀ (k : Nat) (c : Caller), s.callers.all[k]? = some c → c.phase = .waiting →
        (∀ (j : Nat) (d : Caller), j < k → s.callers.all[j]? = some d → d.phase ≠ .waiting) →
        ∃ (j : Nat) (d : Caller), s.callers.all[j]? = some d ∧
          (d.phase = .holding ∨ d.phase = .leaving) ∧ (c.mode = .write ∨ d.mode = .write)) ∧
      (s.callers.gate.access = .idle → ∀ c ∈ s.callers.all, c.phase ≠ .waiting)) := by
  have h := watchful_empty.run hrun
  refine ⟨h.heard, fun hquiet => ⟨?_, ?_⟩⟩
  · intro k c hk hwaiting hfirst
    obtain rfl := h.orderly.serving_eq hk hwaiting hfirst
    obtain ⟨j, d, hj, hinside, hmodes⟩ :=
      h.orderly.exists_of_not_allows (h.not_allows_served hquiet hk)
    exact ⟨j, d, hj, h.phase_of_inside hquiet hj hinside, hmodes⟩
  · intro hidle c hc hwaiting
    obtain ⟨k, hk⟩ := List.getElem?_of_mem hc
    obtain ⟨d, hd⟩ := h.orderly.served_at hk hwaiting
    refine h.not_allows_served hquiet hd ?_
    cases d.mode <;> simp [Gate.allows, hidle]

/-- A reader has the data, and a writer sleeps. -/
def sleepingWriter : Monitor where
  callers := {
    gate := { access := .reading 1, nextTicket := 2, serving := 1 }
    all := [{ mode := .read, ticket := 0, phase := .holding }, { mode := .write, ticket := 1 }]
    admissions := [0] }
  points := [.through, .asleep]

theorem quiet_sleepingWriter : sleepingWriter.Quiet := by
  intro step t hstep
  have hpoint : ∀ {k p}, sleepingWriter.points[k]? = some p →
      k = 0 ∧ p = .through ∨ k = 1 ∧ p = .asleep := by
    intro k p hk
    match k with
    | 0 => exact Or.inl ⟨rfl, (Option.some.inj hk).symm⟩
    | 1 => exact Or.inr ⟨rfl, (Option.some.inj hk).symm⟩
    | k + 2 => cases hk
  cases step with
  | arrive mode => exact Or.inl ⟨mode, rfl⟩
  | drop k => exact Or.inr ⟨k, Or.inl rfl⟩
  | leave k => exact Or.inr ⟨k, Or.inr rfl⟩
  | check k | sleep k | unlock k | notify k =>
      rw [next?] at hstep
      split at hstep
      · rcases hpoint ‹_› with ⟨-, heq⟩ | ⟨-, heq⟩ <;> cases heq
      · cases hstep
  | relock k =>
      rw [next?] at hstep
      split at hstep
      · rename_i hguard
        rcases hpoint hguard.1 with ⟨-, heq⟩ | ⟨-, heq⟩ <;> cases heq
      · cases hstep
  | take k =>
      rw [next?, use?] at hstep
      split at hstep
      · rcases hpoint ‹_› with ⟨rfl, -⟩ | ⟨-, heq⟩
        · cases hstep
        · cases heq
      · cases hstep
  | fail k =>
      rw [next?, goOut?] at hstep
      split at hstep
      · rename_i hguard
        rcases hpoint hguard.1 with ⟨rfl, -⟩ | ⟨-, heq⟩
        · cases hstep
        · cases heq
      · cases hstep

/-- The reader goes out, and before it has notified the writer could be admitted. -/
theorem run_watchful_writer :
    run? {} [.arrive .read, .check 0, .unlock 0, .notify 0, .take 0, .arrive .write, .check 1,
      .sleep 1] = some sleepingWriter ∧ sleepingWriter.Quiet ∧
    (∃ (j : Nat) (d : Caller), sleepingWriter.callers.all[j]? = some d ∧
      (d.phase = .holding ∨ d.phase = .leaving)) ∧
    ∃ t, run? {} [.arrive .read, .check 0, .unlock 0, .notify 0, .take 0, .arrive .write, .check 1,
      .sleep 1, .drop 0, .leave 0] = some t ∧ t.callers.gate.admits .write 1 ∧
      ∃ (j : Nat) (p : Point), t.points[j]? = some p ∧ p.willNotify := by
  have hrun : run? {} [.arrive .read, .check 0, .unlock 0, .notify 0, .take 0, .arrive .write,
      .check 1, .sleep 1] = some sleepingWriter := rfl
  obtain ⟨t, ht⟩ : ∃ t, run? {} [.arrive .read, .check 0, .unlock 0, .notify 0, .take 0,
      .arrive .write, .check 1, .sleep 1, .drop 0, .leave 0] = some t :=
    Option.isSome_iff_exists.mp (by decide)
  have hfirst : ∀ (j : Nat) (d : Caller), j < 1 → sleepingWriter.callers.all[j]? = some d →
      d.phase ≠ .waiting := by
    intro j d hj hd
    obtain rfl : j = 0 := by omega
    obtain rfl := Option.some.inj hd
    decide
  obtain ⟨j, d, hj, hphase, -⟩ :=
    ((run_watchful hrun).2 quiet_sleepingWriter).1 1 _ rfl rfl hfirst
  have hheard := (run_watchful ht).1 1
  cases ht
  exact ⟨hrun, quiet_sleepingWriter, ⟨j, d, hj, hphase⟩, _, rfl, rfl, hheard _ rfl rfl rfl⟩

end AssetGroups.Lock.Monitor
