import AssetGroups.Lock.Line
import AssetGroups.Proofs.Lock.Serial

/-!
# Lines of named actors

A line goes through the same moves as callers that are mixed freely, only that everybody goes as far as
possible at once. So what its actors see is what is due to them by the order of their tickets.
-/

namespace AssetGroups.Lock

/-! ## Callers one by one -/

namespace Callers

variable {s : Callers} {k : Nat} {c : Caller}

theorem split_at (hk : s.all[k]? = some c) : ∃ front back, s.all = front ++ c :: back ∧
    front.length = k ∧ ∀ c', s.all.set k c' = front ++ c' :: back := by
  obtain ⟨hlt, rfl⟩ := List.getElem?_eq_some_iff.mp hk
  refine ⟨s.all.take k, s.all.drop (k + 1), ?_, by simp [Nat.le_of_lt hlt], fun c' => ?_⟩
  · simp
  · exact List.set_eq_take_append_cons_drop.trans (if_pos hlt)

/-- Before the one that is served nobody waits, and behind it everybody does. -/
theorem Orderly.split_served (h : s.Orderly) (hk : s.all[k]? = some c) (hserving : s.gate.serving = k) :
    ∃ front back, s.all = front ++ c :: back ∧ (∀ c', s.all.set k c' = front ++ c' :: back) ∧
      (∀ d ∈ front, d.phase ≠ .waiting) ∧ ∀ d ∈ back, d.phase = .waiting := by
  obtain ⟨front, back, hall, hlength, hset⟩ := split_at hk
  refine ⟨front, back, hall, hset, fun d hd hwaiting => ?_, fun d hd => ?_⟩
  · obtain ⟨j, hj⟩ := List.getElem?_of_mem hd
    obtain ⟨hlt, -⟩ := List.getElem?_eq_some_iff.mp hj
    have hle := (h.waiting j d (by rw [hall, List.getElem?_append_left hlt, hj])).mp hwaiting
    omega
  · obtain ⟨j, hj⟩ := List.getElem?_of_mem hd
    refine (h.waiting (k + 1 + j) d ?_).mpr (by omega)
    rw [hall, List.getElem?_append_right (by omega), hlength,
      show k + 1 + j - k = j + 1 by omega, List.getElem?_cons_succ, hj]

end Callers

/-! ## Moves of the register -/

namespace Register

variable {names : Nat → String} {s t : Register} {k : Nat} {c : Caller}

theorem run_callers {moves : List Move} (hrun : s.run? names moves = some t) :
    s.callers.run? moves = some t.callers := by
  induction moves generalizing s with
  | nil =>
      cases hrun
      rfl
  | cons move moves ih =>
      obtain ⟨u, hmove, hrest⟩ := Option.bind_eq_some_iff.mp hrun
      exact Option.bind_eq_some_iff.mpr ⟨u.callers, (next_cases hmove).1, ih hrest⟩

theorem run_append {moves more : List Move} {u : Register} (h : s.run? names moves = some t)
    (h' : t.run? names more = some u) : s.run? names (moves ++ more) = some u := by
  rw [run?, List.foldlM_append]
  exact Option.bind_eq_some_iff.mpr ⟨t, h, h'⟩

theorem run_pair {u : Register} {move move' : Move} (h : s.next? names move = some t)
    (h' : t.next? names move' = some u) : s.run? names [move, move'] = some u :=
  Option.bind_eq_some_iff.mpr ⟨t, h, Option.bind_eq_some_iff.mpr ⟨u, h', rfl⟩⟩

theorem next_enter (hk : s.callers.all[k]? = some c) (hphase : c.phase = .waiting)
    (hadmits : s.callers.gate.admits c.mode c.ticket) :
    s.next? names (.enter k) = some { s with
      callers := { s.callers.proceed k c .admitted (s.callers.gate.letIn c.mode) with
        admissions := s.callers.admissions ++ [c.ticket] } } := by
  simp [next?, Callers.next?, hk, hphase, hadmits]

/-- A caller comes in and gets the data at once. -/
theorem run_enter_take (names : Nat → String) (hk : s.callers.all[k]? = some c)
    (hphase : c.phase = .waiting) (hadmits : s.callers.gate.admits c.mode c.ticket) :
    s.run? names [.enter k, .take k] = some { s.see (names k) c with
      callers := {
        gate := s.callers.gate.letIn c.mode
        all := s.callers.all.set k { c with phase := .holding }
        admissions := s.callers.admissions ++ [c.ticket] } } := by
  refine run_pair (next_enter hk hphase hadmits) ?_
  have hin := Callers.proceed_at hk .admitted (s.callers.gate.letIn c.mode)
  simp only [next?, Callers.next?, hin, Callers.gate_proceed, Option.bind_eq_bind, Option.bind_some,
    if_true, see]
  simp [Callers.proceed]

theorem run_enter_fail (names : Nat → String) (hk : s.callers.all[k]? = some c)
    (hphase : c.phase = .waiting) (hadmits : s.callers.gate.admits c.mode c.ticket)
    (hmode : c.mode = .write) :
    s.run? names [.enter k, .fail k] = some { s with
      callers := {
        gate := (s.callers.gate.letIn .write).release .write
        all := s.callers.all.set k { c with phase := .gone }
        admissions := s.callers.admissions ++ [c.ticket] } } := by
  refine run_pair (next_enter hk hphase hadmits) ?_
  have hin := Callers.proceed_at hk .admitted (s.callers.gate.letIn c.mode)
  rw [hmode] at hin ⊢
  simp only [next?, Callers.next?, hin, Callers.gate_proceed, Option.bind_eq_bind, Option.bind_some,
    and_self, if_true]
  simp [Callers.proceed]

theorem run_drop_leave (names : Nat → String) (hk : s.callers.all[k]? = some c)
    (hphase : c.phase = .holding) :
    s.run? names [.drop k, .leave k] = some { s with
      callers := { s.callers with
        gate := s.callers.gate.release c.mode
        all := s.callers.all.set k { c with phase := .gone } } } := by
  have hdrop : s.next? names (.drop k) = some { s with
      callers := s.callers.proceed k c .leaving s.callers.gate } := by
    simp [next?, Callers.next?, hk, hphase]
  refine run_pair hdrop ?_
  have hin := Callers.proceed_at hk .leaving s.callers.gate
  simp only [next?, Callers.next?, hin, Callers.gate_proceed, Option.bind_eq_bind, Option.bind_some,
    if_true]
  simp [Callers.proceed]

end Register

namespace Line

variable {names : Nat → String} {l l' : Line} {s t : Register} {ws : List Waiter}

def holder (names : Nat → String) (c : Caller) : Actor := ⟨names c.ticket, c.mode⟩

def waiter (names : Nat → String) (c : Caller) : Waiter := ⟨⟨names c.ticket, c.mode⟩, c.ticket⟩

def grant? : String × Outcome → Option (String × Mode × List String)
  | (who, .granted mode seen) => some (who, mode, seen)
  | (_, .failed _) => none

def grant (names : Nat → String) (v : View) : String × Mode × List String :=
  (names v.ticket, v.mode, v.data)

/-- The line with `ws` waiting shows what the register holds, in which everybody waits, has the data or
is gone, and nobody who is there has the name of another one. -/
structure Shows (names : Nat → String) (l : Line) (ws : List Waiter) (s : Register) : Prop where
  orderly : s.callers.Orderly
  gate : s.callers.gate = l.gate
  data : s.data = l.data
  waiters : ws = (s.callers.all.filter (·.phase = .waiting)).map (waiter names)
  holders : l.holders = (s.callers.all.filter (·.phase = .holding)).map (holder names)
  settled : ∀ c ∈ s.callers.all, c.phase = .waiting ∨ c.phase = .holding ∨ c.phase = .gone
  distinct : (l.holders.map (·.name) ++ ws.map (·.actor.name)).Nodup

namespace Shows

theorem join (h : l.Shows names l.waiters s) {a : Actor} (hname : names l.gate.nextTicket = a.name)
    (hfree : ¬ (l.holds a.name || l.waits a.name)) :
    ∃ t, s.run? names [.arrive a.mode] = some t ∧
      (l.join a).Shows names (l.join a).waiters t ∧ t.views = s.views := by
  have hrun : s.run? names [.arrive a.mode] = some { s with
      callers := { s.callers with
        gate := s.callers.gate.draw.2
        all := s.callers.all ++ [{ mode := a.mode, ticket := s.callers.gate.nextTicket }] } } := rfl
  refine ⟨_, hrun, ?_, rfl⟩
  have horderly := h.orderly.run (Register.run_callers hrun)
  constructor
  case orderly => exact horderly
  case gate => simp [Line.join, Gate.draw, h.gate]
  case data => exact h.data
  case waiters => simp [Line.join, Gate.draw, h.waiters, h.gate, waiter, hname, List.filter_append]
  case holders => simp [Line.join, h.holders, List.filter_append]
  case settled =>
    intro c hc
    rcases List.mem_append.mp hc with hc | hc
    · exact h.settled c hc
    · rw [List.mem_singleton.mp hc]
      exact Or.inl rfl
  case distinct =>
    have hfree' : ¬ (a.name ∈ l.holders.map (·.name) ++ l.waiters.map (·.actor.name)) := by
      simpa [holds, waits] using hfree
    simp only [Line.join, Gate.draw, List.map_append, List.map_cons, List.map_nil]
    rw [← List.append_assoc, List.nodup_append]
    refine ⟨h.distinct, List.nodup_singleton _, ?_⟩
    rintro name hmem _ hnew rfl
    rw [List.mem_singleton.mp hnew] at hmem
    exact hfree' hmem

theorem first_waiter {w : Waiter} (h : l.Shows names (w :: ws) s)
    (hadmits : l.gate.admits w.actor.mode w.ticket) :
    ∃ k c, s.callers.all[k]? = some c ∧ c.phase = .waiting ∧ waiter names c = w ∧
      s.callers.gate.admits c.mode c.ticket ∧ c.ticket = k ∧ s.callers.gate.serving = k := by
  have hmem : w ∈ (s.callers.all.filter (·.phase = .waiting)).map (waiter names) :=
    h.waiters ▸ List.mem_cons_self
  obtain ⟨c, hc, rfl⟩ := List.mem_map.mp hmem
  obtain ⟨hc, hphase⟩ := List.mem_filter.mp hc
  obtain ⟨k, hk⟩ := List.getElem?_of_mem hc
  have hticket := (h.orderly.ticket_eq hk).1
  rw [← h.gate] at hadmits
  have hserving : s.callers.gate.serving = c.ticket := by
    have hparts := hadmits
    simp only [Gate.admits, Bool.and_eq_true, beq_iff_eq] at hparts
    exact hparts.1
  exact ⟨k, c, hk, of_decide_eq_true hphase, rfl, hadmits, hticket, hserving.trans hticket⟩

/-- The first who waits goes on, and gets the data or is gone. -/
theorem goOn {w : Waiter} (h : l.Shows names (w :: ws) s) {k : Nat} {c : Caller} {phase : Phase}
    (hk : s.callers.all[k]? = some c) (hwaiting : c.phase = .waiting) (hw : waiter names c = w)
    (hserving : s.callers.gate.serving = k) (hphase : phase = .holding ∨ phase = .gone)
    (horderly : t.callers.Orderly) (hall : t.callers.all = s.callers.all.set k { c with phase })
    (hgate : t.callers.gate = l'.gate) (hdata : t.data = l'.data)
    (hholders : l'.holders = l.holders ++ if phase = .holding then [w.actor] else []) :
    l'.Shows names ws t := by
  obtain ⟨front, back, hsplit, hset, hfront, hback⟩ := h.orderly.split_served hk hserving
  have hfront' : front.filter (·.phase = .waiting) = [] := by simpa using hfront
  have hback' : back.filter (·.phase = .waiting) = back := by simpa using hback
  have hnone : back.filter (·.phase = .holding) = [] := by
    rw [List.filter_eq_nil_iff]
    intro d hd
    simp [hback d hd]
  rw [hset] at hall
  constructor
  case orderly => exact horderly
  case gate => exact hgate
  case data => exact hdata
  case waiters =>
    have hwaiters := h.waiters
    rw [hsplit] at hwaiters
    simp only [List.filter_append, List.filter_cons, hfront', hwaiting, hback', decide_true, if_true,
      List.nil_append, List.map_cons, List.cons.injEq] at hwaiters
    rw [hall, hwaiters.2]
    rcases hphase with rfl | rfl <;> simp [List.filter_append, hfront', hback']
  case holders =>
    have hold := h.holders
    rw [hsplit] at hold
    simp only [List.filter_append, List.filter_cons, hwaiting, hnone, reduceCtorEq, decide_false,
      Bool.false_eq_true, if_false, List.append_nil] at hold
    rw [hholders, hall, hold, ← hw]
    rcases hphase with rfl | rfl <;> simp [List.filter_append, hnone, holder, waiter]
  case settled =>
    rw [hall, ← hset]
    exact forall_mem_set h.settled (Or.inr hphase)
  case distinct =>
    have hdistinct := h.distinct
    rw [hholders]
    rcases hphase with rfl | rfl
    · simpa using hdistinct
    · refine hdistinct.sublist ?_
      simp

/-- The register can make moves after which the line shows it and `outcomes` tells who got the data. -/
def Follows (names : Nat → String) (s : Register) (outcomes : List (String × Outcome)) (l : Line)
    (ws : List Waiter) : Prop :=
  ∃ moves t, s.run? names moves = some t ∧ l.Shows names ws t ∧
    t.views.map (grant names) = s.views.map (grant names) ++ outcomes.filterMap grant?

theorem Follows.trans {outcomes more : List (String × Outcome)} (h : Follows names s outcomes l ws)
    {ws' : List Waiter} (h' : ∀ t, l.Shows names ws t → Follows names t more l' ws') :
    Follows names s (outcomes ++ more) l' ws' := by
  obtain ⟨moves, t, hrun, hshows, hviews⟩ := h
  obtain ⟨moves', u, hrun', hshows', hviews'⟩ := h' t hshows
  refine ⟨moves ++ moves', u, Register.run_append hrun hrun', hshows', ?_⟩
  rw [hviews', hviews, List.filterMap_append, List.append_assoc]

theorem enter {w : Waiter} (h : l.Shows names (w :: ws) s)
    (hadmits : l.gate.admits w.actor.mode w.ticket) :
    Follows names s [(w.actor.name, (l.enter w.actor).1)] (l.enter w.actor).2 ws := by
  obtain ⟨k, c, hk, hwaiting, rfl, hgate, rfl, hserving⟩ := h.first_waiter hadmits
  by_cases hfails : c.mode = .write ∧ ∃ e, l.durability = .noLockFile e
  · obtain ⟨hmode, e, he⟩ := hfails
    have hrun := Register.run_enter_fail names hk hwaiting hgate hmode
    have henter : l.enter (waiter names c).actor =
        (.failed e, { l with gate := (l.gate.letIn .write).release .write }) := by
      simp [Line.enter, waiter, hmode, he]
    rw [henter]
    refine ⟨_, _, hrun, ?_, by simp [grant?]⟩
    exact h.goOn hk hwaiting rfl hserving (Or.inr rfl) (h.orderly.run (Register.run_callers hrun)) rfl
      (by rw [h.gate]) h.data (by simp)
  · have hrun := Register.run_enter_take names hk hwaiting hgate
    have henter : l.enter (waiter names c).actor =
        (.granted c.mode (s.see (names c.ticket) c).data, { l with
          gate := l.gate.letIn c.mode
          data := (s.see (names c.ticket) c).data
          holders := l.holders ++ [(waiter names c).actor] }) := by
      cases hmode : c.mode with
      | read => simp [Line.enter, waiter, hmode, Register.see, h.data]
      | write =>
          cases hdurability : l.durability with
          | noLockFile e => exact absurd ⟨hmode, e, hdurability⟩ hfails
          | inProcess => simp [Line.enter, waiter, hmode, hdurability, Register.see, h.data]
          | lockFile => simp [Line.enter, waiter, hmode, hdurability, Register.see, h.data]
    rw [henter]
    refine ⟨_, _, hrun, ?_, by simp [Register.see, grant?, grant, waiter]⟩
    exact h.goOn hk hwaiting rfl hserving (Or.inl rfl) (h.orderly.run (Register.run_callers hrun)) rfl
      (by rw [h.gate]) rfl (by simp)

/-- Those who can go in do so one after another, from the front of the line on. -/
theorem settleFrom (h : l.Shows names ws s) : Follows names s (l.settleFrom ws).1
    (l.settleFrom ws).2 (l.settleFrom ws).2.waiters := by
  induction ws generalizing l s with
  | nil => exact ⟨[], s, rfl, ⟨h.orderly, h.gate, h.data, h.waiters, h.holders, h.settled, h.distinct⟩,
      by simp [Line.settleFrom]⟩
  | cons w ws ih =>
      rw [Line.settleFrom]
      split
      · rename_i hadmits
        exact (h.enter hadmits).trans fun t hshows => ih hshows
      · exact ⟨[], s, rfl, ⟨h.orderly, h.gate, h.data, h.waiters, h.holders, h.settled, h.distinct⟩,
          by simp⟩

theorem filter_others {front back : List Actor} {a : Actor}
    (h : ((front ++ a :: back).map (·.name)).Nodup) :
    (front ++ a :: back).filter (·.name != a.name) = front ++ back := by
  simp only [List.map_append, List.map_cons, List.nodup_append, List.nodup_cons, List.mem_map,
    List.mem_cons] at h
  obtain ⟨-, ⟨hback, -⟩, hfront⟩ := h
  have hkeep : ∀ b ∈ front ++ back, (b.name != a.name) = true := by
    intro b hb
    rw [bne_iff_ne]
    rcases List.mem_append.mp hb with hb | hb
    · exact hfront _ ⟨b, hb, rfl⟩ _ (Or.inl rfl)
    · exact fun heq => hback ⟨b, hb, heq⟩
  have hall := List.filter_eq_self.mpr hkeep
  rw [List.filter_append] at hall
  rw [List.filter_append, List.filter_cons_of_neg (by simp), hall]

theorem leave (h : l.Shows names l.waiters s) {who : String} {a : Actor}
    (hfind : l.holders.find? (·.name == who) = some a) :
    Follows names s [] (l.leave a) (l.leave a).waiters := by
  have hmem := List.mem_of_find?_eq_some hfind
  rw [h.holders] at hmem
  obtain ⟨c, hc, rfl⟩ := List.mem_map.mp hmem
  obtain ⟨hc, hphase⟩ := List.mem_filter.mp hc
  replace hphase : c.phase = .holding := of_decide_eq_true hphase
  obtain ⟨k, hk⟩ := List.getElem?_of_mem hc
  have hrun := Register.run_drop_leave names hk hphase
  obtain ⟨front, back, hsplit, -, hset⟩ := Callers.split_at hk
  refine ⟨_, _, hrun, ?_, by simp⟩
  constructor
  case orderly => exact h.orderly.run (Register.run_callers hrun)
  case gate => simp [Line.leave, h.gate, holder]
  case data => exact h.data
  case waiters =>
    show l.waiters = _
    rw [h.waiters, hset, hsplit]
    simp [List.filter_append, hphase]
  case holders =>
    have hholders := h.holders
    rw [hsplit] at hholders
    simp only [List.filter_append, List.filter_cons, hphase, decide_true, if_true, List.map_append,
      List.map_cons] at hholders
    have hnodup : (l.holders.map (·.name)).Nodup := (List.nodup_append.mp h.distinct).1
    show l.holders.filter (·.name != (holder names c).name) = _
    rw [hset, hholders, filter_others]
    · simp [List.filter_append]
    · rwa [← hholders]
  case settled =>
    exact forall_mem_set h.settled (Or.inr (Or.inr rfl))
  case distinct =>
    exact h.distinct.sublist ((List.filter_sublist.map _).append (List.Sublist.refl _))

theorem step (h : l.Shows names l.waiters s) {request : Request} {outcomes : List (String × Outcome)}
    (hname : ∀ mode who, request = .acquire mode who → names l.gate.nextTicket = who)
    (hstep : l.step request = some (outcomes, l')) : Follows names s outcomes l' l'.waiters := by
  cases request with
  | acquire mode who =>
      rw [Line.step] at hstep
      split at hstep
      · cases hstep
      · rename_i hfree
        obtain ⟨t, hrun, hshows, hviews⟩ := h.join (a := ⟨who, mode⟩) (hname mode who rfl) hfree
        have hjoined : Follows names s [] (l.join ⟨who, mode⟩) (l.join ⟨who, mode⟩).waiters :=
          ⟨_, t, hrun, hshows, by simp [hviews]⟩
        have hsettled := hjoined.trans fun t hshows => hshows.settleFrom
        obtain ⟨rfl, rfl⟩ := Prod.mk.inj (Option.some.inj hstep)
        exact hsettled
  | release who =>
      rw [Line.step] at hstep
      split at hstep
      · cases hstep
      · rename_i a hfind
        have hsettled := (h.leave hfind).trans fun t hshows => hshows.settleFrom
        obtain ⟨rfl, rfl⟩ := Prod.mk.inj (Option.some.inj hstep)
        exact hsettled

end Shows

/-! ## Whole runs -/

/-- The names of those who call, in the order in which they do. -/
def arrivals (requests : List Request) : List String :=
  requests.filterMap fun
    | .acquire _ who => some who
    | .release _ => none

theorem nextTicket_enter (l : Line) (a : Actor) :
    (l.enter a).2.gate.nextTicket = l.gate.nextTicket := by
  unfold enter
  dsimp only
  split <;> simp

theorem nextTicket_settleFrom (l : Line) (ws : List Waiter) :
    (l.settleFrom ws).2.gate.nextTicket = l.gate.nextTicket := by
  induction ws generalizing l with
  | nil => rfl
  | cons w ws ih =>
      rw [settleFrom]
      split
      · exact (ih _).trans (nextTicket_enter l w.actor)
      · rfl

theorem nextTicket_step {request : Request} {outcomes : List (String × Outcome)}
    (hstep : l.step request = some (outcomes, l')) :
    l'.gate.nextTicket = l.gate.nextTicket + (arrivals [request]).length := by
  cases request with
  | acquire mode who =>
      rw [step] at hstep
      split at hstep
      · cases hstep
      · obtain ⟨rfl, rfl⟩ := Prod.mk.inj (Option.some.inj hstep)
        exact nextTicket_settleFrom _ _
  | release who =>
      rw [step] at hstep
      split at hstep
      · cases hstep
      · obtain ⟨rfl, rfl⟩ := Prod.mk.inj (Option.some.inj hstep)
        exact (nextTicket_settleFrom _ _).trans (by simp [leave, arrivals])

theorem Shows.run {requests : List Request} {outcomes : List (String × Outcome)}
    (h : l.Shows names l.waiters s)
    (hnames : ∀ i who, (arrivals requests)[i]? = some who → names (l.gate.nextTicket + i) = who)
    (hrun : l.run? requests = some (outcomes, l')) : Follows names s outcomes l' l'.waiters := by
  induction requests generalizing l s outcomes with
  | nil =>
      obtain ⟨rfl, rfl⟩ := Prod.mk.inj (Option.some.inj hrun)
      exact ⟨[], s, rfl, h, by simp⟩
  | cons request requests ih =>
      obtain ⟨⟨first, u⟩, hstep, hrest⟩ := Option.bind_eq_some_iff.mp hrun
      obtain ⟨⟨more, u'⟩, hmore, hlast⟩ := Option.bind_eq_some_iff.mp hrest
      obtain ⟨rfl, rfl⟩ := Prod.mk.inj (Option.some.inj hlast)
      have hfirst : Follows names s first u u.waiters := by
        refine h.step (fun mode who hrequest => ?_) hstep
        subst hrequest
        exact hnames 0 who rfl
      refine hfirst.trans fun t hshows => ih hshows (fun i who hi => ?_) hmore
      have hall : arrivals (request :: requests) = arrivals [request] ++ arrivals requests := by
        rw [arrivals, arrivals, arrivals, ← List.filterMap_append, List.singleton_append]
      rw [nextTicket_step hstep, Nat.add_assoc]
      refine hnames _ who ?_
      rw [hall, List.getElem?_append_right (Nat.le_add_right _ _), Nat.add_sub_cancel_left, hi]

theorem shows_empty (names : Nat → String) (durability : Durability) :
    Shows names { durability } [] {} where
  orderly := Callers.orderly_empty
  gate := rfl
  data := rfl
  waiters := rfl
  holders := rfl
  settled := by simp
  distinct := List.nodup_nil

/-- However actors step in line, those who get the data see the names of the writers that got them and
drew their tickets before, in the order of the tickets, and their own if they write; and the data are
the names of all writers that got them. -/
theorem run_due {durability : Durability} {requests : List Request} {outcomes : List (String × Outcome)}
    (hrun : run? { durability } requests = some (outcomes, l)) :
    ∃ views : List View, outcomes.filterMap grant? = views.map (grant ((arrivals requests).getD · "")) ∧
      ∃ writers : List Nat, writers.Pairwise (· < ·) ∧
        writers = (views.filter (·.mode == .write)).map (·.ticket) ∧
        l.data = writers.map ((arrivals requests).getD · "") ∧
        ∀ v ∈ views, v.data = (writers.filter (· < v.ticket)).map ((arrivals requests).getD · "") ++
          if v.mode = .write then [(arrivals requests).getD v.ticket ""] else [] := by
  have hnames : ∀ i who, (arrivals requests)[i]? = some who →
      (arrivals requests).getD (0 + i) "" = who := by
    intro i who hi
    rw [Nat.zero_add, List.getD_eq_getElem?_getD, hi]
    rfl
  obtain ⟨moves, s, hmoves, hshows, hviews⟩ :=
    (shows_empty ((arrivals requests).getD · "") durability).run hnames hrun
  have hserial := (Register.serial_empty _).run hmoves
  exact ⟨s.views, hviews.symm, s.writers, hserial.ascending, rfl, hshows.data ▸ hserial.data,
    hserial.due⟩

end Line

end AssetGroups.Lock
