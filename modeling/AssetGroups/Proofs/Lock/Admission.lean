import AssetGroups.Lock.Callers
import AssetGroups.Proofs.Members
import Mathlib.Data.List.Count
import Mathlib.Data.List.Range

/-!
# Safety and fairness of an access lock

However the moves of any number of callers are mixed, they are let in in the order of their tickets, the
access says who is inside, and whoever is let in finds the data free.
-/

namespace AssetGroups.Lock

/-! ## The access -/

/-- What the access says of the numbers of readers and of writers inside. -/
def Access.Counts : Access → (readers writers : Nat) → Prop
  | .idle, readers, writers => readers = 0 ∧ writers = 0
  | .reading n, readers, writers => 0 < n ∧ readers = n ∧ writers = 0
  | .writing, readers, writers => readers = 0 ∧ writers = 1

namespace Access.Counts

variable {a : Access} {readers writers : Nat}

theorem writing_iff (h : a.Counts readers writers) : a = .writing ↔ writers = 1 ∧ readers = 0 := by
  cases a <;> simp [Access.Counts] at h ⊢ <;> omega

theorem reading_iff (h : a.Counts readers writers) (n : Nat) :
    a = .reading n ↔ 0 < n ∧ readers = n ∧ writers = 0 := by
  cases a <;> simp [Access.Counts] at h ⊢ <;> omega

theorem idle_iff (h : a.Counts readers writers) : a = .idle ↔ readers = 0 ∧ writers = 0 := by
  cases a <;> simp [Access.Counts] at h ⊢ <;> omega

end Access.Counts

namespace Gate

variable {g : Gate} {readers writers : Nat}

theorem counts_letIn {mode : Mode} (h : g.access.Counts readers writers) (hallows : g.allows mode) :
    (g.letIn mode).access.Counts (readers + if mode = .read then 1 else 0)
      (writers + if mode = .write then 1 else 0) := by
  obtain ⟨access, next, serving⟩ := g
  cases mode <;> cases access <;> simp_all [allows, letIn, Access.Counts]

theorem counts_release {mode : Mode}
    (h : g.access.Counts (readers + if mode = .read then 1 else 0)
      (writers + if mode = .write then 1 else 0)) : (g.release mode).access.Counts readers writers := by
  obtain ⟨access, next, serving⟩ := g
  cases mode with
  | write => cases access <;> simp_all [release, Access.Counts]
  | read =>
      cases access with
      | idle => simp [Access.Counts] at h
      | writing => simp [Access.Counts] at h
      | reading n =>
          obtain ⟨-, rfl, hwriters⟩ := h
          by_cases hmore : 0 < readers
          · simpa [release, hmore, Access.Counts] using hwriters
          · obtain rfl : readers = 0 := by omega
            simpa [release, Access.Counts] using hwriters

@[simp]
theorem nextTicket_letIn (g : Gate) (mode : Mode) : (g.letIn mode).nextTicket = g.nextTicket := by
  cases mode <;> rfl

@[simp]
theorem serving_letIn (g : Gate) (mode : Mode) : (g.letIn mode).serving = g.serving + 1 := by
  cases mode <;> rfl

@[simp]
theorem nextTicket_release (g : Gate) (mode : Mode) : (g.release mode).nextTicket = g.nextTicket := by
  cases mode <;> rfl

@[simp]
theorem serving_release (g : Gate) (mode : Mode) : (g.release mode).serving = g.serving := by
  cases mode <;> rfl

end Gate

namespace Callers

variable {s t : Callers} {k : Nat} {c : Caller} {phase : Phase} {gate : Gate}

/-! ## One caller goes on -/

@[simp]
theorem gate_proceed : (s.proceed k c phase gate).gate = gate := rfl

theorem tickets_proceed (hk : s.all[k]? = some c) :
    (s.proceed k c phase gate).all.map (·.ticket) = s.all.map (·.ticket) := by
  obtain ⟨hlt, rfl⟩ := List.getElem?_eq_some_iff.mp hk
  rw [proceed, List.map_set, ← List.getElem_map (fun c : Caller => c.ticket) (h := by simpa using hlt),
    List.set_getElem_self]

theorem proceed_cases {j : Nat} {d : Caller} (hj : (s.proceed k c phase gate).all[j]? = some d) :
    j = k ∧ d = { c with phase } ∨ j ≠ k ∧ s.all[j]? = some d :=
  getElem?_set_cases hj

theorem proceed_at (hk : s.all[k]? = some c) (phase : Phase) (gate : Gate) :
    (s.proceed k c phase gate).all[k]? = some { c with phase } :=
  getElem?_set_at hk _

/-- A caller counts among those inside before and after it goes on, as its phases say. -/
theorem inside_proceed (hk : s.all[k]? = some c) (phase : Phase) (gate : Gate) (mode : Mode) :
    (s.proceed k c phase gate).inside mode + (if c.mode = mode ∧ c.isInside then 1 else 0) =
      s.inside mode + (if c.mode = mode ∧ ({ c with phase } : Caller).isInside then 1 else 0) := by
  obtain ⟨hlt, rfl⟩ := List.getElem?_eq_some_iff.mp hk
  have hle := List.boole_getElem_le_countP (p := fun c => c.mode == mode && c.isInside) hlt
  simp only [inside, proceed, List.countP_set hlt, Bool.and_eq_true, beq_iff_eq] at hle ⊢
  omega

theorem inside_comeIn (hk : s.all[k]? = some c) (hphase : c.phase = .waiting) (gate : Gate)
    (mode : Mode) : (s.proceed k c .admitted gate).inside mode =
      s.inside mode + if c.mode = mode then 1 else 0 := by
  have hcount := inside_proceed hk .admitted gate mode
  simp only [Caller.isInside, hphase] at hcount
  simpa using hcount

theorem inside_goOut (hk : s.all[k]? = some c) (hinside : c.isInside) (gate : Gate) (mode : Mode) :
    s.inside mode = (s.proceed k c .gone gate).inside mode + if c.mode = mode then 1 else 0 := by
  have hcount := inside_proceed hk .gone gate mode
  simp only [hinside, and_true, show ({ c with phase := .gone } : Caller).isInside = false from rfl,
    Bool.false_eq_true, and_false, if_false, Nat.add_zero] at hcount
  exact hcount.symm

theorem inside_stay (hk : s.all[k]? = some c) (hinside : c.isInside)
    (hstay : ({ c with phase } : Caller).isInside) (gate : Gate) (mode : Mode) :
    (s.proceed k c phase gate).inside mode = s.inside mode := by
  have hcount := inside_proceed hk phase gate mode
  rw [hinside, hstay] at hcount
  exact Nat.add_right_cancel hcount

theorem inside_pos (hk : s.all[k]? = some c) (hinside : c.isInside) : 0 < s.inside c.mode := by
  rw [inside, List.countP_pos_iff]
  exact ⟨c, List.mem_of_getElem? hk, by simp [hinside]⟩

/-! ## What a move asks and does -/

theorem next_arrive {mode : Mode} (hnext : s.next? (.arrive mode) = some t) :
    t = { s with
      gate := { s.gate with nextTicket := s.gate.nextTicket + 1 }
      all := s.all ++ [{ mode, ticket := s.gate.nextTicket }] } :=
  (Option.some.inj hnext).symm

/-- A move of a caller that asks something of that caller alone. -/
theorem next_of_guard {p : Caller → Prop} [DecidablePred p] {f : Caller → Callers}
    (hnext : (s.all[k]?.bind fun c => if p c then some (f c) else none) = some t) :
    ∃ c, s.all[k]? = some c ∧ p c ∧ t = f c := by
  obtain ⟨c, hk, hnext⟩ := Option.bind_eq_some_iff.mp hnext
  obtain ⟨hguard, hnext⟩ := Option.ite_none_right_eq_some.mp hnext
  exact ⟨c, hk, hguard, (Option.some.inj hnext).symm⟩

theorem next_enter (hnext : s.next? (.enter k) = some t) :
    ∃ c, s.all[k]? = some c ∧ c.phase = .waiting ∧ s.gate.admits c.mode c.ticket ∧
      t = { s.proceed k c .admitted (s.gate.letIn c.mode) with
        admissions := s.admissions ++ [c.ticket] } := by
  obtain ⟨c, hk, ⟨hphase, hadmits⟩, ht⟩ := next_of_guard hnext
  exact ⟨c, hk, hphase, hadmits, ht⟩

theorem next_take (hnext : s.next? (.take k) = some t) :
    ∃ c, s.all[k]? = some c ∧ c.phase = .admitted ∧ t = s.proceed k c .holding s.gate :=
  next_of_guard hnext

theorem next_fail (hnext : s.next? (.fail k) = some t) :
    ∃ c, s.all[k]? = some c ∧ c.phase = .admitted ∧ c.mode = .write ∧
      t = s.proceed k c .gone (s.gate.release c.mode) := by
  obtain ⟨c, hk, ⟨hphase, hmode⟩, ht⟩ := next_of_guard hnext
  exact ⟨c, hk, hphase, hmode, ht⟩

theorem next_drop (hnext : s.next? (.drop k) = some t) :
    ∃ c, s.all[k]? = some c ∧ c.phase = .holding ∧ t = s.proceed k c .leaving s.gate :=
  next_of_guard hnext

theorem next_leave (hnext : s.next? (.leave k) = some t) :
    ∃ c, s.all[k]? = some c ∧ c.phase = .leaving ∧
      t = s.proceed k c .gone (s.gate.release c.mode) :=
  next_of_guard hnext

/-! ## What every move keeps -/

/-- Tickets are drawn one after another and served in the same order, those who wait are those whose
tickets have not been served, and the access counts those inside. -/
structure Orderly (s : Callers) : Prop where
  tickets : s.all.map (·.ticket) = List.range s.gate.nextTicket
  served : s.gate.serving ≤ s.gate.nextTicket
  waiting : ∀ (k : Nat) (c : Caller), s.all[k]? = some c → (c.phase = .waiting ↔ s.gate.serving ≤ k)
  admissions : s.admissions = List.range s.gate.serving
  access : s.gate.access.Counts (s.inside .read) (s.inside .write)

theorem orderly_empty : Orderly {} where
  tickets := rfl
  served := Nat.le_refl 0
  waiting := by simp
  admissions := rfl
  access := ⟨rfl, rfl⟩

namespace Orderly

/-- Callers are numbered by their tickets. -/
theorem ticket_eq (h : s.Orderly) (hk : s.all[k]? = some c) : c.ticket = k ∧ k < s.gate.nextTicket := by
  have hmap : (s.all.map (·.ticket))[k]? = some c.ticket := by rw [List.getElem?_map, hk]; rfl
  rw [h.tickets, List.getElem?_eq_some_iff] at hmap
  obtain ⟨hlt, heq⟩ := hmap
  rw [List.length_range] at hlt
  rw [List.getElem_range] at heq
  exact ⟨heq.symm, hlt⟩

theorem length_eq (h : s.Orderly) : s.all.length = s.gate.nextTicket := by
  rw [← List.length_map (fun c : Caller => c.ticket), h.tickets, List.length_range]

theorem arrive (h : s.Orderly) (mode : Mode) :
    Orderly { s with
      gate := { s.gate with nextTicket := s.gate.nextTicket + 1 }
      all := s.all ++ [{ mode, ticket := s.gate.nextTicket }] } where
  tickets := by
    rw [List.map_append, h.tickets, List.range_succ]
    rfl
  served := Nat.le_succ_of_le h.served
  waiting := by
    intro k c hk
    rcases getElem?_concat_cases hk with hk | ⟨rfl, rfl⟩
    · exact h.waiting k c hk
    · simpa [h.length_eq] using h.served
  admissions := h.admissions
  access := by
    have hinside : ∀ mode', inside { s with
        gate := { s.gate with nextTicket := s.gate.nextTicket + 1 }
        all := s.all ++ [{ mode, ticket := s.gate.nextTicket }] } mode' = s.inside mode' := by
      intro mode'
      simp [inside, Caller.isInside]
    rw [hinside, hinside]
    exact h.access

/-- A caller that is inside goes on, to another phase inside or out. -/
theorem goOn (h : s.Orderly) (hk : s.all[k]? = some c) (hinside : c.isInside) (hto : phase ≠ .waiting)
    (hnext : gate.nextTicket = s.gate.nextTicket) (hserving : gate.serving = s.gate.serving)
    (haccess : gate.access.Counts ((s.proceed k c phase gate).inside .read)
      ((s.proceed k c phase gate).inside .write)) :
    (s.proceed k c phase gate).Orderly where
  tickets := by rw [tickets_proceed hk, h.tickets, gate_proceed, hnext]
  served := by rw [gate_proceed, hnext, hserving]; exact h.served
  waiting := by
    intro j d hj
    rw [gate_proceed, hserving]
    rcases proceed_cases hj with ⟨rfl, rfl⟩ | ⟨-, hj⟩
    · have hpast : c.phase ≠ .waiting := by
        intro hwaiting
        simp [Caller.isInside, hwaiting] at hinside
      exact ⟨fun h => absurd h hto, fun hle => absurd ((h.waiting j c hk).mpr hle) hpast⟩
    · exact h.waiting j d hj
  admissions := by rw [gate_proceed, hserving]; exact h.admissions
  access := haccess

theorem stay (h : s.Orderly) (hk : s.all[k]? = some c) (hinside : c.isInside)
    (hstay : ({ c with phase } : Caller).isInside) : (s.proceed k c phase s.gate).Orderly := by
  have hto : phase ≠ .waiting := by
    rintro rfl
    cases hstay
  refine h.goOn hk hinside hto rfl rfl ?_
  rw [inside_stay hk hinside hstay, inside_stay hk hinside hstay]
  exact h.access

theorem goOut (h : s.Orderly) (hk : s.all[k]? = some c) (hinside : c.isInside) :
    (s.proceed k c .gone (s.gate.release c.mode)).Orderly := by
  refine h.goOn hk hinside (by decide) (Gate.nextTicket_release _ _) (Gate.serving_release _ _) ?_
  have haccess := h.access
  rw [inside_goOut hk hinside (s.gate.release c.mode) .read,
    inside_goOut hk hinside (s.gate.release c.mode) .write] at haccess
  exact Gate.counts_release haccess

theorem enter (h : s.Orderly) (hk : s.all[k]? = some c) (hphase : c.phase = .waiting)
    (hadmits : s.gate.admits c.mode c.ticket) :
    Orderly { s.proceed k c .admitted (s.gate.letIn c.mode) with
      admissions := s.admissions ++ [c.ticket] } := by
  obtain ⟨hticket, hlt⟩ := h.ticket_eq hk
  simp only [Gate.admits, Bool.and_eq_true, beq_iff_eq] at hadmits
  obtain ⟨hserving, hallows⟩ := hadmits
  constructor
  case tickets =>
    simp only [tickets_proceed hk, h.tickets, gate_proceed, Gate.nextTicket_letIn]
  case served =>
    simp only [gate_proceed, Gate.serving_letIn, Gate.nextTicket_letIn]
    omega
  case waiting =>
    intro j d hj
    have hj : (s.proceed k c .admitted (s.gate.letIn c.mode)).all[j]? = some d := hj
    simp only [gate_proceed, Gate.serving_letIn]
    rcases proceed_cases hj with ⟨rfl, rfl⟩ | ⟨hjk, hj⟩
    · simp only [reduceCtorEq, false_iff]
      omega
    · rw [h.waiting j d hj]
      omega
  case admissions =>
    simp only [gate_proceed, Gate.serving_letIn, List.range_succ, h.admissions, hserving]
  case access =>
    have hinside : ∀ mode, inside { s.proceed k c .admitted (s.gate.letIn c.mode) with
        admissions := s.admissions ++ [c.ticket] } mode =
          s.inside mode + if c.mode = mode then 1 else 0 :=
      inside_comeIn hk hphase (s.gate.letIn c.mode)
    rw [hinside, hinside]
    exact Gate.counts_letIn h.access hallows

theorem next (h : s.Orderly) {move : Move} (hnext : s.next? move = some t) : t.Orderly := by
  cases move with
  | arrive mode =>
      obtain rfl := next_arrive hnext
      exact h.arrive mode
  | enter k =>
      obtain ⟨c, hk, hphase, hadmits, rfl⟩ := next_enter hnext
      exact h.enter hk hphase hadmits
  | take k =>
      obtain ⟨c, hk, hphase, rfl⟩ := next_take hnext
      exact h.stay hk (by simp [Caller.isInside, hphase]) rfl
  | fail k =>
      obtain ⟨c, hk, hphase, -, rfl⟩ := next_fail hnext
      exact h.goOut hk (by simp [Caller.isInside, hphase])
  | drop k =>
      obtain ⟨c, hk, hphase, rfl⟩ := next_drop hnext
      exact h.stay hk (by simp [Caller.isInside, hphase]) rfl
  | leave k =>
      obtain ⟨c, hk, hphase, rfl⟩ := next_leave hnext
      exact h.goOut hk (by simp [Caller.isInside, hphase])

/-- The induction is on the moves that are left to be made. -/
theorem run (h : s.Orderly) {moves : List Move} (hrun : s.run? moves = some t) : t.Orderly := by
  induction moves generalizing s with
  | nil =>
      cases hrun
      exact h
  | cons move moves ih =>
      obtain ⟨u, hmove, hrest⟩ := Option.bind_eq_some_iff.mp hrun
      exact ih (h.next hmove) hrest

/-! ## What follows -/

theorem waiting_tickets (h : s.Orderly) :
    (s.all.filter (·.phase = .waiting)).map (·.ticket) =
      List.range' s.gate.serving (s.gate.nextTicket - s.gate.serving) := by
  have hfilter : s.all.filter (·.phase = .waiting) =
      s.all.filter ((fun n => decide (s.gate.serving ≤ n)) ∘ (·.ticket)) := by
    refine List.filter_congr fun c hc => ?_
    obtain ⟨k, hk⟩ := List.getElem?_of_mem hc
    rw [Function.comp_apply, (h.ticket_eq hk).1]
    exact decide_eq_decide.mpr (h.waiting k c hk)
  have hrange : List.range s.gate.nextTicket =
      List.range s.gate.serving ++
        List.range' s.gate.serving (s.gate.nextTicket - s.gate.serving) := by
    have happend := List.range'_append_1 (s := 0) (m := s.gate.serving)
      (n := s.gate.nextTicket - s.gate.serving)
    rw [Nat.zero_add, Nat.add_sub_cancel' h.served] at happend
    rw [List.range_eq_range', List.range_eq_range', happend]
  rw [hfilter, ← List.filter_map, h.tickets, hrange, List.filter_append, List.filter_eq_nil_iff.mpr,
    List.filter_eq_self.mpr, List.nil_append]
  · intro n hn
    rw [List.mem_range'_1] at hn
    simpa using hn.1
  · intro n hn
    rw [List.mem_range] at hn
    simpa using hn

/-- Whoever was let in and has not taken the data yet finds nobody with the data that keeps it out. -/
theorem dataFree (h : s.Orderly) (hk : s.all[k]? = some c) (hphase : c.phase = .admitted) :
    s.dataFree c.mode := by
  rw [Callers.dataFree, List.all_eq_true]
  intro d hd
  by_contra hconflict
  simp only [Bool.or_eq_true, bne_iff_ne, ne_eq, Bool.and_eq_true, beq_iff_eq, not_or, not_not,
    not_and] at hconflict
  obtain ⟨hholding, hmodes⟩ := hconflict
  obtain ⟨j, hj⟩ := List.getElem?_of_mem hd
  have hinside : c.isInside := by simp [Caller.isInside, hphase]
  have hjk : j ≠ k := by
    rintro rfl
    rw [hk, Option.some.injEq] at hj
    rw [hj, hholding] at hphase
    cases hphase
  -- Without the caller the other one is still counted.
  have hj' : (s.proceed k c .gone s.gate).all[j]? = some d := by
    simp only [Callers.proceed, List.getElem?_set, if_neg (Ne.symm hjk), hj]
  have hother := inside_pos hj' (by simp [Caller.isInside, hholding])
  have hread := inside_goOut hk hinside s.gate .read
  have hwrite := inside_goOut hk hinside s.gate .write
  have haccess := h.access
  rw [hread, hwrite] at haccess
  cases haccessed : s.gate.access <;> rw [haccessed] at haccess <;>
    cases hc : c.mode <;> cases hd : d.mode <;> rw [hd] at hother <;>
    simp [hc, hd, Access.Counts] at haccess hmodes <;> omega

end Orderly

/-- In every state that callers get to, the waiting ones hold the tickets that have not been served, one
each; the access says how many readers and writers are inside; tickets are served in the order in which
they are drawn, so that nobody is let in before one who came earlier; and whoever was let in finds the
data free. -/
theorem run_orderly {moves : List Move} (hrun : run? {} moves = some s) :
    s.all.map (·.ticket) = List.range s.gate.nextTicket ∧
    (s.all.filter (·.phase = .waiting)).map (·.ticket) =
      List.range' s.gate.serving (s.gate.nextTicket - s.gate.serving) ∧
    (s.gate.access = .writing ↔ s.inside .write = 1 ∧ s.inside .read = 0) ∧
    (∀ n, s.gate.access = .reading n ↔ 0 < n ∧ s.inside .read = n ∧ s.inside .write = 0) ∧
    (s.gate.access = .idle ↔ s.inside .read = 0 ∧ s.inside .write = 0) ∧
    s.admissions = List.range s.gate.serving ∧
    (∀ k t, s.next? (.enter k) = some t → ∀ j c, j < k → s.all[j]? = some c → c.phase ≠ .waiting) ∧
    (∀ (k : Nat) (c : Caller), s.all[k]? = some c → c.phase = .admitted → s.dataFree c.mode) := by
  have h := orderly_empty.run hrun
  refine ⟨h.tickets, h.waiting_tickets, h.access.writing_iff, h.access.reading_iff,
    h.access.idle_iff, h.admissions, ?_, fun k c hk hphase => h.dataFree hk hphase⟩
  intro k t hadmit j c hjk hj hwaiting
  obtain ⟨d, hk, hadmit⟩ := Option.bind_eq_some_iff.mp hadmit
  split at hadmit
  · rename_i hadmits
    simp only [Gate.admits, Bool.and_eq_true, beq_iff_eq] at hadmits
    have hfirst := (h.waiting j c hj).mp hwaiting
    have hticket := (h.ticket_eq hk).1
    omega
  · cases hadmit

/-- A writer waits for a reader, and a reader that came later waits behind the writer. -/
theorem run_orderly_waiting : ∃ s,
    run? {} [.arrive .read, .enter 0, .take 0, .arrive .write, .arrive .read] = some s ∧
      (s.all.filter (·.phase = .waiting)).map (·.ticket) = [1, 2] ∧
      s.gate.access = .reading 1 ∧ s.admissions = [0] := by
  obtain ⟨s, hrun⟩ : ∃ s, run? {} [.arrive .read, .enter 0, .take 0, .arrive .write, .arrive .read] =
      some s := Option.isSome_iff_exists.mp (by decide)
  obtain ⟨-, hwaiting, -, hreading, -, hadmissions, -⟩ := run_orderly hrun
  cases hrun
  exact ⟨_, rfl, hwaiting, (hreading 1).mpr (by decide), hadmissions⟩

end Callers

end AssetGroups.Lock
