import AssetGroups.Proofs.Lock.Admission

/-!
# The phases of the callers of an access lock

A move takes one caller to its next phase and leaves the others where they are. While a caller is inside,
everybody behind it whose mode does not go with its own keeps waiting.
-/

namespace AssetGroups.Lock

/-- The phases between which caller `k` goes by a move. -/
inductive Phase.Turns (k : Nat) : Move → Phase → Phase → Prop where
  | enter : Turns k (.enter k) .waiting .admitted
  | take : Turns k (.take k) .admitted .holding
  | fail : Turns k (.fail k) .admitted .gone
  | drop : Turns k (.drop k) .holding .leaving
  | leave : Turns k (.leave k) .leaving .gone

namespace Phase.Turns

variable {k : Nat} {move : Move} {p q : Phase}

theorem eq_enter (h : p.Turns k move q) (hout : p = .waiting ∨ p = .gone) : move = .enter k := by
  cases h with
  | enter => rfl
  | take => simp at hout
  | fail => simp at hout
  | drop => simp at hout
  | leave => simp at hout

theorem ne_waiting (h : p.Turns k move q) : q ≠ .waiting := by
  cases h <;> simp

theorem eq_waiting (h : p.Turns k move q) (hq : q = .admitted) : p = .waiting := by
  cases h <;> simp_all

theorem ne_gone (h : p.Turns k move q) : p ≠ .gone := by
  cases h <;> simp

theorem has_data (h : p.Turns k move q) (hq : q = .holding ∨ q = .leaving) :
    move = .take k ∨ p = .holding := by
  cases h <;> simp_all

end Phase.Turns

theorem Caller.isInside_iff {c : Caller} : c.isInside ↔ c.phase ≠ .waiting ∧ c.phase ≠ .gone := by
  simp [Caller.isInside]

namespace Callers

variable {s t : Callers} {k : Nat} {c : Caller} {move : Move}

/-! ## One caller at a time -/

/-- A move that is somebody's takes this caller to its next phase and no other anywhere. -/
theorem next_cases (hnext : s.next? move = some t) :
    (∃ mode, move = .arrive mode ∧ t.all = s.all ++ [{ mode, ticket := s.gate.nextTicket }]) ∨
    (∃ k c phase, s.all[k]? = some c ∧ c.phase.Turns k move phase ∧
      t.all = s.all.set k { c with phase }) := by
  cases move with
  | arrive mode =>
      obtain rfl := next_arrive hnext
      exact Or.inl ⟨mode, rfl, rfl⟩
  | enter k =>
      obtain ⟨c, hk, hphase, -, rfl⟩ := next_enter hnext
      exact Or.inr ⟨k, c, _, hk, hphase ▸ .enter, rfl⟩
  | take k =>
      obtain ⟨c, hk, hphase, rfl⟩ := next_take hnext
      exact Or.inr ⟨k, c, _, hk, hphase ▸ .take, rfl⟩
  | fail k =>
      obtain ⟨c, hk, hphase, -, rfl⟩ := next_fail hnext
      exact Or.inr ⟨k, c, _, hk, hphase ▸ .fail, rfl⟩
  | drop k =>
      obtain ⟨c, hk, hphase, rfl⟩ := next_drop hnext
      exact Or.inr ⟨k, c, _, hk, hphase ▸ .drop, rfl⟩
  | leave k =>
      obtain ⟨c, hk, hphase, rfl⟩ := next_leave hnext
      exact Or.inr ⟨k, c, _, hk, hphase ▸ .leave, rfl⟩

theorem next_at (hnext : s.next? move = some t) (hk : s.all[k]? = some c) :
    ∃ phase, t.all[k]? = some { c with phase } ∧ (phase = c.phase ∨ c.phase.Turns k move phase) := by
  obtain ⟨hlt, -⟩ := List.getElem?_eq_some_iff.mp hk
  rcases next_cases hnext with ⟨mode, -, hall⟩ | ⟨j, d, phase, hj, hturns, hall⟩
  · refine ⟨c.phase, ?_, Or.inl rfl⟩
    rw [hall, List.getElem?_append_left hlt, hk]
  · by_cases hjk : j = k
    · subst hjk
      obtain rfl : c = d := Option.some.inj (hk.symm.trans hj)
      exact ⟨phase, by rw [hall, List.getElem?_set_self hlt], Or.inr hturns⟩
    · exact ⟨c.phase, by rw [hall, List.getElem?_set_ne hjk, hk], Or.inl rfl⟩

theorem at_next (hnext : s.next? move = some t) (hk : t.all[k]? = some c) :
    (∃ mode, move = .arrive mode ∧ k = s.all.length ∧
      c = { mode, ticket := s.gate.nextTicket }) ∨
    (∃ d, s.all[k]? = some d ∧ c.mode = d.mode ∧
      (c.phase = d.phase ∨ d.phase.Turns k move c.phase)) := by
  cases hd : s.all[k]? with
  | some d =>
      obtain ⟨phase, hphase, hturns⟩ := next_at hnext hd
      obtain rfl : c = { d with phase } := Option.some.inj (hk.symm.trans hphase)
      exact Or.inr ⟨d, rfl, rfl, hturns⟩
  | none =>
      rw [List.getElem?_eq_none_iff] at hd
      rcases next_cases hnext with ⟨mode, hmove, hall⟩ | ⟨j, e, phase, hj, -, hall⟩
      · rw [hall] at hk
        rcases getElem?_concat_cases hk with hold | ⟨hlast, hnew⟩
        · rw [List.getElem?_eq_none hd] at hold
          cases hold
        · exact Or.inl ⟨mode, hmove, hlast, hnew⟩
      · rw [hall, List.getElem?_eq_none (by simpa using hd)] at hk
        cases hk

/-! ## The first who waits -/

theorem Orderly.served_at (h : s.Orderly) (hk : s.all[k]? = some c) (hwaiting : c.phase = .waiting) :
    ∃ d, s.all[s.gate.serving]? = some d := by
  have hle := (h.waiting k c hk).mp hwaiting
  obtain ⟨hlt, -⟩ := List.getElem?_eq_some_iff.mp hk
  exact ⟨_, List.getElem?_eq_getElem (by omega)⟩

theorem Orderly.serving_eq (h : s.Orderly) (hk : s.all[k]? = some c) (hwaiting : c.phase = .waiting)
    (hfirst : ∀ (j : Nat) (d : Caller), j < k → s.all[j]? = some d → d.phase ≠ .waiting) :
    s.gate.serving = k := by
  have hle := (h.waiting k c hk).mp hwaiting
  obtain ⟨d, hd⟩ := h.served_at hk hwaiting
  by_contra hne
  exact hfirst _ d (by omega) hd ((h.waiting _ d hd).mpr (Nat.le_refl _))

/-! ## Those inside keep others waiting -/

/-- Who is inside when the gate allows one more shares with it. -/
theorem Orderly.reads_of_allows (h : s.Orderly) {mode : Mode} (hallows : s.gate.allows mode)
    (hk : s.all[k]? = some c) (hinside : c.isInside) : c.mode = .read ∧ mode = .read := by
  have hpos := inside_pos hk hinside
  have haccess := h.access
  cases hc : c.mode <;> cases mode <;> cases hgate : s.gate.access <;>
    simp_all [Gate.allows, Access.Counts]

theorem Orderly.exists_of_not_allows (h : s.Orderly) {mode : Mode} (hallows : ¬ s.gate.allows mode) :
    ∃ (k : Nat) (c : Caller), s.all[k]? = some c ∧ c.isInside ∧ (mode = .write ∨ c.mode = .write) := by
  obtain ⟨inner, hpos, hmodes⟩ : ∃ inner, 0 < s.inside inner ∧ (mode = .write ∨ inner = .write) := by
    have haccess := h.access
    cases hgate : s.gate.access with
    | idle => cases mode <;> simp [Gate.allows, hgate] at hallows
    | writing =>
        rw [hgate] at haccess
        exact ⟨.write, by rw [haccess.2]; decide, Or.inr rfl⟩
    | reading n =>
        rw [hgate] at haccess
        refine ⟨.read, haccess.2.1 ▸ haccess.1, Or.inl ?_⟩
        cases mode with
        | read => simp [Gate.allows, hgate] at hallows
        | write => rfl
  obtain ⟨c, hc, hinner⟩ := List.countP_pos_iff.mp hpos
  simp only [Bool.and_eq_true, beq_iff_eq] at hinner
  obtain ⟨k, hk⟩ := List.getElem?_of_mem hc
  exact ⟨k, c, hk, hinner.2, hinner.1 ▸ hmodes⟩

/-- Behind a caller that is inside waits everybody who does not share with it. -/
def Separate (s : Callers) : Prop :=
  ∀ (i j : Nat) (c d : Caller), i < j → s.all[i]? = some c → s.all[j]? = some d → c.isInside →
    c.mode = .write ∨ d.mode = .write → d.phase = .waiting

theorem separate_empty : Separate {} := by
  intro i j c d _ hi
  simp at hi

theorem Separate.next (h : s.Separate) (hs : s.Orderly) (hnext : s.next? move = some t) :
    t.Separate := by
  intro i j c' d' hij hi hj hinside hmodes
  rcases at_next hnext hj with ⟨mode, -, -, rfl⟩ | ⟨d, hd, hdd, hdturns⟩
  · rfl
  rcases at_next hnext hi with ⟨mode, -, -, rfl⟩ | ⟨c, hc, hcc, hcturns⟩
  · cases hinside
  rw [hcc, hdd] at hmodes
  by_cases hwas : c.isInside
  · -- The one in front was inside already, so that the gate does not let the other one in now.
    have hwaits := h i j c d hij hc hd hwas hmodes
    rcases hdturns with hsame | hturns
    · exact hsame.trans hwaits
    · obtain rfl := hturns.eq_enter (Or.inl hwaits)
      obtain ⟨e, he, -, hadmits, -⟩ := next_enter hnext
      obtain rfl : d = e := Option.some.inj (hd.symm.trans he)
      simp only [Gate.admits, Bool.and_eq_true] at hadmits
      obtain ⟨hread, hread'⟩ := hs.reads_of_allows hadmits.2 hc hwas
      rcases hmodes with hwrite | hwrite
      · cases hread.symm.trans hwrite
      · cases hread'.symm.trans hwrite
  · -- The one in front comes in now, and the ticket after its own is served next.
    have henter : move = .enter i := by
      rw [Caller.isInside_iff] at hinside hwas
      rcases hcturns with hsame | hturns
      · exact absurd (hsame ▸ hinside) hwas
      · exact hturns.eq_enter (by tauto)
    subst henter
    have hserving : t.gate.serving = i + 1 := by
      obtain ⟨e, he, -, hadmits, rfl⟩ := next_enter hnext
      simp only [Gate.admits, Bool.and_eq_true, beq_iff_eq] at hadmits
      rw [gate_proceed, Gate.serving_letIn, hadmits.1, (hs.ticket_eq he).1]
    refine ((hs.next hnext).waiting j d' hj).mpr ?_
    omega

end Callers

end AssetGroups.Lock
