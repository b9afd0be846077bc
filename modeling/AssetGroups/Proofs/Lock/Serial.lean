import AssetGroups.Lock.Register
import AssetGroups.Proofs.Lock.Phases
import Mathlib.Data.List.Nodup

/-!
# The data behind an access lock, in the order of the tickets

However the moves of any number of callers are mixed, and whichever writers are refused their lock file,
everybody sees the names of exactly those writers that came earlier and were not refused.
-/

namespace AssetGroups.Lock.Register

variable {names : Nat → String} {s t u : Register} {move : Move} {moves : List Move}

/-- What a caller sees who is `k`-th to draw a ticket: the names of those who wrote before, and its own
if it writes. -/
def due (names : Nat → String) (s : Register) (k : Nat) (mode : Mode) : List String :=
  (s.writers.filter (· < k)).map names ++ if mode = .write then [names k] else []

/-! ## One move -/

/-- Only a caller who gets the data sees or changes them. -/
theorem next_cases (hnext : s.next? names move = some t) :
    s.callers.next? move = some t.callers ∧
      ((∀ k, move ≠ .take k) ∧ t.data = s.data ∧ t.views = s.views ∨
        ∃ k c, move = .take k ∧ s.callers.all[k]? = some c ∧
          t.data = (s.see (names k) c).data ∧ t.views = (s.see (names k) c).views) := by
  obtain ⟨callers, hcallers, hnext⟩ := Option.bind_eq_some_iff.mp hnext
  cases move with
  | take k =>
      obtain ⟨c, hk, hnext⟩ := Option.bind_eq_some_iff.mp hnext
      cases hnext
      exact ⟨hcallers, Or.inr ⟨k, c, rfl, hk, rfl, rfl⟩⟩
  | arrive mode | enter k | fail k | drop k | leave k =>
      cases hnext
      exact ⟨hcallers, Or.inl ⟨by simp, rfl, rfl⟩⟩

theorem views_subset_next (hnext : s.next? names move = some t) : s.views ⊆ t.views := by
  rcases (next_cases hnext).2 with ⟨-, -, hviews⟩ | ⟨k, c, -, -, -, hviews⟩
  · exact hviews ▸ List.Subset.refl _
  · rw [hviews]
    exact List.subset_append_left _ _

theorem views_subset_run (hrun : s.run? names moves = some t) : s.views ⊆ t.views := by
  induction moves generalizing s with
  | nil =>
      cases hrun
      exact List.Subset.refl _
  | cons move moves ih =>
      obtain ⟨u, hmove, hrest⟩ := Option.bind_eq_some_iff.mp hrun
      exact List.Subset.trans (views_subset_next hmove) (ih hrest)

/-! ## What every move keeps -/

/-- The data are the names of the writers in the order of their tickets, and everybody who had them saw
what was due and still sees it until it has left. `done` are the moves up to now. -/
structure Serial (names : Nat → String) (done : List Move) (s : Register) : Prop where
  orderly : s.callers.Orderly
  separate : s.callers.Separate
  taken : ∀ k, .take k ∈ done ↔ ∃ v ∈ s.views, v.ticket = k
  nodup : (s.views.map (·.ticket)).Nodup
  ascending : s.writers.Pairwise (· < ·)
  data : s.data = s.writers.map names
  due : ∀ v ∈ s.views, v.data = s.due names v.ticket v.mode
  caller : ∀ v ∈ s.views, ∃ c, s.callers.all[v.ticket]? = some c ∧ c.mode = v.mode ∧
    c.phase ≠ .waiting ∧ c.phase ≠ .admitted
  present : ∀ (k : Nat) (c : Caller), s.callers.all[k]? = some c →
    c.phase = .holding ∨ c.phase = .leaving →
    ∃ v ∈ s.views, v.ticket = k ∧ v.mode = c.mode ∧ v.data = s.data
  failed : ∀ k, .fail k ∈ done → ∃ c, s.callers.all[k]? = some c ∧ c.phase = .gone ∧
    ∀ v ∈ s.views, v.ticket ≠ k

theorem serial_empty (names : Nat → String) : Serial names [] {} where
  orderly := Callers.orderly_empty
  separate := Callers.separate_empty
  taken := by simp
  nodup := List.nodup_nil
  ascending := List.Pairwise.nil
  data := rfl
  due := by simp
  caller := by simp
  present := by simp
  failed := by simp

namespace Serial

variable {done : List Move}

/-! ### Nobody gets the data -/

theorem caller_next (h : Serial names done s) (hcallers : s.callers.next? move = some t.callers)
    {v : View} (hv : v ∈ s.views) :
    ∃ c, t.callers.all[v.ticket]? = some c ∧ c.mode = v.mode ∧ c.phase ≠ .waiting ∧
      c.phase ≠ .admitted := by
  obtain ⟨c, hk, hmode, hwaiting, hadmitted⟩ := h.caller v hv
  obtain ⟨phase, hk', hturns⟩ := Callers.next_at hcallers hk
  refine ⟨_, hk', hmode, ?_⟩
  rcases hturns with rfl | hturns
  · exact ⟨hwaiting, hadmitted⟩
  · exact ⟨hturns.ne_waiting, fun hq => hwaiting (hturns.eq_waiting hq)⟩

theorem failed_next (h : Serial names done s) (hcallers : s.callers.next? move = some t.callers)
    {k : Nat} (hfail : .fail k ∈ done) : ∃ c, t.callers.all[k]? = some c ∧ c.phase = .gone := by
  obtain ⟨c, hk, hgone, -⟩ := h.failed k hfail
  obtain ⟨phase, hk', hturns⟩ := Callers.next_at hcallers hk
  refine ⟨_, hk', ?_⟩
  rcases hturns with rfl | hturns
  · exact hgone
  · exact absurd hgone hturns.ne_gone

theorem fresh (h : Serial names done s) {k : Nat} {c : Caller} (hk : s.callers.all[k]? = some c)
    (hphase : c.phase = .admitted) {v : View} (hv : v ∈ s.views) : v.ticket ≠ k := by
  rintro rfl
  obtain ⟨d, hd, -, -, hadmitted⟩ := h.caller v hv
  obtain rfl : c = d := Option.some.inj (hk.symm.trans hd)
  exact hadmitted hphase

theorem still (h : Serial names done s) (hcallers : s.callers.next? move = some t.callers)
    (hmove : ∀ k, move ≠ .take k) (hdata : t.data = s.data) (hviews : t.views = s.views) :
    Serial names (done ++ [move]) t := by
  have hwriters : t.writers = s.writers := by rw [writers, writers, hviews]
  constructor
  case orderly => exact h.orderly.next hcallers
  case separate => exact h.separate.next h.orderly hcallers
  case taken =>
    intro k
    rw [List.mem_append, List.mem_singleton, hviews, ← h.taken k]
    exact or_iff_left fun heq => hmove k heq.symm
  case nodup => rw [hviews]; exact h.nodup
  case ascending => rw [hwriters]; exact h.ascending
  case data => rw [hdata, hwriters]; exact h.data
  case due =>
    intro v hv
    rw [Register.due, hwriters]
    exact h.due v (hviews ▸ hv)
  case caller => exact fun v hv => h.caller_next hcallers (hviews ▸ hv)
  case present =>
    intro k c hk hphase
    rw [hviews, hdata]
    rcases Callers.at_next hcallers hk with ⟨mode, -, -, rfl⟩ | ⟨d, hd, hmode, hturns⟩
    · simp at hphase
    · rw [hmode]
      rcases hturns with hsame | hturns
      · exact h.present k d hd (hsame ▸ hphase)
      · rcases hturns.has_data hphase with htake | hholding
        · exact absurd htake (hmove k)
        · exact h.present k d hd (Or.inl hholding)
  case failed =>
    intro k hfail
    rw [hviews]
    rcases List.mem_append.mp hfail with hfail | hfail
    · obtain ⟨c, hk, hgone⟩ := h.failed_next hcallers hfail
      obtain ⟨-, -, -, hnone⟩ := h.failed k hfail
      exact ⟨c, hk, hgone, hnone⟩
    · obtain rfl := List.mem_singleton.mp hfail
      obtain ⟨c, hk, hphase, -, heq⟩ := Callers.next_fail hcallers
      exact ⟨_, heq ▸ Callers.proceed_at hk _ _, rfl, fun v hv => h.fresh hk hphase hv⟩

/-! ### A caller gets the data -/

section Take

variable {k : Nat} {c : Caller}

/-- Whoever had the data before an admitted writer came before it. -/
theorem lt_of_writes (h : Serial names done s) (hk : s.callers.all[k]? = some c)
    (hphase : c.phase = .admitted) {v : View} (hv : v ∈ s.views)
    (hwrite : c.mode = .write ∨ v.mode = .write) : v.ticket < k := by
  obtain ⟨d, hd, hmode, hwaiting, -⟩ := h.caller v hv
  by_contra hnot
  have hne := h.fresh hk hphase hv
  have hinside : c.isInside := by simp [Caller.isInside, hphase]
  exact hwaiting (h.separate k v.ticket c d (by omega) hk hd hinside (hmode ▸ hwrite))

theorem alone (h : Serial names done s) (hk : s.callers.all[k]? = some c)
    (hphase : c.phase = .admitted) (hwrite : c.mode = .write) {j : Nat} {d : Caller}
    (hj : s.callers.all[j]? = some d) (hinside : d.isInside) : j = k := by
  have hcinside : c.isInside := by simp [Caller.isInside, hphase]
  rcases Nat.lt_trichotomy j k with hlt | heq | hlt
  · have hwaits := h.separate j k d c hlt hj hk hinside (Or.inr hwrite)
    rw [hphase] at hwaits
    cases hwaits
  · exact heq
  · have hwaits := h.separate k j c d hlt hk hj hcinside (Or.inl hwrite)
    exact absurd hwaits (Caller.isInside_iff.mp hinside).1

theorem writers_see (s : Register) (name : String) (c : Caller) :
    (s.see name c).writers = s.writers ++ if c.mode = .write then [c.ticket] else [] := by
  cases hmode : c.mode <;> simp [see, writers, hmode]

theorem lt_of_mem_writers (h : Serial names done s) (hk : s.callers.all[k]? = some c)
    (hphase : c.phase = .admitted) {n : Nat} (hn : n ∈ s.writers) : n < k := by
  simp only [writers, List.mem_map, List.mem_filter, beq_iff_eq] at hn
  obtain ⟨v, ⟨hv, hwrite⟩, rfl⟩ := hn
  exact h.lt_of_writes hk hphase hv (Or.inr hwrite)

/-- What is due to those who had the data does not change. -/
theorem due_see (h : Serial names done s) (hk : s.callers.all[k]? = some c)
    (hphase : c.phase = .admitted) {v : View} (hv : v ∈ s.views) :
    (s.see (names k) c).due names v.ticket v.mode = s.due names v.ticket v.mode := by
  rw [Register.due, writers_see, (h.orderly.ticket_eq hk).1, Register.due]
  cases hmode : c.mode with
  | read => simp
  | write =>
      have hlt := h.lt_of_writes hk hphase hv (Or.inl hmode)
      simp [List.filter_append, Nat.le_of_lt hlt]

theorem due_new (h : Serial names done s) (hk : s.callers.all[k]? = some c)
    (hphase : c.phase = .admitted) :
    (s.see (names k) c).data = (s.see (names k) c).due names k c.mode := by
  have hall : s.writers.filter (· < k) = s.writers :=
    List.filter_eq_self.mpr fun n hn => by simpa using h.lt_of_mem_writers hk hphase hn
  rw [Register.due, writers_see, (h.orderly.ticket_eq hk).1, List.filter_append, hall]
  cases hmode : c.mode <;> simp [see, hmode, h.data]

theorem nodup_see (h : Serial names done s) (hk : s.callers.all[k]? = some c)
    (hphase : c.phase = .admitted) : ((s.see (names k) c).views.map (·.ticket)).Nodup := by
  rw [see, List.map_append, List.nodup_append]
  refine ⟨h.nodup, by simp, ?_⟩
  simp only [List.mem_map, List.map_cons, List.map_nil, List.mem_singleton]
  rintro _ ⟨v, hv, rfl⟩ _ rfl
  exact (h.orderly.ticket_eq hk).1 ▸ h.fresh hk hphase hv

theorem ascending_see (h : Serial names done s) (hk : s.callers.all[k]? = some c)
    (hphase : c.phase = .admitted) : (s.see (names k) c).writers.Pairwise (· < ·) := by
  rw [writers_see, (h.orderly.ticket_eq hk).1, List.pairwise_append]
  refine ⟨h.ascending, by cases c.mode <;> simp, fun n hn m hm => ?_⟩
  have hm : m = k := by
    cases hmode : c.mode <;> simp [hmode] at hm
    exact hm
  exact hm ▸ h.lt_of_mem_writers hk hphase hn

theorem data_see (h : Serial names done s) (hk : s.callers.all[k]? = some c) :
    (s.see (names k) c).data = (s.see (names k) c).writers.map names := by
  rw [writers_see, (h.orderly.ticket_eq hk).1]
  cases hmode : c.mode <;> simp [see, hmode, h.data]

theorem take (h : Serial names done s) (hcallers : s.callers.next? (.take k) = some t.callers)
    (hk : s.callers.all[k]? = some c) (hphase : c.phase = .admitted)
    (hafter : t.callers = s.callers.proceed k c .holding s.callers.gate)
    (hdata : t.data = (s.see (names k) c).data) (hviews : t.views = (s.see (names k) c).views) :
    Serial names (done ++ [.take k]) t := by
  have hwriters : t.writers = (s.see (names k) c).writers := by rw [writers, writers, hviews]
  have hdue : ∀ n mode, t.due names n mode = (s.see (names k) c).due names n mode := by
    intro n mode
    rw [Register.due, Register.due, hwriters]
  have hmem : ∀ v, v ∈ t.views ↔
      v ∈ s.views ∨ v = { ticket := k, mode := c.mode, data := t.data } := by
    intro v
    rw [hviews, hdata, see, List.mem_append, List.mem_singleton, (h.orderly.ticket_eq hk).1]
  constructor
  case orderly => exact h.orderly.next hcallers
  case separate => exact h.separate.next h.orderly hcallers
  case taken =>
    intro j
    simp only [List.mem_append, List.mem_singleton, Move.take.injEq, h.taken j, hmem, or_and_right,
      exists_or, exists_eq_left, eq_comm]
  case nodup => rw [hviews]; exact h.nodup_see hk hphase
  case ascending => rw [hwriters]; exact h.ascending_see hk hphase
  case data => rw [hdata, hwriters]; exact h.data_see hk
  case due =>
    intro v hv
    rw [hdue]
    rcases (hmem v).mp hv with hv | rfl
    · rw [h.due_see hk hphase hv]
      exact h.due v hv
    · rw [hdata]
      exact h.due_new hk hphase
  case caller =>
    intro v hv
    rcases (hmem v).mp hv with hv | rfl
    · exact h.caller_next hcallers hv
    · refine ⟨{ c with phase := .holding }, ?_, rfl, by simp, by simp⟩
      rw [hafter]
      exact Callers.proceed_at hk _ _
  case present =>
    intro j d hj hhas
    rcases Callers.proceed_cases (hafter ▸ hj) with ⟨rfl, rfl⟩ | ⟨hjk, hj⟩
    · exact ⟨_, (hmem _).mpr (Or.inr rfl), rfl, rfl, rfl⟩
    · have hinside : d.isInside := by
        rw [Caller.isInside_iff]
        rcases hhas with hd | hd <;> simp [hd]
      cases hmode : c.mode with
      | write => exact absurd (h.alone hk hphase hmode hj hinside) hjk
      | read =>
          obtain ⟨v, hv, hvk, hvmode, hvdata⟩ := h.present j d hj hhas
          refine ⟨v, (hmem v).mpr (Or.inl hv), hvk, hvmode, ?_⟩
          rw [hvdata, hdata, see, hmode]
  case failed =>
    intro j hfail
    replace hfail : .fail j ∈ done := by simpa using hfail
    obtain ⟨d, hj, hgone, hnone⟩ := h.failed j hfail
    obtain ⟨d', hj', hgone'⟩ := h.failed_next hcallers hfail
    refine ⟨d', hj', hgone', fun v hv => ?_⟩
    rcases (hmem v).mp hv with hv | rfl
    · exact hnone v hv
    · rintro rfl
      obtain rfl : c = d := Option.some.inj (hk.symm.trans hj)
      rw [hphase] at hgone
      cases hgone

end Take

theorem next (h : Serial names done s) (hnext : s.next? names move = some t) :
    Serial names (done ++ [move]) t := by
  obtain ⟨hcallers, ⟨hmove, hdata, hviews⟩ | ⟨k, c, rfl, hk, hdata, hviews⟩⟩ := next_cases hnext
  · exact h.still hcallers hmove hdata hviews
  · obtain ⟨d, hd, hphase, hafter⟩ := Callers.next_take hcallers
    obtain rfl : c = d := Option.some.inj (hk.symm.trans hd)
    exact h.take hcallers hk hphase hafter hdata hviews

theorem run (h : Serial names done s) (hrun : s.run? names moves = some t) :
    Serial names (done ++ moves) t := by
  induction moves generalizing s done with
  | nil =>
      cases hrun
      rwa [List.append_nil]
  | cons move moves ih =>
      obtain ⟨u, hmove, hrest⟩ := Option.bind_eq_some_iff.mp hrun
      rw [List.append_cons]
      exact ih (h.next hmove) hrest

/-- While a caller has the data, they stay what it saw. -/
theorem data_kept (h : Serial names done s) (hrun : s.run? names moves = some t) {k : Nat}
    {c d : Caller} (hk : s.callers.all[k]? = some c) (hc : c.phase = .holding ∨ c.phase = .leaving)
    (hk' : t.callers.all[k]? = some d) (hd : d.phase = .holding ∨ d.phase = .leaving) :
    t.data = s.data := by
  have ht := h.run hrun
  obtain ⟨v, hv, hvk, -, hvdata⟩ := h.present k c hk hc
  obtain ⟨w, hw, hwk, -, hwdata⟩ := ht.present k d hk' hd
  have heq : v = w := List.inj_on_of_nodup_map ht.nodup (views_subset_run hrun hv) hw
    (hvk.trans hwk.symm)
  rw [← hvdata, ← hwdata, heq]

theorem refused (h : Serial names done s) {k : Nat} (hnext : s.next? names (.fail k) = some t) :
    t.data = s.data ∧ t.views = s.views ∧
      t.callers.gate = { s.callers.gate with access := .idle } ∧
      t.callers.inside .read = 0 ∧ t.callers.inside .write = 0 := by
  have ht := h.next hnext
  obtain ⟨hcallers, ⟨-, hdata, hviews⟩ | ⟨j, c, hmove, -⟩⟩ := next_cases hnext
  · obtain ⟨c, -, -, hwrite, hafter⟩ := Callers.next_fail hcallers
    have hgate : t.callers.gate = { s.callers.gate with access := .idle } := by
      rw [hafter, Callers.gate_proceed, hwrite, Gate.release]
    exact ⟨hdata, hviews, hgate, ht.orderly.access.idle_iff.mp (by rw [hgate])⟩
  · cases hmove

end Serial

/-- Whatever moves have been made: each caller that got the data saw them once, namely the names of the
writers before it that got them, in the order of the tickets, and its own name if it writes; the data are
the names of all of these writers; they stay what a caller saw until it has left; and a writer that is
refused its lock file never sees them, changes nothing and leaves the gate idle. -/
theorem run_serial (hrun : run? names {} moves = some s) :
    (∀ k, .take k ∈ moves ↔ ∃ v ∈ s.views, v.ticket = k) ∧
    (s.views.map (·.ticket)).Nodup ∧
    (∀ v ∈ s.views, (∃ c, s.callers.all[v.ticket]? = some c ∧ c.ticket = v.ticket ∧
        c.mode = v.mode) ∧
      v.data = (s.writers.filter (· < v.ticket)).map names ++
        if v.mode = .write then [names v.ticket] else []) ∧
    s.writers.Pairwise (· < ·) ∧
    s.data = s.writers.map names ∧
    (∀ (k : Nat) (c : Caller), s.callers.all[k]? = some c →
      c.phase = .holding ∨ c.phase = .leaving →
      (∃ v ∈ s.views, v.ticket = k ∧ v.mode = c.mode ∧ v.data = s.data) ∧
      ∀ later t d, s.run? names later = some t → t.callers.all[k]? = some d →
        d.phase = .holding ∨ d.phase = .leaving → t.data = s.data) ∧
    (∀ k, .fail k ∈ moves → k < s.callers.gate.serving ∧ ∀ v ∈ s.views, v.ticket ≠ k) ∧
    (∀ k t, s.next? names (.fail k) = some t → t.data = s.data ∧ t.views = s.views ∧
      t.callers.gate = { s.callers.gate with access := .idle } ∧
      t.callers.inside .read = 0 ∧ t.callers.inside .write = 0) := by
  have h : Serial names moves s := (serial_empty names).run hrun
  refine ⟨h.taken, h.nodup, ?_, h.ascending, h.data, ?_, ?_, fun k t hnext => h.refused hnext⟩
  · intro v hv
    obtain ⟨c, hk, hmode, -⟩ := h.caller v hv
    exact ⟨⟨c, hk, (h.orderly.ticket_eq hk).1, hmode⟩, h.due v hv⟩
  · intro k c hk hphase
    exact ⟨h.present k c hk hphase, fun later t d hlater hk' hphase' =>
      h.data_kept hlater hk hphase hk' hphase'⟩
  · intro k hfail
    obtain ⟨c, hk, hgone, hnone⟩ := h.failed k hfail
    refine ⟨Nat.lt_of_not_le fun hle => ?_, hnone⟩
    have hwaiting := (h.orderly.waiting k c hk).mpr hle
    rw [hgone] at hwaiting
    cases hwaiting

/-- Of three writers the second is refused its lock file, and the reader that came last sees the names of
the other two. -/
theorem run_serial_refused : ∃ s, run? (["ann", "bob", "cyd", "dee"].getD · "") {}
    [.arrive .write, .enter 0, .arrive .write, .arrive .write, .arrive .read, .take 0, .drop 0,
      .leave 0, .enter 1, .fail 1, .enter 2, .take 2, .drop 2, .leave 2, .enter 3, .take 3] = some s ∧
    s.data = ["ann", "cyd"] ∧ (∀ v ∈ s.views, v.ticket ≠ 1) ∧
    ∃ v ∈ s.views, v.ticket = 3 ∧ v.data = ["ann", "cyd"] := by
  obtain ⟨s, hrun⟩ : ∃ s, run? (["ann", "bob", "cyd", "dee"].getD · "") {}
      [.arrive .write, .enter 0, .arrive .write, .arrive .write, .arrive .read, .take 0, .drop 0,
        .leave 0, .enter 1, .fail 1, .enter 2, .take 2, .drop 2, .leave 2, .enter 3, .take 3] =
        some s := Option.isSome_iff_exists.mp (by decide)
  obtain ⟨-, -, -, -, hdata, hholders, hfailed, -⟩ := run_serial hrun
  have hnone := (hfailed 1 (by simp)).2
  cases hrun
  obtain ⟨v, hv, hticket, -, hseen⟩ := (hholders 3 _ rfl (Or.inl rfl)).1
  exact ⟨_, rfl, hdata, hnone, v, hv, hticket, hseen.trans hdata⟩

end AssetGroups.Lock.Register
