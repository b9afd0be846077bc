import AssetGroups.Proofs.Event.Announcing
import AssetGroups.Proofs.Members
import AssetGroups.Proofs.Session

/-!
# The ledger of an instance

An instance that is alone with its file, and whose scripts announce what they change, keeps a ledger: the
one script that has the turn may still have to announce something about the content, and no other one can
come between.
-/

namespace AssetGroups

/-! ## Sites and ledgers -/

/-- The site finds the content of the ledger, without having to read a file for it, and has published what
was announced. -/
structure Site.Shows (cfg : Storage) (s : Site) (l : Ledger) : Prop where
  content : s.content cfg = .ok l.content
  read : s.slot.loaded = true ∨ s.disk.store = .missing
  published : s.feed.published = l.announced

namespace Site.Shows

variable {cfg : Storage} {s t : Site} {l : Ledger} {σ ρ : Stage}

/-- What is owed is that of the script that takes the step if it has the turn. -/
theorem step (h : s.Shows cfg l) (hprocess : cfg.isDurable = false) (hstep : Stage.Step cfg s t σ ρ)
    (hσ : σ = .outside ∨ σ = .inside l.owed) :
    ∃ l', l.Step l' ∧ t.Shows cfg l' ∧
      (ρ = σ ∧ l'.owed = l.owed ∨ σ = .inside l.owed ∧ ρ = .inside l'.owed) := by
  cases hstep with
  | kept hkept =>
      refine ⟨l, .still, ⟨hkept.content.trans h.content, ?_, ?_⟩, Or.inl ⟨rfl, rfl⟩⟩
      · rcases hkept.slot with hslot | ⟨db, -, hslot⟩
        · rw [hslot, hkept.store]
          exact h.read
        · rw [hslot]
          exact Or.inl rfl
      · rw [hkept.feed]
        exact h.published
  | @changed db db' e htells hchanged =>
      obtain rfl : l.content = db := Except.ok.inj (h.content.symm.trans hchanged.content)
      have howed : l.owed = none := by simpa [eq_comm] using hσ
      refine ⟨_, .changed howed htells, ⟨?_, ?_, ?_⟩, Or.inr ⟨by rw [howed], rfl⟩⟩
      · exact hchanged.content_eq fun hdurable => by simp [hprocess] at hdurable
      · rw [hchanged.slot]
        exact Or.inl rfl
      · rw [hchanged.feed]
        exact h.published
  | @published e ht =>
      have howed : l.owed = some e := by simpa [eq_comm] using hσ
      refine ⟨_, .published howed, ?_, Or.inr ⟨by rw [howed], rfl⟩⟩
      subst ht
      refine ⟨h.content, h.read, ?_⟩
      show s.feed.published ++ [e] = _
      rw [h.published]

theorem ids_outcome (h : s.Shows cfg l) (hprocess : cfg.isDurable = false) :
    ((Store.ids cfg).outcome s).1 = .ok l.content.ids := by
  have hcontent := h.content
  have hopen : ((Acquisition.openExclusive cfg).run s).1 = s.content cfg := by
    cases hloaded : s.slot.loaded with
    | true =>
        simp [Acquisition.openExclusive, Acquisition.exclude, Acquisition.run_bind, Site.content, hprocess,
          hloaded]
    | false =>
        have hmissing := h.read.resolve_left (by simp [hloaded])
        simp [Acquisition.openExclusive, Acquisition.exclude, Acquisition.load, Acquisition.run_bind,
          Site.content, Disk.content, Disk.load, hprocess, hloaded, hmissing]
  rw [hcontent, ← Store.outcome_snapshot] at hopen
  rw [Store.ids, Work.outcome_bind, Outcome.eq_of_fst hopen]
  rfl

end Site.Shows

/-! ## Schedules and ledgers -/

/-- The stage of a script under way when so much is owed. -/
def Running.stage {α : Type} (r : Running α) (owed : Option Event) : Stage :=
  if r.hasTurn then .inside owed else .outside

theorem Running.stage_cases {α : Type} (r : Running α) (owed : Option Event) :
    r.stage owed = .outside ∨ r.stage owed = .inside owed := by
  unfold stage
  split
  · exact Or.inr rfl
  · exact Or.inl rfl

/-- Without the turn a script owes nothing, before a step or after it. -/
theorem Running.stage_of_step {α : Type} (r : Running α) {owed owed' : Option Event} {ρ : Stage}
    (h : ρ = r.stage owed ∧ owed' = owed ∨ r.stage owed = .inside owed ∧ ρ = .inside owed') :
    ρ = r.stage owed' ∧ (owed' = owed ∨ r.hasTurn = true) := by
  rcases h with ⟨rfl, rfl⟩ | ⟨hinside, rfl⟩
  · exact ⟨rfl, Or.inl rfl⟩
  · have hhas : r.hasTurn = true := by
      by_contra hhasnot
      rw [stage, if_neg hhasnot] at hinside
      cases hinside
    exact ⟨by rw [stage, if_pos hhas], Or.inr hhas⟩

namespace Schedule

variable {α : Type} {cfg : Storage} {s s' : Schedule α} {l l' : Ledger} {k : Nat} {r r' : Running α}

/-- A single instance shows the ledger, one of its scripts at most has the turn, and only that one may owe
an announcement. -/
structure Keeps (cfg : Storage) (s : Schedule α) (l : Ledger) : Prop where
  alone : s.cluster.instances.length = 1
  places : ∀ r ∈ s.running, r.place = 0
  shows : (s.cluster.site 0).Shows cfg l
  stages : ∀ r ∈ s.running, r.script.Announcing cfg (r.stage l.owed) .outside
  single : ∀ (j k : Nat) (r r' : Running α), s.running[j]? = some r → s.running[k]? = some r' →
    r.hasTurn = true → r'.hasTurn = true → j = k
  free : (∀ r ∈ s.running, r.hasTurn = false) → l.owed = none

/-- A script that has the turn was not just started. -/
theorem getElem?_start {i j : Nat} {script : Script Site α}
    (hj : (s.start i script).running[j]? = some r) (hhas : r.hasTurn = true) :
    s.running[j]? = some r := by
  rcases getElem?_concat_cases hj with hj | ⟨-, rfl⟩
  · exact hj
  · cases hhas

namespace Keeps

theorem turnTaken_eq_false (h : s.Keeps cfg l) :
    s.turnTaken 0 = false ↔ ∀ r ∈ s.running, r.hasTurn = false := by
  unfold turnTaken
  rw [List.any_eq_false]
  refine forall₂_congr fun r hr => ?_
  simp [h.places r hr]

/-- Of all scripts but one only the ledger and the site change. -/
theorem set (h : s.Keeps cfg l) (hk : s.running[k]? = some r) {c : Cluster}
    (halone : c.instances.length = 1) (hplace : r'.place = 0) (hshows : (c.site 0).Shows cfg l')
    (hscript : r'.script.Announcing cfg (r'.stage l'.owed) .outside)
    (howed : l'.owed = l.owed ∨ r.hasTurn = true)
    (hturn : r'.hasTurn = true → r.hasTurn = true ∨ ∀ r ∈ s.running, r.hasTurn = false)
    (hfree : r'.hasTurn = false → (∀ j r, j ≠ k → s.running[j]? = some r → r.hasTurn = false) →
      l'.owed = none) :
    Keeps cfg ⟨c, s.running.set k r'⟩ l' where
  alone := halone
  places := forall_mem_set h.places hplace
  shows := hshows
  stages := by
    intro r'' hr''
    obtain ⟨j, hj⟩ := List.getElem?_of_mem hr''
    rcases getElem?_set_cases hj with ⟨-, rfl⟩ | ⟨hne, hj⟩
    · exact hscript
    · have hscript := h.stages r'' (List.mem_of_getElem? hj)
      rcases howed with howed | hhas
      · rwa [howed]
      · have hhasnot : r''.hasTurn = false :=
          Bool.eq_false_iff.mpr fun hhas'' => hne (h.single _ _ _ _ hj hk hhas'' hhas)
        rw [Running.stage, if_neg (by simp [hhasnot])] at hscript ⊢
        exact hscript
  single := by
    have hother : ∀ {j : Nat} {r'' : Running α}, j ≠ k → s.running[j]? = some r'' →
        r'.hasTurn = true → r''.hasTurn = false := by
      intro j r'' hne hj hhas'
      refine Bool.eq_false_iff.mpr fun hhas'' => ?_
      rcases hturn hhas' with hhas | hnone
      · exact hne (h.single _ _ _ _ hj hk hhas'' hhas)
      · simp [hnone r'' (List.mem_of_getElem? hj)] at hhas''
    intro i j r₁ r₂ hi hj h₁ h₂
    rcases getElem?_set_cases hi with ⟨hik, rfl⟩ | ⟨hik, hi'⟩ <;>
      rcases getElem?_set_cases hj with ⟨hjk, rfl⟩ | ⟨hjk, hj'⟩
    · rw [hik, hjk]
    · simp [hother hjk hj' h₁] at h₂
    · simp [hother hik hi' h₂] at h₁
    · exact h.single i j r₁ r₂ hi' hj' h₁ h₂
  free := by
    intro hnone
    have hlt := (List.getElem?_eq_some_iff.mp hk).1
    refine hfree (hnone r' (List.mem_of_getElem? (List.getElem?_set_self hlt))) fun j r'' hne hj => ?_
    exact hnone r'' (List.mem_of_getElem? ((List.getElem?_set_ne hne.symm).trans hj))

/-- A script takes a step, which may announce what it owes or change the content and owe that. -/
theorem act (h : s.Keeps cfg l) (hprocess : cfg.isDurable = false) (hk : s.running[k]? = some r)
    {f : Site → Site} {next : Site → Script Site α} (hscript : r.script = .step f next) :
    ∃ l', l.Step l' ∧ Keeps cfg ⟨s.cluster.setSite r.place (f (s.cluster.site r.place)),
      s.running.set k { r with script := next (s.cluster.site r.place) }⟩ l' := by
  have hr := List.mem_of_getElem? hk
  have hstage := h.stages r hr
  rw [hscript] at hstage
  rw [h.places r hr]
  obtain ⟨ρ, hstep, hnext⟩ := hstage (s.cluster.site 0)
  obtain ⟨l', hl, hshows, hcases⟩ := h.shows.step hprocess hstep (r.stage_cases l.owed)
  obtain ⟨rfl, howed⟩ := r.stage_of_step hcases
  refine ⟨l', hl, h.set hk (Cluster.length_setSite.trans h.alone) rfl ?_ hnext howed Or.inl
    fun hhasnot hothers => ?_⟩
  · rw [Cluster.site_setSite (h.alone ▸ Nat.zero_lt_one)]
    exact hshows
  · rw [howed.resolve_right (by simpa using hhasnot)]
    refine h.free fun r'' hr'' => ?_
    obtain ⟨j, hj⟩ := List.getElem?_of_mem hr''
    by_cases hjk : j = k
    · obtain rfl : r = r'' := Option.some.inj (hk.symm.trans (hjk ▸ hj))
      exact hhasnot
    · exact hothers j r'' hjk hj

theorem advance (h : s.Keeps cfg l) (hprocess : cfg.isDurable = false)
    (hadvance : s.advance? k = some s') : ∃ l', l.Step l' ∧ s'.Keeps cfg l' := by
  obtain ⟨r, hk, ⟨f, next, hscript, rfl⟩ | ⟨next, hscript, hfree, rfl⟩ | ⟨next, hscript, rfl⟩⟩ :=
    advance_inv hadvance
  · exact h.act hprocess hk hscript
  all_goals
    have hr := List.mem_of_getElem? hk
    have hplace := h.places r hr
    have hstage := h.stages r hr
    rw [hscript] at hstage
  · rw [hplace] at hfree
    have hnone := h.turnTaken_eq_false.mp hfree
    have howed := h.free hnone
    rw [Running.stage, if_neg (by simp [hnone r hr])] at hstage
    refine ⟨l, .still, h.set hk h.alone hplace h.shows ?_ (Or.inl rfl) (fun _ => Or.inr hnone) ?_⟩
    · rw [Running.stage, if_pos rfl, howed]
      exact hstage.2
    · exact fun _ _ => howed
  · have hhas : r.hasTurn = true := by
      by_contra hhasnot
      rw [Running.stage, if_neg hhasnot] at hstage
      cases hstage.1
    rw [Running.stage, if_pos hhas] at hstage
    have howed : l.owed = none := Stage.inside.inj hstage.1
    exact ⟨l, .still, h.set hk h.alone hplace h.shows hstage.2 (Or.inl rfl) (fun hno => by cases hno)
      fun _ _ => howed⟩

theorem start (h : s.Keeps cfg l) {script : Script Site α}
    (hscript : script.Announcing cfg .outside .outside) : (s.start 0 script).Keeps cfg l where
  alone := h.alone
  places := by
    intro r hr
    rcases List.mem_append.mp hr with hr | hr
    · exact h.places r hr
    · rw [List.mem_singleton.mp hr]
  shows := h.shows
  stages := by
    intro r hr
    rcases List.mem_append.mp hr with hr | hr
    · exact h.stages r hr
    · rw [List.mem_singleton.mp hr]
      exact hscript
  single := by
    intro j k r r' hj hk hhas hhas'
    exact h.single j k r r' (getElem?_start hj hhas) (getElem?_start hk hhas') hhas hhas'
  free := fun hnone => h.free fun r hr => hnone r (List.mem_append_left _ hr)

theorem refuse (h : s.Keeps cfg l) (refusals : List (Option String)) :
    (s.refuse refusals).Keeps cfg l := by
  refine ⟨h.alone, h.places, ⟨?_, h.shows.read, h.shows.published⟩, h.stages, h.single, h.free⟩
  exact (Site.Steady.of_store (s := s.cluster.site 0) rfl).content.trans h.shows.content

theorem opened : Keeps (α := α) cfg { cluster := .opened 1 } {} where
  alone := rfl
  places := by simp
  shows := ⟨if_neg fun hknown => by simp [Cluster.site_opened_slot] at hknown, Or.inr rfl, rfl⟩
  stages := by simp
  single := by simp
  free _ := rfl

end Keeps

end Schedule

namespace Session

variable {κ α : Type} {x : Session κ α} {cfg : Storage}

/-- An instance that is alone with its file keeps a ledger from the beginning. -/
theorem exists_ledgers (hscript : ∀ what, (x.script what).Announcing cfg .outside .outside)
    (hprocess : cfg.isDurable = false) (hone : x.instances = 1) (hjoin : ∀ t, x.moves t ≠ .join)
    (hfirst : x.first = {}) :
    ∃ ledger : Nat → Ledger, ledger 0 = {} ∧ (∀ t, (ledger t).Step (ledger (t + 1))) ∧
      ∀ t, (x.state t).Keeps cfg (ledger t) := by
  have hnext : ∀ t (l : { l : Ledger // (x.state t).Keeps cfg l }),
      ∃ l' : { l : Ledger // (x.state (t + 1)).Keeps cfg l }, l.1.Step l'.1 := by
    rintro t ⟨l, hkeeps⟩
    rcases x.state_cases t with ⟨i, what, -, hopened, hstate⟩ | ⟨k, -, hadvance⟩ | ⟨hmove, -⟩ |
      ⟨refusals, -, hstate⟩ | hstate
    · obtain rfl : i = 0 := Nat.lt_one_iff.mp (hkeeps.alone ▸ hopened)
      exact ⟨⟨l, hstate ▸ hkeeps.start (hscript what)⟩, .still⟩
    · obtain ⟨l', hl, hkeeps'⟩ := hkeeps.advance hprocess hadvance
      exact ⟨⟨l', hkeeps'⟩, hl⟩
    · exact absurd hmove (hjoin t)
    · exact ⟨⟨l, hstate ▸ hkeeps.refuse refusals⟩, .still⟩
    · exact ⟨⟨l, hstate ▸ hkeeps⟩, .still⟩
  have hbegins : (x.state 0).Keeps cfg {} := by
    rw [state, hone, hfirst]
    exact .opened
  choose next hstep using hnext
  let ledger : (t : Nat) → { l : Ledger // (x.state t).Keeps cfg l } :=
    fun t => Nat.rec ⟨{}, hbegins⟩ next t
  exact ⟨fun t => (ledger t).1, rfl, fun t => hstep t (ledger t), fun t => (ledger t).2⟩

end Session

end AssetGroups
