import AssetGroups.Proofs.Members
import AssetGroups.Proofs.Store.Steps
import AssetGroups.Schedule

/-!
# Steps in a cluster

The content that instances share, and what becomes of a schedule when one of its scripts goes on: the
site of one instance changes as the script's step says, and no other.
-/

namespace AssetGroups

/-- The file holds `db` as it is written, unless it is still what was there at first, in which `db` can be
read, and so does every instance that goes by its slot. -/
structure Cluster.Holds (cfg : Storage) (c : Cluster) (db : Database) (first : Entry := .missing) :
    Prop where
  store : c.disk.store = .file db.octets ∨ c.disk.store = first ∧ c.disk.content cfg = .ok db
  slots : cfg.isDurable = false → ∀ i ∈ c.instances, i.slot.loaded = true → i.slot.database = db

namespace Cluster

variable {cfg : Storage} {c : Cluster} {db : Database} {first : Entry} {disk : Disk} {i j : Nat}
  {s : Site}

/-! ## Sites -/

theorem site_setSite (hi : i < c.instances.length) : (c.setSite i s).site i = s := by
  simp [site, instanceAt, setSite, hi]

theorem site_setSite_of_ne (hij : i ≠ j) :
    (c.setSite i s).site j = { c.site j with disk := s.disk } := by
  simp [site, instanceAt, setSite, List.getD_eq_getElem?_getD, List.getElem?_set_ne hij]

/-- Of an instance that is not there only what it does to the disk remains. -/
theorem site_setSite_of_le (hi : c.instances.length ≤ i) :
    (c.setSite i s).site j = { c.site j with disk := s.disk } := by
  rw [setSite, List.set_eq_of_length_le hi]
  rfl

/-- Every site is the one that was set, or has changed on the disk alone. -/
theorem site_setSite_cases : i = j ∧ (c.setSite i s).site j = s ∨
    (c.setSite i s).site j = { c.site j with disk := s.disk } := by
  rcases Nat.lt_or_ge i c.instances.length with hi | hi
  · by_cases hij : i = j
    · exact Or.inl ⟨hij, hij ▸ site_setSite hi⟩
    · exact Or.inr (site_setSite_of_ne hij)
  · exact Or.inr (site_setSite_of_le hi)

/-- An instance that is opened later is as good as one that is there and has not been used. -/
theorem site_join : c.join.site i = c.site i := by
  have hinstance : c.join.instanceAt i = c.instanceAt i := by
    simp only [instanceAt, join, List.getD_eq_getElem?_getD, List.getElem?_append]
    split
    · rfl
    · rename_i hlt
      rw [List.getElem?_eq_none (Nat.le_of_not_lt hlt)]
      cases i - c.instances.length <;> rfl
  rw [site, site, hinstance]
  rfl

theorem site_opened_slot (n i : Nat) : ((opened n disk).site i).slot = {} := by
  show ((List.replicate n Instance.opened).getD i .opened).slot = {}
  rw [List.getD_eq_getElem?_getD, List.getElem?_replicate]
  split <;> rfl

theorem site_reopen_slot :
    ((c.reopen i).site j).slot = (c.site j).slot ∨ ((c.reopen i).site j).slot = {} := by
  unfold site instanceAt reopen
  simp only [List.getD_eq_getElem?_getD]
  by_cases hij : i = j
  · subst hij
    rw [List.getElem?_set_self']
    exact Or.inr (by cases c.instances[i]? <;> rfl)
  · rw [List.getElem?_set_ne hij]
    exact Or.inl rfl

theorem length_setSite : (c.setSite i s).instances.length = c.instances.length := List.length_set

/-! ## The content -/

theorem holds_opened (n : Nat) (h : disk.content cfg = .ok db) :
    (opened n disk).Holds cfg db disk.store where
  store := Or.inr ⟨rfl, h⟩
  slots := by
    intro _ i hi hloaded
    rw [List.eq_of_mem_replicate hi] at hloaded
    cases hloaded

theorem Holds.site (h : c.Holds cfg db first) (i : Nat) : (c.site i).Holds cfg db first where
  store := h.store
  slot := by
    intro hprocess hloaded
    unfold Cluster.site instanceAt at hloaded ⊢
    rw [List.getD_eq_getElem?_getD] at hloaded ⊢
    cases hi : c.instances[i]? with
    | none =>
        rw [hi] at hloaded
        cases hloaded
    | some inst =>
        rw [hi] at hloaded
        exact h.slots hprocess inst (List.mem_of_getElem? hi) hloaded

/-- After one of the instances has acted. Without a lock file it is the only one. -/
theorem holds_setSite (halone : c.instances.length = 1 ∨ cfg.isDurable = true)
    (hi : i < c.instances.length) (h : s.Holds cfg db first) : (c.setSite i s).Holds cfg db first where
  store := h.store
  slots := by
    intro hprocess inst hinst hloaded
    rcases halone with hsize | hdurable
    · obtain ⟨only, honly⟩ := List.length_eq_one_iff.mp hsize
      obtain rfl : i = 0 := by omega
      simp only [setSite, honly, List.set_cons_zero, List.mem_singleton] at hinst
      subst hinst
      exact h.slot hprocess hloaded
    · rw [hdurable] at hprocess
      cases hprocess

theorem Holds.reopen (h : c.Holds cfg db first) (i : Nat) : (c.reopen i).Holds cfg db first where
  store := h.store
  slots := by
    intro hprocess inst hinst hloaded
    rcases List.mem_or_eq_of_mem_set hinst with hinst | rfl
    · exact h.slots hprocess inst hinst hloaded
    · cases hloaded

theorem Holds.join (h : c.Holds cfg db first) : c.join.Holds cfg db first where
  store := h.store
  slots := by
    intro hprocess inst hinst hloaded
    rcases List.mem_append.mp hinst with hinst | hinst
    · exact h.slots hprocess inst hinst hloaded
    · rw [List.mem_singleton.mp hinst] at hloaded
      cases hloaded

end Cluster

/-! ## Scripts that go on -/

namespace Schedule

variable {α : Type} {R : Site → Site → Prop} {s s' : Schedule α} {k : Nat}

/-- A script goes on by a step at its own instance, or takes the turn when no other one has it, or gives
it back. -/
theorem advance_inv (h : s.advance? k = some s') : ∃ r, s.running[k]? = some r ∧
    ((∃ act next, r.script = .step act next ∧
        s' = ⟨s.cluster.setSite r.place (act (s.cluster.site r.place)),
          s.running.set k { r with script := next (s.cluster.site r.place) }⟩) ∨
      (∃ next, r.script = .takeTurn next ∧ s.turnTaken r.place = false ∧
        s' = { s with running := s.running.set k { r with hasTurn := true, script := next } }) ∨
      ∃ next, r.script = .giveTurn next ∧
        s' = { s with running := s.running.set k { r with hasTurn := false, script := next } }) := by
  unfold advance? at h
  cases hk : s.running[k]? with
  | none => simp [hk] at h
  | some r =>
      refine ⟨r, rfl, ?_⟩
      obtain ⟨place, hasTurn, script⟩ := r
      cases script with
      | done a => simp [hk] at h
      | step act next =>
          simp only [hk, Option.bind_eq_bind, Option.bind_some, Option.pure_def,
            Option.some.injEq] at h
          exact Or.inl ⟨act, next, rfl, h.symm⟩
      | takeTurn next =>
          simp only [hk, Option.bind_eq_bind, Option.bind_some] at h
          split at h
          · cases h
          · rename_i hfree
            exact Or.inr (Or.inl ⟨next, rfl, Bool.eq_false_iff.mpr hfree, (Option.some.inj h).symm⟩)
      | giveTurn next =>
          simp only [hk, Option.bind_eq_bind, Option.bind_some, Option.pure_def,
            Option.some.injEq] at h
          exact Or.inr (Or.inr ⟨next, rfl, h.symm⟩)

theorem advance_cases (h : s.advance? k = some s') : ∃ r, s.running[k]? = some r ∧
    ((∃ act next, r.script = .step act next ∧
        s' = ⟨s.cluster.setSite r.place (act (s.cluster.site r.place)),
          s.running.set k { r with script := next (s.cluster.site r.place) }⟩) ∨
      ∃ next hasTurn, (r.script = .takeTurn next ∨ r.script = .giveTurn next) ∧
        s' = { s with running := s.running.set k { r with hasTurn, script := next } }) := by
  obtain ⟨r, hk, hstep | ⟨next, hscript, -, hs'⟩ | ⟨next, hscript, hs'⟩⟩ := advance_inv h
  · exact ⟨r, hk, Or.inl hstep⟩
  · exact ⟨r, hk, Or.inr ⟨next, true, Or.inl hscript, hs'⟩⟩
  · exact ⟨r, hk, Or.inr ⟨next, false, Or.inr hscript, hs'⟩⟩

theorem advance_lengths (h : s.advance? k = some s') :
    s'.cluster.instances.length = s.cluster.instances.length ∧
      s'.running.length = s.running.length := by
  obtain ⟨r, -, ⟨_, _, -, rfl⟩ | ⟨_, _, -, rfl⟩⟩ := advance_cases h
  · exact ⟨Cluster.length_setSite, List.length_set⟩
  · exact ⟨rfl, List.length_set⟩

/-- Every script is under way at one of the instances, and its steps are within the relation. -/
def Within (R : Site → Site → Prop) (s : Schedule α) : Prop :=
  ∀ r ∈ s.running, r.place < s.cluster.instances.length ∧ r.script.Within R

theorem Within.start (h : s.Within R) {i : Nat} (hi : i < s.cluster.instances.length)
    {script : Script Site α} (hscript : script.Within R) : (s.start i script).Within R := by
  intro r hr
  rcases List.mem_append.mp hr with hr | hr
  · exact h r hr
  · rw [List.mem_singleton] at hr
    subst hr
    exact ⟨hi, hscript⟩

theorem Within.set (h : s.Within R) {c : Cluster}
    (hsize : c.instances.length = s.cluster.instances.length) {r : Running α}
    (hr : r.place < s.cluster.instances.length ∧ r.script.Within R) :
    Within R ⟨c, s.running.set k r⟩ := by
  show ∀ r' ∈ s.running.set k r, _ < c.instances.length ∧ _
  rw [hsize]
  exact forall_mem_set h hr

theorem Within.advance (h : s.Within R) (hadvance : s.advance? k = some s') :
    s'.Within R ∧ s'.cluster.instances.length = s.cluster.instances.length := by
  obtain ⟨r, hk, hcases⟩ := advance_cases hadvance
  obtain ⟨hplace, hscript⟩ := h r (List.mem_of_getElem? hk)
  rcases hcases with ⟨act, next, hstep, rfl⟩ | ⟨next, hasTurn, hturn, rfl⟩
  · rw [hstep] at hscript
    exact ⟨h.set Cluster.length_setSite ⟨hplace, (hscript _).2⟩, Cluster.length_setSite⟩
  · refine ⟨h.set rfl ⟨hplace, ?_⟩, rfl⟩
    rcases hturn with hturn | hturn <;> rw [hturn] at hscript <;> exact hscript

/-- What the step of a script does to the content. -/
theorem Within.advance_holds {cfg : Storage} {allowed : Database → Database → Prop} {db : Database}
    {first : Entry} (h : s.Within (Site.Step cfg allowed)) (hfits : db.Fits)
    (halone : s.cluster.instances.length = 1 ∨ cfg.isDurable = true)
    (hholds : s.cluster.Holds cfg db first) (hadvance : s.advance? k = some s') :
    s'.cluster.Holds cfg db first ∧ (∀ i, (s.cluster.site i).Steady cfg (s'.cluster.site i)) ∨
      ∃ db' r, allowed db db' ∧ s'.cluster.Holds cfg db' first ∧ s.running[k]? = some r ∧
        (s.cluster.site r.place).Changed cfg (s'.cluster.site r.place) db db' := by
  obtain ⟨r, hk, hcases⟩ := advance_cases hadvance
  obtain ⟨hplace, hscript⟩ := h r (List.mem_of_getElem? hk)
  rcases hcases with ⟨act, next, hstep, rfl⟩ | ⟨next, hasTurn, -, rfl⟩
  · rw [hstep] at hscript
    have hsite := Cluster.site_setSite (s := act (s.cluster.site r.place)) hplace
    rcases (hscript _).1.holds (hholds.site r.place) hfits with
      ⟨hsteady, hafter⟩ | ⟨db', hchanged, hallowed, hafter⟩
    · refine Or.inl ⟨Cluster.holds_setSite halone hplace hafter, fun i => ?_⟩
      by_cases hi : r.place = i
      · subst hi
        rw [hsite]
        exact hsteady
      · show Site.Steady cfg _ (Cluster.site _ i)
        rw [Cluster.site_setSite_of_ne hi]
        exact .of_store hsteady.store
    · refine Or.inr ⟨db', r, hallowed, Cluster.holds_setSite halone hplace hafter, hk, ?_⟩
      rw [hsite]
      exact hchanged
  · exact Or.inl ⟨hholds, fun i => .refl _⟩

end Schedule

end AssetGroups
