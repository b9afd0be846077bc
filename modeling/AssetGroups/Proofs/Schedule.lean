import AssetGroups.Proofs.Cluster
import AssetGroups.Proofs.Job.Steps

/-!
# What jobs lead to

The clusters that are reached from a missing file by jobs of any kind, started at any instance at any
time and cut short by any refusal, in any order of their steps. In all of them the store holds a sound
content.
-/

namespace AssetGroups

/-- What is asked of an instance. -/
inductive Command where
  | request (subject : String) (payload : List UInt8)
  | save (q : Backup.SaveQuery)
  | restore (q : Backup.RestoreQuery)
  | reset

def Command.script (sv : Service) : Command → Script Site Unit
  | .request subject payload => discard (sv.respond subject payload)
  | .save q => discard (Backup.answerSave sv q)
  | .restore q => discard (Backup.answerRestore sv q)
  | .reset => discard (Backup.answerReset sv)

theorem Command.script_within (sv : Service) (c : Command) :
    (c.script sv).Within (Site.JobStep sv.storage) := by
  cases c with
  | request subject payload => exact .bind (sv.respond_within subject payload) fun _ => .pure ()
  | save q => exact .bind (Backup.answerSave_within sv q) fun _ => .pure ()
  | restore q => exact .bind (Backup.answerRestore_within sv q) fun _ => .pure ()
  | reset => exact .bind (Backup.answerReset_within sv) fun _ => .pure ()

/-! ## Schedules -/

namespace Schedule

variable {α : Type}

/-- Puts a new instance in the place of one, whose scripts end where they are. -/
def reopen (s : Schedule α) (i : Nat) : Schedule α :=
  ⟨s.cluster.reopen i, s.running.filter (·.place != i)⟩

/-- Goes on with the `k`-th script alone, by at most so many steps. -/
def finish (s : Schedule α) (k : Nat) : (steps : Nat) → Schedule α
  | 0 => s
  | steps + 1 =>
    match s.advance? k with
    | some s' => s'.finish k steps
    | none => s

/-- Reached by `n` instances of a service from a missing file. -/
inductive Reached (sv : Service) (n : Nat) : Schedule Unit → Prop where
  | opened : Reached sv n { cluster := .opened n }
  | start {s : Schedule Unit} {i : Nat} (c : Command) : Reached sv n s → i < n →
      Reached sv n (s.start i (c.script sv))
  | advance {s s' : Schedule Unit} {k : Nat} : Reached sv n s → s.advance? k = some s' →
      Reached sv n s'
  | reopen {s : Schedule Unit} (i : Nat) : Reached sv n s → Reached sv n (s.reopen i)
  | refuse {s : Schedule Unit} (refusals : List (Option String)) : Reached sv n s →
      Reached sv n (s.refuse refusals)

theorem Reached.finish {sv : Service} {n : Nat} {s : Schedule Unit} (h : Reached sv n s)
    (k steps : Nat) : Reached sv n (s.finish k steps) := by
  induction steps generalizing s with
  | zero => exact h
  | succ steps ih =>
      rw [Schedule.finish]
      cases hadvance : s.advance? k with
      | none => exact h
      | some s' => exact ih (h.advance hadvance)

/-- The store holds a sound content, and every script that is under way is that of a job. -/
structure Sound (cfg : Storage) (n : Nat) (s : Schedule α) : Prop where
  size : s.cluster.instances.length = n
  running : s.Within (Site.JobStep cfg)
  holds : ∃ db : Database, db.Sound ∧ s.cluster.Holds cfg db

namespace Sound

variable {cfg : Storage} {n : Nat} {s : Schedule α}

theorem site (h : s.Sound cfg n) (i : Nat) : (s.cluster.site i).Sound cfg := by
  obtain ⟨db, hsound, hholds⟩ := h.holds
  exact ⟨db, hsound, hholds.site i⟩

theorem advance (h : s.Sound cfg n) (hn : n = 1 ∨ cfg.isDurable = true) {s' : Schedule α} {k : Nat}
    (hadvance : s.advance? k = some s') : Sound cfg n s' := by
  obtain ⟨hrunning, hsize⟩ := h.running.advance hadvance
  refine ⟨hsize.trans h.size, hrunning, ?_⟩
  obtain ⟨db, hsound, hholds⟩ := h.holds
  rcases h.running.advance_holds hsound.fits (h.size ▸ hn) hholds hadvance with
    ⟨hholds, -⟩ | ⟨db', -, hstep, hholds, -⟩
  · exact ⟨db, hsound, hholds⟩
  · exact ⟨db', hsound.step hstep, hholds⟩

end Sound

/-- The induction is on the steps that lead to the schedule. -/
theorem Reached.sound {sv : Service} {n : Nat} (hn : n = 1 ∨ sv.storage.isDurable = true)
    {s : Schedule Unit} (h : Reached sv n s) : s.Sound sv.storage n := by
  induction h with
  | opened =>
      exact ⟨List.length_replicate, by simp [Within], {}, Database.sound_empty,
        Cluster.holds_opened n (Disk.content_of_missing rfl)⟩
  | start c _ hi ih =>
      exact ⟨ih.size, ih.running.start (ih.size.symm ▸ hi) (c.script_within sv), ih.holds⟩
  | advance _ hadvance ih => exact ih.advance hn hadvance
  | reopen i _ ih =>
      obtain ⟨db, hsound, hholds⟩ := ih.holds
      refine ⟨List.length_set.trans ih.size, fun r hr => ?_, db, hsound, hholds.reopen i⟩
      show _ < (List.set _ _ _).length ∧ _
      rw [List.length_set]
      exact ih.running r (List.mem_of_mem_filter hr)
  | refuse refusals _ ih =>
      obtain ⟨db, hsound, hholds⟩ := ih.holds
      exact ⟨ih.size, ih.running, db, hsound, hholds.store, hholds.slots⟩

end Schedule

/-! ## Instances that do not see each other's changes -/

/-- What the file holds is sound, and so is what the instance has in its slot, be it something else. -/
structure Site.Wholesome (s : Site) : Prop where
  store : s.disk.store = .missing ∨ ∃ db : Database, db.Sound ∧ s.disk.store = .file db.octets
  slot : s.slot.loaded = true → s.slot.database.Sound

namespace Site.Wholesome

variable {cfg : Storage} {s t : Site} {db : Database}

theorem sound (h : s.Wholesome) (hcontent : s.content cfg = .ok db) : db.Sound := by
  unfold content at hcontent
  split at hcontent
  · rename_i hslot
    obtain rfl := Except.ok.inj hcontent
    exact h.slot hslot.2
  · rcases h.store with hmissing | ⟨db₀, hsound, hfile⟩
    · simp only [Disk.content, Disk.load, hmissing] at hcontent
      obtain rfl := Except.ok.inj hcontent
      exact Database.sound_empty
    · rw [Disk.content_of_file hfile hsound.fits] at hcontent
      split at hcontent
      · obtain rfl := Except.ok.inj hcontent
        exact hsound
      · cases hcontent

theorem readable (h : s.Wholesome) (hdurable : cfg.isDurable = true)
    (hcontent : s.content cfg = .ok db) : db.Readable := by
  rw [Site.content, if_neg (by simp [hdurable])] at hcontent
  rcases h.store with hmissing | ⟨db₀, hsound, hfile⟩
  · simp only [Disk.content, Disk.load, hmissing] at hcontent
    obtain rfl := Except.ok.inj hcontent
    decide
  · rw [Disk.content_of_file hfile hsound.fits] at hcontent
    split at hcontent
    · rename_i hreadable
      obtain rfl := Except.ok.inj hcontent
      exact hreadable
    · cases hcontent

theorem step (h : s.Wholesome) (hstep : s.JobStep cfg t) : t.Wholesome := by
  rcases hstep with hkept | ⟨e, rfl⟩ | ⟨hallowed, hchanged⟩
  · refine ⟨hkept.store ▸ h.store, fun hloaded => ?_⟩
    rcases hkept.slot with hslot | ⟨db, hcontent, hslot⟩
    · rw [hslot] at hloaded ⊢
      exact h.slot hloaded
    · rw [hslot]
      exact h.sound hcontent
  · exact ⟨h.store, h.slot⟩
  · have hsound := (h.sound hchanged.content).step hallowed
    refine ⟨Or.inr ⟨_, hsound, hchanged.store⟩, fun _ => ?_⟩
    rw [hchanged.slot]
    exact hsound

/-- What holds at the beginning of jobs that nobody else acts besides holds after them. -/
theorem outcome {α : Type} {w : Work α} (h : s.Wholesome) (hw : w.Within (Site.JobStep cfg)) :
    (w.outcome s).2.Wholesome := by
  exact hw.outcome_related (fun s t => s.Wholesome → t.Wholesome)
    (fun _ _ hstep hs => hs.step hstep) (fun _ => id) (fun _ _ _ hst htu hs => htu (hst hs)) s h

theorem of_slot (h : s.Wholesome) (hstore : t.disk.store = s.disk.store)
    (hslot : t.slot = s.slot ∨ t.slot = {}) : t.Wholesome := by
  refine ⟨hstore ▸ h.store, fun hloaded => ?_⟩
  rcases hslot with hslot | hslot <;> rw [hslot] at hloaded ⊢
  · exact h.slot hloaded
  · cases hloaded

end Site.Wholesome

namespace Schedule

/-- However many instances there are, and whether or not they see each other's changes, what any of them
finds is sound. -/
theorem Reached.wholesome {sv : Service} {n : Nat} {s : Schedule Unit} (h : Reached sv n s) :
    s.cluster.instances.length = n ∧ s.Within (Site.JobStep sv.storage) ∧
      ∀ i, (s.cluster.site i).Wholesome := by
  induction h with
  | opened =>
      refine ⟨List.length_replicate, by simp [Within], fun i => ⟨Or.inl rfl, fun hloaded => ?_⟩⟩
      rw [Cluster.site_opened_slot] at hloaded
      cases hloaded
  | start c _ hi ih =>
      exact ⟨ih.1, ih.2.1.start (ih.1.symm ▸ hi) (c.script_within sv), ih.2.2⟩
  | advance _ hadvance ih =>
      obtain ⟨hsize, hwithin, hsites⟩ := ih
      obtain ⟨hwithin', hsize'⟩ := hwithin.advance hadvance
      refine ⟨hsize'.trans hsize, hwithin', fun i => ?_⟩
      obtain ⟨r, hk, ⟨act, next, hstep, rfl⟩ | ⟨next, hasTurn, -, rfl⟩⟩ := advance_cases hadvance
      · obtain ⟨hplace, hscript⟩ := hwithin r (List.mem_of_getElem? hk)
        rw [hstep] at hscript
        have hafter := (hsites r.place).step (hscript _).1
        show Site.Wholesome (Cluster.site _ i)
        by_cases hi : r.place = i
        · subst hi
          rw [Cluster.site_setSite hplace]
          exact hafter
        · rw [Cluster.site_setSite_of_ne hi]
          exact ⟨hafter.store, (hsites i).slot⟩
      · exact hsites i
  | reopen i _ ih =>
      obtain ⟨hsize, hwithin, hsites⟩ := ih
      refine ⟨List.length_set.trans hsize, fun r hr => ?_, fun j => ?_⟩
      · show _ < (List.set _ _ _).length ∧ _
        rw [List.length_set]
        exact hwithin r (List.mem_of_mem_filter hr)
      · exact (hsites j).of_slot rfl Cluster.site_reopen_slot
  | refuse refusals _ ih => exact ⟨ih.1, ih.2.1, fun i => (ih.2.2 i).of_slot rfl (Or.inl rfl)⟩

end Schedule

end AssetGroups
