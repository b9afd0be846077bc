import AssetGroups.Proofs.Store.Content
import AssetGroups.Proofs.Store.Text

/-!
# Changes of a store

A change either is made, in the file and in the slot of the instance, or leaves everything as it was.
What an instance finds afterwards is what was written, as long as the file can be read.
-/

namespace AssetGroups

variable {α : Type} {cfg : Storage} {s t : Site} {db db' : Database}

theorem Disk.content_of_file {d : Disk} (hstore : d.store = .file db.octets) (hfits : db.Fits) :
    d.content cfg =
      if db.Readable then .ok db else .error (.serialization "not a group database") := by
  simp only [content, load, hstore, access, Database.ofOctets_octets]
  exact Database.ofText_text hfits

theorem Disk.content_of_missing {d : Disk} (hstore : d.store = .missing) : d.content cfg = .ok {} := by
  rw [content, load, hstore]

theorem Disk.inWords_of_content {d : Disk} (h : d.content cfg = .ok db) : db.InWords := by
  unfold content load at h
  cases hstore : d.store with
  | missing =>
      rw [hstore] at h
      obtain rfl := Except.ok.inj h
      exact ⟨by decide, by simp⟩
  | folder =>
      rw [hstore] at h
      cases h
  | file octets =>
      simp only [hstore, access] at h
      exact Database.inWords_of_ofOctets h

namespace Site

/-- The content `db` that the instance found was replaced by `db'`, and nothing else that others could
see has changed. -/
structure Changed (cfg : Storage) (s t : Site) (db db' : Database) : Prop where
  content : s.content cfg = .ok db
  slot : t.slot = ⟨true, db'⟩
  store : t.disk.store = .file db'.octets
  feed : t.feed = s.feed
  refusals : t.disk.refusals <:+ s.disk.refusals

/-- An instance finds something if the file can be read. -/
theorem content_of_loads (h : s.disk.content cfg = .ok db) : ∃ db', s.content cfg = .ok db' := by
  unfold content
  split
  · exact ⟨_, rfl⟩
  · exact ⟨db, h⟩

/-- Nothing is found where the file is a folder, or does not hold what can be read. -/
theorem content_eq_error {e : GroupError} (h : s.content cfg = .error e) :
    e = .serialization "not a group database" ∨ ∃ path cause, e = .storage path cause := by
  unfold content at h
  split at h
  · cases h
  · unfold Disk.content Disk.load at h
    cases hstore : s.disk.store with
    | missing =>
        rw [hstore] at h
        cases h
    | folder =>
        rw [hstore] at h
        cases h
        exact Or.inr ⟨_, _, rfl⟩
    | file octets =>
        simp only [hstore, Disk.access] at h
        exact (Database.ofOctets_eq_error h).imp_right fun htext => ⟨_, _, htext⟩

/-- The file holds `db` as it is written, unless it is still what was there at first, in which `db` can be
read, and an instance that goes by its slot has it there. -/
structure Holds (cfg : Storage) (s : Site) (db : Database) (first : Entry := .missing) : Prop where
  store : s.disk.store = .file db.octets ∨ s.disk.store = first ∧ s.disk.content cfg = .ok db
  slot : cfg.isDurable = false → s.slot.loaded = true → s.slot.database = db

namespace Holds

variable {first : Entry}

theorem file (h : s.Holds cfg db first) : s.disk.store ≠ .folder := by
  intro hfolder
  rcases h.store with hstore | ⟨-, hcontent⟩
  · rw [hstore] at hfolder
    cases hfolder
  · simp only [Disk.content, Disk.load, hfolder] at hcontent
    cases hcontent

/-- The file is read as the content, or as nothing. -/
theorem loads_cases (h : s.Holds cfg db first) (hfits : db.Fits) : s.disk.content cfg = .ok db ∨
    ¬ db.Readable ∧ s.disk.content cfg = .error (.serialization "not a group database") := by
  rcases h.store with hstore | ⟨-, hcontent⟩
  · rw [Disk.content_of_file hstore hfits]
    by_cases hreadable : db.Readable
    · exact Or.inl (if_pos hreadable)
    · exact Or.inr ⟨hreadable, if_neg hreadable⟩
  · exact Or.inl hcontent

theorem content_cases (h : s.Holds cfg db first) (hfits : db.Fits) :
    s.content cfg = .ok db ∨ ¬ db.Readable ∧
      s.content cfg = .error (.serialization "not a group database") := by
  by_cases hknown : cfg.isDurable = false ∧ s.slot.loaded = true
  · rw [content, if_pos hknown, h.slot hknown.1 hknown.2]
    exact Or.inl rfl
  · rw [content, if_neg hknown]
    exact h.loads_cases hfits

theorem eq_of_content (h : s.Holds cfg db first) (hfits : db.Fits)
    (hcontent : s.content cfg = .ok db') : db' = db := by
  rcases h.content_cases hfits with hok | ⟨-, herror⟩
  · rw [hok] at hcontent
    cases hcontent
    rfl
  · rw [herror] at hcontent
    cases hcontent

theorem eq_of_loads (h : s.Holds cfg db first) (hfits : db.Fits)
    (hloads : s.disk.content cfg = .ok db') : db' = db := by
  rcases h.loads_cases hfits with hok | ⟨-, herror⟩
  · exact Except.ok.inj (hloads.symm.trans hok)
  · rw [herror] at hloads
    cases hloads

theorem steady (h : s.Holds cfg db first) (hfits : db.Fits) (hsteady : Steady cfg s t) :
    t.Holds cfg db first where
  store := by
    rw [hsteady.store, Disk.content_congr cfg hsteady.store]
    exact h.store
  slot := by
    intro hprocess hloaded
    have hcontent := hsteady.content
    rw [content, if_pos ⟨hprocess, hloaded⟩] at hcontent
    exact h.eq_of_content hfits hcontent.symm

/-! ### Contents of which nothing was there at first -/

theorem loads (h : s.Holds cfg db) (hfits : db.Fits) : s.disk.content cfg =
    if db.Readable then .ok db else .error (.serialization "not a group database") := by
  rcases h.store with hstore | ⟨hstore, hcontent⟩
  · exact Disk.content_of_file hstore hfits
  · rw [Disk.content_of_missing hstore] at hcontent ⊢
    obtain rfl := Except.ok.inj hcontent
    exact (if_pos (by decide)).symm

/-- An instance that does not go by its slot finds what can be read in the file. -/
theorem content_unknown (h : s.Holds cfg db) (hfits : db.Fits)
    (hunknown : ¬ (cfg.isDurable = false ∧ s.slot.loaded = true)) : s.content cfg =
      if db.Readable then .ok db else .error (.serialization "not a group database") :=
  (if_neg hunknown).trans (h.loads hfits)

theorem readable (h : s.Holds cfg db) (hfits : db.Fits) (hdurable : cfg.isDurable = true)
    (hcontent : s.content cfg = .ok db) : db.Readable := by
  rw [h.content_unknown hfits (by simp [hdurable])] at hcontent
  by_contra hreadable
  rw [if_neg hreadable] at hcontent
  cases hcontent

end Holds

theorem Changed.holds {first : Entry} (h : Changed cfg s t db db') : t.Holds cfg db' first where
  store := Or.inl h.store
  slot := by
    intro _ _
    rw [h.slot]

theorem Changed.content_eq (h : s.Changed cfg t db db')
    (hreadable : cfg.isDurable = true → Database.ofText db'.text = .ok db') :
    t.content cfg = .ok db' := by
  rw [Site.content, h.slot]
  split
  · rfl
  · rename_i hdurable
    simp only [Disk.content, Disk.load, h.store, Disk.access, Database.ofOctets_octets]
    exact hreadable (by simpa using hdurable)

/-- A change that leaves the content as it is puts an equal one in its place. -/
theorem Changed.eq_of_steady (h : Changed cfg s t db db') (hfits : db'.Fits)
    (hsteady : Steady cfg s t) : db' = db := by
  have hholds : t.Holds cfg db' := h.holds
  exact (hholds.eq_of_content hfits (hsteady.content.trans h.content)).symm

end Site

/-! ## Changing -/

theorem Disk.persist_cases (cfg : Storage) (db : Database) (d : Disk) :
    (∃ e path cause, persist cfg db d = (.error (.storage path cause), e) ∧ Kept d e ∧
        (d.Refused e cause ∨ d.store = .folder)) ∨
      ∃ e, persist cfg db d = (.ok (), e) ∧ e.store = .file db.octets ∧ e.refusals <:+ d.refusals := by
  obtain ⟨e, hkept, haccess | ⟨cause, hrefused, haccess⟩⟩ := access_cases d
  · unfold persist
    rw [haccess]
    dsimp only
    split
    · rename_i hfolder
      exact Or.inl ⟨e, _, _, rfl, hkept, Or.inr (hkept.store ▸ hfolder)⟩
    · exact Or.inr ⟨_, rfl, rfl, hkept.refusals⟩
  · unfold persist
    rw [haccess]
    exact Or.inl ⟨e, _, _, rfl, hkept, Or.inl hrefused⟩

namespace Acquisition

/-- A change fails as the content or the function does, or because the disk does not let it be made. -/
theorem change_cases (cfg : Storage) (f : Database → Except GroupError (α × Database)) (s : Site) :
    (∃ e t, (change cfg f).run s = (.error e, t) ∧ Site.Kept cfg s t ∧
        (s.content cfg >>= f = .error e ∨
          ∃ path cause, (s.disk.Refused t.disk cause ∨ s.disk.store = .folder) ∧
            e = .storage path cause)) ∨
      ∃ a t db db', (change cfg f).run s = (.ok a, t) ∧ f db = .ok (a, db') ∧
        Site.Changed cfg s t db db' := by
  obtain ⟨hopen, hslot⟩ := openExclusive_answered cfg s
  unfold change
  simp only [run_bind]
  rcases hrun : (openExclusive cfg).run s with ⟨e | db, t⟩ <;> rw [hrun] at hopen
  · refine Or.inl ⟨e, t, rfl, hopen.kept, ?_⟩
    rcases hopen.answered with herror | ⟨path, cause, hrefused, herror⟩
    · rw [← herror]
      exact Or.inl rfl
    · exact Or.inr ⟨path, cause, Or.inl hrefused, Except.error.inj herror⟩
  · have hslot := hslot db t hrun
    have hcontent : s.content cfg = .ok db := hopen.eq_ok
    have hf : ∀ x : Except GroupError (α × Database), (liftM x : Acquisition _).run t = (x, t) := by
      intro x
      cases x <;> rfl
    rcases hfdb : f db with e | ⟨a, db'⟩
    · refine Or.inl ⟨e, t, ?_, hopen.kept, Or.inl ?_⟩
      · rw [Outcome.andThen_ok, hf, hfdb]
        rfl
      · rw [hcontent]
        exact hfdb
    · rcases Disk.persist_cases cfg db' t.disk with
        ⟨d, path, cause, hpersist, hkept, hcause⟩ | ⟨d, hpersist, hstore, hrefusals⟩
      · refine Or.inl ⟨.storage path cause, { t with disk := d }, ?_, hopen.kept.trans ?_,
          Or.inr ⟨path, cause, ?_, rfl⟩⟩
        · rw [Outcome.andThen_ok, hf, hfdb]
          simp [hpersist]
        · exact Site.Kept.of_disk hkept
        · rw [hopen.kept.store] at hcause
          exact hcause.imp_left fun hrefused => hrefused.of_suffix hopen.kept.refusals
      · refine Or.inr ⟨a, { t with disk := d, slot := ⟨true, db'⟩ }, db, db', ?_, hfdb, hcontent, rfl,
          hstore, hopen.kept.feed, hrefusals.trans hopen.kept.refusals⟩
        rw [Outcome.andThen_ok, hf, hfdb]
        simp [hpersist, hslot]

/-- Without anything to keep it from being made, a change is made or is not allowed. -/
theorem change_of_quiet (f : Database → Except GroupError (α × Database))
    (hcontent : s.content cfg = .ok db) (hquiet : s.disk.refusals = [])
    (hfile : s.disk.store ≠ .folder) :
    (∃ e t, (change cfg f).run s = (.error e, t) ∧ f db = .error e ∧ Site.Kept cfg s t) ∨
      ∃ a t db', (change cfg f).run s = (.ok a, t) ∧ f db = .ok (a, db') ∧
        Site.Changed cfg s t db db' := by
  rcases change_cases cfg f s with
    ⟨e, t, hrun, hkept, herror | ⟨_, cause, hrefused | hfolder, -⟩⟩ |
      ⟨a, t, db₀, db', hrun, hf, hchanged⟩
  · rw [hcontent] at herror
    exact Or.inl ⟨e, t, hrun, herror, hkept⟩
  · exact absurd hquiet hrefused.not_quiet
  · exact absurd hfolder hfile
  · obtain rfl : db = db₀ := Except.ok.inj (hcontent.symm.trans hchanged.content)
    exact Or.inr ⟨a, t, db', hrun, hf, hchanged⟩

end Acquisition

theorem Store.change_ok {f : Database → Except GroupError (α × Database)} {a : α}
    (hok : (Store.change cfg f).outcome s = (.ok a, t)) :
    ∃ db db', f db = .ok (a, db') ∧ s.Changed cfg t db db' := by
  rcases Acquisition.change_cases cfg f s with
    ⟨e, u, hrun, -⟩ | ⟨a', u, db, db', hrun, hf, hchanged⟩
  · rw [Store.change, Work.outcome_asWork, hrun] at hok
    cases hok
  · rw [Store.change, Work.outcome_asWork, hrun] at hok
    cases hok
    exact ⟨db, db', hf, hchanged⟩

/-- A change that the content allows is made when the disk does not keep it from being made. -/
theorem Store.change_eq_ok {f : Database → Except GroupError (α × Database)} {a : α}
    (hcontent : s.content cfg = .ok db) (hf : f db = .ok (a, db'))
    (hquiet : s.disk.refusals = []) (hfile : s.disk.store ≠ .folder) :
    ∃ t, (change cfg f).outcome s = (.ok a, t) ∧ s.Changed cfg t db db' := by
  rcases Acquisition.change_of_quiet f hcontent hquiet hfile with
    ⟨e, t, -, herror, -⟩ | ⟨a', t, db₀', hrun, hf', hchanged⟩
  · cases hf.symm.trans herror
  · obtain ⟨rfl, rfl⟩ := Prod.mk.inj (Except.ok.inj (hf.symm.trans hf'))
    exact ⟨t, hrun, hchanged⟩

theorem Store.remove_ok {id : Nat} (hok : (Store.remove cfg id).outcome s = (.ok (), t)) :
    ∃ db db', db.remove id = .ok db' ∧ s.Changed cfg t db db' := by
  obtain ⟨db, db', hmap, hchanged⟩ := Store.change_ok hok
  cases hremove : db.remove id with
  | error e =>
      rw [hremove] at hmap
      cases hmap
  | ok removed =>
      rw [hremove] at hmap
      cases hmap
      exact ⟨db, db', hremove, hchanged⟩

/-! ## Contents that are found -/

/-- The site holds the sound content `db`, and an instance that goes by its slot finds it. -/
structure Site.Serves (cfg : Storage) (s : Site) (db : Database) : Prop where
  sound : db.Sound
  holds : s.Holds cfg db
  found : cfg.isDurable = false → s.content cfg = .ok db

namespace Site.Serves

variable {db₀ : Database}

theorem kept (h : s.Serves cfg db) (hkept : s.Kept cfg t) : t.Serves cfg db where
  sound := h.sound
  holds := h.holds.steady h.sound.fits hkept.toSteady
  found := fun hprocess => hkept.content.trans (h.found hprocess)

theorem changed (hchanged : s.Changed cfg t db₀ db') (hsound : db'.Sound) :
    t.Serves cfg db' where
  sound := hsound
  holds := hchanged.holds
  found := by
    intro hprocess
    rw [content, if_pos ⟨hprocess, by rw [hchanged.slot]⟩, hchanged.slot]

theorem publish (h : s.Serves cfg db) (e : Event) :
    ({ s with feed := s.feed.publish e } : Site).Serves cfg db :=
  ⟨h.sound, ⟨h.holds.store, h.holds.slot⟩, h.found⟩

theorem content_eq (h : s.Serves cfg db) (hreadable : cfg.isDurable = true → db.Readable) :
    s.content cfg = .ok db := by
  cases hdurable : cfg.isDurable with
  | false => exact h.found hdurable
  | true =>
      rcases h.holds.content_cases h.sound.fits with hok | ⟨hunreadable, -⟩
      · exact hok
      · exact absurd (hreadable hdurable) hunreadable

end Site.Serves

end AssetGroups
