import AssetGroups.Proofs.Backup.Cycle

/-!
# Backups succeed

Nothing but the disk keeps a store that jobs have led to from being saved, reset and restored: what was
saved passes the check and bears names of its own, so that none of its groups is refused when it is stored
again, in the same store or in any other one without groups.
-/

namespace AssetGroups

variable {α : Type} {cfg : Storage}

/-! ## Stores that fail only for what is asked of them -/

/-- The site finds the sound content `db`, and the disk keeps nothing from being read or written. -/
structure Site.Ready (cfg : Storage) (s : Site) (db : Database) : Prop where
  sound : db.Sound
  content : s.content cfg = .ok db
  readable : cfg.isDurable = true → db.Readable
  quiet : s.disk.refusals = []
  file : s.disk.store ≠ .folder

theorem Site.Wholesome.ready {s : Site} {db : Database} (h : s.Wholesome)
    (hcontent : s.content cfg = .ok db) (hquiet : s.disk.refusals = []) : s.Ready cfg db where
  sound := h.sound hcontent
  content := hcontent
  readable := fun hdurable => h.readable hdurable hcontent
  quiet := hquiet
  file := by rcases h.store with hmissing | ⟨_, -, hfile⟩ <;> simp [*]

namespace Site.Ready

variable {s t : Site} {db db' : Database}

theorem kept (h : s.Ready cfg db) (hkept : s.Kept cfg t) : t.Ready cfg db where
  sound := h.sound
  content := hkept.content.trans h.content
  readable := h.readable
  quiet := List.suffix_nil.mp (h.quiet ▸ hkept.refusals)
  file := hkept.store ▸ h.file

theorem changed (h : s.Ready cfg db) (hchanged : s.Changed cfg t db db') (hsound : db'.Sound)
    (hreadable : cfg.isDurable = true → db'.Readable) : t.Ready cfg db' where
  sound := hsound
  content := (Serves.changed hchanged hsound).content_eq hreadable
  readable := hreadable
  quiet := List.suffix_nil.mp (h.quiet ▸ hchanged.refusals)
  file := by simp [hchanged.store]

theorem publish (h : s.Ready cfg db) (e : Event) :
    ({ s with feed := s.feed.publish e } : Site).Ready cfg db :=
  ⟨h.sound, h.content, h.readable, h.quiet, h.file⟩

theorem reads_kept (h : s.Ready cfg db) {w : Work α} {a : α}
    (hreads : Work.Reads cfg (.ok db) w (.ok a)) :
    ∃ t, w.outcome s = (.ok a, t) ∧ s.Kept cfg t := by
  have hanswer : (w.outcome s).1 = .ok a := Work.Reads.fst_eq (h.content ▸ hreads) h.quiet
  exact ⟨_, Outcome.eq_of_fst hanswer, (hreads s h.content).kept⟩

theorem reads (h : s.Ready cfg db) {w : Work α} {a : α} (hreads : Work.Reads cfg (.ok db) w (.ok a)) :
    ∃ t, w.outcome s = (.ok a, t) ∧ t.Ready cfg db := by
  obtain ⟨t, hok, hkept⟩ := h.reads_kept hreads
  exact ⟨t, hok, h.kept hkept⟩

/-- A change that the content allows is made. -/
theorem change (h : s.Ready cfg db) {f : Database → Except GroupError (α × Database)} {a : α}
    (hf : f db = .ok (a, db')) (hsound : db'.Sound) (hreadable : cfg.isDurable = true → db'.Readable) :
    ∃ t, (Store.change cfg f).outcome s = (.ok a, t) ∧ t.Ready cfg db' := by
  obtain ⟨t, hok, hchanged⟩ := Store.change_eq_ok h.content hf h.quiet h.file
  exact ⟨t, hok, h.changed hchanged hsound hreadable⟩

end Site.Ready

/-! ## Numbers -/

theorem Group.renumber_eq_mapIdx (k : Nat) (gs : List Group) :
    renumber k gs = gs.mapIdx fun i g => { g with id := some (k + i + 1) } := by
  induction gs generalizing k with
  | nil => rfl
  | cons g gs ih =>
      rw [renumber, ih, List.mapIdx_cons]
      simp only [Nat.add_zero, Nat.add_right_comm k 1]
      rfl

namespace Database

variable {db : Database} {g : Group} {gs hs : List Group} {last id : Nat}

theorem Readable.of_append {k : Nat} (h : Readable ⟨last + k, gs ++ hs⟩) : Readable ⟨last, gs⟩ where
  lastId := Nat.lt_of_le_of_lt (Nat.le_add_right last k) h.lastId
  shallow g hg := h.shallow g (List.mem_append_left hs hg)

/-- Groups that have ids are nested as deeply with the new ones. -/
theorem Readable.renumber {k : Nat} (h : Readable ⟨k + gs.length, gs⟩)
    (hids : ∀ g ∈ gs, ∃ id, g.id = some id) : Readable ⟨k + gs.length, Group.renumber k gs⟩ where
  lastId := h.lastId
  shallow := by
    intro g' hg'
    obtain ⟨g, hg, id, -, rfl⟩ := Group.mem_renumber hg'
    obtain ⟨old, hold⟩ := hids g hg
    rw [Group.depth_withId hold]
    exact h.shallow g hg

end Database

/-! ## Resetting -/

namespace Backup

variable (sv : Service) {s : Site} {db : Database} {g : Group} {gs : List Group} {last id : Nat}

theorem createOne_ready (h : s.Ready sv.storage db) (hcheck : g.check = .ok ())
    (hname : ∀ h ∈ db.groups, h.name ≠ g.name)
    (hreadable : sv.storage.isDurable = true →
      Database.Readable ⟨db.lastId + 1, db.groups ++ [{ g with id := some (db.lastId + 1) }]⟩) :
    ∃ stored t, (sv.createOne g).outcome s = (.ok stored, t) ∧
      t.Ready sv.storage ⟨db.lastId + 1, db.groups ++ [{ g with id := some (db.lastId + 1) }]⟩ ∧
      t.feed = s.feed.publish ⟨.created, db.lastId + 1⟩ := by
  obtain ⟨stored, u, hok, hchanged⟩ := Service.createOne_eq_ok h.content h.quiet h.file
    (Group.check_withId hcheck none) hname
  have hu := h.changed hchanged (h.sound.append hcheck hname) hreadable
  exact ⟨stored, _, hok, hu.publish ⟨.created, db.lastId + 1⟩, by rw [hchanged.feed]⟩

/-- Groups that pass their check are stored in their order, and announced, when no two of them, and none
of them and of those stored before, bear the same name. -/
theorem createAll_ready (h : s.Ready sv.storage db) (hchecked : ∀ g ∈ gs, g.check = .ok ())
    (hnames : ((db.groups ++ gs).map (·.name)).Nodup)
    (hreadable : sv.storage.isDurable = true →
      Database.Readable ⟨db.lastId + gs.length, db.groups ++ Group.renumber db.lastId gs⟩) :
    ∃ t, (createAll sv gs).outcome s = (.ok (), t) ∧
      t.Ready sv.storage ⟨db.lastId + gs.length, db.groups ++ Group.renumber db.lastId gs⟩ ∧
      t.feed.published = s.feed.published ++
        (List.range' (db.lastId + 1) gs.length).map fun id => ⟨.created, id⟩ := by
  induction gs generalizing s db with
  | nil => exact ⟨s, rfl, by simpa [Group.renumber] using h, by simp⟩
  | cons g gs ih =>
      obtain ⟨hcheck, hrest⟩ := List.forall_mem_cons.mp hchecked
      have hmoved : db.groups ++ Group.renumber db.lastId (g :: gs) =
          (db.groups ++ [{ g with id := some (db.lastId + 1) }]) ++
            Group.renumber (db.lastId + 1) gs := by
        rw [Group.renumber, List.append_assoc]
        rfl
      have hcounter : db.lastId + (g :: gs).length = db.lastId + 1 + gs.length := by
        rw [List.length_cons, Nat.add_right_comm, Nat.add_assoc]
      rw [hmoved, hcounter] at hreadable ⊢
      obtain ⟨stored, u, hfirst, hu, hfeed⟩ := createOne_ready sv h hcheck (Database.name_free hnames)
        fun hdurable => (hreadable hdurable).of_append
      obtain ⟨t, hall, ht, hpublished⟩ := ih hu hrest (by simpa using hnames) hreadable
      refine ⟨t, Work.outcome_bind_ok.mpr ⟨(), u, ?_, hall⟩, ht, ?_⟩
      · rw [Work.outcome_discard, hfirst]
        rfl
      · rw [hpublished, hfeed, List.length_cons, List.range'_succ]
        simp [Feed.publish]

/-- A restore looks whether there are groups first. -/
theorem restore_outcome (h : s.Ready sv.storage db) (f : Feature) :
    ∃ u, s.Kept sv.storage u ∧ (restore sv f).outcome s =
      if db.groups = [] then (createAll sv f.groups).outcome u
      else (.error (.ofViolation .groupsExist), u) := by
  obtain ⟨u, hlist, hkept⟩ := h.reads_kept Store.list_reads
  refine ⟨u, hkept, ?_⟩
  have hrun : sv.list.outcome s = (.ok db.list, u) := hlist
  rw [restore, Work.outcome_inTurn, Work.outcome_bind, hrun]
  by_cases hempty : db.groups = []
  · rw [if_pos hempty, h.sound.list_eq_nil.mpr hempty]
    rfl
  · obtain ⟨info, infos, hlist⟩ := List.exists_cons_of_ne_nil (mt h.sound.list_eq_nil.mp hempty)
    rw [if_neg hempty, hlist]
    rfl

end Backup

end AssetGroups
