import AssetGroups.Proofs.Job.Persistence

/-!
# What backups do to the content

Saving answers with the stored groups in their order, resetting removes them all and keeps the counter,
and restoring numbers the groups anew: in the order of the feature, past everything that was numbered
before.
-/

namespace AssetGroups

variable {α : Type} {cfg : Storage}

/-! ## Numbering anew -/

/-- The groups with the ids past `k`, one after another, in the place of their own. -/
def Group.renumber (k : Nat) : List Group → List Group
  | [] => []
  | g :: gs => { g with id := some (k + 1) } :: renumber (k + 1) gs

namespace Group

variable {k : Nat} {g h : Group} {gs : List Group}

theorem mem_renumber (hmem : h ∈ renumber k gs) :
    ∃ g ∈ gs, ∃ id, k < id ∧ h = { g with id := some id } := by
  induction gs generalizing k with
  | nil => cases hmem
  | cons g gs ih =>
      rcases List.mem_cons.mp hmem with rfl | hmem
      · exact ⟨g, List.mem_cons_self, k + 1, Nat.lt_succ_self k, rfl⟩
      · obtain ⟨g', hg', id, hid, rfl⟩ := ih hmem
        exact ⟨g', List.mem_cons_of_mem g hg', id, Nat.lt_of_succ_lt hid, rfl⟩

theorem exists_mem_renumber (hmem : g ∈ gs) :
    ∃ id, k < id ∧ { g with id := some id } ∈ renumber k gs := by
  induction gs generalizing k with
  | nil => cases hmem
  | cons g' gs ih =>
      rcases List.mem_cons.mp hmem with rfl | hmem
      · exact ⟨k + 1, Nat.lt_succ_self k, List.mem_cons_self⟩
      · obtain ⟨id, hid, hmem⟩ := ih (k := k + 1) hmem
        exact ⟨id, Nat.lt_of_succ_lt hid, List.mem_cons_of_mem _ hmem⟩

theorem names_renumber : (renumber k gs).map (·.name) = gs.map (·.name) := by
  induction gs generalizing k with
  | nil => rfl
  | cons g gs ih => rw [renumber, List.map_cons, List.map_cons, ih]

theorem depth_withId {a : Nat} (hid : g.id = some a) (b : Nat) :
    ({ g with id := some b } : Group).toJson.depth = g.toJson.depth := by
  simp [toJson, hid, Json.Value.ofMembers, Json.Value.nat, Json.Value.depth,
    Json.Value.depthOfMembers]

end Group

/-- The content after the groups were restored in a store without groups whose counter was the same. -/
def Database.renumbered (db : Database) : Database :=
  ⟨db.lastId + db.groups.length, Group.renumber db.lastId db.groups⟩

/-! ## Saving -/

namespace Backup

variable (sv : Service) {s t : Site} {db : Database} {f : Feature}

theorem readAll_reads (hsound : db.Sound) {gs : List Group} (hgs : ∀ g ∈ gs, g ∈ db.groups) :
    Work.Reads sv.storage (.ok db)
      (readAll sv (gs.filterMap fun g => g.id.map fun id => ⟨id, g.name⟩)) (.ok gs) := by
  induction gs with
  | nil => exact .pure []
  | cons g gs ih =>
      obtain ⟨hg, hrest⟩ := List.forall_mem_cons.mp hgs
      obtain ⟨id, hid, -⟩ := hsound.exists_id hg
      have hread : Work.Reads sv.storage (.ok db) (sv.read id) (.ok g) := by
        have hfound := Database.byId_eq_ok.mpr (hsound.byId?_eq_some.mpr ⟨hg, hid⟩)
        exact hfound ▸ Store.byId_reads id
      rw [List.filterMap_cons, hid]
      exact hread.bind fun g => (ih hrest).bind fun gs => .pure (g :: gs)

theorem save_reads (hsound : db.Sound) :
    Work.Reads sv.storage (.ok db) (save sv) (.ok ⟨version, db.groups⟩) := by
  have hlist : Work.Reads sv.storage (.ok db) sv.list (.ok db.list) := Store.list_reads
  exact hlist.bind_ok <| (readAll_reads sv hsound fun g hg => hg).bind_ok (.pure _)

theorem save_ok (h : s.Serves sv.storage db) (hcontent : s.content sv.storage = .ok db)
    (hok : (save sv).outcome s = (.ok f, t)) :
    f = ⟨version, db.groups⟩ ∧ t.Serves sv.storage db := by
  have hreads := save_reads sv h.sound
  rw [← hcontent] at hreads
  refine ⟨(Except.ok.inj (hreads.eq_ok hok)).symm, h.kept ?_⟩
  have hkept := (hreads s rfl).kept
  rwa [hok] at hkept

/-! ## Resetting -/

theorem deleteOne_ok {id : Nat} (h : s.Serves sv.storage db)
    (hok : (sv.deleteOne id).outcome s = (.ok (), t)) :
    t.Serves sv.storage { db with groups := db.groups.filter (·.id != some id) } := by
  obtain ⟨_, u, hremove, hpublish⟩ := Work.outcome_bind_ok.mp hok
  obtain ⟨db₀, db', hremoved, hchanged⟩ := Store.remove_ok hremove
  obtain rfl := h.holds.eq_of_content h.sound.fits hchanged.content
  have hu : u.Serves sv.storage db' := .changed hchanged (h.sound.remove hremoved)
  cases hpublish
  exact Database.remove_ok hremoved ▸ hu.publish _

theorem removeAll_ok {infos : List GroupInfo} (h : s.Serves sv.storage db)
    (hok : (removeAll sv infos).outcome s = (.ok (), t)) :
    t.Serves sv.storage { db with
      groups := db.groups.filter fun g => infos.all fun i => g.id != some i.id } := by
  induction infos generalizing s db with
  | nil =>
      cases hok
      simpa using h
  | cons i infos ih =>
      obtain ⟨_, u, hfirst, hrest⟩ := Work.outcome_bind_ok.mp hok
      have ht := ih (deleteOne_ok sv h hfirst) hrest
      simp only [List.filter_filter] at ht
      simpa only [List.all_cons, Bool.and_comm] using ht

theorem list_ok {infos : List GroupInfo} (h : s.Serves sv.storage db)
    (hok : sv.list.outcome s = (.ok infos, t)) : infos = db.list ∧ t.Serves sv.storage db := by
  obtain ⟨db₀, hcontent, hinfos⟩ := bind_eq_ok.mp (Store.list_reads.eq_ok hok)
  obtain rfl := h.holds.eq_of_content h.sound.fits hcontent
  refine ⟨(Except.ok.inj hinfos).symm, h.kept ?_⟩
  have hreads : Work.Reads sv.storage (s.content sv.storage) sv.list _ := Store.list_reads
  have hkept := (hreads s rfl).kept
  rwa [hok] at hkept

theorem reset_ok (h : s.Serves sv.storage db) (hok : (reset sv).outcome s = (.ok (), t)) :
    t.Serves sv.storage db.clear := by
  rw [reset, Work.outcome_inTurn] at hok
  obtain ⟨infos, u, hlist, hremove⟩ := Work.outcome_bind_ok.mp hok
  obtain ⟨rfl, hu⟩ := list_ok sv h hlist
  have ht := removeAll_ok sv hu hremove
  have hnone : (db.groups.filter fun g => db.list.all fun i => g.id != some i.id) = [] := by
    rw [List.filter_eq_nil_iff]
    intro g hg hall
    obtain ⟨id, hid, -⟩ := h.sound.exists_id hg
    have hinfo : (⟨id, g.name⟩ : GroupInfo) ∈ db.list :=
      List.mem_filterMap.mpr ⟨g, hg, by rw [hid]; rfl⟩
    have hne := List.all_eq_true.mp hall _ hinfo
    simp [hid] at hne
  rw [hnone] at ht
  exact ht

/-! ## Restoring -/

theorem createOne_serves {g stored : Group} (h : s.Serves sv.storage db)
    (hok : (sv.createOne g).outcome s = (.ok stored, t)) :
    t.Serves sv.storage
      ⟨db.lastId + 1, db.groups ++ [{ g with id := some (db.lastId + 1) }]⟩ := by
  obtain ⟨db₀, db', hcontent, -, hsave, -, ht⟩ :=
    (Service.createOne_ok hok).serves ⟨db, h.sound, h.holds⟩
  obtain rfl := h.holds.eq_of_content h.sound.fits hcontent
  rcases (Database.saveUnique_cases hsave).2 with ⟨-, rfl, rfl⟩ | ⟨_, _, hid, -⟩
  · exact ht
  · cases hid

theorem createAll_ok {gs : List Group} (h : s.Serves sv.storage db)
    (hok : (createAll sv gs).outcome s = (.ok (), t)) :
    t.Serves sv.storage
      ⟨db.lastId + gs.length, db.groups ++ Group.renumber db.lastId gs⟩ := by
  induction gs generalizing s db with
  | nil =>
      cases hok
      simpa [Group.renumber] using h
  | cons g gs ih =>
      obtain ⟨_, u, hfirst, hrest⟩ := Work.outcome_bind_ok.mp hok
      rw [Work.outcome_discard] at hfirst
      rcases hcreate : (sv.createOne g).outcome s with ⟨e | stored, v⟩ <;> rw [hcreate] at hfirst
      · cases hfirst
      · cases hfirst
        have ht := ih (createOne_serves sv h hcreate) hrest
        rw [List.append_assoc, Nat.add_right_comm] at ht
        exact ht

/-- The groups of the feature are stored in their order, past everything that was numbered before. -/
theorem restore_ok (h : s.Serves sv.storage db) (hok : (restore sv f).outcome s = (.ok (), t)) :
    db.groups = [] ∧
      t.Serves sv.storage ⟨db.lastId + f.groups.length, Group.renumber db.lastId f.groups⟩ := by
  rw [restore, Work.outcome_inTurn] at hok
  obtain ⟨infos, u, hlist, hok⟩ := Work.outcome_bind_ok.mp hok
  obtain ⟨rfl, hu⟩ := list_ok sv h hlist
  cases hlist : db.list with
  | nil =>
      have hgroups := h.sound.list_eq_nil.mp hlist
      rw [hlist] at hok
      have ht := createAll_ok sv hu hok
      rw [hgroups] at ht
      exact ⟨hgroups, ht⟩
  | cons i infos =>
      rw [hlist] at hok
      cases hok

/-! ## All three in a row -/

/-- Saves the groups, removes them and restores what was saved. -/
def cycle : Work Unit := do
  let f ← save sv
  reset sv
  restore sv f

theorem cycle_ok (h : s.Serves sv.storage db) (hcontent : s.content sv.storage = .ok db)
    (hok : (cycle sv).outcome s = (.ok (), t)) : t.Serves sv.storage db.renumbered := by
  obtain ⟨f, s₁, hsave, hok⟩ := Work.outcome_bind_ok.mp hok
  obtain ⟨_, s₂, hreset, hrestore⟩ := Work.outcome_bind_ok.mp hok
  obtain ⟨rfl, h₁⟩ := save_ok sv h hcontent hsave
  exact (restore_ok sv (reset_ok sv h₁ hreset) hrestore).2

/-- What is found afterwards. With a lock file the new counter has to fit in a word. -/
theorem content_cycle (hs : s.Sound sv.storage) (hcontent : s.content sv.storage = .ok db)
    (hcounter : db.lastId + db.groups.length < Text.wordLimit)
    (hok : (cycle sv).outcome s = (.ok (), t)) :
    db.renumbered.Sound ∧ t.content sv.storage = .ok db.renumbered := by
  obtain ⟨db₀, hsound, hholds⟩ := hs
  obtain rfl := hholds.eq_of_content hsound.fits hcontent
  have ht := cycle_ok sv ⟨hsound, hholds, fun _ => hcontent⟩ hcontent hok
  refine ⟨ht.sound, ht.content_eq fun hdurable => ⟨hcounter, fun h hh => ?_⟩⟩
  obtain ⟨g, hg, id, -, rfl⟩ := Group.mem_renumber hh
  obtain ⟨old, hold, -⟩ := hsound.exists_id hg
  rw [Group.depth_withId hold]
  exact (hholds.readable hsound.fits hdurable hcontent).shallow g hg

end Backup

end AssetGroups
