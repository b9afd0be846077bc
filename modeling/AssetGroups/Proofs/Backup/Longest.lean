import AssetGroups.Proofs.Backup.RoundTrip

/-!
# How far a restore comes

A restore stores the groups of a feature one after another and ends at the first that it has to refuse.
The groups before that one stay stored. Which these are can be read off the feature alone.
-/

namespace AssetGroups

namespace Backup

/-! ## What can be restored of a list of groups -/

/-- Groups that all pass their check, whatever ids they carry, and no two of which bear the same name. -/
structure Restorable (gs : List Group) : Prop where
  checked : ∀ g ∈ gs, ({ g with id := none } : Group).check = .ok ()
  distinct : (gs.map (·.name)).Nodup

/-- As many of the first groups as are restorable. -/
structure LongestRestorable (gs good : List Group) : Prop where
  first : good <+: gs
  restorable : Restorable good
  longest : ∀ more, more <+: gs → Restorable more → more.length ≤ good.length

/-- Why a group is not stored behind others that bear the names. -/
inductive Refused (names : List String) (g : Group) : GroupError → Prop where
  | invalid {v : Violation} (hcheck : ({ g with id := none } : Group).check = .error v) :
      Refused names g (.ofViolation v)
  | duplicate (hcheck : ({ g with id := none } : Group).check = .ok ()) (hname : g.name ∈ names) :
      Refused names g (.duplicateName g.name)

variable {g : Group} {gs good part rest : List Group} {e : GroupError}

namespace Restorable

theorem of_first (h : Restorable gs) (hpart : part <+: gs) : Restorable part where
  checked g hg := h.checked g (hpart.subset hg)
  distinct := h.distinct.sublist (hpart.sublist.map _)

theorem append_or_refused (h : Restorable good) (g : Group) :
    Restorable (good ++ [g]) ∨ ∃ e, Refused (good.map (·.name)) g e := by
  cases hcheck : ({ g with id := none } : Group).check with
  | error v => exact Or.inr ⟨_, .invalid hcheck⟩
  | ok =>
      by_cases hname : g.name ∈ good.map (·.name)
      · exact Or.inr ⟨_, .duplicate hcheck hname⟩
      · refine Or.inl ⟨List.forall_mem_append.mpr ⟨h.checked, by simpa using hcheck⟩, ?_⟩
        rw [List.map_append, List.map_singleton, ← List.concat_eq_append]
        exact h.distinct.concat hname

end Restorable

theorem Refused.not_restorable (h : Refused (good.map (·.name)) g e) : ¬ Restorable (good ++ [g]) := by
  intro hlonger
  cases h with
  | invalid hcheck =>
      rw [hlonger.checked g (by simp)] at hcheck
      cases hcheck
  | duplicate hcheck hname =>
      have hdistinct := hlonger.distinct
      rw [List.map_append, List.nodup_append] at hdistinct
      exact hdistinct.2.2 _ hname g.name (by simp) rfl

namespace LongestRestorable

theorem of_restorable (h : Restorable gs) : LongestRestorable gs gs :=
  ⟨List.prefix_rfl, h, fun _ hmore _ => hmore.length_le⟩

theorem of_refused (h : Restorable good) (hrefused : Refused (good.map (·.name)) g e) :
    LongestRestorable (good ++ g :: rest) good where
  first := List.prefix_append good _
  restorable := h
  longest := by
    intro more hmore hrestorable
    by_contra hlonger
    have hnext : good ++ [g] <+: good ++ g :: rest := ⟨rest, by simp⟩
    refine hrefused.not_restorable (hrestorable.of_first ?_)
    exact List.prefix_of_prefix_length_le hnext hmore (by simp; omega)

/-- The induction takes a list from its end: as long as it is not restorable as a whole, nothing is lost
with its last group. -/
theorem exists_longest (gs : List Group) : ∃ good, LongestRestorable gs good := by
  induction gs using List.reverseRecOn with
  | nil => exact ⟨[], of_restorable ⟨by simp, List.nodup_nil⟩⟩
  | append_singleton gs g ih =>
      obtain ⟨good, hgood⟩ := ih
      by_cases hall : Restorable (gs ++ [g])
      · exact ⟨gs ++ [g], of_restorable hall⟩
      · refine ⟨good, hgood.first.trans (List.prefix_append gs [g]), hgood.restorable, ?_⟩
        intro more hmore hrestorable
        rcases List.prefix_concat_iff.mp hmore with rfl | hmore
        · exact absurd hrestorable hall
        · exact hgood.longest more hmore hrestorable

theorem unique (h : LongestRestorable gs good) (h' : LongestRestorable gs part) : good = part := by
  have hpart : good <+: part :=
    List.prefix_of_prefix_length_le h.first h'.first (h'.longest good h.first h.restorable)
  exact hpart.eq_of_length_le (h.longest part h'.first h'.restorable)

end LongestRestorable

/-! ## What becomes of a restore -/

variable (sv : Service) {s : Site} {db : Database} {last : Nat}

theorem createOne_refused (h : s.Ready sv.storage db) (hrefused : Refused db.names g e) :
    ∃ t, (sv.createOne g).outcome s = (.error e, t) ∧ s.Kept sv.storage t := by
  cases hrefused with
  | invalid hcheck =>
      refine ⟨s, ?_, .refl s⟩
      rw [Service.createOne, Work.outcome_bind, Group.demandValid, hcheck]
      rfl
  | duplicate hcheck hname =>
      have hsave := h.sound.saveUnique_taken (g := { g with id := none }) rfl hname
      rcases Acquisition.change_of_quiet (Database.saveUnique { g with id := none }) h.content h.quiet
        h.file with ⟨e, t, hrun, hf, hkept⟩ | ⟨a, t, db', hrun, hf, -⟩
      · obtain rfl := Except.error.inj (hf.symm.trans hsave)
        refine ⟨t, ?_, hkept⟩
        have hstore : (Store.saveUnique sv.storage { g with id := none }).outcome s = (.error _, t) :=
          hrun
        rw [Service.createOne, Work.outcome_bind, Service.demandValid_eq_ok hcheck, Outcome.andThen_ok,
          Work.outcome_bind, hstore]
        rfl
      · cases hf.symm.trans hsave

theorem createAll_append (good rest : List Group) :
    createAll sv (good ++ rest) = createAll sv good >>= fun _ => createAll sv rest := by
  induction good with
  | nil => simp [createAll]
  | cons g good ih => simp [createAll, ih]

/-- As many of the first groups as are restorable are stored, and the next one is refused. -/
theorem createAll_longest (h : s.Ready sv.storage ⟨last, []⟩) (hgood : LongestRestorable gs good)
    (hreadable : sv.storage.isDurable = true →
      Database.Readable ⟨last + good.length, Group.renumber last good⟩) :
    ∃ answer t, (createAll sv gs).outcome s = (answer, t) ∧
      t.content sv.storage = .ok ⟨last + good.length, Group.renumber last good⟩ ∧
      t.feed.published = s.feed.published ++
        (List.range' (last + 1) good.length).map (fun id => ⟨.created, id⟩) ∧
      (answer = .ok () ↔ good = gs) ∧
      ∀ g, gs[good.length]? = some g →
        ∃ e, Refused (good.map (·.name)) g e ∧ answer = .error e := by
  have hchecked : ∀ g ∈ good, g.check = .ok () := fun g hg =>
    Group.check_withId (hgood.restorable.checked g hg) g.id
  obtain ⟨u, hall, hu, hpublished⟩ := createAll_ready sv h hchecked hgood.restorable.distinct hreadable
  obtain ⟨rest, rfl⟩ := hgood.first
  cases rest with
  | nil => exact ⟨.ok (), u, by rw [List.append_nil, hall], hu.content, hpublished, by simp, by simp⟩
  | cons g rest =>
      rcases hgood.restorable.append_or_refused g with hlonger | ⟨e, hrefused⟩
      · have hlength := hgood.longest (good ++ [g]) ⟨rest, by simp⟩ hlonger
        rw [List.length_append] at hlength
        exact absurd hlength (Nat.not_succ_le_self good.length)
      · have hnames : Database.names ⟨last + good.length, Group.renumber last good⟩ =
            good.map (·.name) := Group.names_renumber
        obtain ⟨t, hfails, hkept⟩ := createOne_refused sv hu (hnames ▸ hrefused)
        refine ⟨.error e, t, ?_, hkept.content.trans hu.content, ?_, by simp, ?_⟩
        · rw [createAll_append, Work.outcome_bind, hall, Outcome.andThen_ok, createAll,
            Work.outcome_bind, Work.outcome_discard, hfails]
          rfl
        · rw [hkept.feed, hpublished]
        · simpa using hrefused

/-- Wherever jobs have led to, a restore of a store with groups is refused and changes nothing. In a store
without groups it stores as many of the first groups as are restorable, with ids that follow on the
counter, and announces them. It succeeds if these are all, and otherwise fails for what is wrong with the
next one. With a lock file what is written has to be read again. -/
theorem restore_longest {n : Nat} {sch : Schedule Unit} (hreached : Schedule.Reached sv n sch) (i : Nat)
    (hcontent : (sch.cluster.site i).content sv.storage = .ok db)
    (hquiet : (sch.cluster.site i).disk.refusals = []) (f : Feature) :
    (db.groups ≠ [] → ∃ t, (restore sv f).outcome (sch.cluster.site i) =
        (.error (.ofViolation .groupsExist), t) ∧ (sch.cluster.site i).Kept sv.storage t) ∧
    (db.groups = [] → ∃ good, LongestRestorable f.groups good ∧
      ((sv.storage.isDurable = true →
          Database.Readable ⟨db.lastId + good.length, Group.renumber db.lastId good⟩) →
        ∃ answer t, (restore sv f).outcome (sch.cluster.site i) = (answer, t) ∧
          t.content sv.storage = .ok ⟨db.lastId + good.length,
            good.mapIdx fun k g => { g with id := some (db.lastId + k + 1) }⟩ ∧
          t.feed.published = (sch.cluster.site i).feed.published ++
            (List.range' (db.lastId + 1) good.length).map (fun id => ⟨.created, id⟩) ∧
          (answer = .ok () ↔ good = f.groups) ∧
          ∀ g, f.groups[good.length]? = some g →
            ∃ e, Refused (good.map (·.name)) g e ∧ answer = .error e)) := by
  have hready := (hreached.wholesome.2.2 i).ready hcontent hquiet
  obtain ⟨u, hkept, hrun⟩ := restore_outcome sv hready f
  constructor
  · intro hgroups
    exact ⟨u, hrun.trans (if_neg hgroups), hkept⟩
  · intro hgroups
    obtain ⟨last, gs⟩ := db
    obtain rfl : gs = [] := hgroups
    obtain ⟨good, hgood⟩ := LongestRestorable.exists_longest f.groups
    refine ⟨good, hgood, fun hreadable => ?_⟩
    obtain ⟨answer, t, hcreate, hafter, hpublished, hends⟩ :=
      createAll_longest sv (hready.kept hkept) hgood hreadable
    refine ⟨answer, t, hrun.trans hcreate, ?_, hkept.feed ▸ hpublished, hends⟩
    rw [hafter, Group.renumber_eq_mapIdx]

def shortRules : RuleSet := ⟨.and, [.condition (.of .name .contains "s")]⟩

/-- Groups of which the third bears the name of the first. -/
def repeatedFeature : Feature :=
  ⟨version, [⟨some 7, "a", shortRules⟩, .named "b" shortRules, .named "a" shortRules,
    .named "c" shortRules]⟩

/-- Of four groups two are restored, none if there are groups already. -/
theorem restore_longest_repeated :
    (∃ t, (restore {} repeatedFeature).outcome ((Cluster.opened 1).site 0) =
        (.error (.duplicateName "a"), t) ∧
      t.content {} = .ok ⟨2, [⟨some 1, "a", shortRules⟩, ⟨some 2, "b", shortRules⟩]⟩ ∧
      t.feed.published = [⟨.created, 1⟩, ⟨.created, 2⟩]) ∧
    ∃ db t, (sampleSchedule.cluster.site 0).content Service.sample.storage = .ok db ∧
      (restore Service.sample repeatedFeature).outcome (sampleSchedule.cluster.site 0) =
        (.error (.ofViolation .groupsExist), t) ∧
      (sampleSchedule.cluster.site 0).Kept Service.sample.storage t := by
  constructor
  · have hempty : ((Cluster.opened 1).site 0).content {} = .ok {} := rfl
    obtain ⟨good, hgood, hrestored⟩ :=
      (restore_longest {} (.opened (n := 1)) 0 hempty rfl repeatedFeature).2 rfl
    have hrestorable : Restorable (repeatedFeature.groups.take 2) := ⟨by decide, by decide⟩
    have hrefused : Refused ((repeatedFeature.groups.take 2).map (·.name)) (.named "a" shortRules)
        (.duplicateName "a") := .duplicate rfl (by decide)
    obtain rfl := hgood.unique (.of_refused hrestorable hrefused)
    obtain ⟨answer, t, hrun, hcontent, hpublished, -, hends⟩ := hrestored nofun
    obtain ⟨e, he, rfl⟩ := hends _ rfl
    cases he with
    | invalid hcheck => exact nomatch hcheck
    | duplicate => exact ⟨t, hrun, hcontent, hpublished⟩
  · have hcontent : (sampleSchedule.cluster.site 0).content Service.sample.storage =
        .ok (sampleSchedule.cluster.site 0).slot.database :=
      if_pos ⟨rfl, by decide +kernel⟩
    have hgroups : (sampleSchedule.cluster.site 0).slot.database.groups ≠ [] := by decide +kernel
    obtain ⟨t, hrun, hkept⟩ := (restore_longest Service.sample sampleSchedule_reached 0 hcontent
      (by decide +kernel) repeatedFeature).1 hgroups
    exact ⟨_, t, hcontent, hrun, hkept⟩

end Backup

end AssetGroups
