import AssetGroups.Proofs.Backup.Content
import AssetGroups.Proofs.Resolver.Theorems
import AssetGroups.Proofs.Schedule

/-!
# What restored groups mean

Restoring numbers the groups anew but leaves their rules as they are. A group whose rules refer to no
group means what it meant before. A group that refers to others still refers to them by their old ids,
which no group bears any more, and is not resolved.
-/

namespace AssetGroups

/-! ## Ids in the restored content -/

namespace Database

variable {db : Database} {g h : Group} {id : Nat}

theorem byId_renumbered_old (hid : id ≤ db.lastId) :
    db.renumbered.byId id = .error (.noGroupWithId id) := by
  have hnone : db.renumbered.byId? id = none := by
    refine List.find?_eq_none.mpr fun h hh => ?_
    obtain ⟨g, -, new, hnew, rfl⟩ := Group.mem_renumber hh
    have hne : new ≠ id := by omega
    simpa using hne
  rw [byId, hnone]

/-- A stored group gets one new id, and keeps its name and its rules. -/
theorem byId_renumbered_new (hsound : db.renumbered.Sound) (hg : g ∈ db.groups) :
    ∃ new, db.lastId < new ∧ ∀ id h, db.renumbered.byId id = .ok h ∧ h.name = g.name ↔
      id = new ∧ h = { g with id := some new } := by
  obtain ⟨new, hnew, hmem⟩ := Group.exists_mem_renumber (k := db.lastId) hg
  refine ⟨new, hnew, fun id h => ?_⟩
  rw [byId_eq_ok, hsound.byId?_eq_some]
  constructor
  · rintro ⟨⟨hh, hid⟩, hname⟩
    obtain rfl : h = { g with id := some new } :=
      List.inj_on_of_nodup_map hsound.distinct hh hmem hname
    exact ⟨(Option.some.inj hid).symm, rfl⟩
  · rintro ⟨rfl, rfl⟩
    exact ⟨⟨hmem, rfl⟩, rfl⟩

end Database

/-! ## Resolution in the restored content -/

namespace Resolver

variable {r : Resolver} {db : Database} {id new : Nat} {g : Group}
    {found : List Inventory.AssetRef}

/-- A reference to a group that was stored before leads nowhere. -/
theorem follow_renumbered {left b : Nat} {value : String} (hvalue : referredId? value = some b)
    (hb : b ≤ db.lastId) (hnew : db.lastId < new) :
    follow r (groupIn (.ok db.renumbered)) (left + 1) [new] value = .error (.noGroupWithId b) := by
  have hne : b ≠ new := by omega
  have hlookup : groupIn (.ok db.renumbered) b = .error (.noGroupWithId b) :=
    Database.byId_renumbered_old hb
  rw [follow]
  simp only [hvalue, hlookup]
  simp [hne]
  rfl

theorem resolveId_renumbered (hsound : db.Sound) (hg : groupIn (.ok db) id = .ok g)
    (hfound : r.resolveId (groupIn (.ok db)) id = .ok found) (hnew : db.lastId < new)
    (hrestored : groupIn (.ok db.renumbered) new = .ok { g with id := some new }) :
    (g.rules.references = [] → r.resolveId (groupIn (.ok db.renumbered)) new = .ok found) ∧
      ∀ value rest, g.rules.references = value :: rest → ∃ b, referredId? value = some b ∧
        r.resolveId (groupIn (.ok db.renumbered)) new = .error (.noGroupWithId b) := by
  have hid : g.id = some id := Database.id_of_byId? (Database.byId_eq_ok.mp hg)
  rw [resolveId_of_lookup hg hid] at hfound
  rw [resolveId_of_lookup hrestored rfl]
  constructor
  · intro hnone
    rw [← hfound]
    refine resolveFrom_congr fun value hvalue => ?_
    rw [hnone] at hvalue
    cases hvalue
  · intro value rest hrefs
    obtain ⟨s, hs, -⟩ := bind_eq_ok.mp hfound
    obtain ⟨hcheck, hreferred⟩ := (compile_resolves g.rules.toRule).mp ⟨s, hs⟩
    obtain ⟨sb, hsb⟩ := hreferred value (by rw [show g.rules.toRule.references = _ from hrefs]; simp)
    obtain ⟨b, gb, left, hb, -, hleft, hgb, -⟩ := follow_ok.mp hsb
    refine ⟨b, hb, resolveFrom_error hcheck hrefs ?_⟩
    have hstored := hsound.byId?_eq_some.mp (Database.byId_eq_ok.mp hgb)
    have hbound := hsound.bounded b (Database.mem_ids.mpr ⟨gb, hstored.1, hstored.2⟩)
    rw [List.length_singleton] at hleft ⊢
    rw [hleft]
    exact follow_renumbered hb hbound.2 hnew

end Resolver

/-! ## Resolution at a service -/

namespace Backup

variable (sv : Service) {s t : Site} {db : Database} {id : Nat} {g : Group}
    {found : List Inventory.AssetRef}

/-- A group of that name is read by the id. -/
def Names (s : Site) (name : String) (id : Nat) : Prop :=
  ∃ g, ((sv.read id).outcome s).1 = .ok g ∧ g.name = name

/-- After a cycle one id leads to the name of a group that had been resolved. By that id it is resolved
as before if its rules refer to no group, and otherwise fails as its first reference does. -/
theorem resolve_cycled (hs : s.Sound sv.storage) (hcontent : s.content sv.storage = .ok db)
    (hcounter : db.lastId + db.groups.length < Text.wordLimit)
    (hcycle : (cycle sv).outcome s = (.ok (), t)) (hquiet : t.disk.refusals = [])
    (hg : ((sv.read id).outcome s).1 = .ok g)
    (hfound : ((sv.resolve (.id id)).outcome s).1 = .ok found) :
    ∃ new, (∀ j, Names sv t g.name j ↔ j = new) ∧
      (g.rules.references = [] → ((sv.resolve (.id new)).outcome t).1 = .ok found) ∧
      ∀ value rest, g.rules.references = value :: rest → ∃ b, Resolver.referredId? value = some b ∧
        ((sv.resolve (.id new)).outcome t).1 = .error (.noGroupWithId b) := by
  obtain ⟨hnewSound, hnewContent⟩ := content_cycle sv hs hcontent hcounter hcycle
  obtain ⟨db₀, hsound, hholds⟩ := hs
  obtain rfl := hholds.eq_of_content hsound.fits hcontent
  have hstored : groupIn (.ok db) id = .ok g :=
    hcontent ▸ (sv.lookup_reads id).eq_ok (Outcome.eq_of_fst hg)
  have hbefore : sv.resolver.resolveId (groupIn (.ok db)) id = .ok found :=
    hcontent ▸ (sv.resolveId_reads id).eq_ok (Outcome.eq_of_fst hfound)
  have hread : ∀ j, ((sv.read j).outcome t).1 = db.renumbered.byId j :=
    fun j => ((sv.lookup_reads j).fst_eq hquiet).trans (by rw [hnewContent]; rfl)
  have hafter : ∀ j, ((sv.resolve (.id j)).outcome t).1 =
      sv.resolver.resolveId (groupIn (.ok db.renumbered)) j :=
    fun j => hnewContent ▸ (sv.resolveId_reads j).fst_eq hquiet
  have hmem := (hsound.byId?_eq_some.mp (Database.byId_eq_ok.mp hstored)).1
  obtain ⟨new, hnew, hnames⟩ := Database.byId_renumbered_new hnewSound hmem
  have hrestored := ((hnames new _).mpr ⟨rfl, rfl⟩).1
  refine ⟨new, fun j => ?_, ?_⟩
  · simp only [Names, hread, hnames]
    simp
  · rw [hafter]
    exact Resolver.resolveId_renumbered hsound hstored hbefore hnew hrestored

/-- Every group that can be resolved is resolved as before after a cycle, wherever jobs have led to. -/
def Preserves : Prop :=
  ∀ (n : Nat) (sch : Schedule Unit) (i : Nat) (t : Site) (db : Database) (name : String) (id : Nat)
    (found : List Inventory.AssetRef), (n = 1 ∨ sv.storage.isDurable = true) →
    Schedule.Reached sv n sch → (sch.cluster.site i).content sv.storage = .ok db →
    db.lastId + db.groups.length < Text.wordLimit →
    (cycle sv).outcome (sch.cluster.site i) = (.ok (), t) → t.disk.refusals = [] →
    Names sv (sch.cluster.site i) name id →
    ((sv.resolve (.id id)).outcome (sch.cluster.site i)).1 = .ok found →
    ∃ new, Names sv t name new ∧ ((sv.resolve (.id new)).outcome t).1 = .ok found

open Service in
/-- An instance at which the groups of a feature have been restored. -/
def sampleSchedule : Schedule Unit :=
  (Schedule.start { cluster := .opened 1 } 0 (Command.script sample
    (.restore ⟨[(featureName, ⟨version, sampleGroups.groups⟩)]⟩))).finish 0 40

theorem sampleSchedule_reached : Schedule.Reached Service.sample 1 sampleSchedule :=
  (Schedule.Reached.opened.start _ Nat.zero_lt_one).finish 0 40

open Service in
theorem sampleSchedule_cycles : ∃ db t,
    (sampleSchedule.cluster.site 0).content sample.storage = .ok db ∧
      db.lastId + db.groups.length < Text.wordLimit ∧
      (cycle sample).outcome (sampleSchedule.cluster.site 0) = (.ok (), t) ∧
      t.disk.refusals = [] := by
  have hcontent : (fun db => db.lastId + db.groups.length) <$>
      (sampleSchedule.cluster.site 0).content sample.storage = .ok 12 := by
    decide +kernel
  have hcycle : ((cycle sample).outcome (sampleSchedule.cluster.site 0)).1 = .ok () := by
    decide +kernel
  have hquiet : ((cycle sample).outcome (sampleSchedule.cluster.site 0)).2.disk.refusals = [] := by
    decide +kernel
  obtain ⟨db, hdb, hcounter⟩ := map_eq_ok.mp hcontent
  refine ⟨db, _, hdb, ?_, Outcome.eq_of_fst hcycle, hquiet⟩
  rw [← hcounter]
  decide

open Service in
/-- A group that refers to others is not resolved any more. -/
theorem cycle_breaks_references :
    Inventory.ofDocument sampleItems = .ok sample.resolver.inventory ∧ ¬ Preserves sample := by
  refine ⟨rfl, fun h => ?_⟩
  obtain ⟨db, t, hcontent, hcounter, hcycle, hquiet⟩ := sampleSchedule_cycles
  have hfound : ((sample.resolve (.id 4)).outcome (sampleSchedule.cluster.site 0)).1 =
      .ok [⟨4, "power"⟩] := by
    decide +kernel
  have hread : (fun g => (g.name, g.rules.references)) <$>
      ((sample.read 4).outcome (sampleSchedule.cluster.site 0)).1 = .ok ("either", ["2", "3"]) := by
    decide +kernel
  obtain ⟨g, hg, hnameRefs⟩ := map_eq_ok.mp hread
  obtain ⟨hname, hrefs⟩ := Prod.mk.inj hnameRefs
  obtain ⟨new, hnames, hok⟩ := h 1 _ 0 t db "either" 4 _ (Or.inl rfl) sampleSchedule_reached hcontent
    hcounter hcycle hquiet ⟨g, hg, hname.symm⟩ hfound
  obtain ⟨only, honly, -, herror⟩ := resolve_cycled sample
    ((sampleSchedule_reached.sound (Or.inl rfl)).site 0) hcontent hcounter hcycle hquiet hg hfound
  rw [hname, honly] at hnames
  obtain ⟨b, -, hb⟩ := herror "2" ["3"] hrefs.symm
  rw [hnames, hb] at hok
  cases hok

/-- A group whose rules refer to no group is resolved as before after a cycle, wherever jobs have led
to. Any other fails: no group bears the id that its first reference names. -/
theorem cycle_resolves {n : Nat} (hn : n = 1 ∨ sv.storage.isDurable = true) {sch : Schedule Unit}
    (hreached : Schedule.Reached sv n sch) (i : Nat)
    (hcontent : (sch.cluster.site i).content sv.storage = .ok db)
    (hcounter : db.lastId + db.groups.length < Text.wordLimit)
    (hcycle : (cycle sv).outcome (sch.cluster.site i) = (.ok (), t)) (hquiet : t.disk.refusals = [])
    (hg : ((sv.read id).outcome (sch.cluster.site i)).1 = .ok g)
    (hfound : ((sv.resolve (.id id)).outcome (sch.cluster.site i)).1 = .ok found) :
    ∃ new, (∀ j, Names sv t g.name j ↔ j = new) ∧
      (g.rules.references = [] → ((sv.resolve (.id new)).outcome t).1 = .ok found) ∧
      ∀ value rest, g.rules.references = value :: rest → ∃ b, Resolver.referredId? value = some b ∧
        ((sv.resolve (.id new)).outcome t).1 = .error (.noGroupWithId b) :=
  resolve_cycled sv ((hreached.sound hn).site i) hcontent hcounter hcycle hquiet hg hfound

open Service in
theorem cycle_resolves_sample : ∃ t new,
    (cycle sample).outcome (sampleSchedule.cluster.site 0) = (.ok (), t) ∧
      Names sample t "in the lab" new ∧
      ((sample.resolve (.id new)).outcome t).1 = .ok [⟨3, "guest"⟩, ⟨4, "power"⟩] := by
  obtain ⟨db, t, hcontent, hcounter, hcycle, hquiet⟩ := sampleSchedule_cycles
  have hfound : ((sample.resolve (.id 1)).outcome (sampleSchedule.cluster.site 0)).1 =
      .ok [⟨3, "guest"⟩, ⟨4, "power"⟩] := by
    decide +kernel
  have hread : (fun g => (g.name, g.rules.references)) <$>
      ((sample.read 1).outcome (sampleSchedule.cluster.site 0)).1 = .ok ("in the lab", []) := by
    decide +kernel
  obtain ⟨g, hg, hnameRefs⟩ := map_eq_ok.mp hread
  obtain ⟨hname, hrefs⟩ := Prod.mk.inj hnameRefs
  obtain ⟨new, honly, hok, -⟩ := cycle_resolves sample (Or.inl rfl) sampleSchedule_reached 0 hcontent
    hcounter hcycle hquiet hg hfound
  refine ⟨t, new, hcycle, ?_, hok hrefs.symm⟩
  rw [hname]
  exact (honly new).mpr rfl

end Backup

end AssetGroups
