import AssetGroups.Proofs.Job.Failure
import AssetGroups.Proofs.Resolver.Cycle

/-!
# Groups that can be reached

What a group is resolved to depends on the groups that references lead to from it, and on no other that is
stored. Two stores that agree on them give the same answer, also where one of them is missing or where
the answer is an error; and whatever is created, updated or deleted elsewhere makes no difference.
-/

namespace AssetGroups

/-! ## Stores that agree on what is reached -/

namespace Resolver

variable {r : Resolver} {db db' : Database}

theorem groupIn_congr {id : Nat} (h : db'.byId? id = db.byId? id) :
    groupIn (.ok db') id = groupIn (.ok db) id := by
  show db'.byId id = db.byId id
  rw [Database.byId, Database.byId, h]

/-- The induction is on the number of references that may still follow one another; the stores agree on
what can be reached from the group that is referred to, and so from those that it refers to. -/
theorem follow_reached (allowance : Nat) (trail : List Nat) {value : String}
    (hagree : ∀ b, referredId? value = some b →
      ∀ a, Reaches db.byId? b a → db'.byId? a = db.byId? a) :
    follow r (groupIn (.ok db')) allowance trail value =
      follow r (groupIn (.ok db)) allowance trail value := by
  induction allowance generalizing trail value with
  | zero => rw [follow, follow]
  | succ left ih =>
      rw [follow, follow]
      cases hid : referredId? value with
      | none => rfl
      | some b =>
          simp only
          split
          · rfl
          · rw [groupIn_congr (hagree b hid b .refl)]
            cases hg : groupIn (.ok db) b with
            | error e => rfl
            | ok g =>
                refine compile_congr g.rules.toRule fun link hlink => ih (trail ++ [b]) ?_
                have hstored : db.byId? b = some g := Database.byId_eq_ok.mp hg
                exact fun c hc a ha => hagree b hid a (.head ⟨g, hstored, link, hlink, hc⟩ ha)

theorem resolveFrom_reached (trail : List Nat) {rules : RuleSet}
    (hagree : ∀ b, rules.RefersTo b → ∀ a, Reaches db.byId? b a → db'.byId? a = db.byId? a) :
    r.resolveFrom (groupIn (.ok db')) trail rules = r.resolveFrom (groupIn (.ok db)) trail rules :=
  resolveFrom_congr fun value hvalue =>
    follow_reached _ trail fun b hb => hagree b ⟨value, hvalue, hb⟩

theorem resolveId_reached {id : Nat}
    (hagree : ∀ a, Reaches db.byId? id a → db'.byId? a = db.byId? a) :
    r.resolveId (groupIn (.ok db')) id = r.resolveId (groupIn (.ok db)) id := by
  rw [resolveId, resolveId, groupIn_congr (hagree id .refl)]
  cases hg : groupIn (.ok db) id with
  | error e => rfl
  | ok g =>
      have hstored : db.byId? id = some g := Database.byId_eq_ok.mp hg
      have hrest : ∀ b, g.rules.RefersTo b → ∀ a, Reaches db.byId? b a →
          db'.byId? a = db.byId? a := by
        rintro b ⟨value, hvalue, hb⟩ a ha
        exact hagree a (.head ⟨g, hstored, value, hvalue, hb⟩ ha)
      exact resolveFrom_reached _ hrest

theorem resolve_reached {g : Group}
    (hagree : ∀ b, g.rules.RefersTo b → ∀ a, Reaches db.byId? b a → db'.byId? a = db.byId? a) :
    r.resolve (groupIn (.ok db')) g = r.resolve (groupIn (.ok db)) g := by
  unfold resolve
  cases g.check with
  | error v => rfl
  | ok => exact resolveFrom_reached _ hagree

end Resolver

/-! ## What an instance finds after a change -/

namespace Site

variable {cfg : Storage} {s t : Site} {db db' found : Database}

/-- If anything is found after a change, it is what was written. -/
theorem Changed.eq_of_content (h : s.Changed cfg t db db') (hcounts : db.CountsOn db')
    (hfound : t.content cfg = .ok found) : found = db' := by
  by_cases hprocess : cfg.isDurable = false
  · rw [Site.content, h.slot, if_pos ⟨hprocess, rfl⟩] at hfound
    exact (Except.ok.inj hfound).symm
  · have hread := h.content
    rw [Site.content, if_neg fun hslot => hprocess hslot.1] at hread
    have hfits : db'.Fits := (Disk.inWords_of_content hread).fits.countsOn hcounts
    have hholds : t.Holds cfg db' := h.holds
    exact hholds.eq_of_content hfits hfound

theorem Step.refusals {allowed : Database → Database → Prop} (h : s.Step cfg allowed t) :
    t.disk.refusals <:+ s.disk.refusals := by
  rcases h with hkept | ⟨event, rfl⟩ | ⟨-, hchanged⟩
  · exact hkept.refusals
  · exact List.suffix_rfl
  · exact hchanged.refusals

theorem Step.content_error {allowed : Database → Database → Prop} {fault : GroupError}
    (h : s.Step cfg allowed t) (herror : t.content cfg = .error fault) :
    s.content cfg = .error fault ∨
      cfg.isDurable = true ∧ fault = .serialization "not a group database" := by
  rcases h with hkept | ⟨event, rfl⟩ | ⟨-, hchanged⟩
  · exact Or.inl (hkept.content ▸ herror)
  · exact Or.inl herror
  · rw [Site.content, hchanged.slot] at herror
    split at herror
    · cases herror
    · rename_i hdurable
      simp only [Disk.content, Disk.load, hchanged.store, Disk.access,
        Database.ofOctets_octets] at herror
      exact Or.inr ⟨by simpa using hdurable, Database.ofText_eq_error herror⟩

/-- Whatever is found at the second site was found at the first, apart from the ids. -/
def TracesBack (cfg : Storage) (ids : List Nat) (s t : Site) : Prop :=
  ∀ db', t.content cfg = .ok db' →
    ∃ db, s.content cfg = .ok db ∧ ∀ a ∉ ids, db'.byId? a = db.byId? a

theorem Kept.tracesBack {ids : List Nat} (h : s.Kept cfg t) : TracesBack cfg ids s t :=
  fun db' hdb' => ⟨db', h.content ▸ hdb', fun _ _ => rfl⟩

theorem TracesBack.trans {u : Site} {ids : List Nat} (h : TracesBack cfg ids s t)
    (h' : TracesBack cfg ids t u) : TracesBack cfg ids s u := by
  intro last hlast
  obtain ⟨db₁, h₁, hsame₁⟩ := h' last hlast
  obtain ⟨db₀, h₀, hsame₀⟩ := h db₁ h₁
  exact ⟨db₀, h₀, fun a ha => (hsame₁ a ha).trans (hsame₀ a ha)⟩

end Site

/-! ## Jobs that change groups -/

namespace Service

/-- Another job, with what it is given. -/
inductive Edit where
  | create (g : Group)
  | update (g : Group)
  | delete (ids : List Nat)

namespace Edit

def work (sv : Service) : Edit → Work Unit
  | .create g => discard (sv.create g)
  | .update g => discard (sv.update g)
  | .delete ids => discard (sv.delete ids)

/-- The ids of the groups that it creates, updates or deletes when it succeeds. -/
def touched (db : Database) : Edit → List Nat
  | .create _ => [db.lastId + 1]
  | .update g => g.id.toList
  | .delete ids => ids

end Edit

variable (sv : Service) {s t : Site} {db db' : Database} {g stored : Group} {ids : List Nat}

theorem update_ok (hok : (sv.update g).outcome s = (.ok stored, t)) :
    Stored sv.storage .updated g stored s t := by
  obtain ⟨steps, hanswers, hlinked⟩ := (sv.update g).answers_outcome s
  rw [hok] at hanswers hlinked
  exact (update_answers hanswers).linked hlinked

/-- A group that was stored is the only one that is new or another one than before. -/
theorem Stored.byId?_eq {cfg : Storage} {subject : EventSubject} (h : Stored cfg subject g stored s t)
    (hcontent : s.content cfg = .ok db) (hcontent' : t.content cfg = .ok db') {a : Nat}
    (ha : a ≠ g.id.getD (db.lastId + 1)) : db'.byId? a = db.byId? a := by
  obtain ⟨id, u, db₀, written, -, hsave, hchanged, rfl⟩ := h.changed
  obtain rfl : db = db₀ := Except.ok.inj (hcontent.symm.trans hchanged.content)
  obtain rfl := hchanged.eq_of_content (Database.saveUnique_countsOn hsave) hcontent'
  rcases (Database.saveUnique_cases hsave).2 with ⟨hid, rfl, rfl⟩ | ⟨known, old, hid, -, rfl, rfl⟩
  · have hne : ¬ db.lastId + 1 = a := by
      rintro rfl
      simp [hid] at ha
    rw [Database.byId?, Database.byId?, List.find?_append]
    simp [hne]
  · have hne : a ≠ known := by
      rintro rfl
      simp [hid] at ha
    exact Database.find?_replaceFirst_of_ne hid hne db.groups

theorem remove_tracesBack {id : Nat} (hid : id ∈ ids) :
    (Store.remove sv.storage id).Within (Site.TracesBack sv.storage ids) := by
  refine Store.change_within (fun _ _ => Site.Kept.tracesBack) fun s t db written a hremove hchanged => ?_
  obtain ⟨removed, hremoved, hpair⟩ := map_eq_ok.mp hremove
  obtain rfl : written = removed := (Prod.mk.inj hpair).2
  intro db' hdb'
  obtain rfl := hchanged.eq_of_content (Database.remove_countsOn hremoved) hdb'
  obtain rfl := Database.remove_ok hremoved
  refine ⟨db, hchanged.content, fun a ha => ?_⟩
  have hne : a ≠ id := fun h => ha (h ▸ hid)
  rw [Database.byId?, Database.byId?, List.find?_filter]
  congr 1
  funext g
  by_cases hg : g.id = some a
  · simp [hg, hne]
  · simp [hg]

theorem deleteAll_tracesBack {more : List Nat} (hmore : ∀ id ∈ more, id ∈ ids) :
    (sv.deleteAll more).Within (Site.TracesBack sv.storage ids) := by
  induction more with
  | nil => exact .pure []
  | cons id more ih =>
      obtain ⟨hid, hrest⟩ := List.forall_mem_cons.mp hmore
      have hpublish : (publish .deleted id).Within (Site.TracesBack sv.storage ids) :=
        .asWork fun s db' hdb' => ⟨db', hdb', fun _ _ => rfl⟩
      have hone : (sv.deleteOne id).Within (Site.TracesBack sv.storage ids) :=
        .bind (sv.remove_tracesBack hid) fun _ => hpublish
      exact .bind (.lift hone) fun _ => .bind (ih hrest) fun _ => .pure _

theorem deleteAll_byId?_eq (hcontent : s.content sv.storage = .ok db)
    (hcontent' : ((sv.deleteAll ids).outcome s).2.content sv.storage = .ok db') {a : Nat}
    (ha : a ∉ ids) : db'.byId? a = db.byId? a := by
  have htraces : s.TracesBack sv.storage ids ((sv.deleteAll ids).outcome s).2 :=
    (sv.deleteAll_tracesBack fun _ => id).outcome_related _ (fun _ _ => id)
      (fun s => (Site.Kept.refl s).tracesBack) (fun _ _ _ => .trans) s
  obtain ⟨db₀, h₀, hsame⟩ := htraces db' hcontent'
  obtain rfl := Except.ok.inj (h₀.symm.trans hcontent)
  exact hsame a ha

/-- Whatever becomes of a job, it leaves all other groups as they are. -/
theorem Edit.byId?_eq (e : Edit) (hcontent : s.content sv.storage = .ok db)
    (hcontent' : ((e.work sv).outcome s).2.content sv.storage = .ok db') {a : Nat}
    (ha : a ∉ e.touched db) : db'.byId? a = db.byId? a := by
  have hkept : ∀ t : Site, s.Kept sv.storage t → t.content sv.storage = .ok db' →
      db'.byId? a = db.byId? a := by
    intro t hkept ht
    rw [hkept.content, hcontent] at ht
    rw [Except.ok.inj ht]
  cases e with
  | create g =>
      simp only [work, Work.outcome_discard, Service.create, Work.outcome_inTurn] at hcontent'
      rcases hrun : (sv.createOne g).outcome s with ⟨e | stored, t⟩ <;> rw [hrun] at hcontent'
      · exact hkept t ((sv.createOne_spares g).kept hrun) hcontent'
      · exact (createOne_ok hrun).byId?_eq hcontent hcontent' (by simpa [touched] using ha)
  | update g =>
      simp only [work, Work.outcome_discard] at hcontent'
      rcases hrun : (sv.update g).outcome s with ⟨e | stored, t⟩ <;> rw [hrun] at hcontent'
      · exact hkept t ((sv.update_spares g).kept hrun) hcontent'
      · cases hid : g.id with
        | none =>
            rw [Service.update, hid] at hrun
            cases hrun
        | some id =>
            refine (sv.update_ok hrun).byId?_eq hcontent hcontent' ?_
            simpa [hid, touched] using ha
  | delete ids =>
      simp only [work, Work.outcome_discard, Service.delete, Work.outcome_inTurn] at hcontent'
      exact sv.deleteAll_byId?_eq hcontent hcontent' ha

theorem Edit.within (e : Edit) : (e.work sv).Within (Site.JobStep sv.storage) := by
  cases e with
  | create g => exact .map (.inTurn (sv.createOne_within g)) _
  | update g => exact .map (sv.update_within g) _
  | delete ids => exact .map (.inTurn (sv.deleteAll_within ids)) _

theorem Edit.refusals (e : Edit) :
    ((e.work sv).outcome s).2.disk.refusals <:+ s.disk.refusals :=
  (e.within sv).outcome_related (fun s t => t.disk.refusals <:+ s.disk.refusals)
    (fun _ _ => Site.Step.refusals) (fun _ => List.suffix_rfl)
    (fun _ _ _ hst htu => List.IsSuffix.trans htu hst) s

/-- A content that was found before is found afterwards, unless the file that was written cannot be read. -/
theorem Edit.content_error (e : Edit) (hcontent : s.content sv.storage = .ok db) {fault : GroupError}
    (herror : ((e.work sv).outcome s).2.content sv.storage = .error fault) :
    sv.storage.isDurable = true ∧ fault = .serialization "not a group database" := by
  have hbefore := (e.within sv).outcome_related (fun s t => t.content sv.storage = .error fault →
      s.content sv.storage = .error fault ∨
        sv.storage.isDurable = true ∧ fault = .serialization "not a group database")
    (fun _ _ => Site.Step.content_error) (fun _ => Or.inl)
    (fun _ _ _ hst htu hu => (htu hu).elim hst Or.inr) s herror
  refine hbefore.resolve_left fun hfails => ?_
  rw [hcontent] at hfails
  cases hfails

/-! ## What is resolved -/

/-- The id can be reached from what is resolved: from a stored group, which can be reached from itself, or
from those that the rules of a given group refer to. -/
def ResolveInput.Reaches (stored? : Nat → Option Group) : ResolveInput → Nat → Prop
  | .id n, a => AssetGroups.Reaches stored? n a
  | .group g, a => ∃ b, g.rules.RefersTo b ∧ AssetGroups.Reaches stored? b a

theorem resolve_of_agree {s' : Site} {input : ResolveInput} (hcontent : s.content sv.storage = .ok db)
    (hcontent' : s'.content sv.storage = .ok db') (hquiet : s.disk.refusals = [])
    (hquiet' : s'.disk.refusals = [])
    (hagree : ∀ a, input.Reaches db.byId? a → db'.byId? a = db.byId? a) :
    ((sv.resolve input).outcome s').1 = ((sv.resolve input).outcome s).1 := by
  cases input with
  | id n =>
      rw [(sv.resolveId_reads n).fst_eq hquiet, (sv.resolveId_reads n).fst_eq hquiet', hcontent,
        hcontent']
      exact Resolver.resolveId_reached hagree
  | group g =>
      rw [(sv.resolveGroup_reads g).fst_eq hquiet, (sv.resolveGroup_reads g).fst_eq hquiet', hcontent,
        hcontent']
      exact Resolver.resolve_reached fun b hb a ha => hagree a ⟨b, hb, ha⟩

/-- Two stores that agree on all ids that can be reached from a group, be they stored or missing, give the
same answer for it, be it a list of assets or an error. Hence a job that touches none of these ids makes
no difference to what the group resolves to, as long as the file can be read: with a lock file a group
that is nested too deeply makes every stored group fail, whether or not references lead to it. -/
theorem resolution_reaches (sv : Service) {s : Site} {db : Database} (input : ResolveInput)
    (hcontent : s.content sv.storage = .ok db) (hquiet : s.disk.refusals = []) :
    (∀ s' db', s'.content sv.storage = .ok db' → s'.disk.refusals = [] →
      (∀ a, input.Reaches db.byId? a → db'.byId? a = db.byId? a) →
      ((sv.resolve input).outcome s').1 = ((sv.resolve input).outcome s).1) ∧
    ∀ (e : Edit) t, ((e.work sv).outcome s).2 = t →
      (∀ g, e = .create g → db.lastId + 1 < Text.wordLimit) →
      (∀ a ∈ e.touched db, ¬ input.Reaches db.byId? a) →
      (∃ db', t.content sv.storage = .ok db') ∧
          ((sv.resolve input).outcome t).1 = ((sv.resolve input).outcome s).1 ∨
        sv.storage.isDurable = true ∧
          t.content sv.storage = .error (.serialization "not a group database") ∧
          ∀ id, input = .id id → ((sv.resolve input).outcome t).1 =
            .error (.serialization "not a group database") := by
  constructor
  · intro s' db' hcontent' hquiet' hagree
    exact sv.resolve_of_agree hcontent hcontent' hquiet hquiet' hagree
  · rintro e t rfl - happart
    have hquiet' : ((e.work sv).outcome s).2.disk.refusals = [] :=
      List.suffix_nil.mp (hquiet ▸ e.refusals sv)
    cases hcontent' : ((e.work sv).outcome s).2.content sv.storage with
    | ok db' =>
        refine Or.inl ⟨⟨db', rfl⟩, sv.resolve_of_agree hcontent hcontent' hquiet hquiet' ?_⟩
        exact fun a ha => e.byId?_eq sv hcontent hcontent' fun htouched => happart a htouched ha
    | error fault =>
        obtain ⟨hdurable, rfl⟩ := e.content_error sv hcontent hcontent'
        refine Or.inr ⟨hdurable, rfl, ?_⟩
        rintro id rfl
        rw [(sv.resolveId_reads id).fst_eq hquiet', hcontent']
        rfl

/-- Ids that references do not lead away from hold everything that can be reached from one of them. -/
theorem mem_of_reaches {stored? : Nat → Option Group} {ids : List Nat}
    (hclosed : ∀ a ∈ ids, ∀ g ∈ (stored? a).toList, ∀ value ∈ g.rules.references,
      ∀ b ∈ (Resolver.referredId? value).toList, b ∈ ids) {a b : Nat} (ha : a ∈ ids)
    (h : Reaches stored? a b) : b ∈ ids := by
  induction h with
  | refl => exact ha
  | tail _ hlink ih =>
      obtain ⟨g, hg, value, hvalue, hb⟩ := hlink
      exact hclosed _ ih g (by simp [hg]) value hvalue _ (by simp [hb])

/-- Rule sets inside each other around a condition. -/
def nestedRule : (levels : Nat) → Rule
  | 0 => .condition (.of .name .equals "x")
  | levels + 1 => .nested .or [nestedRule levels]

def deepGroup : Group := .named "deep" ⟨.or, [nestedRule 61]⟩

def locked : Service := { storage := { lock := .file }, resolver := { inventory := sampleInventory } }

/-- An instance that is about to read a file with one group. -/
def lockedSite : Site := { disk := { store := .file oneGroup.octets } }

theorem lockedSite_content : lockedSite.content locked.storage = .ok oneGroup := by
  have hbounded : oneGroup.Bounded := show ∀ id ∈ oneGroup.ids, id ≤ oneGroup.lastId by decide
  have hreadable : oneGroup.Readable := by decide +kernel
  have hfile : lockedSite.disk.store = .file oneGroup.octets := rfl
  rw [Site.content, if_neg (by decide)]
  exact (Disk.content_of_file hfile hbounded.fits).trans (if_pos hreadable)

/-- What the deep group is stored in. -/
def deepStored : Database := ⟨2, oneGroup.groups ++ [{ deepGroup with id := some 2 }]⟩

/-- The deep group is created, and nothing is found any more. -/
theorem lockedSite_create : ∀ db',
    (((Edit.create deepGroup).work locked).outcome lockedSite).2.content locked.storage ≠ .ok db' := by
  have hsound : oneGroup.Sound := ⟨rfl, by decide, by decide, by decide, by decide⟩
  have hcheck : deepGroup.check = .ok () := by decide +kernel
  have hname : ∀ h ∈ oneGroup.groups, h.name ≠ deepGroup.name := by decide
  obtain ⟨stored, u, hcreate, hchanged⟩ :=
    createOne_eq_ok (s := lockedSite) (g := deepGroup) lockedSite_content rfl (by decide) hcheck hname
  have hserves := Site.Serves.changed hchanged (hsound.append hcheck hname)
  have hdeep : ¬ deepStored.Readable := by decide +kernel
  intro db' hcontent
  rw [Edit.work, Work.outcome_discard, Service.create, Work.outcome_inTurn, hcreate] at hcontent
  have hnone : u.content locked.storage = .error (.serialization "not a group database") :=
    (hserves.holds.content_unknown hserves.sound.fits (by simp [locked, Storage.isDurable])).trans
      (if_neg hdeep)
  cases hnone.symm.trans hcontent

/-- Removing the groups that refer to each other leaves another one as it was. A deep group that nothing
refers to does not. -/
theorem resolution_reaches_sample :
    ((sample.resolve (.id 4)).outcome
        (((Edit.delete [5, 6]).work sample).outcome sampleSite).2).1 = .ok [⟨4, "power"⟩] ∧
      ((locked.resolve (.id 1)).outcome lockedSite).1 = .ok [⟨3, "guest"⟩] ∧
      ((locked.resolve (.id 1)).outcome
        (((Edit.create deepGroup).work locked).outcome lockedSite).2).1 =
          .error (.serialization "not a group database") := by
  have hfour : ∀ a, (ResolveInput.id 4).Reaches sampleGroups.byId? a → a ∈ [1, 2, 3, 4] :=
    fun _ => mem_of_reaches (by decide +kernel) (by decide)
  have hone : ∀ a, (ResolveInput.id 1).Reaches oneGroup.byId? a → a ∈ [1] :=
    fun _ => mem_of_reaches (by decide +kernel) (by decide)
  have hpower : ((sample.resolve (.id 4)).outcome sampleSite).1 = .ok [⟨4, "power"⟩] := by
    decide +kernel
  have hguest : ((locked.resolve (.id 1)).outcome lockedSite).1 = .ok [⟨3, "guest"⟩] := by
    rw [(locked.resolveId_reads 1).fst_eq rfl, lockedSite_content]
    decide +kernel
  have hapart : ∀ a ∈ [5, 6], ¬ (ResolveInput.id 4).Reaches sampleGroups.byId? a := fun a ha h =>
    (by decide : ∀ a ∈ [5, 6], a ∉ [1, 2, 3, 4]) a ha (hfour a h)
  have hapart' : ∀ a ∈ [2], ¬ (ResolveInput.id 1).Reaches oneGroup.byId? a := fun a ha h =>
    (by decide : ∀ a ∈ [2], a ∉ [1]) a ha (hone a h)
  refine ⟨?_, hguest, ?_⟩
  · rcases (resolution_reaches sample (.id 4) (s := sampleSite) rfl rfl).2 (.delete [5, 6]) _ rfl
      nofun hapart with ⟨-, hsame⟩ | ⟨hdurable, -⟩
    · rw [hsame, hpower]
    · cases hdurable
  · rcases (resolution_reaches locked (.id 1) lockedSite_content rfl).2 (.create deepGroup) _ rfl
      (fun _ _ => by decide) hapart' with ⟨⟨db', hcontent'⟩, -⟩ | ⟨-, -, hfails⟩
    · exact absurd hcontent' (lockedSite_create db')
    · exact hfails 1 rfl

end Service

end AssetGroups
