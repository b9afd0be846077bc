import AssetGroups.Proofs.Job.Alike
import AssetGroups.Proofs.Job.Guarantee
import AssetGroups.Proofs.Resolver.Guarantee
import AssetGroups.Proofs.Store.Unreadable

/-!
# Jobs on a store that cannot be read

Instances that find no content in their file report that they fail, whatever they are asked for, and
leave the file alone. Once a file that can be read stands in its place they answer from that.
-/

namespace AssetGroups

open Json Text

variable {E : GroupError → Prop}

/-! ## Requests -/

namespace Service

variable (sv : Service)

theorem createOne_unread (g : Group) : (sv.createOne g).FailsUnread sv.storage := by
  unfold createOne
  exact Work.Guarantees.bind (Group.demandValid_guarantees fun _ => trivial) fun _ _ =>
    (Store.change_unread _).bind

theorem update_unread (g : Group) : (sv.update g).FailsUnread sv.storage := by
  unfold update
  cases g.id with
  | none => exact .throw trivial
  | some id =>
      exact Work.Guarantees.bind (Group.demandValid_guarantees fun _ => trivial) fun _ _ =>
        .inTurn (Store.change_unread _).bind

/-- None of the groups was removed, and the reply says so of each. -/
def NoneRemoved (ids : List Nat) (removals : List Removal) : Prop :=
  removals.map (·.id) = ids ∧ ∀ r ∈ removals, (∃ e, r.outcome = .error e) ∧ r.text ≠ "Ok"

theorem deleteAll_unread (ids : List Nat) : (sv.deleteAll ids).Guarantees
    (Site.Unreadable sv.storage) (Site.Kept sv.storage) (NoneRemoved ids) E := by
  induction ids with
  | nil => exact .pure ⟨rfl, by simp⟩
  | cons id ids ih =>
      have hfails : (sv.deleteOne id).Guarantees (Site.Unreadable sv.storage)
          (Site.Kept sv.storage) (fun _ => False) fun e => e.message ≠ "Ok" :=
        .bind (.asWork fun s hs => Acquisition.change_unread hs _) fun _ => False.elim
      refine .bind hfails.lift fun outcome houtcome => .bind ih fun removals hrest => .pure ?_
      refine ⟨by rw [List.map_cons, hrest.1], List.forall_mem_cons.mpr ⟨?_, hrest.2⟩⟩
      cases outcome with
      | error e => exact ⟨⟨e, rfl⟩, houtcome⟩
      | ok => exact houtcome.elim

theorem relies_unread : Resolver.Relies (Site.Unreadable sv.storage) (Site.Kept sv.storage)
    (fun _ => True) (fun _ => False) sv.lookup fun _ => True where
  violation _ := trivial
  field := trivial
  cycle _ := trivial
  tooDeep _ := trivial
  unlinked _ _ _ := trivial
  lookup _ := Store.snapshot_unread.bind
  links _ := False.elim

/-- What a request can still be answered with by an instance that finds no content: that nothing was
removed, or what a group stands for that refers to no stored one. -/
inductive Spared (subject : String) (payload : List UInt8) : Value → Prop where
  | removals {ids : List Nat} {removals : List Removal}
      (hsubject : Subject.ofText? subject = some .delete) (hids : Decodes idsDecoder payload ids)
      (h : NoneRemoved ids removals) :
      Spared subject payload (.list (removals.map Removal.toJson))
  | preview {g : Group} {assets : List Inventory.AssetRef}
      (hsubject : Subject.ofText? subject = some .resolve)
      (hgroup : Decodes ResolveInput.decoder payload (.group g)) (h : g.rules.references = []) :
      Spared subject payload (.list (assets.map Inventory.AssetRef.toJson))

theorem handle_unread (subject : String) (payload : List UInt8) :
    (sv.handle subject payload).Guarantees (Site.Unreadable sv.storage) (Site.Kept sv.storage)
      (Spared subject payload) fun _ => True := by
  unfold handle
  cases hsubject : Subject.ofText? subject with
  | none => exact .throw trivial
  | some s =>
      cases s with
      | create =>
          exact .bind (decodePayload_guarantees trivial trivial) fun g _ =>
            (Work.FailsUnread.bind (.inTurn (sv.createOne_unread _))).guarantees _
      | update =>
          exact .bind (decodePayload_guarantees trivial trivial) fun g _ =>
            (sv.update_unread g).bind.guarantees _
      | delete =>
          exact .bind (decodePayload_guarantees trivial trivial) fun ids hids =>
            .bind (.inTurn (sv.deleteAll_unread ids)) fun removals h =>
              .pure (.removals hsubject hids h)
      | list => exact Store.snapshot_unread.bind.bind.guarantees _
      | read =>
          exact .bind (decodePayload_guarantees trivial trivial) fun id _ =>
            Store.snapshot_unread.bind.bind.guarantees _
      | resolve =>
          refine .bind (decodePayload_guarantees trivial trivial) fun input hinput => ?_
          cases input with
          | id n =>
              exact .bind (sv.relies_unread.resolveId n) fun _ ⟨_, hstored⟩ => hstored.elim
          | group g =>
              refine .bind (sv.relies_unread.resolve fun _ _ => trivial) fun assets hnone =>
                .pure (.preview hsubject hinput ?_)
              exact List.eq_nil_iff_forall_not_mem.mpr fun value hvalue => (hnone value hvalue).elim
                fun _ hstored => hstored

end Service

/-! ## Backups -/

namespace Backup

variable {sv : Service}

theorem save_unread : (save sv).FailsUnread sv.storage :=
  Store.snapshot_unread.bind.bind

theorem restore_unread (f : Feature) : (restore sv f).FailsUnread sv.storage :=
  .inTurn Store.snapshot_unread.bind.bind

theorem reset_unread : (reset sv).FailsUnread sv.storage :=
  .inTurn Store.snapshot_unread.bind.bind

/-- The status tells of a failure. -/
def FeatureStatus.Fails (s : FeatureStatus) : Prop := s.success = false ∧ s.error.isSome

theorem answerSave_unread (q : SaveQuery) : (answerSave sv q).Guarantees
    (Site.Unreadable sv.storage) (Site.Kept sv.storage) fun r =>
      ∀ name ∈ q.features, ∃ f, r.features.find? name = some f ∧
        f.feature = none ∧ f.status.Fails := by
  refine .bind (.mapM (T := fun name e => e.1 = name ∧ e.2.feature = none ∧ e.2.status.Fails)
    fun name _ => ?_) fun entries h => .pure (find?_answered h)
  split
  · refine .bind save_unread fun result hresult => .pure ?_
    cases result with
    | error e => exact ⟨rfl, rfl, rfl, rfl⟩
    | ok f => exact hresult.elim
  · exact .pure ⟨rfl, rfl, rfl, rfl⟩

theorem answerRestore_unread (q : RestoreQuery) : (answerRestore sv q).Guarantees
    (Site.Unreadable sv.storage) (Site.Kept sv.storage) fun r =>
      ∀ e ∈ q.features, ∃ status, r.features.find? e.1 = some status ∧ status.Fails := by
  refine .bind (.mapM (T := fun entry e => e.1 = entry.1 ∧ e.2.Fails) fun entry _ => ?_)
    fun entries h => .pure (find?_answered h)
  dsimp only
  split
  · refine .bind (restore_unread entry.2) fun result hresult => .pure ?_
    cases result with
    | error e => exact ⟨rfl, rfl, rfl⟩
    | ok => exact hresult.elim
  · exact .pure ⟨rfl, rfl, rfl⟩

theorem answerReset_unread : (answerReset sv).Guarantees (Site.Unreadable sv.storage)
    (Site.Kept sv.storage) fun r =>
      ∃ status, r.features.find? featureName = some status ∧ status.Fails := by
  refine .bind reset_unread fun result hresult => .pure ?_
  cases result with
  | error e => exact ⟨_, rfl, rfl, rfl⟩
  | ok => exact hresult.elim

end Backup

/-! ## Demands -/

/-- What is asked of an instance: an operation of its store, or a command to its service. -/
inductive Demand where
  | operation (op : Store.Operation)
  | command (c : Command)

/-- What comes back for a demand. -/
inductive Report where
  | answer (r : Except GroupError Store.Answer)
  | response (r : Response)

namespace Demand

def script (sv : Service) : Demand → Script Site Report
  | .operation op => .answer <$> (op.work sv.storage).run
  | .command c => .response <$> c.response sv

/-- The report tells of a failure, and where more than one thing was asked for, of one for each of them.
Only a group to preview that refers to no other can be resolved. -/
def Fails : Demand → Report → Prop
  | .operation _, .answer r => ∃ e, r = .error e
  | .command (.request subject payload), .response (.reply r) =>
      (∃ e, r = Reply.ofResult subject (.error e)) ∨
        ∃ out, r = Reply.ofResult subject (.ok out) ∧ Service.Spared subject payload out
  | .command (.save q), .response (.saved r) =>
      ∀ name ∈ q.features, ∃ f, r.features.find? name = some f ∧ f.feature = none ∧ f.status.Fails
  | .command (.restore q), .response (.status r) =>
      ∀ e ∈ q.features, ∃ status, r.features.find? e.1 = some status ∧ status.Fails
  | .command .reset, .response (.status r) =>
      ∃ status, r.features.find? Backup.featureName = some status ∧ status.Fails
  | _, _ => False

theorem script_unread (sv : Service) (d : Demand) :
    (d.script sv).Guarantees (Site.Unreadable sv.storage) (Site.Kept sv.storage) d.Fails := by
  cases d with
  | operation op =>
      refine .map (x := (op.work sv.storage).run) op.work_unread fun r hr => ?_
      cases r with
      | error e => exact ⟨e, rfl⟩
      | ok a => exact hr.elim
  | command c =>
      cases c with
      | request subject payload =>
          refine .map (.map (.bind (x := (sv.handle subject payload).run)
            (sv.handle_unread subject payload) fun r hr => .pure (Q := fun reply =>
              Fails (.command (.request subject payload)) (.response (.reply reply))) ?_)
            fun _ h => h) fun _ h => h
          cases r with
          | error e => exact .inl ⟨e, rfl⟩
          | ok out => exact .inr ⟨out, rfl, hr⟩
      | save q => exact .map (.map (Backup.answerSave_unread q) fun _ h => h) fun _ h => h
      | restore q => exact .map (.map (Backup.answerRestore_unread q) fun _ h => h) fun _ h => h
      | reset => exact .map (.map Backup.answerReset_unread fun _ h => h) fun _ h => h

/-- An instance answers what any other one would that finds the same content. -/
theorem script_respects (sv : Service) (d : Demand) :
    (d.script sv).Respects (Site.Alike sv.storage) := by
  have hclosed := Script.respects_jobClosed sv.storage
  cases d with
  | operation op => exact hclosed.bind (hclosed.operation op) fun _ => hclosed.pure _
  | command c => exact hclosed.bind (hclosed.response c) fun _ => hclosed.pure _

end Demand

/-! ## Runs -/

namespace Schedule

/-- Reached by the instances of a cluster, each of which may have a service of its own, by whatever is
asked of them. Each report comes with what was asked. -/
inductive ReachedFrom (sv : Nat → Service) (c : Cluster) : Schedule (Demand × Report) → Prop where
  | begun : ReachedFrom sv c { cluster := c }
  | ask {s : Schedule (Demand × Report)} {i : Nat} (d : Demand) : ReachedFrom sv c s →
      i < s.cluster.instances.length → ReachedFrom sv c (s.start i (Prod.mk d <$> d.script (sv i)))
  | advance {s s' : Schedule (Demand × Report)} {k : Nat} : ReachedFrom sv c s →
      s.advance? k = some s' → ReachedFrom sv c s'
  | join {s : Schedule (Demand × Report)} : ReachedFrom sv c s →
      ReachedFrom sv c { s with cluster := s.cluster.join }
  | refuse {s : Schedule (Demand × Report)} (refusals : List (Option String)) :
      ReachedFrom sv c s → ReachedFrom sv c (s.refuse refusals)

variable {sv : Nat → Service} {c : Cluster} {s s' : Schedule (Demand × Report)}

theorem ReachedFrom.finish (h : ReachedFrom sv c s) (k steps : Nat) :
    ReachedFrom sv c (s.finish k steps) := by
  induction steps generalizing s with
  | zero => exact h
  | succ steps ih =>
      rw [Schedule.finish]
      cases hadvance : s.advance? k with
      | none => exact h
      | some s' => exact ih (h.advance hadvance)

/-- The file and the feeds are as in `c`, no instance finds a content, and every script that is under
way ends in a failure. -/
structure Unread (sv : Nat → Service) (c : Cluster) (s : Schedule (Demand × Report)) : Prop where
  store : s.cluster.disk.store = c.disk.store
  feed : ∀ i, (s.cluster.site i).feed = (c.site i).feed
  unreadable : ∀ i, (s.cluster.site i).Unreadable (sv i).storage
  running : ∀ r ∈ s.running, r.script.Guarantees (Site.Unreadable (sv r.place).storage)
    (Site.Kept (sv r.place).storage) fun p => p.1.Fails p.2

namespace Unread

variable (h : Unread sv c s)
include h

theorem ask (i : Nat) (d : Demand) : Unread sv c (s.start i (Prod.mk d <$> d.script (sv i))) where
  store := h.store
  feed := h.feed
  unreadable := h.unreadable
  running := by
    intro r hr
    rcases List.mem_append.mp hr with hr | hr
    · exact h.running r hr
    · rw [List.mem_singleton.mp hr]
      exact (d.script_unread (sv i)).map fun _ hfails => hfails

theorem setSite {i : Nat} {t : Site} (hkept : (s.cluster.site i).Kept (sv i).storage t) (j : Nat) :
    ((s.cluster.setSite i t).site j).feed = (c.site j).feed ∧
      ((s.cluster.setSite i t).site j).Unreadable (sv j).storage := by
  rcases Cluster.site_setSite_cases (c := s.cluster) (i := i) (j := j) (s := t) with
    ⟨rfl, hsite⟩ | hsite <;> rw [hsite]
  · exact ⟨hkept.feed.trans (h.feed i), (h.unreadable i).steady hkept.toSteady⟩
  · exact ⟨h.feed j, (h.unreadable j).steady (.of_store hkept.store)⟩

theorem advance {k : Nat} (hadvance : s.advance? k = some s') : Unread sv c s' := by
  obtain ⟨r, hk, ⟨act, next, hstep, rfl⟩ | ⟨next, hasTurn, hturn, rfl⟩⟩ := advance_cases hadvance
  all_goals have hscript := h.running r (List.mem_of_getElem? hk)
  · rw [hstep] at hscript
    obtain ⟨hkept, hnext⟩ := hscript _ (h.unreadable r.place)
    refine ⟨hkept.store.trans h.store, fun i => (h.setSite hkept i).1,
      fun i => (h.setSite hkept i).2, forall_mem_set h.running hnext⟩
  · refine ⟨h.store, h.feed, h.unreadable, forall_mem_set h.running ?_⟩
    rcases hturn with hturn | hturn <;> rw [hturn] at hscript <;> exact hscript

theorem join : Unread sv c { s with cluster := s.cluster.join } where
  store := h.store
  feed i := by rw [Cluster.site_join, h.feed]
  unreadable i := by
    rw [Cluster.site_join]
    exact h.unreadable i
  running := h.running

theorem refuse (refusals : List (Option String)) : Unread sv c (s.refuse refusals) where
  store := h.store
  feed := h.feed
  unreadable i := (h.unreadable i).steady (.of_store rfl)
  running := h.running

theorem fails {k : Nat} {d : Demand} {report : Report} (hanswer : s.answer? k = some (d, report)) :
    d.Fails report := by
  unfold answer? at hanswer
  split at hanswer
  · rename_i hk
    obtain rfl := Option.some.inj hanswer
    exact h.running _ (List.mem_of_getElem? hk)
  · cases hanswer

end Unread

theorem ReachedFrom.unread (h : ReachedFrom sv c s)
    (hbroken : ∀ i, (c.site i).Unreadable (sv i).storage) : Unread sv c s := by
  induction h with
  | begun => exact ⟨rfl, fun _ => rfl, hbroken, by simp⟩
  | ask d _ _ ih => exact ih.ask _ d
  | advance _ hadvance ih => exact ih.advance hadvance
  | join _ ih => exact ih.join
  | refuse refusals _ ih => exact ih.refuse refusals

/-! ## When the file is replaced -/

/-- After someone has put another file in the place of the one that is there, and no access is refused any
more. -/
def mended (s : Schedule (Demand × Report)) (octets : List UInt8) : Cluster :=
  (s.refuse []).cluster.writeFile octets

theorem site_mended (hfile : s.cluster.disk.store ≠ .folder) (octets : List UInt8) (i : Nat) :
    (s.mended octets).site i = { s.cluster.site i with
      disk := { s.cluster.disk with store := .file octets, refusals := [] } } := by
  have hfile' : (s.refuse []).cluster.disk.store ≠ .folder := hfile
  rw [mended, Cluster.writeFile, if_neg hfile']
  rfl

/-- The only instance there is, which has just been opened on a file. -/
def openedOn (octets : List UInt8) : Cluster :=
  { disk := { store := .file octets }, instances := [.opened] }

theorem Unread.content_mended (h : Unread sv c s) (hfile : c.disk.store ≠ .folder)
    {octets : List UInt8} {db : Database} {i : Nat}
    (hread : Database.ofOctets (sv i).storage.path octets = .ok db) :
    ((s.mended octets).site i).content (sv i).storage = .ok db := by
  rw [site_mended (h.store ▸ hfile), Site.content, if_neg (h.unreadable i).unknown]
  exact hread

theorem content_openedOn {cfg : Storage} {octets : List UInt8} {db : Database}
    (hread : Database.ofOctets cfg.path octets = .ok db) :
    ((openedOn octets).site 0).content cfg = .ok db := by
  rw [Site.content, if_neg (by simp [openedOn, Cluster.site, Cluster.instanceAt, Instance.opened])]
  exact hread

/-- A file that cannot be read, as its octets are no text or the text is no content, is never overwritten:
whatever the instances are asked for, it stays as it is, nothing is announced, and all that they report are
failures. Once a file that can be read stands in its place, each answers from that, as one does that has
just been opened. -/
theorem unreadable_untouched {octets : List UInt8} (hstore : c.disk.store = .file octets)
    (hbroken : ∀ i, ∃ e, Database.ofOctets (sv i).storage.path octets = .error e)
    (hunloaded : ∀ i, (sv i).storage.isDurable = true ∨ (c.site i).slot.loaded = false)
    (h : ReachedFrom sv c s) :
    s.cluster.disk.store = .file octets ∧ (∀ i, (s.cluster.site i).feed = (c.site i).feed) ∧
      (∀ k d report, s.answer? k = some (d, report) → d.Fails report) ∧
      (∀ i (d : Demand), d.Fails ((d.script (sv i)).run (s.cluster.site i)).1) ∧
      ∀ octets' db i, Database.ofOctets (sv i).storage.path octets' = .ok db →
        ((s.mended octets').site i).content (sv i).storage = .ok db ∧
        (∀ op : Store.Operation,
          ((op.work (sv i).storage).outcome ((s.mended octets').site i)).1 = (op.apply db).1) ∧
        ∀ d : Demand, ((d.script (sv i)).run ((s.mended octets').site i)).1 =
          ((d.script (sv i)).run ((openedOn octets').site 0)).1 := by
  have hbegun : ∀ i, (c.site i).Unreadable (sv i).storage := by
    intro i
    obtain ⟨e, he⟩ := hbroken i
    refine ⟨e, ?_⟩
    have hunknown : ¬ ((sv i).storage.isDurable = false ∧ (c.site i).slot.loaded = true) := by
      rcases hunloaded i with hdurable | hloaded <;> simp [*]
    rw [Site.content, if_neg hunknown, ← he]
    show Prod.fst (Disk.load _ { c.disk with refusals := [] }) = _
    simp [Disk.load, hstore, Disk.access]
  have hunread := h.unread hbegun
  have hfile : c.disk.store ≠ .folder := by
    rw [hstore]
    exact Entry.noConfusion
  refine ⟨hunread.store.trans hstore, hunread.feed, fun _ _ _ => hunread.fails, fun i d => ?_,
    fun octets' db i hread => ?_⟩
  · exact (d.script_unread (sv i)).run (fun _ _ hs hkept => hs.steady hkept.toSteady)
      (hunread.unreadable i)
  · have hcontent := hunread.content_mended hfile hread
    have hsite := site_mended (hunread.store ▸ hfile) octets' i
    have hquiet : ((s.mended octets').site i).disk.refusals = [] := by rw [hsite]
    have hfile' : ((s.mended octets').site i).disk.store = .file octets' := by rw [hsite]
    refine ⟨hcontent, fun op => ?_, fun d => (d.script_respects (sv i) _ _ ?_).1⟩
    · exact op.fst_of_content hcontent hquiet (by simp [hfile'])
    · exact ⟨hcontent.trans (content_openedOn hread).symm, hfile', by simp [hfile'], hquiet, rfl⟩

/-! One instance with a lock file, which has read a content before, and one that has read none. -/

def sampleServices : Nat → Service
  | 0 => { storage := { lock := .file } }
  | _ => {}

/-- The last octet ends no character. -/
def brokenFile : List UInt8 := [0x7b, 0x7d, 0xff]

def brokenCluster : Cluster where
  disk := { store := .file brokenFile }
  instances := [{ slot := ⟨true, ⟨1, []⟩⟩ }, .opened]

/-- Both instances are to give up all groups. -/
def brokenSchedule : Schedule (Demand × Report) :=
  let asked (s : Schedule (Demand × Report)) (i : Nat) (d : Demand) :=
    s.start i (Prod.mk d <$> d.script (sampleServices i))
  ((asked (asked { cluster := brokenCluster } 0 (.operation .clear)) 1 (.command .reset)).finish
    0 5).finish 1 5

theorem brokenSchedule_reached : ReachedFrom sampleServices brokenCluster brokenSchedule := by
  have hbegun : ReachedFrom sampleServices brokenCluster { cluster := brokenCluster } := .begun
  have hfirst := hbegun.ask (.operation .clear) (i := 0) (by decide)
  have hsecond := hfirst.ask (.command .reset) (i := 1) (by decide)
  exact (hsecond.finish 0 5).finish 1 5

/-- Both are told that they cannot, and once the file has nothing in it there is an empty store. -/
theorem unreadable_untouched_notText : ∃ d report d' report',
    brokenSchedule.answer? 0 = some (d, report) ∧ Demand.Fails d report ∧
      brokenSchedule.answer? 1 = some (d', report') ∧ Demand.Fails d' report' ∧
      brokenSchedule.cluster.disk.store = .file brokenFile ∧
      ((brokenSchedule.mended []).site 0).content (sampleServices 0).storage = .ok {} := by
  have hbroken : ∀ i, ∃ e, Database.ofOctets (sampleServices i).storage.path brokenFile = .error e := by
    intro i
    have hnone : Text.Utf8.decode? brokenFile = none := by decide +kernel
    exact ⟨_, by rw [Database.ofOctets, hnone]⟩
  have hfirst : (brokenSchedule.answer? 0).isSome = true := by decide +kernel
  have hsecond : (brokenSchedule.answer? 1).isSome = true := by decide +kernel
  have hunloaded : ∀ i, (sampleServices i).storage.isDurable = true ∨
      (brokenCluster.site i).slot.loaded = false := by
    rintro (_ | _ | i)
    · exact .inl rfl
    · exact .inr rfl
    · exact .inr rfl
  obtain ⟨⟨d, report⟩, hfirst⟩ := Option.isSome_iff_exists.mp hfirst
  obtain ⟨⟨d', report'⟩, hsecond⟩ := Option.isSome_iff_exists.mp hsecond
  obtain ⟨hstore, -, hfails, -, hmended⟩ :=
    unreadable_untouched rfl hbroken hunloaded brokenSchedule_reached
  exact ⟨d, report, d', report', hfirst, hfails _ _ _ hfirst, hsecond, hfails _ _ _ hsecond, hstore,
    (hmended [] {} 0 rfl).1⟩

end Schedule

end AssetGroups
