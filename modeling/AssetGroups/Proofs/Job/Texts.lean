import AssetGroups.Proofs.Job.Guarantee
import AssetGroups.Proofs.Job.Ids
import AssetGroups.Proofs.Job.Removal
import AssetGroups.Proofs.Resolver.Guarantee
import AssetGroups.Proofs.Text.Lines

/-!
# The texts of failures

A failure is told on one line, unless its text quotes another one that is not: a subject that names no
job, the name of a group that is to be stored, a value by which a rule refers to no group, or a path.
-/

namespace AssetGroups

open Json Text

variable {α β : Type}

/-! ## What is quoted -/

namespace Command

/-- The command is to store the group. -/
inductive Saves : Command → Group → Prop
  | created {subject : String} {payload : List UInt8} {g : Group}
      (hsubject : Subject.ofText? subject = some .create)
      (hgroup : Decodes Group.decoder payload g) : Saves (.request subject payload) g
  | updated {subject : String} {payload : List UInt8} {g : Group}
      (hsubject : Subject.ofText? subject = some .update)
      (hgroup : Decodes Group.decoder payload g) : Saves (.request subject payload) g
  | restored {q : Backup.RestoreQuery} {f : Backup.Feature} {g : Group}
      (hfeature : (Backup.featureName, f) ∈ q.features) (hgroup : g ∈ f.groups) : Saves (.restore q) g

/-- The command is to resolve the group as it is given. -/
inductive Previews : Command → Group → Prop
  | intro {subject : String} {payload : List UInt8} {g : Group}
      (hsubject : Subject.ofText? subject = some .resolve)
      (hgroup : Decodes Service.ResolveInput.decoder payload (.group g)) :
      Previews (.request subject payload) g

/-- The error quotes a text of the command, of a stored group, or of the settings. -/
inductive Quotes (cfg : Storage) (stored : Group → Prop) (c : Command) : GroupError → String → Prop
  | subject {subject : String} {payload : List UInt8} (hc : c = .request subject payload)
      (hunknown : Subject.ofText? subject = none) :
      Quotes cfg stored c (.unsupportedSubject subject) subject
  | name {g : Group} (hg : c.Saves g) : Quotes cfg stored c (.duplicateName g.name) g.name
  | link {g : Group} {value : String} (hg : stored g ∨ c.Previews g)
      (hvalue : value ∈ g.rules.references) (hnone : Resolver.referredId? value = none) :
      Quotes cfg stored c (.noLinkedGroup value) value
  | path {path cause : String} (hpath : path = cfg.path ∨ path = cfg.lockFile)
      (hcause : OnOneLine cause) : Quotes cfg stored c (.storage path cause) path

variable {cfg : Storage} {stored : Group → Prop} {c : Command} {e : GroupError} {q : String}

theorem Quotes.onOneLine_iff (h : c.Quotes cfg stored e q) : OnOneLine e.message ↔ OnOneLine q := by
  cases h with
  | subject => exact GroupError.onOneLine_unsupportedSubject
  | name => exact GroupError.onOneLine_duplicateName
  | link => exact GroupError.onOneLine_noLinkedGroup
  | path _ hcause => exact GroupError.onOneLine_storage hcause

/-- The text is on one line, or that of an error that quotes another. -/
def Tells (cfg : Storage) (stored : Group → Prop) (c : Command) (text : String) : Prop :=
  OnOneLine text ∨ ∃ e q, c.Quotes cfg stored e q ∧ text = e.message

theorem Tells.iff {text : String} (h : c.Tells cfg stored text) :
    ¬ OnOneLine text ↔ ∃ e q, c.Quotes cfg stored e q ∧ text = e.message ∧ ¬ OnOneLine q := by
  constructor
  · intro hbroken
    obtain ⟨e, q, hquotes, rfl⟩ := h.resolve_left hbroken
    exact ⟨e, q, hquotes, rfl, hbroken ∘ hquotes.onOneLine_iff.mpr⟩
  · rintro ⟨e, q, hquotes, rfl, hbroken⟩
    exact hbroken ∘ hquotes.onOneLine_iff.mp

/-- An error whose text the command may be answered with. -/
def Fails (cfg : Storage) (stored : Group → Prop) (c : Command) (e : GroupError) : Prop :=
  c.Tells cfg stored e.message

theorem Quotes.fails (h : c.Quotes cfg stored e q) : c.Fails cfg stored e :=
  .inr ⟨e, q, h, rfl⟩

end Command

/-! ## Acquisitions -/

/-- No cause of a refusal to come breaks a line. -/
def Disk.Terse (d : Disk) : Prop := ∀ cause, some cause ∈ d.refusals → OnOneLine cause

variable {E : GroupError → Prop} {cfg : Storage}

/-- The faults of the disk that holds the store are among these errors. -/
structure DiskErrors (cfg : Storage) (E : GroupError → Prop) : Prop where
  access {path cause : String} : (path = cfg.path ∨ path = cfg.lockFile) → OnOneLine cause →
    E (.storage path cause)
  text : E (.serialization "not a group database")

theorem Command.diskErrors {stored : Group → Prop} {c : Command} :
    DiskErrors cfg (c.Fails cfg stored) where
  access hpath hcause := (Quotes.path hpath hcause).fails
  text := .inl (by decide)

/-- What the access to a disk may fail with, if no cause of a refusal breaks a line. -/
def Disk.FailsWith (E : GroupError → Prop) (f : Disk → Except GroupError α × Disk) : Prop :=
  ∀ d : Disk, d.Terse → (f d).2.Terse ∧ ∀ e, (f d).1 = .error e → E e

namespace Disk

theorem Terse.access {d : Disk} (h : d.Terse) :
    d.access.2.Terse ∧ ∀ cause, d.access.1 = some cause → OnOneLine cause := by
  obtain ⟨store, lockFile, refusals⟩ := d
  cases refusals with
  | nil => exact ⟨h, by simp [Disk.access]⟩
  | cons r rs =>
      refine ⟨fun cause hcause => h cause (List.mem_cons_of_mem r hcause), ?_⟩
      rintro cause ⟨⟩
      exact h cause List.mem_cons_self

variable (h : DiskErrors cfg E)
include h

/-- An access that is refused fails with the cause, and otherwise one goes on. -/
theorem access_failsWith {path : String} (hpath : path = cfg.path ∨ path = cfg.lockFile)
    {next : Disk → Except GroupError α × Disk} (hnext : FailsWith E next) :
    FailsWith E fun d => match d.access with
      | (some cause, d) => (.error (.storage path cause), d)
      | (none, d) => next d := by
  intro d hd
  obtain ⟨hrest, hcause⟩ := hd.access
  dsimp only
  rcases haccess : d.access with ⟨_ | cause, d'⟩ <;> rw [haccess] at hrest hcause
  · exact hnext d' hrest
  · refine ⟨hrest, ?_⟩
    rintro _ ⟨⟩
    exact h.access hpath (hcause cause rfl)

theorem takeLock_failsWith : FailsWith E (takeLock cfg) :=
  access_failsWith h (.inr rfl) fun _ hd => ⟨hd, by simp⟩

theorem load_failsWith : FailsWith E (load cfg) := by
  intro d hd
  unfold load
  cases d.store with
  | missing => exact ⟨hd, by simp⟩
  | folder =>
      refine ⟨hd, ?_⟩
      rintro _ ⟨⟩
      exact h.access (.inl rfl) (by decide)
  | file octets =>
      have hread : FailsWith E fun d => (Database.ofOctets cfg.path octets, d) := by
        refine fun _ hd => ⟨hd, fun e he => ?_⟩
        rcases Database.ofOctets_eq_error he with rfl | rfl
        · exact h.text
        · exact h.access (.inl rfl) (by decide)
      exact access_failsWith h (.inl rfl) hread d hd

theorem persist_failsWith (db : Database) : FailsWith E (persist cfg db) := by
  refine access_failsWith h (.inl rfl) fun d hd => ?_
  split
  · refine ⟨hd, ?_⟩
    rintro _ ⟨⟩
    exact h.access (.inl rfl) (by decide)
  · exact ⟨hd, by simp⟩

end Disk

namespace Acquisition

/-- What the acquisition may fail with, if no cause of a refusal breaks a line. -/
def FailsWith (E : GroupError → Prop) (a : Acquisition α) : Prop :=
  ∀ s : Site, s.disk.Terse → (a.run s).2.disk.Terse ∧ ∀ e, (a.run s).1 = .error e → E e

theorem FailsWith.bind {a : Acquisition α} {f : α → Acquisition β} (ha : a.FailsWith E)
    (hf : ∀ x, (f x).FailsWith E) : (a >>= f).FailsWith E := by
  intro s hs
  obtain ⟨hrest, herror⟩ := ha s hs
  rw [run_bind]
  rcases hrun : a.run s with ⟨e | x, t⟩ <;> rw [hrun] at hrest herror
  · refine ⟨hrest, ?_⟩
    rintro _ ⟨⟩
    exact herror e rfl
  · exact hf x t hrest

theorem failsWith_onDisk {f : Disk → Except GroupError α × Disk} (hf : Disk.FailsWith E f) :
    (onDisk f).FailsWith E :=
  fun s hs => hf s.disk hs

/-- What does not touch the disk, and answers, does not fail. -/
theorem failsWith_of_ok {a : Acquisition α}
    (ha : ∀ s, (∃ x, (a.run s).1 = .ok x) ∧ (a.run s).2.disk = s.disk) : a.FailsWith E := by
  intro s hs
  obtain ⟨⟨x, hx⟩, hdisk⟩ := ha s
  rw [hdisk, hx]
  exact ⟨hs, by simp⟩

theorem failsWith_liftM {x : Except GroupError α} (hx : ∀ e, x = .error e → E e) :
    (liftM x : Acquisition α).FailsWith E := by
  intro s hs
  cases x with
  | error e =>
      refine ⟨hs, ?_⟩
      rintro _ ⟨⟩
      exact hx e rfl
  | ok a => exact ⟨hs, by rintro _ ⟨⟩⟩

variable (h : DiskErrors cfg E)
include h

theorem exclude_failsWith : (exclude cfg).FailsWith E := by
  unfold exclude
  split
  · exact failsWith_onDisk (Disk.takeLock_failsWith h)
  · exact failsWith_of_ok fun _ => ⟨⟨_, rfl⟩, rfl⟩

theorem load_failsWith : (load cfg).FailsWith E :=
  .bind (failsWith_onDisk (Disk.load_failsWith h)) fun _ => failsWith_of_ok fun _ => ⟨⟨_, rfl⟩, rfl⟩

theorem openExclusive_failsWith : (openExclusive cfg).FailsWith E := by
  refine .bind (exclude_failsWith h) fun _ =>
    .bind (failsWith_of_ok fun s => ⟨⟨s, rfl⟩, rfl⟩) fun s => ?_
  split
  · exact .bind (load_failsWith h) fun _ => failsWith_of_ok fun _ => ⟨⟨_, rfl⟩, rfl⟩
  · exact failsWith_of_ok fun _ => ⟨⟨_, rfl⟩, rfl⟩

theorem loadOnce_failsWith : (loadOnce cfg).FailsWith E := by
  refine .bind (exclude_failsWith h) fun _ =>
    .bind (failsWith_of_ok fun s => ⟨⟨s, rfl⟩, rfl⟩) fun s => ?_
  split
  · exact load_failsWith h
  · exact failsWith_of_ok fun _ => ⟨⟨_, rfl⟩, rfl⟩

theorem change_failsWith {f : Database → Except GroupError (α × Database)}
    (hf : ∀ db e, f db = .error e → E e) : (change cfg f).FailsWith E :=
  .bind (openExclusive_failsWith h) fun db => .bind (failsWith_liftM (hf db)) fun (a, db) =>
    .bind (failsWith_onDisk (Disk.persist_failsWith h db)) fun _ =>
      failsWith_of_ok fun _ => ⟨⟨a, rfl⟩, rfl⟩

end Acquisition

/-! ## Operations -/

/-- What is relied on at each step: no cause of a refusal breaks a line, and the groups that the
instance knows are `stored`. -/
structure Site.Tells (stored : Group → Prop) (s : Site) : Prop where
  terse : s.disk.Terse
  stored : ∀ g ∈ s.slot.database.groups, stored g

/-- What the work answers and fails with, wherever its steps are taken. -/
abbrev Work.Tells (stored : Group → Prop) (Q : α → Prop) (E : GroupError → Prop) (w : Work α) :
    Prop :=
  w.Guarantees (Site.Tells stored) (fun _ _ => True) Q E

variable {stored : Group → Prop}

theorem Work.tells_asWork {a : Acquisition α} (ha : a.FailsWith E) :
    a.asWork.Tells stored (fun _ => True) E := by
  refine Work.Guarantees.asWork fun s hs => ⟨trivial, ?_⟩
  obtain ⟨-, herror⟩ := ha s hs.terse
  cases hanswer : (a.run s).1 with
  | error e => exact herror e hanswer
  | ok x => trivial

namespace Store

variable (h : DiskErrors cfg E)
include h

theorem snapshot_tells : (snapshot cfg).Tells stored (fun db => ∀ g ∈ db.groups, stored g) E := by
  have hknown : Work.Tells stored (fun known => ∀ db, known = some db → ∀ g ∈ db.groups, stored g) E
      Acquisition.known?.asWork := by
    refine Work.Guarantees.asWork fun s hs => ⟨trivial, ?_⟩
    rw [Acquisition.run_known?]
    intro db hdb
    split at hdb
    · rw [← Option.some.inj hdb]
      exact hs.stored
    · cases hdb
  have hload : Work.Tells stored (fun db : Database => ∀ g ∈ db.groups, stored g) E
      (do (Acquisition.loadOnce cfg).asWork; Acquisition.database.asWork) :=
    .bind (Work.tells_asWork (Acquisition.loadOnce_failsWith h)) fun _ _ =>
      Work.Guarantees.asWork fun s hs => ⟨trivial, hs.stored⟩
  unfold snapshot
  split
  on_goal 1 =>
    have hopen : Work.Tells stored _ E (Acquisition.openExclusive cfg).asWork :=
      Work.tells_asWork (Acquisition.openExclusive_failsWith h)
    refine .bind (Q := fun _ => True) (hopen.map fun _ _ => trivial) fun _ _ => ?_
  all_goals
    refine .bind hknown fun known hknown => ?_
    cases known with
    | some db => exact .pure (hknown db rfl)
    | none => exact hload

theorem change_tells {f : Database → Except GroupError (α × Database)}
    (hf : ∀ db e, f db = .error e → E e) : (change cfg f).Tells stored (fun _ => True) E :=
  Work.tells_asWork (Acquisition.change_failsWith h hf)

end Store

/-! ## Jobs -/

namespace Service

variable {sv : Service} {c : Command}

/-- What the work of a command answers and fails with. -/
abbrev Telling (sv : Service) (stored : Group → Prop) (c : Command) (Q : α → Prop) (w : Work α) :
    Prop :=
  w.Tells stored Q (c.Fails sv.storage stored)

theorem publish_tells (subject : EventSubject) (id : Nat) :
    sv.Telling stored c (fun _ => True) (publish subject id) :=
  Work.tells_asWork (Acquisition.failsWith_of_ok fun _ => ⟨⟨_, rfl⟩, rfl⟩)

theorem demandValid_tells (g : Group) : sv.Telling stored c (fun _ => True) g.demandValid :=
  (Group.demandValid_guarantees fun v => .inl (GroupError.onOneLine_ofViolation v)).mono
    (fun _ _ => trivial) fun _ he => he

theorem decodePayload_tells (d : Decoder α) (payload : List UInt8) :
    sv.Telling stored c (Decodes d payload) (decodePayload d payload) :=
  decodePayload_guarantees (.inl (by decide)) (.inl (by decide))

/-! ### Changes -/

theorem saveUnique_tells {g : Group}
    (hname : c.Fails sv.storage stored (.duplicateName g.name)) :
    sv.Telling stored c (fun _ => True) (Store.saveUnique sv.storage g) := by
  refine Store.change_tells Command.diskErrors fun db e hsave => ?_
  unfold Database.saveUnique at hsave
  split at hsave
  · cases hsave
    exact .inl (GroupError.onOneLine_noGroupWithId _)
  · split at hsave
    · cases hsave
      exact hname
    · cases hsave

theorem createOne_tells {g : Group} (hg : c.Saves g) :
    sv.Telling stored c (fun _ => True) (sv.createOne g) := by
  unfold createOne
  refine .bind (demandValid_tells _) fun _ _ =>
    .bind (saveUnique_tells (Command.Quotes.name hg).fails) fun stored _ => ?_
  cases stored.id with
  | none => exact .pure trivial
  | some id => exact .bind (publish_tells _ id) fun _ _ => .pure trivial

theorem update_tells {g : Group} (hg : c.Saves g) :
    sv.Telling stored c (fun _ => True) (sv.update g) := by
  unfold update
  cases g.id with
  | none => exact .throw (.inl (GroupError.onOneLine_ofViolation _))
  | some id =>
      exact .bind (demandValid_tells g) fun _ _ =>
        .inTurn (.bind (saveUnique_tells (Command.Quotes.name hg).fails) fun _ _ =>
          .bind (publish_tells _ id) fun _ _ => .pure trivial)

theorem deleteOne_tells (id : Nat) : sv.Telling stored c (fun _ => True) (sv.deleteOne id) := by
  refine .bind (Store.change_tells Command.diskErrors fun db e hremove => ?_) fun _ _ =>
    publish_tells _ id
  cases hdb : db.remove id with
  | ok db' =>
      rw [hdb] at hremove
      cases hremove
  | error e' =>
      rw [hdb] at hremove
      cases hremove
      rw [(Database.remove_eq_error hdb).1]
      exact .inl (GroupError.onOneLine_nothingToRemove id)

/-- The text for each of the ids is "Ok" or that of a failure. -/
theorem deleteAll_tells (ids : List Nat) : sv.Telling stored c
    (fun removals => ∀ r ∈ removals, c.Tells sv.storage stored r.text) (sv.deleteAll ids) := by
  induction ids with
  | nil => exact .pure (by simp)
  | cons id ids ih =>
      have hone : sv.Telling stored c (fun _ => True) (sv.deleteOne id) := deleteOne_tells id
      refine .bind hone.lift fun outcome houtcome => .bind ih fun removals hrest =>
        .pure (List.forall_mem_cons.mpr ⟨?_, hrest⟩)
      cases outcome with
      | error e => exact houtcome
      | ok => exact .inl (show OnOneLine "Ok" by decide)

/-! ### Reading -/

theorem list_tells : sv.Telling stored c (fun _ => True) sv.list :=
  .bind (Store.snapshot_tells Command.diskErrors) fun _ _ => .pure trivial

theorem byId_tells (id : Nat) : sv.Telling stored c stored (Store.byId sv.storage id) := by
  refine .bind (Store.snapshot_tells Command.diskErrors) fun db hdb => .monadLift ?_
  cases hfind : db.byId id with
  | error e =>
      obtain ⟨-, rfl⟩ := Database.byId_eq_error.mp hfind
      exact .inl (GroupError.onOneLine_noGroupWithId id)
  | ok g => exact hdb g (List.mem_of_find?_eq_some (Database.byId_eq_ok.mp hfind))

theorem relies_tells : Resolver.Relies (Site.Tells stored) (fun _ _ => True)
    (c.Fails sv.storage stored) stored sv.lookup
    fun value => ∃ g : Group, (stored g ∨ c.Previews g) ∧ value ∈ g.rules.references where
  violation v := .inl (GroupError.onOneLine_ofViolation v)
  field := .inl (by decide)
  cycle trail := .inl (GroupError.onOneLine_cycle trail)
  tooDeep limit := .inl (GroupError.onOneLine_tooDeep limit)
  unlinked _ := fun ⟨_, hg, hvalue⟩ hnone => (Command.Quotes.link hg hvalue hnone).fails
  lookup := byId_tells
  links g hg _ hvalue := ⟨g, .inl hg, hvalue⟩

/-! ### Requests -/

/-- The texts for the ids in the reply to a request to remove groups. -/
def statusTexts : Value → List String
  | .list items => items.flatMap fun
    | .object members => members.filterMap fun
      | (_, .string text) => some text
      | _ => none
    | _ => []
  | _ => []

theorem statusTexts_removals (removals : List Removal) :
    statusTexts (.list (removals.map Removal.toJson)) = removals.map Removal.text := by
  rw [statusTexts, List.flatMap_map]
  exact List.map_eq_flatMap.symm

theorem handle_tells (subject : String) (payload : List UInt8) :
    sv.Telling stored (.request subject payload) (fun out =>
      Subject.ofText? subject = some .delete → ∀ text ∈ statusTexts out,
        Command.Tells sv.storage stored (.request subject payload) text)
      (sv.handle subject payload) := by
  unfold handle
  cases hsubject : Subject.ofText? subject with
  | none => exact .throw (Command.Quotes.subject rfl hsubject).fails
  | some s =>
      cases s with
      | create =>
          exact .bind (decodePayload_tells _ payload) fun g hg =>
            .bind (.inTurn (createOne_tells (.created hsubject hg))) fun _ _ => .pure nofun
      | update =>
          exact .bind (decodePayload_tells _ payload) fun g hg =>
            .bind (update_tells (.updated hsubject hg)) fun _ _ => .pure nofun
      | delete =>
          refine .bind (decodePayload_tells _ payload) fun ids _ =>
            .bind (.inTurn (deleteAll_tells ids)) fun removals hall => .pure fun _ => ?_
          rw [statusTexts_removals]
          exact List.forall_mem_map.mpr hall
      | list => exact .bind list_tells fun _ _ => .pure nofun
      | read =>
          exact .bind (decodePayload_tells _ payload) fun id _ =>
            .bind (byId_tells id) fun _ _ => .pure nofun
      | resolve =>
          refine .bind (decodePayload_tells _ payload) fun input hinput => ?_
          cases input with
          | id n => exact .bind (relies_tells.resolveId n) fun _ _ => .pure nofun
          | group g =>
              exact .bind (relies_tells.resolve fun value hvalue =>
                ⟨g, .inr (.intro hsubject hinput), hvalue⟩) fun _ _ => .pure nofun

end Service

/-! ## Backups -/

namespace Backup

variable {sv : Service} {c : Command}

open Service

theorem save_tells : sv.Telling stored c (fun _ => True) (save sv) := by
  have hall : ∀ infos, sv.Telling stored c (fun _ => True) (readAll sv infos) := by
    intro infos
    induction infos with
    | nil => exact .pure trivial
    | cons i infos ih => exact .bind (byId_tells i.id) fun _ _ => .bind ih fun _ _ => .pure trivial
  exact .bind list_tells fun infos _ => .bind (hall infos) fun _ _ => .pure trivial

theorem createAll_tells {groups : List Group} (hgroups : ∀ g ∈ groups, c.Saves g) :
    sv.Telling stored c (fun _ => True) (createAll sv groups) := by
  induction groups with
  | nil => exact .pure trivial
  | cons g groups ih =>
      obtain ⟨hg, hrest⟩ := List.forall_mem_cons.mp hgroups
      exact .bind (.map (T := fun _ => True) (createOne_tells hg) fun _ _ => trivial) fun _ _ =>
        ih hrest

theorem restore_tells {f : Feature} (hgroups : ∀ g ∈ f.groups, c.Saves g) :
    sv.Telling stored c (fun _ => True) (restore sv f) := by
  refine .inTurn (.bind list_tells fun infos _ => ?_)
  cases infos with
  | nil => exact createAll_tells hgroups
  | cons i infos =>
      exact .bind (Q := fun _ => False) (.throw (.inl (GroupError.onOneLine_ofViolation _)))
        fun _ => False.elim

/-- What holds of the text of each feature's status holds of the texts in the answer. -/
theorem answered_tells (error? : β → Option String) {entries : List (String × β)}
    (h : ∀ e ∈ entries, ∀ text, error? e.2 = some text → c.Tells sv.storage stored text) :
    ∀ text ∈ (Dict.ofEntries entries).filterMap (error? ·.2), c.Tells sv.storage stored text := by
  intro text htext
  obtain ⟨e, he, herror⟩ := List.mem_filterMap.mp htext
  exact h e ((Dict.ascending_ofEntries entries).2 e he) text herror

theorem ofResult_tells {r : Except GroupError α}
    (h : Work.Ends (fun _ => True) (c.Fails sv.storage stored) r) :
    ∀ text, (FeatureStatus.ofResult r).error = some text → c.Tells sv.storage stored text := by
  cases r with
  | error e =>
      rintro _ ⟨⟩
      exact h
  | ok a => exact nofun

theorem unsupported_tells :
    ∀ text, FeatureStatus.unsupported.error = some text → c.Tells sv.storage stored text := by
  rintro _ ⟨⟩
  exact .inl (by decide)

end Backup

/-! ## Responses -/

/-- The texts of a response that tell of failures. Those for the ids of a request to remove groups are
among them. -/
def Response.told : Response → List String
  | .reply r => r.error.toList ++ if Subject.ofText? r.subject = some .delete then
      r.out.toList.flatMap Service.statusTexts else []
  | .saved r => r.features.filterMap (·.2.status.error)
  | .status r => r.features.filterMap (·.2.error)

namespace Command

variable {sv : Service}

theorem reply_tells {subject : String} {c : Command}
    {result : Except GroupError Value} (h : Work.Ends (fun out =>
      Subject.ofText? subject = some .delete → ∀ text ∈ Service.statusTexts out,
        c.Tells sv.storage stored text) (c.Fails sv.storage stored) result) :
    ∀ text ∈ (Response.reply (Reply.ofResult subject result)).told,
      c.Tells sv.storage stored text := by
  cases result with
  | error e =>
      have herror : c.Tells sv.storage stored e.message := h
      simpa [Response.told, Reply.ofResult] using herror
  | ok out =>
      have hout : Subject.ofText? subject = some .delete → ∀ text ∈ Service.statusTexts out,
        c.Tells sv.storage stored text := h
      by_cases hdelete : Subject.ofText? subject = some .delete
      · simpa [Response.told, Reply.ofResult, hdelete] using hout hdelete
      · simp [Response.told, Reply.ofResult, hdelete]

theorem response_tells (c : Command) :
    (c.response sv).Guarantees (Site.Tells stored) (fun _ _ => True) fun r =>
      ∀ text ∈ r.told, c.Tells sv.storage stored text := by
  cases c with
  | request subject payload =>
      exact .map (.bind (x := (sv.handle subject payload).run)
        (Service.handle_tells subject payload) fun _ hresult => .pure (reply_tells hresult))
        fun _ h => h
  | save q =>
      refine .map (.bind (.mapM_forall (T := fun e => ∀ text, e.2.status.error = some text →
        Tells sv.storage stored _ text) fun name _ => ?_) fun entries hentries =>
          .pure (Backup.answered_tells (fun f : Backup.FeatureAndStatus => f.status.error) hentries))
            fun _ h => h
      split
      · exact .bind Backup.save_tells fun _ hresult => .pure (Backup.ofResult_tells hresult)
      · exact .pure Backup.unsupported_tells
  | restore q =>
      refine .map (.bind (.mapM_forall (T := fun e => ∀ text, e.2.error = some text →
        Tells sv.storage stored _ text) fun entry hentry => ?_) fun entries hentries =>
          .pure (Backup.answered_tells Backup.FeatureStatus.error hentries)) fun _ h => h
      dsimp only
      split
      · rename_i hname
        have hgroups : ∀ g ∈ entry.2.groups, Saves (.restore q) g :=
          fun g hg => .restored (hname ▸ hentry) hg
        exact .bind (Backup.restore_tells hgroups) fun _ hresult =>
          .pure (Backup.ofResult_tells hresult)
      · exact .pure Backup.unsupported_tells
  | reset =>
      refine .map (.bind (.any (Backup.reset sv).run) fun result _ => .pure (Q := fun r =>
        ∀ text ∈ (Response.status r).told, Tells sv.storage stored _ text) ?_) fun _ h => h
      cases result with
      | ok => simp [Response.told]
      | error e =>
          intro text htext
          obtain rfl : text = "Reset of automatic groups failed" := by
            simpa [Response.told] using htext
          exact .inl (by decide)

/-- Among the groups that the instance knows at one of the steps. -/
def Known (steps : List (Site × Site)) (g : Group) : Prop := ∃ p ∈ steps, g ∈ p.1.slot.database.groups

/-- Whatever store the steps of a command find, if no cause of a refusal breaks a line, then a text that
tells of a failure does so exactly if it quotes one that does: a subject that names no job, the name of a
group to be stored, a value by which a rule of a known group, or of the one to be resolved, refers to no
group, or the path of the store or of its lock file. -/
theorem response_lines {sv : Service} {c : Command} {steps : List (Site × Site)} {response : Response}
    (h : (c.response sv).Answers steps response) (hterse : ∀ p ∈ steps, p.1.disk.Terse) :
    ∀ text ∈ response.told, ¬ OnOneLine text ↔
      ∃ e q, c.Quotes sv.storage (Known steps) e q ∧ text = e.message ∧ ¬ OnOneLine q := by
  have htells := c.response_tells.answers h fun p hp =>
    ⟨hterse p hp, fun g hg => (⟨p, hp, hg⟩ : Known steps g)⟩
  exact fun text htext => (htells text htext).iff

/-- A subject of two lines, which names no job, is answered in two lines. -/
theorem response_lines_subject : ∃ r text,
    (Command.response {} (.request "NO\nSUCH" [])).Answers [] r ∧ text ∈ r.told ∧
      text = "Unsupported subject 'NO\nSUCH'" ∧ ¬ OnOneLine text := by
  have hunknown : Subject.ofText? "NO\nSUCH" = none := by decide +kernel
  have hanswers : (Command.response {} (.request "NO\nSUCH" [])).Answers []
      (.reply (Reply.ofResult "NO\nSUCH" (.error (.unsupportedSubject "NO\nSUCH")))) := by
    rw [Command.response, Service.respond, Service.handle, hunknown]
    exact .refl _
  refine ⟨_, _, hanswers, List.mem_singleton_self _, rfl, ?_⟩
  exact (response_lines hanswers (by simp) _ (List.mem_singleton_self _)).mpr
    ⟨_, _, .subject rfl hunknown, rfl, by decide⟩

end Command

end AssetGroups
