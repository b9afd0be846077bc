import AssetGroups.Backup
import AssetGroups.Job.Dispatch
import AssetGroups.Proofs.Resolver.Simulation
import AssetGroups.Proofs.Store.Steps

/-!
# What the steps of jobs do

Whatever a job is given and however far it gets, each of its steps leaves everything as it is, announces
something, stores a group that passes its check, or removes one.
-/

namespace AssetGroups

variable {α : Type} {cfg : Storage} {R : Site → Site → Prop}

/-- What a job makes of a content: a group that passes its check was stored under a name of its own, or a
group was removed. -/
inductive Database.Step (db db' : Database) : Prop where
  | stored {g stored : Group} (hcheck : g.check = .ok ()) (hsave : db.saveUnique g = .ok (stored, db'))
  | removed {id : Nat} (hremove : db.remove id = .ok db')

theorem Database.Sound.step {db db' : Database} (h : db.Sound) (hstep : db.Step db') : db'.Sound := by
  rcases hstep with ⟨hcheck, hsave⟩ | hremove
  · exact (h.saveUnique hcheck hsave).1
  · exact h.remove hremove

/-- A step of a job. -/
abbrev Site.JobStep (cfg : Storage) : Site → Site → Prop := Site.Step cfg Database.Step

/-! ## Jobs that read -/

namespace Work.Closed

variable {P : (α : Type) → Work α → Prop}

theorem simulates (h : Work.Closed cfg P) :
    Simulates (m := Work) (n := Work) fun α w w' => P α w ∧ P α w' where
  pure a := ⟨h.pure a, h.pure a⟩
  throw e := ⟨h.throw e, h.throw e⟩
  bind hx hf := ⟨h.bind hx.1 fun a => (hf a).1, h.bind hx.2 fun a => (hf a).2⟩

theorem demandValid (h : Work.Closed cfg P) (g : Group) : P _ g.demandValid := by
  unfold Group.demandValid
  cases g.check with
  | error v => exact h.throw _
  | ok => exact h.pure ()

theorem decodePayload (h : Work.Closed cfg P) (d : Json.Decoder α) (payload : List UInt8) :
    P _ (AssetGroups.decodePayload d payload) := by
  unfold AssetGroups.decodePayload
  split
  · exact h.throw _
  · split
    · exact h.pure _
    · exact h.throw _

variable {sv : Service} (h : Work.Closed sv.storage P)
include h

theorem resolve (input : Service.ResolveInput) : P _ (sv.resolve input) := by
  have hlookup := fun id => And.intro (h.byId id) (h.byId id)
  cases input with
  | id n => exact (Resolver.resolveId_simulates h.simulates hlookup n).1
  | group g => exact (Resolver.resolve_simulates h.simulates hlookup g).1

theorem readAll (infos : List GroupInfo) : P _ (Backup.readAll sv infos) := by
  induction infos with
  | nil => exact h.pure []
  | cons i infos ih => exact h.bind (h.byId i.id) fun _ => h.bind ih fun _ => h.pure _

theorem save : P _ (Backup.save sv) :=
  h.bind h.list fun infos => h.bind (h.readAll infos) fun _ => h.pure _

end Work.Closed

theorem Work.jobStep_closed (cfg : Storage) :
    Work.Closed cfg fun _ w => w.Within (Site.JobStep cfg) :=
  Work.within_closed fun _ _ => .kept

/-! ## Operations -/

theorem Store.saveUnique_within {g : Group} (hcheck : g.check = .ok ()) :
    (saveUnique cfg g).Within (Site.JobStep cfg) :=
  change_within (fun _ _ => .kept) fun _ _ _ _ _ hsave => .changed (.stored hcheck hsave)

theorem Store.remove_within (id : Nat) : (remove cfg id).Within (Site.JobStep cfg) := by
  refine change_within (fun _ _ => .kept) fun s t db db' a hremove => .changed ?_
  cases hdb : db.remove id with
  | error e =>
      rw [hdb] at hremove
      cases hremove
  | ok removed =>
      rw [hdb] at hremove
      cases hremove
      exact .removed hdb

theorem publish_within (subject : EventSubject) (id : Nat) :
    (publish subject id).Within (Site.JobStep cfg) :=
  .asWork fun _ => .published ⟨subject, id⟩ rfl

namespace Service

variable (sv : Service)

/-! ## Single jobs -/

/-- A group is stored only after it has passed its check. -/
theorem demandValid_bind_within {g : Group} {rest : Work α}
    (h : g.check = .ok () → rest.Within (Site.JobStep cfg)) :
    (do g.demandValid; rest).Within (Site.JobStep cfg) := by
  cases hcheck : g.check with
  | error v =>
      unfold Group.demandValid
      rw [hcheck]
      exact .throw _
  | ok =>
      exact .bind ((Work.jobStep_closed cfg).demandValid g) fun _ => h hcheck

theorem createOne_within (g : Group) : (sv.createOne g).Within (Site.JobStep sv.storage) := by
  unfold createOne
  refine demandValid_bind_within fun hcheck => .bind (Store.saveUnique_within hcheck) fun stored => ?_
  cases stored.id with
  | none => exact .pure stored
  | some id => exact .bind (publish_within _ id) fun _ => .pure stored

theorem update_within (g : Group) : (sv.update g).Within (Site.JobStep sv.storage) := by
  unfold update
  cases g.id with
  | none => exact .throw _
  | some id =>
      refine demandValid_bind_within fun hcheck =>
        .inTurn (.bind (Store.saveUnique_within hcheck) ?_)
      exact fun stored => .bind (publish_within _ id) fun _ => .pure stored

theorem deleteOne_within (id : Nat) : (sv.deleteOne id).Within (Site.JobStep sv.storage) :=
  .bind (Store.remove_within id) fun _ => publish_within _ id

theorem deleteAll_within (ids : List Nat) : (sv.deleteAll ids).Within (Site.JobStep sv.storage) := by
  induction ids with
  | nil => exact .pure []
  | cons id ids ih =>
      exact .bind (.lift (sv.deleteOne_within id)) fun _ => .bind ih fun _ => .pure _

/-! ## Requests -/

theorem handle_within (subject : String) (payload : List UInt8) :
    (sv.handle subject payload).Within (Site.JobStep sv.storage) := by
  have hreads := Work.jobStep_closed sv.storage
  unfold handle
  cases Subject.ofText? subject with
  | none => exact .throw _
  | some s =>
      cases s with
      | create =>
          exact .bind (hreads.decodePayload _ payload) fun g =>
            .bind (.inTurn (sv.createOne_within g)) fun _ => .pure _
      | update =>
          exact .bind (hreads.decodePayload _ payload) fun g =>
            .bind (sv.update_within g) fun _ => .pure _
      | delete =>
          exact .bind (hreads.decodePayload _ payload) fun ids =>
            .bind (.inTurn (sv.deleteAll_within ids)) fun _ => .pure _
      | list => exact .bind hreads.list fun _ => .pure _
      | read =>
          exact .bind (hreads.decodePayload _ payload) fun id =>
            .bind (hreads.byId id) fun _ => .pure _
      | resolve =>
          exact .bind (hreads.decodePayload _ payload) fun input =>
            .bind (hreads.resolve input) fun _ => .pure _

theorem respond_within (subject : String) (payload : List UInt8) :
    (sv.respond subject payload).Within (Site.JobStep sv.storage) :=
  Script.Within.bind (sv.handle_within subject payload) fun _ => .pure _

end Service

/-! ## Backups -/

namespace Backup

variable (sv : Service)

theorem createAll_within (groups : List Group) :
    (createAll sv groups).Within (Site.JobStep sv.storage) := by
  induction groups with
  | nil => exact .pure ()
  | cons g groups ih => exact .bind (.map (sv.createOne_within g) _) fun _ => ih

theorem restore_within (f : Feature) : (restore sv f).Within (Site.JobStep sv.storage) := by
  refine .inTurn (.bind (Work.jobStep_closed _).list fun infos => ?_)
  cases infos with
  | nil => exact createAll_within sv f.groups
  | cons i infos => exact .bind (.throw _) fun _ => createAll_within sv f.groups

theorem removeAll_within (infos : List GroupInfo) :
    (removeAll sv infos).Within (Site.JobStep sv.storage) := by
  induction infos with
  | nil => exact .pure ()
  | cons i infos ih => exact .bind (sv.deleteOne_within i.id) fun _ => ih

theorem reset_within : (reset sv).Within (Site.JobStep sv.storage) :=
  .inTurn (.bind (Work.jobStep_closed _).list (removeAll_within sv))

theorem answerSave_within (q : SaveQuery) : (answerSave sv q).Within (Site.JobStep sv.storage) := by
  refine .bind (.mapM (fun name => ?_) q.features) fun _ => .pure _
  split
  · exact .bind (Work.jobStep_closed _).save fun _ => .pure _
  · exact .pure _

theorem answerRestore_within (q : RestoreQuery) :
    (answerRestore sv q).Within (Site.JobStep sv.storage) := by
  refine .bind (.mapM (fun entry => ?_) q.features) fun _ => .pure _
  dsimp only
  split
  · exact .bind (restore_within sv entry.2) fun _ => .pure _
  · exact .pure _

theorem answerReset_within : (answerReset sv).Within (Site.JobStep sv.storage) :=
  .bind (reset_within sv) fun _ => .pure _

end Backup

end AssetGroups
