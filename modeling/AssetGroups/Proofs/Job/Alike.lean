import AssetGroups.Proofs.Job.Ids
import AssetGroups.Store.Operation

/-!
# Jobs at sites that are alike

A job sees of a site only the content that is found there. So at two sites with the same content, of
which one may have been used and the other not, it is answered in the same way.
-/

namespace AssetGroups

variable {α β : Type} {cfg : Storage}

/-! ## What jobs are made of -/

/-- What holds of the parts that jobs are made of, and of whatever is put together from scripts of
which it holds. -/
structure Script.JobClosed (cfg : Storage) (P : (α : Type) → Script Site α → Prop) : Prop where
  pure {α : Type} (a : α) : P α (Pure.pure a)
  bind {α β : Type} {x : Script Site α} {f : α → Script Site β} :
    P α x → (∀ a, P β (f a)) → P β (x >>= f)
  inTurn {α : Type} {x : Script Site α} : P α x → P α x.inTurn
  snapshot : P _ (Store.snapshot cfg).run
  change {α : Type} (f : Database → Except GroupError (α × Database)) : P _ (Store.change cfg f).run
  publish (subject : EventSubject) (id : Nat) : P _ (AssetGroups.publish subject id).run

namespace Script.JobClosed

variable {P : (α : Type) → Script Site α → Prop}

section

variable (h : JobClosed cfg P)
include h

theorem work_bind {w : Work α} {f : α → Work β} (hw : P _ w.run) (hf : ∀ a, P _ (f a).run) :
    P _ (w >>= f).run := by
  refine h.bind (x := w.run) hw fun r => ?_
  cases r with
  | error e => exact h.pure _
  | ok a => exact hf a

theorem work_map {f : α → β} {w : Work α} (hw : P _ w.run) : P _ (f <$> w).run := by
  rw [map_eq_pure_bind]
  exact h.work_bind hw fun a => h.pure (Except.ok (f a))

theorem throw (e : GroupError) : P _ (MonadExcept.throw e : Work α).run := h.pure (Except.error e)

theorem monadLift (x : Except GroupError α) : P _ (MonadLift.monadLift x : Work α).run := by
  cases x <;> exact h.pure _

theorem lift {w : Work α} (hw : P _ w.run) : P _ (ExceptT.lift w.run : Work _).run :=
  h.bind hw fun _ => h.pure _

theorem mapM {f : α → Script Site β} (hf : ∀ a, P _ (f a)) (as : List α) : P _ (as.mapM f) := by
  induction as with
  | nil => exact h.pure _
  | cons a as ih =>
      rw [List.mapM_cons]
      exact h.bind (hf a) fun b => h.bind ih fun bs => h.pure _

theorem simulates : Simulates (m := Work) (n := Work) fun _ w w' => P _ w.run ∧ P _ w'.run where
  pure a := ⟨h.pure (Except.ok a), h.pure (Except.ok a)⟩
  throw e := ⟨h.throw e, h.throw e⟩
  bind hx hf := ⟨h.work_bind hx.1 fun a => (hf a).1, h.work_bind hx.2 fun a => (hf a).2⟩

theorem byId (id : Nat) : P _ (Store.byId cfg id).run :=
  h.work_bind h.snapshot fun db => h.monadLift (db.byId id)

theorem list : P _ (Store.list cfg).run := h.work_bind h.snapshot fun _ => h.pure _

theorem demandValid (g : Group) : P _ g.demandValid.run := by
  unfold Group.demandValid
  cases g.check with
  | error v => exact h.throw _
  | ok => exact h.pure _

theorem decodePayload (d : Json.Decoder α) (payload : List UInt8) :
    P _ (AssetGroups.decodePayload d payload).run := by
  unfold AssetGroups.decodePayload
  split
  · exact h.throw _
  · split
    · exact h.pure _
    · exact h.throw _

/-! ## Operations -/

theorem operation (op : Store.Operation) : P _ (op.work cfg).run := by
  cases op with
  | save | saveUnique | remove | clear => exact h.work_map (h.change _)
  | byId id => exact h.work_map (h.byId id)
  | byName name =>
      exact h.work_map (h.work_bind h.snapshot fun db => h.monadLift (db.byName name))
  | names | ids | list => exact h.work_map (h.work_bind h.snapshot fun _ => h.pure _)

end

/-! ## Jobs -/

variable {sv : Service} (h : JobClosed sv.storage P)
include h

theorem createOne (g : Group) : P _ (sv.createOne g).run := by
  unfold Service.createOne
  refine h.work_bind (h.demandValid _) fun _ => h.work_bind (h.change _) fun stored => ?_
  cases stored.id with
  | none => exact h.pure _
  | some id => exact h.work_bind (h.publish _ id) fun _ => h.pure _

theorem update (g : Group) : P _ (sv.update g).run := by
  unfold Service.update
  cases g.id with
  | none => exact h.throw _
  | some id =>
      refine h.work_bind (h.demandValid g) fun _ => h.inTurn ?_
      exact h.work_bind (h.change _) fun _ => h.work_bind (h.publish _ id) fun _ => h.pure _

theorem deleteOne (id : Nat) : P _ (sv.deleteOne id).run :=
  h.work_bind (h.change _) fun _ => h.publish _ id

theorem deleteAll (ids : List Nat) : P _ (sv.deleteAll ids).run := by
  induction ids with
  | nil => exact h.pure _
  | cons id ids ih =>
      exact h.work_bind (h.lift (h.deleteOne id)) fun _ => h.work_bind ih fun _ => h.pure _

theorem resolve (input : Service.ResolveInput) : P _ (sv.resolve input).run := by
  have hlookup := fun id => And.intro (h.byId id) (h.byId id)
  cases input with
  | id n => exact (Resolver.resolveId_simulates h.simulates hlookup n).1
  | group g => exact (Resolver.resolve_simulates h.simulates hlookup g).1

theorem respond (subject : String) (payload : List UInt8) : P _ (sv.respond subject payload) := by
  refine h.bind (x := (sv.handle subject payload).run) ?_ fun _ => h.pure _
  unfold Service.handle
  cases Subject.ofText? subject with
  | none => exact h.throw _
  | some s =>
      cases s with
      | create =>
          exact h.work_bind (h.decodePayload _ payload) fun g =>
            h.work_bind (h.inTurn (h.createOne g)) fun _ => h.pure _
      | update =>
          exact h.work_bind (h.decodePayload _ payload) fun g =>
            h.work_bind (h.update g) fun _ => h.pure _
      | delete =>
          exact h.work_bind (h.decodePayload _ payload) fun ids =>
            h.work_bind (h.inTurn (h.deleteAll ids)) fun _ => h.pure _
      | list => exact h.work_bind h.list fun _ => h.pure _
      | read =>
          exact h.work_bind (h.decodePayload _ payload) fun id =>
            h.work_bind (h.byId id) fun _ => h.pure _
      | resolve =>
          exact h.work_bind (h.decodePayload _ payload) fun input =>
            h.work_bind (h.resolve input) fun _ => h.pure _

/-! ## Backups -/

theorem save : P _ (Backup.save sv).run := by
  have hall : ∀ infos, P _ (Backup.readAll sv infos).run := by
    intro infos
    induction infos with
    | nil => exact h.pure _
    | cons i infos ih => exact h.work_bind (h.byId i.id) fun _ => h.work_bind ih fun _ => h.pure _
  exact h.work_bind h.list fun infos => h.work_bind (hall infos) fun _ => h.pure _

theorem restore (f : Backup.Feature) : P _ (Backup.restore sv f).run := by
  have hall : ∀ groups, P _ (Backup.createAll sv groups).run := by
    intro groups
    induction groups with
    | nil => exact h.pure _
    | cons g groups ih => exact h.work_bind (h.work_map (h.createOne g)) fun _ => ih
  refine h.inTurn (h.work_bind h.list fun infos => ?_)
  cases infos with
  | nil => exact hall f.groups
  | cons i infos => exact h.work_bind (h.throw _) fun _ => hall f.groups

theorem reset : P _ (Backup.reset sv).run := by
  have hall : ∀ infos, P _ (Backup.removeAll sv infos).run := by
    intro infos
    induction infos with
    | nil => exact h.pure _
    | cons i infos ih => exact h.work_bind (h.deleteOne i.id) fun _ => ih
  exact h.inTurn (h.work_bind h.list hall)

theorem response (c : Command) : P _ (c.response sv) := by
  cases c with
  | request subject payload => exact h.bind (h.respond subject payload) fun _ => h.pure _
  | save q =>
      refine h.bind (h.bind (h.mapM (fun name => ?_) q.features) fun _ => h.pure _) fun _ => h.pure _
      split
      · exact h.bind h.save fun _ => h.pure _
      · exact h.pure _
  | restore q =>
      refine h.bind (h.bind (h.mapM (fun entry => ?_) q.features) fun _ => h.pure _) fun _ => h.pure _
      dsimp only
      split
      · exact h.bind (h.restore entry.2) fun _ => h.pure _
      · exact h.pure _
  | reset => exact h.bind (h.bind h.reset fun _ => h.pure _) fun _ => h.pure _

end Script.JobClosed

/-! ## Scripts at related states -/

/-- From related states the script runs to the same answer and to related states. -/
def Script.Respects {σ : Type} (S : σ → σ → Prop) (x : Script σ α) : Prop :=
  ∀ s t, S s t → (x.run s).1 = (x.run t).1 ∧ S (x.run s).2 (x.run t).2

theorem Script.Respects.bind {σ : Type} {S : σ → σ → Prop} {x : Script σ α} {f : α → Script σ β}
    (hx : x.Respects S) (hf : ∀ a, (f a).Respects S) : (x >>= f).Respects S := by
  intro s t hst
  obtain ⟨hanswer, hafter⟩ := hx s t hst
  rw [run_bind, run_bind, hanswer]
  exact hf _ _ _ hafter

/-! ## Sites that are alike -/

namespace Site

/-- The same content is found at both sites, in the same file or in none, and no access is refused. -/
structure Alike (cfg : Storage) (s t : Site) : Prop where
  content : s.content cfg = t.content cfg
  store : s.disk.store = t.disk.store
  file : s.disk.store ≠ .folder
  quiet : s.disk.refusals = [] ∧ t.disk.refusals = []

namespace Alike

variable {s s' t t' : Site} {db db' : Database} (h : s.Alike cfg t)
include h

theorem kept (hs : s.Kept cfg s') (ht : t.Kept cfg t') : s'.Alike cfg t' where
  content := by rw [hs.content, ht.content, h.content]
  store := by rw [hs.store, ht.store, h.store]
  file := hs.store ▸ h.file
  quiet :=
    ⟨List.suffix_nil.mp (h.quiet.1 ▸ hs.refusals), List.suffix_nil.mp (h.quiet.2 ▸ ht.refusals)⟩

theorem changed (hs : s.Changed cfg s' db db') (ht : t.Changed cfg t' db db') :
    s'.Alike cfg t' where
  content := by
    rw [Site.content, Site.content, hs.slot, ht.slot,
      Disk.content_congr cfg (hs.store.trans ht.store.symm)]
  store := hs.store.trans ht.store.symm
  file := by
    rw [hs.store]
    exact Entry.noConfusion
  quiet :=
    ⟨List.suffix_nil.mp (h.quiet.1 ▸ hs.refusals), List.suffix_nil.mp (h.quiet.2 ▸ ht.refusals)⟩

end Alike

end Site

theorem Store.snapshot_respects : (snapshot cfg).run.Respects (Site.Alike cfg) := by
  have hanswer : ∀ u : Site, u.disk.refusals = [] →
      ((snapshot cfg).outcome u).1 = u.content cfg := fun _ hquiet => snapshot_reads.fst_eq hquiet
  intro s t h
  refine ⟨(hanswer s h.quiet.1).trans (h.content.trans (hanswer t h.quiet.2).symm), h.kept ?_ ?_⟩
  · exact (snapshot_reads s rfl).kept
  · exact (snapshot_reads t rfl).kept

/-- A change that the disk does not keep from being made is made, unless the content or the change itself
is an error. -/
theorem Acquisition.change_quiet {s : Site} (f : Database → Except GroupError (α × Database))
    (hquiet : s.disk.refusals = []) (hfile : s.disk.store ≠ .folder) :
    (∃ e, s.content cfg >>= f = .error e ∧ ((change cfg f).run s).1 = .error e ∧
        s.Kept cfg ((change cfg f).run s).2) ∨
      ∃ a db db', s.content cfg >>= f = .ok (a, db') ∧ ((change cfg f).run s).1 = .ok a ∧
        s.Changed cfg ((change cfg f).run s).2 db db' := by
  rcases change_cases cfg f s with
    ⟨e, t, hrun, hkept, hfails | ⟨_, _, hrefused | hfolder, -⟩⟩ | ⟨a, t, db, db', hrun, hf, hchanged⟩
  · rw [hrun]
    exact .inl ⟨e, hfails, rfl, hkept⟩
  · exact absurd hquiet hrefused.not_quiet
  · exact absurd hfolder hfile
  · rw [hrun, hchanged.content]
    exact .inr ⟨a, db, db', hf, rfl, hchanged⟩

theorem Store.change_respects (f : Database → Except GroupError (α × Database)) :
    (change cfg f).run.Respects (Site.Alike cfg) := by
  intro s t h
  show ((Acquisition.change cfg f).run s).1 = ((Acquisition.change cfg f).run t).1 ∧
    Site.Alike cfg ((Acquisition.change cfg f).run s).2 ((Acquisition.change cfg f).run t).2
  rcases Acquisition.change_quiet f h.quiet.1 h.file with
      ⟨e, hs, hanswer, hkept⟩ | ⟨a, db, db', hs, hanswer, hchanged⟩ <;>
    rcases Acquisition.change_quiet f h.quiet.2 (h.store ▸ h.file) with
      ⟨e', ht, hanswer', hkept'⟩ | ⟨a', db₁, db₁', ht, hanswer', hchanged'⟩ <;>
    rw [h.content, ht] at hs <;> cases hs
  · exact ⟨hanswer.trans hanswer'.symm, h.kept hkept hkept'⟩
  · obtain rfl : db = db₁ :=
      Except.ok.inj (hchanged.content.symm.trans (h.content.trans hchanged'.content))
    exact ⟨hanswer.trans hanswer'.symm, h.changed hchanged hchanged'⟩

theorem publish_respects (subject : EventSubject) (id : Nat) :
    (publish subject id).run.Respects (Site.Alike cfg) :=
  fun _ _ h => ⟨rfl, h.content, h.store, h.file, h.quiet⟩

/-- Whatever is asked of a service, it goes by the content. -/
theorem Script.respects_jobClosed (cfg : Storage) :
    JobClosed cfg fun _ x => x.Respects (Site.Alike cfg) where
  pure _ _ _ h := ⟨rfl, h⟩
  bind := .bind
  inTurn hx := by simpa only [Respects, run_inTurn] using hx
  snapshot := Store.snapshot_respects
  change := Store.change_respects
  publish := publish_respects

end AssetGroups
