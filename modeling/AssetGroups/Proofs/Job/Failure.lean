import AssetGroups.Proofs.Cluster
import AssetGroups.Proofs.Job.Steps

/-!
# Failed requests

A request that is answered with an error has changed nothing, whatever the error was and whatever others
did between its steps: what comes before the one change of a job only reads, and after it nothing fails.
-/

namespace AssetGroups

/-! ## Work that fails -/

namespace Work

variable {α β : Type} {R : Site → Site → Prop} {w : Work α} {f : α → Work β}

/-- The work gives an answer in the end. -/
def Total (w : Work α) : Prop := ∀ steps e, ¬ w.Answers steps (.error e)

/-- When the work fails each of its steps was within the relation. -/
def Spares (R : Site → Site → Prop) (w : Work α) : Prop :=
  ∀ steps e, w.Answers steps (.error e) → ∀ p ∈ steps, R p.1 p.2

theorem total_pure (a : α) : (pure a : Work α).Total := fun _ _ h => by
  cases (answers_pure.mp h).2

theorem Total.bind (hw : w.Total) (hf : ∀ a, (f a).Total) : (w >>= f).Total := by
  intro steps e h
  rcases answers_bind.mp h with ⟨a, _, rest, -, -, hrest⟩ | ⟨e', he, -⟩
  · exact hf a rest e hrest
  · exact hw steps e' he

theorem total_lift (x : Script Site α) : Total (ExceptT.lift x) := by
  intro steps e h
  obtain ⟨a, -, hlift⟩ := Script.answers_map.mp h
  cases hlift

theorem Total.inTurn (hw : w.Total) : (inTurn w).Total :=
  fun steps e h => hw steps e (answers_inTurn.mp h)

theorem Total.spares (hw : w.Total) : w.Spares R := fun steps e h => absurd h (hw steps e)

theorem Within.spares (hw : w.Within R) : w.Spares R :=
  fun _ _ h => Script.Leads.forall_within h hw

namespace Spares

theorem after (hw : w.Within R) (hf : ∀ a, (f a).Spares R) : (w >>= f).Spares R := by
  intro steps e h
  rcases answers_bind.mp h with ⟨a, first, rest, rfl, hfirst, hrest⟩ | ⟨e', he, -⟩
  · intro p hp
    rcases List.mem_append.mp hp with hp | hp
    · exact Script.Leads.forall_within hfirst hw p hp
    · exact hf a rest e hrest p hp
  · exact hw.spares steps e' he

theorem before (hw : w.Spares R) (hf : ∀ a, (f a).Total) : (w >>= f).Spares R := by
  intro steps e h
  rcases answers_bind.mp h with ⟨a, _, rest, -, -, hrest⟩ | ⟨e', he, -⟩
  · exact absurd hrest (hf a rest e)
  · exact hw steps e' he

theorem inTurn (hw : w.Spares R) : (inTurn w).Spares R :=
  fun steps e h => hw steps e (answers_inTurn.mp h)

end Spares

theorem Spares.kept {cfg : Storage} (h : w.Spares (Site.Kept cfg)) {s t : Site} {e : GroupError}
    (hrun : w.outcome s = (.error e, t)) : s.Kept cfg t := by
  obtain ⟨steps, hanswers, hlinked⟩ := w.answers_outcome s
  rw [hrun] at hanswers hlinked
  exact hlinked.related .refl (fun _ _ _ => .trans) (h steps e hanswers)

end Work

theorem publish_total (subject : EventSubject) (id : Nat) : (publish subject id).Total := by
  intro steps e h
  obtain ⟨s, -, hrun⟩ := Work.answers_asWork.mp h
  cases hrun

theorem Store.change_spares {α : Type} {cfg : Storage}
    (f : Database → Except GroupError (α × Database)) : (change cfg f).Spares (Site.Kept cfg) := by
  intro steps e h
  obtain ⟨s, rfl, hs⟩ := Work.answers_asWork.mp h
  rw [List.forall_mem_singleton]
  rcases Acquisition.change_cases cfg f s with ⟨e', t, hrun, hkept, -⟩ | ⟨a, t, db, db', hrun, -⟩
  · rw [hrun]
    exact hkept
  · rw [hrun] at hs
    cases hs

/-! ## Jobs -/

namespace Service

variable (sv : Service)

theorem reads : Work.Closed sv.storage fun _ w => w.Within (Site.Kept sv.storage) :=
  Work.within_closed fun _ _ => id

theorem createOne_spares (g : Group) : (sv.createOne g).Spares (Site.Kept sv.storage) := by
  refine .after (sv.reads.demandValid _) fun _ => .before (Store.change_spares _) fun stored => ?_
  cases stored.id with
  | none => exact Work.total_pure stored
  | some id => exact (publish_total _ id).bind fun _ => Work.total_pure stored

theorem update_spares (g : Group) : (sv.update g).Spares (Site.Kept sv.storage) := by
  unfold update
  cases g.id with
  | none => exact (Work.Within.throw _).spares
  | some id =>
      refine .after (sv.reads.demandValid _) fun _ => .inTurn (.before (Store.change_spares _) ?_)
      exact fun stored => (publish_total _ id).bind fun _ => Work.total_pure stored

/-- What fails while groups are removed is noted, and does not make the job fail. -/
theorem deleteAll_total (ids : List Nat) : (sv.deleteAll ids).Total := by
  induction ids with
  | nil => exact Work.total_pure []
  | cons id ids ih => exact (Work.total_lift _).bind fun _ => ih.bind fun _ => Work.total_pure _

/-- Whatever others do between the steps of a request that fails, each of the steps leaves everything as
it is. -/
theorem handle_spares (subject : String) (payload : List UInt8) :
    (sv.handle subject payload).Spares (Site.Kept sv.storage) := by
  unfold handle
  cases Subject.ofText? subject with
  | none => exact (Work.Within.throw _).spares
  | some s =>
      cases s with
      | create =>
          exact .after (sv.reads.decodePayload _ payload) fun g =>
            .before (.inTurn (sv.createOne_spares g)) fun _ => Work.total_pure _
      | update =>
          exact .after (sv.reads.decodePayload _ payload) fun g =>
            .before (sv.update_spares g) fun _ => Work.total_pure _
      | delete =>
          exact .after (sv.reads.decodePayload _ payload) fun ids =>
            ((sv.deleteAll_total ids).inTurn.bind fun _ => Work.total_pure _).spares
      | list =>
          exact .before sv.reads.list.spares fun _ => Work.total_pure _
      | read =>
          exact .after (sv.reads.decodePayload _ payload) fun n =>
            .before (sv.reads.byId n).spares fun _ => Work.total_pure _
      | resolve =>
          exact .after (sv.reads.decodePayload _ payload) fun input =>
            .before (sv.reads.resolve input).spares fun _ => Work.total_pure _

/-- A request that is answered with an error, of whatever kind, has left the store file, the content that
each instance finds and the events that each has published as they were. -/
theorem handle_error {c c' : Cluster} {i : Nat} {subject : String} {payload : List UInt8}
    {e : GroupError} (hrun : c.run i (sv.handle subject payload).run = (.error e, c')) :
    c'.disk.store = c.disk.store ∧
      ∀ j, (c'.site j).content sv.storage = (c.site j).content sv.storage ∧
        (c'.site j).feed = (c.site j).feed := by
  rcases houtcome : (sv.handle subject payload).outcome (c.site i) with ⟨answer, t⟩
  have hresult : c.run i (sv.handle subject payload).run = (answer, c.setSite i t) := by
    show (((sv.handle subject payload).outcome (c.site i)).1,
      c.setSite i ((sv.handle subject payload).outcome (c.site i)).2) = _
    rw [houtcome]
  obtain ⟨rfl, rfl⟩ := Prod.mk.inj (hresult.symm.trans hrun)
  have hkept := (sv.handle_spares subject payload).kept houtcome
  refine ⟨hkept.store, fun j => ?_⟩
  have hother : (c.setSite i t).site j = { c.site j with disk := t.disk } →
      ((c.setSite i t).site j).content sv.storage = (c.site j).content sv.storage ∧
        ((c.setSite i t).site j).feed = (c.site j).feed := by
    intro hsite
    rw [hsite]
    exact ⟨(Site.Steady.of_store (s := c.site j) hkept.store).content, rfl⟩
  rcases Nat.lt_or_ge i c.instances.length with hi | hi
  · by_cases hij : i = j
    · subst hij
      rw [Cluster.site_setSite hi]
      exact ⟨hkept.content, hkept.feed⟩
    · exact hother (Cluster.site_setSite_of_ne hij)
  · exact hother (Cluster.site_setSite_of_le hi)

def oneGroup : Database := ⟨1, [⟨some 1, "all", ⟨.and, [.condition (.of .name .contains "s")]⟩⟩]⟩

/-- An instance that has read its file, which cannot be written any more. -/
def fullDisk : Cluster where
  disk := { store := .file oneGroup.octets, refusals := [some "No space left on device"] }
  instances := [{ slot := ⟨true, oneGroup⟩ }]

def renamingPayload : List UInt8 :=
  ("\x7b\"id\":1,\"name\":\"some\",\"rules\":[\"AND\",[".toList ++
    "\x7b\"field\":\"name\",\"operator\":\"IS\",\"value\":\"srv\"\x7d]]\x7d".toList).map
      fun c => UInt8.ofNat c.toNat

/-- A change that cannot be written is neither made nor announced. -/
theorem handle_error_full : ∃ e c,
    fullDisk.run 0 (handle {} "UPDATE" renamingPayload).run = (.error e, c) ∧
      c.disk.store = .file oneGroup.octets ∧ (c.site 0).content {} = .ok oneGroup ∧
      (c.site 0).feed = {} := by
  have hfails : (match (fullDisk.run 0 (handle {} "UPDATE" renamingPayload).run).1 with
    | .error (.storage _ cause) => cause == "No space left on device"
    | _ => false) = true := by
    decide +kernel
  rcases hrun : fullDisk.run 0 (handle {} "UPDATE" renamingPayload).run with ⟨e | out, c⟩
  · obtain ⟨hstore, hsites⟩ := handle_error {} hrun
    obtain ⟨hcontent, hfeed⟩ := hsites 0
    exact ⟨e, c, rfl, hstore, hcontent, hfeed⟩
  · rw [hrun] at hfails
    cases hfails

end Service

end AssetGroups
