import AssetGroups.Proofs.Event.Replay
import AssetGroups.Proofs.Job.Steps

/-!
# Jobs announce what they change

A job changes the content only while it has the turn, and announces each change before it makes the next
one or gives the turn back, whatever becomes of the change and whatever others do meanwhile.
-/

namespace AssetGroups

variable {α β : Type} {cfg : Storage}

/-! ## Stages -/

/-- How far a script has got: it does not have the turn, or has it and still has something to announce
about the content, or nothing. -/
inductive Stage where
  | outside
  | inside (owed : Option Event)

/-- What a step that makes of one site the other does to the stage. -/
inductive Stage.Step (cfg : Storage) (s t : Site) : Stage → Stage → Prop where
  | kept {σ : Stage} (h : s.Kept cfg t) : Step cfg s t σ σ
  | changed {db db' : Database} {e : Event} (htells : db.Tells db' e) (h : s.Changed cfg t db db') :
      Step cfg s t (.inside none) (.inside (some e))
  | published {e : Event} (h : t = { s with feed := s.feed.publish e }) :
      Step cfg s t (.inside (some e)) (.inside none)

namespace Script

/-- The script leads from the one stage to the other, whatever its steps find. -/
def Announcing (cfg : Storage) : Script Site α → Stage → Stage → Prop
  | .done _, σ, τ => σ = τ
  | .step act next, σ, τ => ∀ s, ∃ ρ, Stage.Step cfg s (act s) σ ρ ∧ (next s).Announcing cfg ρ τ
  | .takeTurn next, σ, τ => σ = .outside ∧ next.Announcing cfg (.inside none) τ
  | .giveTurn next, σ, τ => σ = .inside none ∧ next.Announcing cfg .outside τ

namespace Announcing

variable {σ ρ τ : Stage} {x : Script Site α} {f : α → Script Site β}

theorem pure (a : α) : (Pure.pure a : Script Site α).Announcing cfg σ σ := rfl

theorem bind (hx : x.Announcing cfg σ ρ) (hf : ∀ a, (f a).Announcing cfg ρ τ) :
    (x >>= f).Announcing cfg σ τ := by
  show (x.bind f).Announcing cfg σ τ
  induction x generalizing σ with
  | done a =>
      obtain rfl : σ = ρ := hx
      exact hf a
  | step act next ih =>
      intro s
      obtain ⟨ρ', hstep, hnext⟩ := hx s
      exact ⟨ρ', hstep, ih s hnext⟩
  | takeTurn next ih => exact ⟨hx.1, ih hx.2⟩
  | giveTurn next ih => exact ⟨hx.1, ih hx.2⟩

theorem map (hx : x.Announcing cfg σ τ) (f : α → β) : (f <$> x).Announcing cfg σ τ :=
  hx.bind fun _ => rfl

theorem inTurn (hx : x.Announcing cfg (.inside none) (.inside none)) :
    x.inTurn.Announcing cfg .outside .outside :=
  ⟨rfl, hx.bind (f := fun a => .giveTurn (.done a)) fun _ => ⟨rfl, rfl⟩⟩

theorem mapM {f : α → Script Site β} (hf : ∀ a, (f a).Announcing cfg σ σ) (as : List α) :
    (as.mapM f).Announcing cfg σ σ := by
  have hloop : ∀ bs : List β, (List.mapM.loop f as bs).Announcing cfg σ σ := by
    induction as with
    | nil => exact fun bs => .pure _
    | cons a as ih => exact fun bs => (hf a).bind fun b => ih (b :: bs)
  exact hloop []

end Announcing

/-- The script has the turn neither taken nor given back: it ends as it began, with the turn or without. -/
structure Apart (cfg : Storage) (x : Script Site α) : Prop where
  outside : x.Announcing cfg .outside .outside
  inside : ∃ o o', x.Announcing cfg (.inside o) (.inside o')

namespace Apart

variable {x y : Script Site α}

theorem step {act : Site → Site} {next : Site → Script Site α} (h : (Script.step act next).Apart cfg)
    (s : Site) : (next s).Apart cfg := by
  obtain ⟨hout, o, o', hin⟩ := h
  obtain ⟨ρ, hstep, hnext⟩ := hout s
  obtain ⟨ρ', hstep', hnext'⟩ := hin s
  refine ⟨?_, ?_⟩
  · cases hstep
    exact hnext
  · cases hstep' with
    | kept => exact ⟨_, _, hnext'⟩
    | changed => exact ⟨_, _, hnext'⟩
    | published => exact ⟨_, _, hnext'⟩

theorem leads (h : x.Apart cfg) {steps : List (Site × Site)} (hleads : x.Leads steps y) :
    y.Apart cfg := by
  induction hleads with
  | refl x => exact h
  | step s _ ih => exact ih (h.step s)
  | takeTurn _ ih =>
      obtain ⟨-, o, o', hin⟩ := h
      cases hin.1
  | giveTurn _ ih => cases h.outside.1

theorem not_leaves (h : x.Apart cfg) {o : Option Event} :
    ¬ x.Announcing cfg (.inside o) .outside := by
  intro hleaves
  induction x generalizing o with
  | done a => cases hleaves
  | step act next ih =>
      obtain ⟨ρ, hstep, hnext⟩ := hleaves {}
      cases hstep with
      | kept => exact ih _ (h.step _) hnext
      | changed => exact ih _ (h.step _) hnext
      | published => exact ih _ (h.step _) hnext
  | takeTurn next ih => cases hleaves.1
  | giveTurn next ih => cases h.outside.1

end Apart

end Script

/-! ## Work -/

/-- The work leads from the one stage to the other, whatever its steps find. -/
def Work.Announcing (cfg : Storage) (w : Work α) (σ τ : Stage) : Prop := w.run.Announcing cfg σ τ

namespace Work.Announcing

variable {σ τ : Stage} {w : Work α} {f : α → Work β}

/-- Work that fails ends in the stage in which it would have gone on. -/
theorem bind (hw : w.Announcing cfg σ τ) (hf : ∀ a, (f a).Announcing cfg τ τ) :
    (w >>= f).Announcing cfg σ τ := by
  refine Script.Announcing.bind (x := w.run) hw fun r => ?_
  cases r with
  | error e => rfl
  | ok a => exact hf a

theorem closed (cfg : Storage) (σ : Stage) : Work.Closed cfg fun _ w => w.Announcing cfg σ σ where
  pure _ := rfl
  throw _ := rfl
  bind := .bind
  kept h s := ⟨σ, .kept (h s), rfl⟩

theorem inTurn (hw : w.Announcing cfg (.inside none) (.inside none)) :
    (AssetGroups.inTurn w).Announcing cfg .outside .outside :=
  Script.Announcing.inTurn hw

theorem lift {x : Script Site α} (hx : x.Announcing cfg σ τ) :
    Announcing cfg (ExceptT.lift x) σ τ := hx.bind fun _ => rfl

end Work.Announcing

theorem publish_announcing (subject : EventSubject) (id : Nat) :
    (publish subject id).Announcing cfg (.inside (some ⟨subject, id⟩)) (.inside none) :=
  fun _ => ⟨_, .published rfl, rfl⟩

/-- A change is followed by its announcement, and not made at all if it fails. -/
theorem Store.change_announcing {f : Database → Except GroupError (β × Database)} {g : β → Work α}
    (hg : ∀ db a db', f db = .ok (a, db') →
      ∃ e, db.Tells db' e ∧ (g a).Announcing cfg (.inside (some e)) (.inside none)) :
    (change cfg f >>= g).Announcing cfg (.inside none) (.inside none) := by
  show Script.Announcing cfg (change cfg f >>= g).run _ _
  rw [Store.change, Work.run_asWork_bind]
  intro s
  rcases Acquisition.change_cases cfg f s with ⟨e, t, hrun, hkept, -⟩ | ⟨a, t, db, db', hrun, hf, h⟩
  · simp only [hrun]
    exact ⟨_, .kept hkept, rfl⟩
  · obtain ⟨e, htells, hannouncing⟩ := hg db a db' hf
    simp only [hrun]
    exact ⟨_, .changed htells h, hannouncing⟩

/-! ## Jobs -/

/-- The jobs that may change the content. -/
def Subject.mutates : Subject → Bool
  | .create | .update | .delete => true
  | .list | .read | .resolve => false

/-- A request of any other kind only reads. -/
theorem Work.Closed.handle {sv : Service} {P : (α : Type) → Work α → Prop}
    (hreads : Work.Closed sv.storage P) {subject : String} (payload : List UInt8)
    (h : ∀ s, Subject.ofText? subject = some s → s.mutates = false) :
    P _ (sv.handle subject payload) := by
  unfold Service.handle
  cases hsubject : Subject.ofText? subject with
  | none => exact hreads.throw _
  | some s =>
      cases s with
      | create => cases h .create hsubject
      | update => cases h .update hsubject
      | delete => cases h .delete hsubject
      | list => exact hreads.bind hreads.list fun _ => hreads.pure _
      | read =>
          exact hreads.bind (hreads.decodePayload _ payload) fun id =>
            hreads.bind (hreads.byId id) fun _ => hreads.pure _
      | resolve =>
          exact hreads.bind (hreads.decodePayload _ payload) fun input =>
            hreads.bind (hreads.resolve input) fun _ => hreads.pure _

namespace Service

variable (sv : Service)

theorem createOne_announcing (g : Group) :
    (sv.createOne g).Announcing sv.storage (.inside none) (.inside none) := by
  have hreads := Work.Announcing.closed sv.storage (.inside none)
  refine .bind (hreads.demandValid _) fun _ => Store.change_announcing fun db stored db' hsave => ?_
  refine ⟨_, .created rfl hsave, ?_⟩
  rw [Database.saveUnique_id hsave]
  exact .bind (publish_announcing _ _) fun _ => hreads.pure stored

theorem update_announcing (g : Group) : (sv.update g).Announcing sv.storage .outside .outside := by
  unfold update
  cases hid : g.id with
  | none => exact (Work.Announcing.closed sv.storage _).throw _
  | some id =>
      refine .bind ((Work.Announcing.closed sv.storage _).demandValid g) fun _ => .inTurn ?_
      exact Store.change_announcing fun db stored db' hsave => ⟨_, .updated hid hsave,
        .bind (publish_announcing _ _) fun _ => (Work.Announcing.closed sv.storage _).pure stored⟩

theorem deleteOne_announcing (id : Nat) :
    (sv.deleteOne id).Announcing sv.storage (.inside none) (.inside none) := by
  refine Store.change_announcing fun db _ db' hremove => ?_
  cases hdb : db.remove id with
  | error e =>
      rw [hdb] at hremove
      cases hremove
  | ok removed =>
      rw [hdb] at hremove
      cases hremove
      exact ⟨_, .deleted hdb, publish_announcing _ _⟩

theorem deleteAll_announcing (ids : List Nat) :
    (sv.deleteAll ids).Announcing sv.storage (.inside none) (.inside none) := by
  induction ids with
  | nil => exact (Work.Announcing.closed sv.storage _).pure []
  | cons id ids ih =>
      exact .bind (.lift (sv.deleteOne_announcing id)) fun _ =>
        .bind ih fun _ => (Work.Announcing.closed sv.storage _).pure _

theorem handle_announcing (subject : String) (payload : List UInt8) :
    (sv.handle subject payload).Announcing sv.storage .outside .outside := by
  have hreads := Work.Announcing.closed sv.storage .outside
  by_cases hmutates : ∃ s, Subject.ofText? subject = some s ∧ s.mutates = true
  · obtain ⟨s, hsubject, hmutates⟩ := hmutates
    unfold handle
    rw [hsubject]
    cases s with
    | create =>
        exact .bind (hreads.decodePayload _ payload) fun g =>
          .bind (.inTurn (sv.createOne_announcing g)) fun _ => hreads.pure _
    | update =>
        exact .bind (hreads.decodePayload _ payload) fun g =>
          .bind (sv.update_announcing g) fun _ => hreads.pure _
    | delete =>
        exact .bind (hreads.decodePayload _ payload) fun ids =>
          .bind (.inTurn (sv.deleteAll_announcing ids)) fun _ => hreads.pure _
    | list | read | resolve => cases hmutates
  · refine hreads.handle payload fun s hsubject => ?_
    exact Bool.eq_false_iff.mpr fun hs => hmutates ⟨s, hsubject, hs⟩

end Service

namespace Backup

variable (sv : Service)

theorem createAll_announcing (groups : List Group) :
    (createAll sv groups).Announcing sv.storage (.inside none) (.inside none) := by
  have hreads := Work.Announcing.closed sv.storage (.inside none)
  induction groups with
  | nil => exact hreads.pure ()
  | cons g groups ih =>
      exact .bind (hreads.map (sv.createOne_announcing g) _) fun _ => ih

theorem restore_announcing (f : Feature) :
    (restore sv f).Announcing sv.storage .outside .outside := by
  have hreads := Work.Announcing.closed sv.storage (.inside none)
  refine .inTurn (.bind hreads.list fun infos => ?_)
  cases infos with
  | nil => exact createAll_announcing sv f.groups
  | cons i infos => exact .bind (hreads.throw _) fun _ => createAll_announcing sv f.groups

theorem removeAll_announcing (infos : List GroupInfo) :
    (removeAll sv infos).Announcing sv.storage (.inside none) (.inside none) := by
  induction infos with
  | nil => exact (Work.Announcing.closed sv.storage _).pure ()
  | cons i infos ih => exact .bind (sv.deleteOne_announcing i.id) fun _ => ih

theorem reset_announcing : (reset sv).Announcing sv.storage .outside .outside :=
  .inTurn (.bind (Work.Announcing.closed sv.storage _).list (removeAll_announcing sv))

/-! Requests -/

theorem answerSave_announcing (q : SaveQuery) {σ : Stage} :
    (answerSave sv q).Announcing sv.storage σ σ := by
  refine .bind (.mapM (fun name => ?_) q.features) fun _ => .pure _
  split
  · exact .bind (Work.Announcing.closed sv.storage σ).save fun _ => .pure _
  · exact .pure _

theorem answerRestore_announcing (q : RestoreQuery) :
    (answerRestore sv q).Announcing sv.storage .outside .outside := by
  refine .bind (.mapM (fun entry => ?_) q.features) fun _ => .pure _
  dsimp only
  split
  · exact .bind (restore_announcing sv entry.2) fun _ => .pure _
  · exact .pure _

theorem answerReset_announcing : (answerReset sv).Announcing sv.storage .outside .outside :=
  .bind (reset_announcing sv) fun _ => .pure _

end Backup

end AssetGroups
