import AssetGroups.Proofs.Event.Ledger
import AssetGroups.Proofs.Job.Failure
import AssetGroups.Proofs.Job.Ids

/-!
# The event stream of an instance

Whatever is asked of an instance that is alone with its file, in whatever order the steps of its jobs are
taken and whichever accesses are refused: what it has published leads to the ids that it stores whenever
no job has the turn, and a job has published what it changed and nothing else when it is answered.
-/

namespace AssetGroups

variable {cfg : Storage} {s t : Site} {steps : List (Site × Site)}

/-! ## What steps publish -/

/-- What is published at the second site and was not yet at the first. -/
def Site.newEvents (s t : Site) : List Event := t.feed.published.drop s.feed.published.length

/-- What is published in each of the steps. -/
def Script.newEvents (steps : List (Site × Site)) : List Event :=
  steps.flatMap fun p => p.1.newEvents p.2

theorem Site.newEvents_eq_nil (h : t.feed = s.feed) : s.newEvents t = [] := by
  rw [newEvents, h, List.drop_length]

theorem Site.newEvents_publish (s : Site) (e : Event) :
    s.newEvents { s with feed := s.feed.publish e } = [e] :=
  List.drop_left

theorem Script.newEvents_append (first rest : List (Site × Site)) :
    newEvents (first ++ rest) = newEvents first ++ newEvents rest :=
  List.flatMap_append

theorem Script.newEvents_of_kept (h : ∀ p ∈ steps, p.1.Kept cfg p.2) : newEvents steps = [] := by
  rw [newEvents, List.flatMap_eq_nil_iff]
  exact fun p hp => Site.newEvents_eq_nil (h p hp).feed

/-! ## What jobs publish -/

/-- What there is to announce about a removal that was tried. -/
def Service.Removal.event? (r : Removal) : Option Event :=
  match r.outcome with
  | .ok () => some ⟨.deleted, r.id⟩
  | .error _ => none

/-- What a job publishes that succeeds with the output. -/
def Subject.Publishes (s : Subject) (out : Json.Value) (es : List Event) : Prop :=
  match s with
  | .create => ∃ stored id, out = Group.toJson stored ∧ stored.id = some id ∧ es = [⟨.created, id⟩]
  | .update => ∃ stored id, out = Group.toJson stored ∧ stored.id = some id ∧ es = [⟨.updated, id⟩]
  | .delete => ∃ removals : List Service.Removal, out = .list (removals.map Service.Removal.toJson) ∧
      es = removals.filterMap Service.Removal.event?
  | .list | .read | .resolve => es = []

namespace Service

variable {sv : Service}

theorem Stores.newEvents {subject : EventSubject} {g stored : Group}
    (h : Stores cfg subject g stored steps) :
    ∃ id, stored.id = some id ∧ Script.newEvents steps = [⟨subject, id⟩] := by
  obtain ⟨id, s, t, u, db, db', hid, -, hchanged, rfl⟩ := h.changed
  refine ⟨id, hid, ?_⟩
  simp [Script.newEvents, Site.newEvents_eq_nil hchanged.feed, Site.newEvents_publish]

theorem deleteOne_newEvents {id : Nat} {r : Except GroupError Unit}
    (h : (sv.deleteOne id).Answers steps r) :
    Script.newEvents steps = (Removal.event? ⟨id, r⟩).toList := by
  cases r with
  | error e =>
      have hspares : (sv.deleteOne id).Spares (Site.Kept sv.storage) :=
        .before (Store.change_spares _) fun _ => publish_total _ id
      exact Script.newEvents_of_kept (hspares steps e h)
  | ok =>
      obtain ⟨_, first, rest, rfl, hremove, hpublish⟩ := Work.answers_bind_ok.mp h
      obtain ⟨s, t, db, db', rfl, -, hchanged⟩ := Store.change_answers hremove
      obtain ⟨u, rfl⟩ := publish_answers hpublish
      simp [Script.newEvents, Site.newEvents_eq_nil hchanged.feed, Site.newEvents_publish,
        Removal.event?]

theorem deleteAll_newEvents {ids : List Nat} {removals : List Removal}
    (h : (sv.deleteAll ids).Answers steps (.ok removals)) :
    Script.newEvents steps = removals.filterMap Removal.event? := by
  induction ids generalizing steps removals with
  | nil =>
      obtain ⟨rfl, hremovals⟩ := Work.answers_pure.mp h
      cases hremovals
      rfl
  | cons id ids ih =>
      obtain ⟨r, first, rest, rfl, hfirst, hrest⟩ := Work.answers_bind_ok.mp h
      obtain ⟨others, _, _, rfl, hothers, hend⟩ := Work.answers_bind_ok.mp hrest
      obtain ⟨rfl, hremovals⟩ := Work.answers_pure.mp hend
      cases hremovals
      obtain ⟨r', hdelete, hr⟩ := Script.answers_map.mp hfirst
      cases hr
      rw [Script.newEvents_append, deleteOne_newEvents hdelete, List.append_nil, ih hothers]
      cases hevent : Removal.event? ⟨id, r⟩ <;> simp [hevent]

theorem handle_delete {subject : String} {payload : List UInt8} {out : Json.Value}
    (hsubject : Subject.ofText? subject = some .delete)
    (h : (sv.handle subject payload).Answers steps (.ok out)) :
    ∃ ids removals, out = .list (removals.map Removal.toJson) ∧
      (sv.deleteAll ids).Answers steps (.ok removals) := by
  unfold handle at h
  rw [hsubject] at h
  obtain ⟨ids, removals, hout, hdelete⟩ := decodePayload_bind_answers
    (f := fun removals : List Removal => .list (removals.map Removal.toJson)) h
  exact ⟨ids, removals, hout, Work.answers_inTurn.mp hdelete⟩

theorem handle_newEvents {subject : String} {payload : List UInt8} {out : Json.Value} {s : Subject}
    (hsubject : Subject.ofText? subject = some s)
    (h : (sv.handle subject payload).Answers steps (.ok out)) :
    s.Publishes out (Script.newEvents steps) := by
  cases s with
  | create =>
      obtain ⟨g, stored, -, hout, hstores⟩ := handle_create hsubject h
      obtain ⟨id, hid, hevents⟩ := hstores.newEvents
      exact ⟨stored, id, hout, hid, hevents⟩
  | update =>
      obtain ⟨g, stored, hout, hstores⟩ := handle_update hsubject h
      obtain ⟨id, hid, hevents⟩ := hstores.newEvents
      exact ⟨stored, id, hout, hid, hevents⟩
  | delete =>
      obtain ⟨ids, removals, hout, hdelete⟩ := handle_delete hsubject h
      exact ⟨removals, hout, deleteAll_newEvents hdelete⟩
  | list | read | resolve =>
      have hwithin := sv.reads.handle payload fun s' hs' => by
        obtain rfl := Option.some.inj (hsubject.symm.trans hs')
        rfl
      exact Script.newEvents_of_kept (Script.Leads.forall_within h hwithin)

/-- A request that fails publishes nothing. -/
theorem respond_newEvents {subject : String} {payload : List UInt8} {reply : Reply}
    (h : (sv.respond subject payload).Answers steps reply) :
    (reply.ok = false → Script.newEvents steps = []) ∧
      ∀ s out, Subject.ofText? subject = some s → reply.out = some out →
        s.Publishes out (Script.newEvents steps) := by
  obtain ⟨r, first, _, rfl, hhandle, hend⟩ := Script.answers_bind.mp h
  obtain ⟨rfl, rfl⟩ := Script.answers_done.mp hend
  rw [List.append_nil]
  cases r with
  | error e =>
      refine ⟨fun _ => Script.newEvents_of_kept (sv.handle_spares _ _ first e hhandle), ?_⟩
      intro s out _ hout
      cases hout
  | ok out =>
      refine ⟨fun hfailed => ?_, fun s out' hsubject hout => ?_⟩
      · cases hfailed
      · obtain rfl := Option.some.inj hout
        exact handle_newEvents hsubject hhandle

end Service

/-! ## What is published in a session -/

namespace Session

variable {κ α : Type} {x : Session κ α} {b k i t : Nat} {what : κ}

/-- What the `k`-th script has published at the instance `i` before the moment `t`. -/
def announced (x : Session κ α) (k i : Nat) : (t : Nat) → List Event
  | 0 => []
  | t + 1 => announced x k i t ++
      match x.moves t with
      | .advance j => if j = k then (x.site t i).newEvents (x.site (t + 1) i) else []
      | _ => []

theorem announced_own (hmove : x.moves t = .advance k) :
    x.announced k i (t + 1) = x.announced k i t ++ (x.site t i).newEvents (x.site (t + 1) i) := by
  simp [announced, hmove]

theorem announced_of_ne (hmove : x.moves t ≠ .advance k) :
    x.announced k i (t + 1) = x.announced k i t := by
  rw [announced]
  cases hother : x.moves t with
  | advance j =>
      have hjk : j ≠ k := fun hjk => hmove (hjk ▸ hother)
      simp [hjk]
  | ask | join | refuse => simp

theorem Asked.announced_nil (h : x.Asked b k i what) (hle : t ≤ b) : x.announced k i t = [] := by
  induction t with
  | zero => rfl
  | succ t ih =>
      rw [← ih (Nat.le_of_succ_le hle)]
      by_cases hmove : x.moves t = .advance k
      · have hlength := monotone_nat_of_le_succ (fun t => (x.lengths_le t).2) (Nat.le_of_succ_le hle)
        have hnone : (x.state t).advance? k = none := by
          unfold Schedule.advance?
          rw [List.getElem?_eq_none (h.number ▸ hlength)]
          rfl
        have hstate : x.state (t + 1) = x.state t := by
          rw [state, hmove, next, hnone, Option.getD_none]
        rw [announced_own hmove, site, site, hstate, Site.newEvents_eq_nil rfl, List.append_nil]
      · exact announced_of_ne hmove

/-- Of what the script does only its steps publish anything. -/
theorem Asked.announced (h : x.Asked b k i what) (ht : b < t) :
    ∃ script steps, x.Left t k i script ∧ (x.script what).Leads steps script ∧
      x.announced k i t = Script.newEvents steps := by
  have hsame : ∀ {t : Nat}, x.moves t = .advance k → x.site (t + 1) i = x.site t i →
      x.announced k i (t + 1) = x.announced k i t := by
    intro t hmove hsite
    rw [announced_own hmove, hsite, Site.newEvents_eq_nil rfl, List.append_nil]
  induction t, ht using Nat.le_induction with
  | base =>
      refine ⟨_, [], h.left, .refl _, ?_⟩
      rw [announced_of_ne (by rw [h.move]; simp), h.announced_nil (Nat.le_refl b)]
      rfl
  | succ t ht ih =>
      obtain ⟨script, steps, hleft, hleads, hevents⟩ := ih
      obtain ⟨script', hleft', hcontinues⟩ := hleft.continues
      cases hcontinues with
      | waits hmove => exact ⟨script, steps, hleft', hleads, by rw [announced_of_ne hmove, hevents]⟩
      | stays hmove hstate =>
          refine ⟨script, steps, hleft', hleads, ?_⟩
          rw [hsame hmove (by rw [site, site, hstate]), hevents]
      | steps hmove hsite =>
          refine ⟨_, _, hleft', hleads.trans (.step _ (.refl _)), ?_⟩
          rw [announced_own hmove, hevents, hsite, Script.newEvents_append]
          simp [Script.newEvents]
      | turns hmove hturn hsite =>
          refine ⟨script', steps, hleft', ?_, by rw [hsame hmove hsite, hevents]⟩
          rw [← List.append_nil steps]
          rcases hturn with rfl | rfl
          · exact hleads.trans (.takeTurn (.refl _))
          · exact hleads.trans (.giveTurn (.refl _))

end Session

/-! ## Sessions of a service -/

/-- Whether what is asked for may change the content. -/
def Command.mutates : Command → Bool
  | .request subject _ => (Subject.ofText? subject).any Subject.mutates
  | .save _ => false
  | .restore _ => true
  | .reset => true

namespace Command

variable (sv : Service)

theorem response_announcing (c : Command) :
    (c.response sv).Announcing sv.storage .outside .outside := by
  cases c with
  | request subject payload =>
      exact .map (.bind (sv.handle_announcing subject payload) fun _ => .pure _) _
  | save q => exact .map (Backup.answerSave_announcing sv q) _
  | restore q => exact .map (Backup.answerRestore_announcing sv q) _
  | reset => exact .map (Backup.answerReset_announcing sv) _

/-- What only reads goes on at any stage. -/
theorem response_apart {c : Command} (h : c.mutates = false) : (c.response sv).Apart sv.storage := by
  have hany : ∀ σ, (c.response sv).Announcing sv.storage σ σ := by
    intro σ
    cases c with
    | request subject payload =>
        have hother : ∀ s, Subject.ofText? subject = some s → s.mutates = false := by
          intro s hsubject
          simpa [mutates, hsubject] using h
        have hreads := (Work.Announcing.closed sv.storage σ).handle payload hother
        exact .map (.bind hreads fun _ => .pure _) _
    | save q => exact .map (Backup.answerSave_announcing sv q) _
    | restore | reset => cases h
  exact ⟨hany .outside, none, none, hany _⟩

end Command

namespace Service

/-- What can be said of the events of an instance that is asked for whatever it may be. -/
structure Replays (sv : Service) (x : Session Command Response) (ledger : Nat → Ledger) : Prop where
  begins : ledger 0 = {}
  /-- Every change of a single group is announced once, before the next one is made. -/
  next : ∀ t, (ledger t).Step (ledger (t + 1))
  content : ∀ t, (x.site t 0).content sv.storage = .ok (ledger t).content
  published : ∀ t, (x.site t 0).feed.published = (ledger t).announced
  orderly : ∀ t, Event.Orderly (x.site t 0).feed.published
  /-- When no job has the turn the events lead to the ids that are stored. -/
  replayed : ∀ t, (x.state t).turnTaken 0 = false →
    ((Store.ids sv.storage).outcome (x.site t 0)).1 = .ok (Event.replay (x.site t 0).feed.published)
  /-- No job has the turn when all that may change the content are answered. -/
  idle : ∀ t, (∀ b k i c, x.Asked b k i c → b < t → c.mutates = true →
    ∃ a, (x.state t).answer? k = some a) → (x.state t).turnTaken 0 = false
  /-- A request that fails publishes nothing, and one that succeeds what it changed. -/
  answered : ∀ b k subject payload t reply, x.Asked b k 0 (.request subject payload) →
    (x.state t).answer? k = some (.reply reply) →
    (reply.ok = false → x.announced k 0 t = []) ∧
      ∀ s out, Subject.ofText? subject = some s → reply.out = some out →
        s.Publishes out (x.announced k 0 t)

/-- A job that has the turn may change the content, and is not answered yet. -/
theorem exists_unanswered {sv : Service} {moves : Nat → Move Command} {t : Nat} {l : Ledger}
    (hkeeps : ((sv.session 1 moves).state t).Keeps sv.storage l)
    (hturn : ((sv.session 1 moves).state t).turnTaken 0 = true) :
    ∃ b k i c, (sv.session 1 moves).Asked b k i c ∧ b < t ∧ c.mutates = true ∧
      ((sv.session 1 moves).state t).answer? k = none := by
  obtain ⟨r, hr, hhas⟩ := List.any_eq_true.mp hturn
  obtain ⟨-, hhas⟩ := Bool.and_eq_true_iff.mp hhas
  obtain ⟨k, hk⟩ := List.getElem?_of_mem hr
  obtain ⟨b, i, c, hasked⟩ := Session.exists_asked_of_running hk
  have hbt := hasked.lt_of_running hk
  obtain ⟨script, times, hleft, -, hleads⟩ := hasked.history hbt
  obtain ⟨-, r', hk', -, rfl⟩ := id hleft
  obtain rfl : r = r' := Option.some.inj (hk.symm.trans hk')
  have hstage := hkeeps.stages r hr
  rw [Running.stage, if_pos hhas] at hstage
  refine ⟨b, k, i, c, hasked, hbt, ?_, ?_⟩
  · by_contra hreads
    have hapart := c.response_apart sv (Bool.eq_false_iff.mpr hreads)
    exact (hapart.leads hleads).not_leaves hstage
  · cases hanswer : ((sv.session 1 moves).state t).answer? k with
    | none => rfl
    | some a =>
        rw [hleft.answer_eq_some.mp hanswer] at hstage
        cases hstage

/-- An instance that is alone with its file is replayed by its events: whatever it is asked for, however
far its jobs have come and whichever accesses are refused. -/
theorem session_replays {sv : Service} (hprocess : sv.storage.isDurable = false)
    {moves : Nat → Move Command} (hjoin : ∀ t, moves t ≠ .join) :
    ∃ ledger, Replays sv (sv.session 1 moves) ledger := by
  obtain ⟨ledger, hbegins, hnext, hkeeps⟩ := Session.exists_ledgers (x := sv.session 1 moves)
    (Command.response_announcing sv) hprocess rfl hjoin rfl
  have htold : ∀ t, (ledger t).Told := by
    intro t
    induction t with
    | zero => exact hbegins ▸ Database.told_nil
    | succ t ih => exact (hnext t).told ih
  refine ⟨ledger, hbegins, hnext, fun t => (hkeeps t).shows.content, fun t => (hkeeps t).shows.published,
    fun t => ?_, fun t hfree => ?_, fun t hanswered => ?_,
    fun b k subject payload t reply hasked hanswer => ?_⟩
  · exact (hkeeps t).shows.published ▸ (htold t).orderly.of_append
  · have howed := (hkeeps t).free ((hkeeps t).turnTaken_eq_false.mp hfree)
    have hreplayed := (htold t).replayed
    rw [howed, Option.toList_none, List.append_nil, ← (hkeeps t).shows.published] at hreplayed
    exact hreplayed ▸ (hkeeps t).shows.ids_outcome hprocess
  · by_contra hturn
    obtain ⟨b, k, i, c, hasked, hbt, hmutates, hnone⟩ :=
      exists_unanswered (hkeeps t) (by simpa using hturn)
    obtain ⟨a, ha⟩ := hanswered b k i c hasked hbt hmutates
    rw [hnone] at ha
    cases ha
  · obtain ⟨script, steps, hleft, hleads, hevents⟩ := hasked.announced (hasked.lt_of_answer hanswer)
    obtain rfl := hleft.answer_eq_some.mp hanswer
    obtain ⟨reply', hrespond, hreply⟩ := Script.answers_map.mp hleads
    cases hreply
    rw [hevents]
    exact respond_newEvents hrespond

theorem session_replays_sample : ∃ ledger, Replays {} sampleSession ledger ∧
    (ledger 15).announced = [⟨.created, 1⟩, ⟨.deleted, 1⟩, ⟨.created, 2⟩] ∧
    ((Store.ids {}).outcome (sampleSession.site 15 0)).1 = .ok [2] := by
  have hjoin := (sampleSession_shared.resolve_left (by decide)).2
  obtain ⟨ledger, hreplays⟩ : ∃ ledger, Replays {} sampleSession ledger :=
    @session_replays {} rfl _ hjoin
  have hpublished : (sampleSession.site 15 0).feed.published =
      [⟨.created, 1⟩, ⟨.deleted, 1⟩, ⟨.created, 2⟩] := by
    decide +kernel
  have hids := hreplays.replayed 15 (by decide +kernel)
  rw [hpublished] at hids
  exact ⟨ledger, hreplays, (hreplays.published 15).symm.trans hpublished, hids⟩

end Service

end AssetGroups
