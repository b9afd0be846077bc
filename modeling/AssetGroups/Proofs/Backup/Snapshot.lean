import AssetGroups.Proofs.Event.Stream
import AssetGroups.Proofs.Turn

/-!
# Saving while others act

Saving keeps nobody waiting. It lists the groups and then reads them one by one, and each of these
reads finds what the store holds at a moment of its own: a group that was removed since it was listed is
not found any more, and groups that were read apart need never have been stored side by side.
-/

namespace AssetGroups

/-- The content as the instance knows it, which it reads first if it knows none. -/
def Store.knownOrRead (cfg : Storage) : Work Database := do
  match ← Acquisition.known?.asWork with
  | some db => return db
  | none =>
    (Acquisition.loadOnce cfg).asWork
    Acquisition.database.asWork

/-! ## Reading at the moments of a session -/

namespace Session

variable {κ α β γ : Type} {x : Session κ α} {cfg : Storage} {allowed : Database → Database → Prop}
    {contents : Nat → Database} {b k i t : Nat} {times : List Nat}

theorem seen_bind {w : Work β} {f : β → Work γ} {r : Except GroupError γ}
    (h : (w >>= f).Answers (x.seen i times) r) :
    (∃ a first rest, times = first ++ rest ∧ w.Answers (x.seen i first) (.ok a) ∧
        (f a).Answers (x.seen i rest) r) ∨
      ∃ e, w.Answers (x.seen i times) (.error e) ∧ .error e = r := by
  rcases Work.answers_bind.mp h with ⟨a, _, _, hsteps, hfirst, hrest⟩ | herror
  · obtain ⟨first, rest, rfl, rfl, rfl⟩ := List.map_eq_append_iff.mp hsteps
    exact Or.inl ⟨a, first, rest, rfl, hfirst, hrest⟩
  · exact Or.inr herror

theorem seen_asWork {a : Acquisition β} {r : Except GroupError β}
    (h : a.asWork.Answers (x.seen i times) r) :
    ∃ u, times = [u] ∧ a.run (x.site u i) = (r, x.site (u + 1) i) := by
  obtain ⟨s, hsteps, hr⟩ := Work.answers_asWork.mp h
  obtain ⟨u, rfl, hu⟩ := List.map_eq_singleton_iff.mp hsteps
  obtain ⟨rfl, hnext⟩ := Prod.mk.inj hu
  exact ⟨u, rfl, Prod.ext hr hnext.symm⟩

/-- A script that the turn has nothing to do with is answered once it has gone on often enough. -/
theorem Left.exists_answer {script : Script Site α} (h : x.Left b k i script)
    (hapart : script.Apart cfg) (hfair : ∀ t, ∃ u, t ≤ u ∧ x.moves u = .advance k) :
    ∃ t a, (x.state t).answer? k = some a := by
  obtain ⟨t, _, _, hleft, hleads, ⟨a, rfl⟩ | ⟨next, rfl⟩⟩ := h.goes_on hfair
  · exact ⟨t, a, hleft.answer⟩
  · obtain ⟨_, _, hinside⟩ := (hapart.leads hleads).inside
    cases hinside.1

/-- Nothing keeps an instance from what the store holds: it can be read, and no access is refused. -/
structure Undisturbed (x : Session κ α) (cfg : Storage) (t i : Nat) : Prop where
  content : ∃ db, (x.site t i).content cfg = .ok db
  quiet : (x.site t i).disk.refusals = []

/-- What an instance has read anew is what the store holds. -/
theorem openExclusive_seen {u : Nat} {r : Except GroupError Database}
    (hcontents : x.Contents cfg allowed contents) (hfree : x.Undisturbed cfg u i)
    (hrun : (Acquisition.openExclusive cfg).run (x.site u i) = (r, x.site (u + 1) i)) :
    r = .ok (contents (u + 1)) ∧ (x.site (u + 1) i).slot = ⟨true, contents (u + 1)⟩ := by
  obtain ⟨⟨db, hcontent⟩, hquiet⟩ := hfree
  obtain ⟨hopened, hslot⟩ := Acquisition.openExclusive_answered cfg (x.site u i)
  have hok := hopened.of_quiet hquiet
  have hkept := hopened.kept
  rw [hrun] at hok hkept
  rw [hcontent] at hok
  have hdb := (hcontents.site (u + 1) i).eq_of_content (hcontents.fits (u + 1))
    (hkept.content.trans hcontent)
  subst hok hdb
  exact ⟨rfl, hslot _ _ hrun⟩

/-- With a lock file the store is read anew before anything is looked at. -/
theorem snapshot_durable {r : Except GroupError Database}
    (hcontents : x.Contents cfg allowed contents) (hfree : ∀ u ∈ times, x.Undisturbed cfg u i)
    (hdurable : cfg.isDurable = true) (h : (Store.snapshot cfg).Answers (x.seen i times) r) :
    ∃ u rest, times = u :: rest ∧ (x.site (u + 1) i).slot = ⟨true, contents (u + 1)⟩ ∧
      (Store.knownOrRead cfg).Answers (x.seen i rest) r := by
  unfold Store.snapshot at h
  simp only [hdurable, if_true, discard, LawfulFunctor.map_const, Function.comp_apply,
    bind_map_left] at h
  rcases seen_bind h with ⟨db, _, rest, rfl, hopen, hrest⟩ | ⟨e, herror, -⟩
  · obtain ⟨u, rfl, hrun⟩ := seen_asWork hopen
    exact ⟨u, rest, rfl, (openExclusive_seen hcontents (hfree u List.mem_cons_self) hrun).2, hrest⟩
  · obtain ⟨u, rfl, hrun⟩ := seen_asWork herror
    cases (openExclusive_seen hcontents (hfree u List.mem_cons_self) hrun).1

section

variable (hcontents : x.Contents cfg allowed contents)
    (halone : ∀ t, (x.state t).cluster.instances.length = 1)
    (hascending : times.Pairwise (· < ·)) (hfree : ∀ u ∈ times, x.Undisturbed cfg u 0)
include hcontents halone hascending hfree

theorem known_seen {r : Except GroupError Database}
    (hloaded : cfg.isDurable = false ∨ ∀ u ∈ times, (x.site u 0).slot.loaded = true)
    (h : (Store.knownOrRead cfg).Answers (x.seen 0 times) r) :
    ∃ before u, times = before ++ [u] ∧ r = .ok (contents u) := by
  rcases seen_bind h with ⟨db?, _, rest, rfl, hknown, hrest⟩ | ⟨e, herror, -⟩
  · obtain ⟨u, rfl, hrun⟩ := seen_asWork hknown
    rw [Acquisition.run_known?] at hrun
    obtain ⟨hdb, -⟩ := Prod.mk.inj hrun
    obtain rfl := Except.ok.inj hdb
    cases hslot : (x.site u 0).slot.loaded with
    | true =>
        rw [hslot, if_pos rfl] at hrest
        obtain ⟨hnil, rfl⟩ := Work.answers_pure.mp hrest
        obtain rfl := List.map_eq_nil_iff.mp hnil
        exact ⟨[], u, rfl, by rw [hcontents.slot_alone halone hslot]⟩
    | false =>
        -- with a lock file the instance has read the content before it asks what it knows
        have hprocess : cfg.isDurable = false := hloaded.resolve_right fun hall => by
          rw [hall u List.mem_cons_self] at hslot
          cases hslot
        rw [hslot, if_neg Bool.false_ne_true] at hrest
        have hload : ∀ v ∈ rest, ∃ t, (Acquisition.loadOnce cfg).run (x.site v 0) = (.ok (), t) ∧
            t.slot.loaded = true := fun v hv => by
          obtain ⟨⟨db, hcontent⟩, hquiet⟩ := hfree v (List.mem_cons_of_mem u hv)
          exact Acquisition.loadOnce_loaded hprocess hcontent hquiet
        rcases seen_bind hrest with ⟨_, _, last, rfl, hloads, hlast⟩ | ⟨e, herror, -⟩
        · obtain ⟨v, rfl, hrun⟩ := seen_asWork hloads
          obtain ⟨t, hrun', hslot⟩ := hload v List.mem_cons_self
          obtain ⟨-, rfl⟩ := Prod.mk.inj (hrun.symm.trans hrun')
          obtain ⟨w, rfl, hrun⟩ := seen_asWork hlast
          obtain ⟨hdb, -⟩ := Prod.mk.inj hrun
          have hvw : v < w := by simpa using (List.pairwise_cons.mp hascending).2
          have hslot := hcontents.loaded_later hslot hvw
          exact ⟨[u, v], w, rfl, by rw [← hdb, hcontents.slot_alone halone hslot]⟩
        · obtain ⟨v, rfl, hrun⟩ := seen_asWork herror
          obtain ⟨t, hrun', -⟩ := hload v List.mem_cons_self
          rw [hrun'] at hrun
          cases hrun
  · obtain ⟨u, rfl, hrun⟩ := seen_asWork herror
    cases hrun

/-- What an instance that is alone finds in the store is what is there at the last step. -/
theorem snapshot_seen {r : Except GroupError Database}
    (h : (Store.snapshot cfg).Answers (x.seen 0 times) r) :
    ∃ before u, times = before ++ [u] ∧ r = .ok (contents u) := by
  cases hdurable : cfg.isDurable with
  | true =>
      obtain ⟨u, rest, rfl, hslot, hrest⟩ := snapshot_durable hcontents hfree hdurable h
      obtain ⟨hlater, hascending⟩ := List.pairwise_cons.mp hascending
      obtain ⟨before, v, rfl, hr⟩ := known_seen hcontents halone hascending
        (fun v hv => hfree v (List.mem_cons_of_mem u hv))
        (Or.inr fun v hv => hcontents.loaded_later (by rw [hslot]) (hlater v hv)) hrest
      exact ⟨u :: before, v, rfl, hr⟩
  | false =>
      unfold Store.snapshot at h
      rw [hdurable, if_neg Bool.false_ne_true] at h
      exact known_seen hcontents halone hascending hfree (Or.inl hdurable) h

/-- A read goes by what is there at one of its steps, and what follows it is done at later ones. -/
theorem read_bind_seen {f : Database → Except GroupError β} {next : β → Work γ}
    {r : Except GroupError γ}
    (h : ((Store.snapshot cfg >>= fun db => MonadLift.monadLift (f db)) >>= next).Answers
      (x.seen 0 times) r) :
    ∃ u rest, (u :: rest).Sublist times ∧
      ((∃ a, f (contents u) = .ok a ∧ (next a).Answers (x.seen 0 rest) r) ∨
        ∃ e, f (contents u) = .error e ∧ .error e = r) := by
  rw [bind_assoc] at h
  rcases seen_bind h with ⟨db, first, rest, rfl, hfirst, hrest⟩ | ⟨e, herror, -⟩
  · obtain ⟨before, u, rfl, hdb⟩ := snapshot_seen hcontents halone
      (List.pairwise_append.mp hascending).1
      (fun v hv => hfree v (List.mem_append_left rest hv)) hfirst
    obtain rfl := Except.ok.inj hdb
    have hsublist : (u :: rest).Sublist (before ++ [u] ++ rest) := by simp
    refine ⟨u, rest, hsublist, ?_⟩
    rcases Work.answers_bind.mp hrest with ⟨a, _, _, hsteps, hread, hnext⟩ | ⟨e, hread, he⟩
    · obtain ⟨rfl, ha⟩ := Work.answers_monadLift.mp hread
      rw [List.nil_append] at hsteps
      exact Or.inl ⟨a, ha, hsteps ▸ hnext⟩
    · exact Or.inr ⟨e, (Work.answers_monadLift.mp hread).2, he⟩
  · obtain ⟨_, _, -, hdb⟩ := snapshot_seen hcontents halone hascending hfree herror
    cases hdb

end

end Session

/-! ## Saving -/

namespace Backup

variable {sv : Service} {contents : Nat → Database} {u : Nat} {ids moments : List Nat}
    {result : Except GroupError (List Group)}

/-- Groups are read one after another under the ids, each at a moment of its own, up to the first that
is not there. -/
inductive Collects (contents : Nat → Database) :
    (moments ids : List Nat) → Except GroupError (List Group) → Prop where
  | nil : Collects contents [] [] (.ok [])
  | found {u id : Nat} {moments ids : List Nat} {g : Group} {r : Except GroupError (List Group)}
      (hfound : (contents u).byId id = .ok g) (h : Collects contents moments ids r) :
      Collects contents (u :: moments) (id :: ids) (r.map (g :: ·))
  | lost {u id : Nat} {ids : List Nat} {e : GroupError} (hlost : (contents u).byId id = .error e) :
      Collects contents [u] (id :: ids) (.error e)

namespace Collects

theorem exists_lost {e : GroupError} (h : Collects contents moments ids (.error e)) :
    ∃ u ∈ moments, ∃ id ∈ ids, id ∉ (contents u).ids ∧ e = .noGroupWithId id := by
  generalize hr : Except.error e = r at h
  induction h with
  | nil => cases hr
  | @found u id moments ids g r _ _ ih =>
      cases r with
      | ok gs => cases hr
      | error e' =>
          obtain rfl := Except.error.inj hr
          obtain ⟨v, hv, id', hid', hlost⟩ := ih rfl
          exact ⟨v, List.mem_cons_of_mem u hv, id', List.mem_cons_of_mem id hid', hlost⟩
  | @lost u id ids e' hlost =>
      obtain rfl := Except.error.inj hr
      obtain ⟨hnone, rfl⟩ := Database.byId_eq_error.mp hlost
      refine ⟨u, List.mem_singleton_self u, id, List.mem_cons_self, fun hid => ?_, rfl⟩
      obtain ⟨g, hg, hgid⟩ := Database.mem_ids.mp hid
      exact List.find?_eq_none.mp hnone g hg (by simp [hgid])

theorem eq_ok {db : Database} (h : Collects contents moments ids result) (hsound : db.Sound)
    {gs : List Group} (hgs : ∀ g ∈ gs, g ∈ db.groups) (hids : gs.filterMap (·.id) = ids)
    (hsame : ∀ v ∈ moments, contents v = db) : result = .ok gs := by
  induction gs generalizing moments ids result with
  | nil =>
      subst hids
      cases h
      rfl
  | cons g gs ih =>
      obtain ⟨hg, hrest⟩ := List.forall_mem_cons.mp hgs
      obtain ⟨id, hid, -⟩ := hsound.exists_id hg
      have hread : db.byId id = .ok g :=
        Database.byId_eq_ok.mpr (hsound.byId?_eq_some.mpr ⟨hg, hid⟩)
      rw [List.filterMap_cons, hid] at hids
      subst hids
      cases h with
      | @found v _ moments _ g' r hfound h =>
          obtain ⟨hv, hlater⟩ := List.forall_mem_cons.mp hsame
          rw [hv, hread] at hfound
          obtain rfl := Except.ok.inj hfound
          rw [ih h hrest rfl hlater]
          rfl
      | @lost v _ _ e hlost =>
          rw [hsame v List.mem_cons_self, hread] at hlost
          cases hlost

end Collects

section

variable {κ α : Type} {x : Session κ α} {allowed : Database → Database → Prop} {times : List Nat}
    (hcontents : x.Contents sv.storage allowed contents)
    (halone : ∀ t, (x.state t).cluster.instances.length = 1)
    (hascending : times.Pairwise (· < ·)) (hfree : ∀ u ∈ times, x.Undisturbed sv.storage u 0)
include hcontents halone hascending hfree

theorem readAll_seen {infos : List GroupInfo}
    (h : (readAll sv infos).Answers (x.seen 0 times) result) :
    ∃ moments, moments.Sublist times ∧ Collects contents moments (infos.map (·.id)) result := by
  induction infos generalizing times result with
  | nil =>
      obtain ⟨-, rfl⟩ := Work.answers_pure.mp h
      exact ⟨[], List.nil_sublist times, .nil⟩
  | cons i infos ih =>
      obtain ⟨u, rest, hsublist, ⟨g, hg, hrest⟩ | ⟨e, he, rfl⟩⟩ :=
        Session.read_bind_seen hcontents halone hascending hfree (f := fun db => db.byId i.id) h
      · obtain ⟨others, hothers, rfl⟩ := Work.answers_bind_pure.mp hrest
        obtain ⟨moments, hmoments, hcollects⟩ := ih (hascending.sublist hsublist).of_cons
          (fun v hv => hfree v (hsublist.subset (List.mem_cons_of_mem u hv))) hothers
        exact ⟨u :: moments, (hmoments.cons_cons u).trans hsublist, .found hg hcollects⟩
      · exact ⟨[u], ((List.nil_sublist rest).cons_cons u).trans hsublist, .lost he⟩

theorem save_seen {saved : Except GroupError Feature}
    (h : (save sv).Answers (x.seen 0 times) saved) :
    ∃ u moments result, (u :: moments).Sublist times ∧
      Collects contents moments (contents u).ids result ∧ saved = result.map (⟨version, ·⟩) := by
  obtain ⟨u, rest, hsublist, ⟨infos, hinfos, hrest⟩ | ⟨e, he, -⟩⟩ :=
    Session.read_bind_seen hcontents halone hascending hfree (f := fun db => .ok db.list) h
  · obtain rfl := Except.ok.inj hinfos
    obtain ⟨result, hall, rfl⟩ := Work.answers_bind_pure.mp hrest
    obtain ⟨moments, hmoments, hcollects⟩ := readAll_seen hcontents halone
      (hascending.sublist hsublist).of_cons
      (fun v hv => hfree v (hsublist.subset (List.mem_cons_of_mem u hv))) hall
    rw [Database.list_ids] at hcollects
    exact ⟨u, moments, result, (hmoments.cons_cons u).trans hsublist, hcollects, rfl⟩
  · cases he

end

/-- The answer to a request for the groups, given what came of saving them. -/
def savedReply (saved : Except GroupError Feature) : SaveReply :=
  ⟨version, [(featureName, { feature := saved.toOption, status := .ofResult saved })]⟩

theorem answerSave_answers {steps : List (Site × Site)} {reply : SaveReply}
    (h : (answerSave sv ⟨[featureName]⟩).Answers steps reply) :
    ∃ saved, (save sv).Answers steps saved ∧ reply = savedReply saved := by
  unfold answerSave at h
  simp only [List.mapM_cons, List.mapM_nil, if_true, bind_assoc, pure_bind] at h
  obtain ⟨saved, first, _, rfl, hsave, hend⟩ := Script.answers_bind.mp h
  obtain ⟨rfl, rfl⟩ := Script.answers_done.mp hend
  rw [List.append_nil]
  exact ⟨saved, hsave, rfl⟩

/-- The `k`-th script of a session, which began at the moment `b` and is answered at `t`, has saved the
groups: it has listed them at the moment `u` and then read them one by one at later ones. -/
structure Saves (x : Session Command Response) (contents : Nat → Database) (b k t u : Nat)
    (moments : List Nat) (result : Except GroupError (List Group)) : Prop where
  answered : (x.state t).answer? k = some (.saved (savedReply (result.map (⟨version, ·⟩))))
  own : x.Moments b k t (u :: moments)
  collected : Collects contents moments (contents u).ids result
  /-- It fails only when a group that was listed is not there any more. -/
  lost : ∀ e, result = .error e →
    ∃ v ∈ moments, ∃ id ∈ (contents u).ids, id ∉ (contents v).ids ∧ e = .noGroupWithId id
  /-- It answers with all that is stored when the content, which is sound, has not changed meanwhile. -/
  complete : (contents u).Sound → (∀ v ∈ moments, contents v = contents u) →
    result = .ok (contents u).groups

/-- What comes of saving the groups of an instance that is alone, whatever its other jobs do. It is
answered once it has gone on often enough. Unless an access fails meanwhile the groups are those of one
moment, each as it is found at a moment of its own. Whatever the file holds at first, this goes for as
long as the counter is a word; a content that jobs have left behind is sound. -/
theorem session_save {moves : Nat → Move Command} (hjoin : ∀ t, moves t ≠ .join) {first : Disk}
    {db : Database} (hfirst : first.content sv.storage = .ok db) :
    ∃ contents : Nat → Database, contents 0 = db ∧
      (∀ t, (contents t).CountsOn (contents (t + 1))) ∧
      (∀ t, (db.Sound → (contents t).Sound) ∧
        ((sv.session 1 moves first).state t).cluster.Holds sv.storage (contents t) first.store) ∧
      ∀ b k, (sv.session 1 moves first).Asked b k 0 (.save ⟨[featureName]⟩) →
        ((∀ t, ∃ u, t ≤ u ∧ moves u = .advance k) →
          ∃ t response, ((sv.session 1 moves first).state t).answer? k = some response) ∧
        ∀ t response, (contents t).lastId < Text.wordLimit →
          ((sv.session 1 moves first).state t).answer? k = some response →
          (∀ u, b < u → u < t → (sv.session 1 moves first).Undisturbed sv.storage u 0) →
          ∃ u moments result, Saves (sv.session 1 moves first) contents b k t u moments result := by
  have hshared : (sv.session 1 moves first).Shared sv.storage := Or.inr ⟨rfl, hjoin⟩
  obtain ⟨contents, hcontents, hbegins, hcounts, hsound⟩ := Service.exists_contents hshared hfirst
  have halone := Session.alone (x := sv.session 1 moves first) rfl hjoin
  refine ⟨contents, hbegins, hcounts, fun t => ⟨hsound t, hcontents.holds t⟩, fun b k hasked =>
    ⟨fun hfair => ?_, fun t response _ hanswer hfree => ?_⟩⟩
  · have hapart : (Command.response sv (.save ⟨[featureName]⟩)).Apart sv.storage :=
      Command.response_apart sv rfl
    exact hasked.left.exists_answer hapart hfair
  · obtain ⟨times, hmoments, hanswers⟩ := hasked.answers hanswer
    obtain ⟨reply, hreply, rfl⟩ := Script.answers_map.mp hanswers
    obtain ⟨saved, hsave, rfl⟩ := answerSave_answers hreply
    obtain ⟨u, moments, result, hsublist, hcollects, rfl⟩ :=
      save_seen hcontents halone hmoments.ascending
        (fun v hv => hfree v (hmoments.between v hv).1 (hmoments.between v hv).2) hsave
    refine ⟨u, moments, result, hanswer, hmoments.sublist hsublist, hcollects,
      fun e he => ?_, fun hsound hsame => ?_⟩
    · exact (he ▸ hcollects).exists_lost
    · exact hcollects.eq_ok hsound (fun g hg => hg) rfl hsame

/-! Of two groups one is removed after they were listed and before it is read. -/

def interruptedMoves : List (Move Command) :=
  .ask 0 (Service.createRequest "a") :: List.replicate 4 (.advance 0) ++
    .ask 0 (Service.createRequest "b") :: List.replicate 4 (.advance 1) ++
    .ask 0 (.save ⟨[featureName]⟩) :: .advance 2 ::
    .ask 0 (.request "DELETE" [49]) :: List.replicate 4 (.advance 3) ++ [.advance 2]

def interruptedSession : Session Command Response :=
  ({} : Service).session 1 fun t => interruptedMoves.getD t (.refuse [])

/-- Whether groups could not be saved. -/
def hasFailed : Response → Bool
  | .saved r => r.features.any fun (_, f) => !f.status.success
  | _ => false

theorem session_save_interrupted : ∃ (contents : Nat → Database) (u v id : Nat),
    (∀ t, (interruptedSession.state t).cluster.Holds {} (contents t)) ∧
      10 < u ∧ u < v ∧ v < 18 ∧ id ∈ (contents u).ids ∧ id ∉ (contents v).ids ∧
      (interruptedSession.state 18).answer? 2 =
        some (.saved (savedReply (.error (.noGroupWithId id)))) := by
  have hjoin : ∀ t, interruptedMoves.getD t (.refuse []) ≠ .join :=
    Move.getD_ne_join (by simp [interruptedMoves, Service.createRequest])
  have hrun : ((interruptedSession.state 18).answer? 2).any hasFailed = true := by decide +kernel
  obtain ⟨response, hanswer, hfailed⟩ := (Option.any_eq_true _ _).mp hrun
  have hfound : ∀ u < 18, 10 < u → (interruptedSession.site u 0).slot.loaded = true ∧
      (interruptedSession.site u 0).disk.refusals = [] := by decide +kernel
  have hasked : interruptedSession.Asked 10 2 0 (.save ⟨[featureName]⟩) :=
    ⟨rfl, by decide +kernel, by decide +kernel⟩
  obtain ⟨contents, hbegins, hcounts, hholds, hsaved⟩ :=
    @session_save {} _ hjoin {} {} (Disk.content_of_missing rfl)
  have hword : (contents 18).lastId < Text.wordLimit := by
    refine Nat.lt_of_le_of_lt (Database.CountsOn.lastId_le_add hcounts 18) ?_
    rw [hbegins]
    decide
  obtain ⟨-, hanswered⟩ := hsaved 10 2 hasked
  obtain ⟨u, moments, result, hsaves⟩ := hanswered 18 response hword hanswer
    fun u hbu hut => ⟨⟨_, if_pos ⟨rfl, (hfound u hut hbu).1⟩⟩, (hfound u hut hbu).2⟩
  obtain rfl := Option.some.inj (hanswer.symm.trans hsaves.answered)
  cases result with
  | ok gs => cases hfailed
  | error e =>
      obtain ⟨v, hv, id, hid, hgone, rfl⟩ := hsaves.lost e rfl
      have huv := (List.pairwise_cons.mp hsaves.own.ascending).1 v hv
      have hu := (hsaves.own.between u List.mem_cons_self).1
      have hv := (hsaves.own.between v (List.mem_cons_of_mem u hv)).2
      exact ⟨contents, u, v, id, fun t => (hholds t).2, hu, huv, hv, hid, hgone, hanswer⟩

end Backup

end AssetGroups
