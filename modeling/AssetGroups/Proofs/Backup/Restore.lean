import AssetGroups.Proofs.Backup.RoundTrip
import AssetGroups.Proofs.Backup.Snapshot

/-!
# Restoring while others act

A restore has the turn of its instance from when it lists the groups until it has stored the last one, and
each instance has a turn of its own. What is stored or removed at another instance meanwhile is not kept
out: a name may be taken by then, and groups may be there that were not restored.
-/

namespace AssetGroups

/-! ## Acting at the moments of a session -/

namespace Session

variable {κ α β : Type} {x : Session κ α} {cfg : Storage} {allowed : Database → Database → Prop}
    {contents : Nat → Database} {k i : Nat} {times part : List Nat}

/-- Moments one after another at which the `k`-th script takes a step at the instance `i`, with nothing to
keep it from what the store holds. -/
structure Acts (x : Session κ α) (cfg : Storage) (k i : Nat) (times : List Nat) : Prop where
  ascending : times.Pairwise (· < ·)
  steps : ∀ u ∈ times, x.Steps u k i
  free : ∀ u ∈ times, x.Undisturbed cfg u i

theorem Acts.sublist (h : x.Acts cfg k i times) (hpart : part.Sublist times) : x.Acts cfg k i part where
  ascending := h.ascending.sublist hpart
  steps u hu := h.steps u (hpart.subset hu)
  free u hu := h.free u (hpart.subset hu)

section

variable (hcontents : x.Contents cfg allowed contents) (hacts : x.Acts cfg k i times)
include hcontents hacts

theorem steady_seen {w : Work β} {r : Except GroupError β} (hw : w.Within (Site.Steady cfg))
    (h : w.Answers (x.seen i times) r) : ∀ p ∈ times, contents (p + 1) = contents p := by
  intro p hp
  obtain ⟨hmove, _, _, hleft⟩ := hacts.steps p hp
  have hstep : (x.site p i, x.site (p + 1) i) ∈ x.seen i times := List.mem_map.mpr ⟨p, hp, rfl⟩
  exact hcontents.of_steady hleft hmove (Script.Leads.forall_within h hw _ hstep)

/-- With a lock file the store is read first and looked at afterwards. What is found was there at a moment
between the two. -/
theorem snapshot_shared (hdurable : cfg.isDurable = true) {r : Except GroupError Database}
    (h : (Store.snapshot cfg).Answers (x.seen i times) r) :
    ∃ u v w, times = [u, v] ∧ u < w ∧ w ≤ v ∧ r = .ok (contents w) := by
  obtain ⟨u, rest, rfl, hslot, hrest⟩ := snapshot_durable hcontents hacts.free hdurable h
  rcases seen_bind hrest with ⟨db?, _, last, rfl, hknown, hlast⟩ | ⟨e, herror, -⟩
  · obtain ⟨v, rfl, hrun⟩ := seen_asWork hknown
    have huv : u < v := (List.pairwise_cons.mp hacts.ascending).1 v List.mem_cons_self
    obtain ⟨w, huw, hwv, hslot⟩ := hcontents.slot_since hslot huv
    rw [Acquisition.run_known?, hslot, if_pos rfl] at hrun
    obtain ⟨hfound, -⟩ := Prod.mk.inj hrun
    obtain rfl := Except.ok.inj hfound
    obtain ⟨hnil, rfl⟩ := Work.answers_pure.mp hlast
    obtain rfl := List.map_eq_nil_iff.mp hnil
    exact ⟨u, v, w, rfl, huw, hwv, rfl⟩
  · obtain ⟨v, rfl, hrun⟩ := seen_asWork herror
    cases hrun

/-- A change is made of what the store holds at its one step, or fails as that does not allow it. -/
theorem change_seen {f : Database → Except GroupError (β × Database)} {r : Except GroupError β}
    (hcounts : ∀ db a db', f db = .ok (a, db') → db.CountsOn db')
    (h : (Store.change cfg f).Answers (x.seen i times) r) : ∃ u, times = [u] ∧
      ((∃ a, f (contents u) = .ok (a, contents (u + 1)) ∧ r = .ok a) ∨
        ∃ e, f (contents u) = .error e ∧ contents (u + 1) = contents u ∧ r = .error e) := by
  obtain ⟨u, rfl, hrun⟩ := seen_asWork h
  obtain ⟨hmove, _, _, hleft⟩ := hacts.steps u List.mem_cons_self
  obtain ⟨⟨db, hcontent⟩, hquiet⟩ := hacts.free u List.mem_cons_self
  obtain rfl := (hcontents.site u i).eq_of_content (hcontents.fits u) hcontent
  refine ⟨u, rfl, ?_⟩
  rcases Acquisition.change_of_quiet f hcontent hquiet (hcontents.site u i).file with
    ⟨e, t, hrun', hf, hkept⟩ | ⟨a, t, db', hrun', hf, hchanged⟩ <;>
    obtain ⟨rfl, rfl⟩ := Prod.mk.inj (hrun.symm.trans hrun')
  · exact Or.inr ⟨e, hf, hcontents.of_steady hleft hmove hkept.toSteady, rfl⟩
  · obtain ⟨-, hnext⟩ := hcontents.of_changed hleft hmove hchanged (hcounts _ a db' hf)
    exact Or.inl ⟨a, hnext ▸ hf, rfl⟩

end

end Session

/-! ## Groups that are stored one after another -/

namespace Backup

variable {sv : Service} {contents : Nat → Database} {n : Nat} {moments : List Nat} {gs : List Group}
    {result : Except GroupError Unit}

/-- Groups are stored one after another as new ones, each at a moment of its own, up to the first that is
refused. -/
inductive Creates (contents : Nat → Database) :
    (moments : List Nat) → List Group → Except GroupError Unit → Prop where
  | nil : Creates contents [] [] (.ok ())
  | stored {u : Nat} {moments : List Nat} {g stored : Group} {gs : List Group}
      {r : Except GroupError Unit} (hcheck : ({ g with id := none } : Group).check = .ok ())
      (hsave : (contents u).saveUnique { g with id := none } = .ok (stored, contents (u + 1)))
      (h : Creates contents moments gs r) : Creates contents (u :: moments) (g :: gs) r
  | refused {u : Nat} {g : Group} {gs : List Group} {e : GroupError}
      (hcheck : ({ g with id := none } : Group).check = .ok ())
      (hsave : (contents u).saveUnique { g with id := none } = .error e) :
      Creates contents [u] (g :: gs) (.error e)
  | invalid {g : Group} {gs : List Group} {v : Violation}
      (hcheck : ({ g with id := none } : Group).check = .error v) :
      Creates contents [] (g :: gs) (.error (.ofViolation v))

/-- The moment after the last one, or `n` if there is none. -/
def after (n : Nat) : (moments : List Nat) → Nat
  | [] => n
  | m :: moments => after (m + 1) moments

theorem exists_of_lt_after {p : Nat} (h : p < after n moments) : p < n ∨ ∃ m ∈ moments, p ≤ m := by
  induction moments generalizing n with
  | nil => exact Or.inl h
  | cons m moments ih =>
      rcases ih h with hpm | ⟨m', hm', hpm⟩
      · exact Or.inr ⟨m, List.mem_cons_self, Nat.le_of_lt_succ hpm⟩
      · exact Or.inr ⟨m', List.mem_cons_of_mem m hm', hpm⟩

/-- From the moment `n` to the last of the others, only at these the content changes. -/
structure Undivided (contents : Nat → Database) (n : Nat) (moments : List Nat) : Prop where
  ascending : moments.Pairwise (· < ·)
  later : ∀ m ∈ moments, n ≤ m
  still : ∀ p, n ≤ p → p < after n moments → p ∉ moments → contents (p + 1) = contents p

theorem le_after (hascending : moments.Pairwise (· < ·)) (hlater : ∀ m ∈ moments, n ≤ m) :
    n ≤ after n moments := by
  induction moments generalizing n with
  | nil => exact Nat.le_refl n
  | cons m moments ih =>
      obtain ⟨hfirst, hrest⟩ := List.pairwise_cons.mp hascending
      exact Nat.le_trans (hlater m List.mem_cons_self) (Nat.le_of_succ_le (ih hrest hfirst))

namespace Undivided

variable {u : Nat}

theorem first (h : Undivided contents n (u :: moments)) : contents u = contents n := by
  obtain ⟨hfirst, hrest⟩ := List.pairwise_cons.mp h.ascending
  have hafter : u + 1 ≤ after n (u :: moments) := le_after hrest hfirst
  have hsame : ∀ p, n ≤ p → p ≤ u → contents p = contents n := by
    intro p hnp
    induction p, hnp using Nat.le_induction with
    | base => exact fun _ => rfl
    | succ p hnp ih =>
        intro hpu
        have hnone : p ∉ u :: moments := by
          rw [List.mem_cons, not_or]
          exact ⟨Nat.ne_of_lt hpu, fun hp => Nat.lt_asymm hpu (hfirst p hp)⟩
        rw [h.still p hnp (Nat.lt_of_lt_of_le hpu (Nat.le_of_succ_le hafter)) hnone]
        exact ih (Nat.le_of_succ_le hpu)
  exact hsame u (h.later u List.mem_cons_self) (Nat.le_refl u)

theorem rest (h : Undivided contents n (u :: moments)) : Undivided contents (u + 1) moments where
  ascending := h.ascending.of_cons
  later := (List.pairwise_cons.mp h.ascending).1
  still p hup hp hnone := by
    refine h.still p (Nat.le_trans (h.later u List.mem_cons_self) (Nat.le_of_succ_le hup)) hp ?_
    rw [List.mem_cons, not_or]
    exact ⟨fun heq => Nat.not_succ_le_self u (heq ▸ hup), hnone⟩

end Undivided

namespace Creates

/-- Storing all groups leaves those that were there and, behind them, the new ones in their order. -/
theorem appends (h : Creates contents moments gs result) (hundivided : Undivided contents n moments)
    (hok : result = .ok ()) : contents (after n moments) =
      ⟨(contents n).lastId + gs.length, (contents n).groups ++ Group.renumber (contents n).lastId gs⟩ := by
  induction h generalizing n with
  | nil => simp [after, Group.renumber]
  | @stored u moments g stored gs r _ hsave _ ih =>
      rw [after, ih hundivided.rest hok]
      rcases (Database.saveUnique_cases hsave).2 with ⟨-, rfl, hdb⟩ | ⟨_, _, hid, -⟩
      · rw [hdb, hundivided.first, List.append_assoc, List.length_cons, Nat.add_right_comm]
        rfl
      · cases hid
  | refused => cases hok
  | invalid => cases hok

/-- Groups that pass their check are all stored when no name is borne twice. -/
theorem succeeds (h : Creates contents moments gs result) (hundivided : Undivided contents n moments)
    (hchecked : ∀ g ∈ gs, g.check = .ok ())
    (hnames : (((contents n).groups ++ gs).map (·.name)).Nodup) : result = .ok () := by
  induction h generalizing n with
  | nil => rfl
  | @stored u moments g stored gs r _ hsave _ ih =>
      refine ih hundivided.rest (List.forall_mem_cons.mp hchecked).2 ?_
      rcases (Database.saveUnique_cases hsave).2 with ⟨-, rfl, hdb⟩ | ⟨_, _, hid, -⟩
      · rw [hdb, hundivided.first]
        simpa using hnames
      · cases hid
  | @refused u g gs e _ hsave =>
      have hfree : ∀ h ∈ (contents u).groups, h.name ≠ g.name := by
        rw [hundivided.first]
        exact Database.name_free hnames
      cases hsave.symm.trans (Database.saveUnique_new _ rfl hfree)
  | @invalid g gs v hcheck =>
      rw [Group.check_withId (hchecked g List.mem_cons_self) none] at hcheck
      cases hcheck

/-- A group that passes its check is refused only for its name. -/
theorem duplicate {e : GroupError} (h : Creates contents moments gs result) (hfailed : result = .error e)
    (hchecked : ∀ g ∈ gs, g.check = .ok ()) :
    ∃ g ∈ gs, e = .duplicateName g.name ∧ ∃ m ∈ moments, g.name ∈ (contents m).names := by
  induction h with
  | nil => cases hfailed
  | @stored u moments g stored gs r _ _ _ ih =>
      obtain ⟨g', hg', he, m, hm, hname⟩ := ih hfailed (List.forall_mem_cons.mp hchecked).2
      exact ⟨g', List.mem_cons_of_mem g hg', he, m, List.mem_cons_of_mem u hm, hname⟩
  | @refused u g gs e' _ hsave =>
      obtain rfl := Except.error.inj hfailed
      obtain ⟨he, hname⟩ := Database.saveUnique_refused rfl hsave
      exact ⟨g, List.mem_cons_self, he, u, List.mem_singleton_self u, hname⟩
  | @invalid g gs v hcheck =>
      rw [Group.check_withId (hchecked g List.mem_cons_self) none] at hcheck
      cases hcheck

end Creates

section

variable {κ α : Type} {x : Session κ α} {k i : Nat} {times : List Nat}
    (hcontents : x.Contents sv.storage Database.Step contents) (hacts : x.Acts sv.storage k i times)
include hcontents hacts

/-- Announcing a group that was stored changes nothing. -/
theorem announce_seen {id : Nat} {stored : Group} {r : Except GroupError Group}
    (h : (do publish .created id; return stored : Work Group).Answers (x.seen i times) r) :
    r = .ok stored ∧ ∀ p ∈ times, contents (p + 1) = contents p := by
  have hsteady : (do publish .created id; return stored : Work Group).Within
      (Site.Steady sv.storage) :=
    .bind (.asWork fun _ => ⟨rfl, rfl, Or.inl rfl⟩) fun _ => .pure stored
  refine ⟨?_, Session.steady_seen hcontents hacts hsteady h⟩
  rcases Session.seen_bind h with ⟨_, _, _, -, -, hend⟩ | ⟨e, herror, -⟩
  · exact (Work.answers_pure.mp hend).2.symm
  · obtain ⟨_, -, hrun⟩ := Session.seen_asWork herror
    cases hrun

theorem createOne_seen {g : Group} {r : Except GroupError Group}
    (h : (sv.createOne g).Answers (x.seen i times) r) :
    (∃ v, ({ g with id := none } : Group).check = .error v ∧ times = [] ∧
        r = .error (.ofViolation v)) ∨
      ({ g with id := none } : Group).check = .ok () ∧ ∃ u later, times = u :: later ∧
        (∀ p ∈ later, contents (p + 1) = contents p) ∧
        ((∃ stored, (contents u).saveUnique { g with id := none } = .ok (stored, contents (u + 1)) ∧
            r = .ok stored) ∨
          ∃ e, (contents u).saveUnique { g with id := none } = .error e ∧
            contents (u + 1) = contents u ∧ r = .error e) := by
  unfold Service.createOne Group.demandValid at h
  cases hcheck : ({ g with id := none } : Group).check with
  | error v =>
      simp only [hcheck, Violation.raise] at h
      obtain ⟨hnone, hr⟩ := Work.answers_throw.mp h
      exact Or.inl ⟨v, rfl, List.map_eq_nil_iff.mp hnone, hr.symm⟩
  | ok =>
      simp only [hcheck, pure_bind] at h
      refine Or.inr ⟨rfl, ?_⟩
      have hcounts : ∀ db a db', Database.saveUnique { g with id := none } db = .ok (a, db') →
          db.CountsOn db' := fun _ _ _ => Database.saveUnique_countsOn
      rcases Session.seen_bind h with ⟨stored, first, later, rfl, hsave, hannounce⟩ | ⟨e, herror, rfl⟩
      · obtain ⟨u, rfl, ⟨a, hmade, hok⟩ | ⟨_, _, _, hok⟩⟩ := Session.change_seen hcontents
          (hacts.sublist (List.sublist_append_left first later)) hcounts hsave
        · obtain rfl := Except.ok.inj hok
          have hid : stored.id = some ((contents u).lastId + 1) := Database.saveUnique_id hmade
          simp only [hid] at hannounce
          obtain ⟨hr, hlater⟩ := announce_seen hcontents
            (hacts.sublist (List.sublist_append_right [u] later)) hannounce
          exact ⟨u, later, rfl, hlater, Or.inl ⟨stored, hmade, hr⟩⟩
        · cases hok
      · obtain ⟨u, rfl, ⟨_, _, hok⟩ | ⟨_, hmade, hsame, he⟩⟩ :=
          Session.change_seen hcontents hacts hcounts herror
        · cases hok
        · obtain rfl := Except.error.inj he
          exact ⟨u, [], rfl, by simp, Or.inr ⟨e, hmade, hsame, rfl⟩⟩

theorem createAll_seen (h : (createAll sv gs).Answers (x.seen i times) result) :
    ∃ moments, moments.Sublist times ∧ Creates contents moments gs result ∧
      ∀ p ∈ times, p ∈ moments ∨ contents (p + 1) = contents p := by
  induction gs generalizing times with
  | nil =>
      obtain ⟨hnone, rfl⟩ := Work.answers_pure.mp h
      obtain rfl := List.map_eq_nil_iff.mp hnone
      exact ⟨[], .slnil, .nil, by simp⟩
  | cons g gs ih =>
      simp only [createAll, discard, LawfulFunctor.map_const, Function.comp_apply,
        bind_map_left] at h
      rcases Session.seen_bind h with ⟨stored, first, rest, rfl, hfirst, hrest⟩ | ⟨e, herror, rfl⟩
      · rcases createOne_seen hcontents (hacts.sublist (List.sublist_append_left first rest)) hfirst with
          ⟨_, -, -, hr⟩ | ⟨hcheck, u, later, rfl, hlater, ⟨a, hsave, hr⟩ | ⟨_, -, -, hr⟩⟩
        · cases hr
        · obtain ⟨moments, hsublist, hcreates, hothers⟩ :=
            ih (hacts.sublist (List.sublist_append_right _ rest)) hrest
          refine ⟨u :: moments, (hsublist.trans (List.sublist_append_right later rest)).cons_cons u,
            .stored hcheck hsave hcreates, fun p hp => ?_⟩
          simp only [List.cons_append, List.mem_cons, List.mem_append] at hp ⊢
          rcases hp with rfl | hp | hp
          · exact Or.inl (Or.inl rfl)
          · exact Or.inr (hlater p hp)
          · exact (hothers p hp).imp_left Or.inr
        · cases hr
      · rcases createOne_seen hcontents hacts herror with
          ⟨v, hcheck, rfl, hr⟩ | ⟨hcheck, u, later, rfl, hlater, ⟨_, -, hr⟩ | ⟨e', hsave, hsame, hr⟩⟩
        · obtain rfl := Except.error.inj hr
          exact ⟨[], .slnil, .invalid hcheck, by simp⟩
        · cases hr
        · obtain rfl := Except.error.inj hr
          refine ⟨[u], (List.nil_sublist later).cons_cons u, .refused hcheck hsave, fun p hp => ?_⟩
          exact (List.mem_cons.mp hp).imp List.mem_singleton.mpr (hlater p)

/-- With a lock file: what the restore finds is there at a moment between its first two steps. -/
theorem restore_seen {f : Feature} (hdurable : sv.storage.isDurable = true)
    (h : (restore sv f).Answers (x.seen i times) result) :
    ∃ u v w moments, (u :: v :: moments).Sublist times ∧ u < w ∧ w ≤ v ∧
      ((contents w).list = [] → Creates contents moments f.groups result) ∧
      ((contents w).list ≠ [] → moments = [] ∧ result = .error (.ofViolation .groupsExist)) ∧
      ∀ p ∈ times, p ∈ moments ∨ contents (p + 1) = contents p := by
  have hbody := Work.answers_inTurn.mp h
  rcases Session.seen_bind hbody with ⟨infos, first, rest, rfl, hlist, hrest⟩ | ⟨e, herror, -⟩
  · have hfirst := hacts.sublist (List.sublist_append_left first rest)
    obtain ⟨found, hsnapshot, hinfos⟩ := Work.answers_bind_pure.mp hlist
    obtain ⟨u, v, w, rfl, huw, hwv, rfl⟩ :=
      Session.snapshot_shared hcontents hfirst hdurable hsnapshot
    obtain rfl := Except.ok.inj hinfos
    have hread := Session.steady_seen hcontents hfirst
      (Store.snapshot_within fun _ _ => Site.Kept.toSteady) hsnapshot
    cases hlist : (contents w).list with
    | nil =>
        rw [hlist] at hrest
        have hrest : (createAll sv f.groups).Answers (x.seen i rest) result := hrest
        obtain ⟨moments, hsublist, hcreates, hothers⟩ := createAll_seen hcontents
          (hacts.sublist (List.sublist_append_right [u, v] rest)) hrest
        refine ⟨u, v, w, moments, (hsublist.cons_cons v).cons_cons u, huw, hwv, fun _ => hcreates,
          fun hne => absurd hlist hne, fun p hp => ?_⟩
        rcases List.mem_append.mp hp with hp | hp
        · exact Or.inr (hread p hp)
        · exact hothers p hp
    | cons info infos =>
        rw [hlist] at hrest
        obtain ⟨hnone, rfl⟩ := Work.answers_throw.mp hrest
        obtain rfl := List.map_eq_nil_iff.mp hnone
        refine ⟨u, v, w, [], .refl _, huw, hwv, fun hempty => ?_, fun _ => ⟨rfl, rfl⟩,
          fun p hp => Or.inr (hread p ?_)⟩
        · rw [hempty] at hlist
          cases hlist
        · simpa using hp
  · obtain ⟨found, hsnapshot, hinfos⟩ := Work.answers_bind_pure.mp herror
    obtain ⟨_, _, w, -, -, -, rfl⟩ := Session.snapshot_shared hcontents hacts hdurable hsnapshot
    cases hinfos

end

/-! ## Restoring -/

theorem createOne_onlySteps (g : Group) : (sv.createOne g).run.OnlySteps := by
  have hsteps := Work.onlySteps_closed sv.storage
  refine hsteps.bind (hsteps.demandValid _) fun _ => hsteps.bind (fun _ => trivial) fun stored => ?_
  cases stored.id with
  | none => exact hsteps.pure stored
  | some id => exact hsteps.bind (fun _ => trivial) fun _ => hsteps.pure stored

theorem createAll_onlySteps (gs : List Group) : (createAll sv gs).run.OnlySteps := by
  have hsteps := Work.onlySteps_closed sv.storage
  induction gs with
  | nil => exact hsteps.pure ()
  | cons g gs ih => exact hsteps.bind (hsteps.map (createOne_onlySteps g) _) fun _ => ih

theorem restore_inTurn (sv : Service) (f : Feature) :
    ∃ w : Work Unit, restore sv f = inTurn w ∧ w.run.OnlySteps := by
  have hsteps := Work.onlySteps_closed sv.storage
  refine ⟨_, rfl, hsteps.bind hsteps.list fun infos => ?_⟩
  cases infos with
  | nil => exact createAll_onlySteps f.groups
  | cons i infos => exact hsteps.bind (hsteps.throw _) fun _ => createAll_onlySteps f.groups

/-- The answer to a request to restore groups, given what came of it. -/
def restoredReply (restored : Except GroupError Unit) : StatusReply :=
  ⟨[(featureName, .ofResult restored)]⟩

theorem answerRestore_eq (sv : Service) (f : Feature) :
    answerRestore sv ⟨[(featureName, f)]⟩ = restoredReply <$> (restore sv f).run := by
  unfold answerRestore
  simp [Json.Dict.ofEntries, Json.Dict.insert]
  rfl

theorem response_restore (sv : Service) (f : Feature) : ∃ next,
    Command.response sv (.restore ⟨[(featureName, f)]⟩) = .takeTurn next ∧ next.Finishing := by
  obtain ⟨w, hw, hsteps⟩ := restore_inTurn sv f
  refine ⟨_, ?_, hsteps.finishing fun r => .status (restoredReply r)⟩
  rw [Command.response, answerRestore_eq, ← comp_map, hw]
  exact Script.map_inTurn _ w.run

/-- No script of another instance changes the content from the moment `w` until the last group is
stored. -/
def Uninterrupted (x : Session Command Response) (contents : Nat → Database) (i w : Nat)
    (moments : List Nat) : Prop :=
  ∀ p, w ≤ p → p < after w moments → x.Foreign p i → contents (p + 1) = contents p

theorem undivided_of_apart {x : Session Command Response} {i u w v : Nat}
    (hascending : (u :: v :: moments).Pairwise (· < ·)) (huw : u < w) (hwv : w ≤ v)
    (hapart : ∀ p, u ≤ p → p < after w moments → contents (p + 1) ≠ contents p →
      p ∈ moments ∨ x.Foreign p i)
    (halone : Uninterrupted x contents i w moments) : Undivided contents w moments := by
  obtain ⟨hlater, hrest⟩ := List.pairwise_cons.mp hascending.of_cons
  refine ⟨hrest, fun m hm => Nat.le_of_lt (Nat.lt_of_le_of_lt hwv (hlater m hm)),
    fun p hwp hp hnone => ?_⟩
  by_contra hchange
  rcases hapart p (Nat.le_trans (Nat.le_of_lt huw) hwp) hp hchange with hown | hforeign
  · exact hnone hown
  · exact hchange (halone p hwp hp hforeign)

/-- The `k`-th script of a session, begun at the moment `b` and answered at `t`, has restored a feature at
the instance `i`: it has listed the groups in two steps, as they were at the moment `w` between these, and
then stored those of the feature. -/
structure Restores (x : Session Command Response) (contents : Nat → Database) (b k i t : Nat)
    (f : Feature) (u w v : Nat) (moments : List Nat) (result : Except GroupError Unit) : Prop where
  answered : (x.state t).answer? k = some (.status (restoredReply result))
  own : x.Moments b k t (u :: v :: moments)
  listed : u < w ∧ w ≤ v
  refused : (contents w).list ≠ [] → moments = [] ∧ result = .error (.ofViolation .groupsExist)
  created : (contents w).list = [] → Creates contents moments f.groups result
  /-- Only scripts of other instances come between the first step and the last group. -/
  apart : ∀ p, u ≤ p → p < after w moments → contents (p + 1) ≠ contents p →
    p ∈ moments ∨ x.Foreign p i
  /-- If none does, the restored groups are all that is there when the last one is stored. -/
  restored : (contents w).groups = [] → Uninterrupted x contents i w moments → result = .ok () →
    contents (after w moments) =
      ⟨(contents w).lastId + f.groups.length, Group.renumber (contents w).lastId f.groups⟩
  /-- If none does, groups that may stand side by side are all stored. -/
  complete : (contents w).groups = [] → Uninterrupted x contents i w moments →
    (∀ g ∈ f.groups, g.check = .ok ()) → (f.groups.map (·.name)).Nodup → result = .ok ()
  /-- Groups that pass their checks can fail to be stored only for their names. -/
  duplicate : (contents w).list = [] → (∀ g ∈ f.groups, g.check = .ok ()) → ∀ e, result = .error e →
    ∃ g ∈ f.groups, e = .duplicateName g.name ∧ ∃ m ∈ moments, g.name ∈ (contents m).names

/-- What comes of restoring groups at one of the instances that share a file, whatever jobs do there and at
the others. It is answered once it has gone on often enough, unless another script has the turn of the
instance whenever it could go on. Whatever the file holds at first, this goes for as long as the counter is
a word; a content that jobs have left behind is sound. -/
theorem session_restore (hdurable : sv.storage.isDurable = true) (n : Nat)
    (moves : Nat → Move Command) {first : Disk} {db : Database}
    (hfirst : first.content sv.storage = .ok db) :
    ∃ contents : Nat → Database, contents 0 = db ∧
      (∀ t, (contents t).CountsOn (contents (t + 1))) ∧
      (∀ t, (db.Sound → (contents t).Sound) ∧
        ((sv.session n moves first).state t).cluster.Holds sv.storage (contents t) first.store) ∧
      ∀ b k i f, (sv.session n moves first).Asked b k i (.restore ⟨[(featureName, f)]⟩) →
        ((∀ t, (contents t).lastId < Text.wordLimit) → (∀ t, ∃ u, t ≤ u ∧ moves u = .advance k) →
          (∃ t response, ((sv.session n moves first).state t).answer? k = some response) ∨
            ∀ t, b < t → moves t = .advance k →
              ((sv.session n moves first).state t).turnTaken i = true) ∧
        ∀ t response, (contents t).lastId < Text.wordLimit →
          ((sv.session n moves first).state t).answer? k = some response →
          (∀ u, b < u → u < t → moves u = .advance k →
            (sv.session n moves first).Undisturbed sv.storage u i) →
          ∃ u w v moments result,
            Restores (sv.session n moves first) contents b k i t f u w v moments result := by
  have hshared : (sv.session n moves first).Shared sv.storage := Or.inl hdurable
  obtain ⟨contents, hcontents, hbegins, hcounts, hsound⟩ := Service.exists_contents hshared hfirst
  have hturns := Session.takesTurns (x := sv.session n moves first) (Command.response_announcing sv)
  refine ⟨contents, hbegins, hcounts, fun t => ⟨hsound t, hcontents.holds t⟩,
    fun b k i f hasked => ?_⟩
  obtain ⟨next, hscript, hnext⟩ := response_restore sv f
  refine ⟨fun _ hfair => hasked.exists_answer_in_turn hfair hscript hnext,
    fun t response _ hanswer hfree => ?_⟩
  obtain ⟨times, hmoments, hanswers, hsteps⟩ := hasked.full_answers hanswer
  have hacts : (sv.session n moves first).Acts sv.storage k i times := by
    refine ⟨hmoments.ascending, fun u hu => ?_, fun u hu => ?_⟩
    · exact (hsteps u (hmoments.between u hu).1 (hmoments.between u hu).2).mp hu
    · exact hfree u (hmoments.between u hu).1 (hmoments.between u hu).2 (hmoments.own u hu)
  obtain ⟨reply, hreply, rfl⟩ := Script.answers_map.mp hanswers
  rw [answerRestore_eq] at hreply
  obtain ⟨result, hrestore, rfl⟩ := Script.answers_map.mp hreply
  obtain ⟨u, v, w, moments, hsublist, huw, hwv, hcreated, hrefused, hothers⟩ :=
    restore_seen hcontents hacts hdurable hrestore
  have hown := hmoments.sublist hsublist
  have hapart : ∀ p, u ≤ p → p < after w moments → contents (p + 1) ≠ contents p →
      p ∈ moments ∨ (sv.session n moves first).Foreign p i := by
    intro p hup hp hchange
    obtain ⟨m, hm, hpm⟩ : ∃ m ∈ v :: moments, p ≤ m := by
      rcases exists_of_lt_after hp with hpw | ⟨m, hm, hpm⟩
      · exact ⟨v, List.mem_cons_self, Nat.le_trans (Nat.le_of_lt hpw) hwv⟩
      · exact ⟨m, List.mem_cons_of_mem v hm, hpm⟩
    have hfirst := hacts.steps u (hsublist.subset List.mem_cons_self)
    have hlast := hacts.steps m (hsublist.subset (List.mem_cons_of_mem u hm))
    refine (hasked.apart hscript hnext hcontents (hturns p) hfirst hlast hup hpm hchange).imp_left
      fun hstep => ?_
    have hbp := Nat.lt_of_lt_of_le (hown.between u List.mem_cons_self).1 hup
    have hpt := Nat.lt_of_le_of_lt hpm (hown.between m (List.mem_cons_of_mem u hm)).2
    exact (hothers p ((hsteps p hbp hpt).mpr hstep)).resolve_right hchange
  have hundivided := undivided_of_apart hown.ascending huw hwv hapart
  have hlist (hempty : (contents w).groups = []) : (contents w).list = [] := by
    rw [Database.list, hempty]
    rfl
  refine ⟨u, w, v, moments, result, hanswer, hown, ⟨huw, hwv⟩, hrefused, hcreated, hapart,
    fun hempty halone hok => ?_, fun hempty halone hchecked hnames => ?_,
    fun hempty hchecked e he => (hcreated hempty).duplicate he hchecked⟩
  · have hrestored := (hcreated (hlist hempty)).appends (hundivided halone) hok
    rwa [hempty, List.nil_append] at hrestored
  · refine (hcreated (hlist hempty)).succeeds (hundivided halone) hchecked ?_
    rwa [hempty, List.nil_append]

/-! Between the listing and the first group, another instance stores a group of the same name. -/

def overtakenFeature : Feature :=
  ⟨version, [{ name := "a", rules := ⟨.or, [.condition (.of .name .equals "x")]⟩ }]⟩

def overtakenMoves : List (Move Command) :=
  .ask 0 (.restore ⟨[(featureName, overtakenFeature)]⟩) :: List.replicate 3 (.advance 0) ++
    .ask 1 (Service.createRequest "a") :: List.replicate 4 (.advance 1) ++
    List.replicate 2 (.advance 0)

def overtakenSession : Session Command Response :=
  ({ storage := { lock := .file } } : Service).session 2 fun t => overtakenMoves.getD t (.refuse [])

/-- The text of the error for which groups could not be restored. -/
def restoreError? : Response → Option String
  | .status r => r.features.findSome? fun (_, s) => s.error
  | _ => none

theorem session_restore_overtaken : ∃ (contents : Nat → Database) (w m p : Nat),
    (∀ t, (overtakenSession.state t).cluster.Holds { lock := .file } (contents t)) ∧
      (contents w).groups = [] ∧ (∀ g ∈ overtakenFeature.groups, g.check = .ok ()) ∧
      (overtakenFeature.groups.map (·.name)).Nodup ∧
      w ≤ p ∧ p < 11 ∧ overtakenSession.Foreign p 0 ∧ contents (p + 1) ≠ contents p ∧
      "a" ∈ (contents m).names ∧ (overtakenSession.state 11).answer? 0 =
        some (.status (restoredReply (.error (.duplicateName "a")))) := by
  -- one evaluation for both: most of it is the reading of the file
  obtain ⟨hrun, hfound⟩ : ((overtakenSession.state 11).answer? 0).bind restoreError? =
        some "Group with name 'a' already exists" ∧
      ∀ u < 11, 0 < u →
        (fun _ => ()) <$> (overtakenSession.site u 0).content { lock := .file } = .ok () ∧
          (overtakenSession.site u 0).disk.refusals = [] := by decide +kernel
  obtain ⟨response, hanswer, hfailed⟩ := Option.bind_eq_some_iff.mp hrun
  have hasked : overtakenSession.Asked 0 0 0 (.restore ⟨[(featureName, overtakenFeature)]⟩) :=
    ⟨rfl, by decide, rfl⟩
  have hchecked : ∀ g ∈ overtakenFeature.groups, g.check = .ok () := by decide
  have hnames : (overtakenFeature.groups.map (·.name)).Nodup := by decide
  obtain ⟨contents, hbegins, hcounts, hholds, hrestored⟩ :=
    @session_restore { storage := { lock := .file } } rfl 2
      (fun t => overtakenMoves.getD t (.refuse [])) {} {} (Disk.content_of_missing rfl)
  have hsound (t : Nat) : (contents t).Sound := (hholds t).1 Database.sound_empty
  have hword : (contents 11).lastId < Text.wordLimit := by
    refine Nat.lt_of_le_of_lt (Database.CountsOn.lastId_le_add hcounts 11) ?_
    rw [hbegins]
    decide
  obtain ⟨-, hanswered⟩ := hrestored 0 0 0 overtakenFeature hasked
  obtain ⟨u, w, v, moments, result, hrestores⟩ := hanswered 11 response hword hanswer
    fun u hbu hut _ => by
      obtain ⟨hok, hquiet⟩ := hfound u hut hbu
      obtain ⟨db, hcontent, -⟩ := map_eq_ok.mp hok
      exact ⟨⟨db, hcontent⟩, hquiet⟩
  obtain rfl := Option.some.inj (hanswer.symm.trans hrestores.answered)
  cases result with
  | ok => cases hfailed
  | error e =>
      have hnone : (contents w).list = [] := by
        by_contra hne
        obtain ⟨-, he⟩ := hrestores.refused hne
        rw [he] at hfailed
        revert hfailed
        decide
      have hempty : (contents w).groups = [] := (hsound w).list_eq_nil.mp hnone
      obtain ⟨g, hg, rfl, m, hm, hname⟩ := hrestores.duplicate hnone hchecked e rfl
      obtain rfl := List.mem_singleton.mp hg
      have hinterrupted : ¬ Uninterrupted overtakenSession contents 0 w moments := fun halone => by
        cases hrestores.complete hempty halone hchecked hnames
      unfold Uninterrupted at hinterrupted
      push Not at hinterrupted
      obtain ⟨p, hwp, hp, hforeign, hchange⟩ := hinterrupted
      have hp : p < 11 := by
        obtain ⟨m', hm', hpm⟩ := (exists_of_lt_after hp).resolve_left (Nat.not_lt_of_le hwp)
        have hm' := hrestores.own.between m' (List.mem_cons_of_mem u (List.mem_cons_of_mem v hm'))
        exact Nat.lt_of_le_of_lt hpm hm'.2
      exact ⟨contents, w, m, p, fun t => (hholds t).2, hempty, hchecked, hnames, hwp, hp, hforeign,
        hchange, hname, hanswer⟩

end Backup

end AssetGroups
