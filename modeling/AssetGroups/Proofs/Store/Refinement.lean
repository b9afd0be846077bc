import AssetGroups.Proofs.Session
import AssetGroups.Store.Operation

/-!
# Instances that share a file are one store

An operation that changes the content takes one step, in which the instance reads the file and
replaces it. One that reads takes two, and answers with what its instance knows at the second: the
content at some moment since the first, for an instance learns nothing else. So all instances together
answer as a single store would that holds the content of the file.
-/

namespace AssetGroups

namespace Store

variable {α : Type} {cfg : Storage} {op : Operation} {db db' : Database} {a : Answer}

namespace Operation

/-! ## A single store -/

theorem apply_ok (h : op.plain db = .ok (a, db')) : op.apply db = (.ok a, db') := by rw [apply, h]

theorem apply_error {e : GroupError} (h : op.plain db = .error e) : op.apply db = (.error e, db) := by
  rw [apply, h]

theorem plain_reads (hreads : op.changes = false) (h : op.plain db = .ok (a, db')) : db' = db := by
  have hmap {α : Type} {r : Except GroupError α} {g : α → Answer}
      (h : (r.map fun b => (g b, db)) = .ok (a, db')) : db' = db := by
    cases r <;> cases h
    rfl
  cases op with
  | save | saveUnique | remove | clear => cases hreads
  | byId | byName => exact hmap h
  | names | ids | list =>
      cases h
      rfl

theorem plain_countsOn (h : op.plain db = .ok (a, db')) : db.CountsOn db' := by
  cases op with
  | save g =>
      cases h
      exact db.save_countsOn g
  | saveUnique g =>
      obtain ⟨⟨stored, _⟩, hsave, hmap⟩ := map_eq_ok.mp h
      cases hmap
      exact Database.saveUnique_countsOn hsave
  | remove id =>
      obtain ⟨_, hremove, hmap⟩ := map_eq_ok.mp h
      cases hmap
      exact Database.remove_countsOn hremove
  | clear =>
      cases h
      exact ⟨Nat.le_refl _, Nat.le_succ _, fun id hid => by cases hid⟩
  | byId | byName | names | ids | list => exact plain_reads rfl h ▸ .refl db

/-! ## What an instance does -/

/-- What the step of an operation that changes the content makes of a site, and the answer. -/
inductive Acts (cfg : Storage) (op : Operation) (s t : Site) : Except GroupError Answer → Prop where
  | changed {a : Answer} {db db' : Database} (hplain : op.plain db = .ok (a, db'))
      (h : s.Changed cfg t db db') : Acts cfg op s t (.ok a)
  | failed {e : GroupError} (hcontent : s.content cfg >>= op.plain = .error e) (h : s.Kept cfg t) :
      Acts cfg op s t (.error e)
  | refused {path cause : String} (hdisk : s.disk.Refused t.disk cause ∨ s.disk.store = .folder)
      (h : s.Kept cfg t) : Acts cfg op s t (.error (.storage path cause))

theorem change_acts {f : Database → Except GroupError (α × Database)} {g : α → Answer}
    (hplain : ∀ db, op.plain db = (f db).map (Prod.map g id)) (s : Site) :
    op.Acts cfg s ((Acquisition.change cfg f).run s).2
      (((Acquisition.change cfg f).run s).1.map g) := by
  rcases Acquisition.change_cases cfg f s with
    ⟨e, t, hrun, hkept, hcontent | ⟨path, cause, hdisk, rfl⟩⟩ | ⟨b, t, db, db', hrun, hf, hchanged⟩
  · rw [hrun]
    refine .failed ?_ hkept
    rw [funext hplain]
    cases hdb : s.content cfg with
    | error e =>
        rw [hdb] at hcontent
        cases hcontent
        rfl
    | ok db =>
        rw [hdb] at hcontent
        exact congrArg (Except.map (Prod.map g id)) hcontent
  · rw [hrun]
    exact .refused hdisk hkept
  · rw [hrun]
    refine .changed (a := g b) ?_ hchanged
    rw [hplain, hf]
    rfl

theorem run_map_change (f : Database → Except GroupError (α × Database)) (g : α → Answer) :
    (g <$> Store.change cfg f).run = Script.once fun s =>
      (((Acquisition.change cfg f).run s).1.map g, ((Acquisition.change cfg f).run s).2) := by
  rw [map_eq_pure_bind, Store.change, Work.run_asWork_bind, Script.once]
  congr 1
  funext s
  cases ((Acquisition.change cfg f).run s).1 <;> rfl

theorem run_changes (cfg : Storage) (hchanges : op.changes = true) :
    ∃ f : Site → Except GroupError Answer × Site, (op.work cfg).run = Script.once f ∧
      ∀ s, op.Acts cfg s (f s).2 (f s).1 := by
  cases op with
  | save g => exact ⟨_, run_map_change _ _, change_acts fun db => rfl⟩
  | saveUnique g => exact ⟨_, run_map_change _ _, change_acts fun db => rfl⟩
  | remove id =>
      refine ⟨_, run_map_change _ _, change_acts fun db => ?_⟩
      simp only [plain]
      cases db.remove id <;> rfl
  | clear => exact ⟨_, run_map_change _ _, change_acts fun db => rfl⟩
  | byId | byName | names | ids | list => cases hchanges

theorem work_reads (cfg : Storage) (hreads : op.changes = false) : op.work cfg =
    snapshot cfg >>= fun db => MonadLift.monadLift ((op.plain db).map Prod.fst) := by
  have hmap {α : Type} (g : α → Answer) (r : Except GroupError α) (db : Database) :
      (r.map fun b => (g b, db)).map Prod.fst = r.map g := by
    cases r <;> rfl
  cases op with
  | save | saveUnique | remove | clear => cases hreads
  | byId | byName =>
      simp only [work, Store.byId, Store.byName, map_bind, plain, hmap]
      congr 1
      funext db
      exact Work.map_monadLift _ _
  | names | ids | list =>
      simp only [work, Store.names, Store.ids, Store.list, map_bind]
      rfl

/-- What is left of a reading operation once its instance has read the file. -/
def rest (cfg : Storage) (op : Operation) (s : Site) : Script Site (Except GroupError Answer) :=
  if s.slot.loaded then .done ((op.plain s.slot.database).map Prod.fst)
  else
    (((Acquisition.loadOnce cfg).asWork >>= fun _ => Acquisition.database.asWork) >>= fun db =>
      MonadLift.monadLift ((op.plain db).map Prod.fst)).run

/-- A reading operation reads the file in a first step, and in a second one answers with what its
instance then knows. -/
theorem run_reads (hdurable : cfg.isDurable = true) (hreads : op.changes = false) :
    (op.work cfg).run = .step (fun s => ((Acquisition.openExclusive cfg).run s).2) fun s =>
      match ((Acquisition.openExclusive cfg).run s).1 with
      | .ok _ => .step id (op.rest cfg)
      | .error e => .done (.error e) := by
  rw [work_reads cfg hreads, snapshot, if_pos hdurable]
  simp only [discard, LawfulFunctor.map_const, Function.comp_apply, bind_assoc, bind_map_left,
    Work.run_asWork_bind, Acquisition.run_known?]
  congr 1
  funext s
  cases ((Acquisition.openExclusive cfg).run s).1 with
  | error e => rfl
  | ok db =>
      refine congrArg (Script.step _) (funext fun s => ?_)
      rw [rest]
      cases s.slot.loaded with
      | false => rfl
      | true =>
          simp only [if_true, pure_bind]
          cases op.plain s.slot.database <;> rfl

/-! ## Effects -/

/-- What may become of an operation on a content, with a step that finds the disk as `d` and leaves it
as `d'`: what becomes of it in a single store, unless the content cannot be read back from the file or
the step meets a refusal. -/
inductive Effect (op : Operation) (d d' : Disk) (db : Database) :
    Except GroupError Answer → Database → Prop where
  | single {r : Except GroupError Answer} {db' : Database} (h : op.apply db = (r, db')) :
      Effect op d d' db r db'
  | unreadable (h : ¬ db.Readable) :
      Effect op d d' db (.error (.serialization "not a group database")) db
  | refused {path cause : String} (h : d.Refused d' cause) :
      Effect op d d' db (.error (.storage path cause)) db

namespace Effect

variable {d d' : Disk}

theorem of_reads (hreads : op.changes = false) :
    op.Effect d d' db ((op.plain db).map Prod.fst) db := by
  cases hplain : op.plain db with
  | error e => exact .single (apply_error hplain)
  | ok answer =>
      obtain ⟨a, db'⟩ := answer
      obtain rfl := plain_reads hreads hplain
      exact .single (apply_ok hplain)

theorem of_content {s : Site} {e : GroupError} {first : Entry} (hholds : s.Holds cfg db first)
    (hfits : db.Fits) (h : s.content cfg >>= op.plain = .error e) :
    op.Effect d d' db (.error e) db := by
  rcases hholds.content_cases hfits with hok | ⟨hunreadable, herror⟩
  · rw [hok] at h
    exact .single (apply_error h)
  · rw [herror] at h
    cases h
    exact .unreadable hunreadable

end Effect

end Operation

/-! ## Sessions -/

/-- Instances of a store on the disk as it is at first, and what they are asked for. -/
def session (cfg : Storage) (n : Nat) (moves : Nat → Move Operation) (first : Disk := {}) :
    Session Operation (Except GroupError Answer) :=
  ⟨fun op => (op.work cfg).run, n, moves, first⟩

/-- Contents that may follow one another. -/
def Follow (db db' : Database) : Prop := ∃ (op : Operation) (a : Answer), op.plain db = .ok (a, db')

theorem Follow.countsOn (h : Follow db db') : db.CountsOn db' := by
  obtain ⟨op, a, hplain⟩ := h
  exact Operation.plain_countsOn hplain

theorem work_within (cfg : Storage) (op : Operation) :
    (op.work cfg).run.Within (Site.Step cfg Follow) := by
  cases hchanges : op.changes with
  | false =>
      rw [op.work_reads cfg hchanges]
      exact Work.Within.bind (snapshot_within fun s t => .kept) fun db => .monadLift _
  | true =>
      obtain ⟨f, hrun, hacts⟩ := op.run_changes cfg hchanges
      rw [hrun]
      refine .once fun s => ?_
      have hact := hacts s
      generalize (f s).1 = r at hact
      cases hact with
      | changed hplain h => exact .changed ⟨op, _, hplain⟩ h
      | failed _ h => exact .kept h
      | refused _ h => exact .kept h

section

variable {x : Session Operation (Except GroupError Answer)} {contents : Nat → Database}
    {b k i t u : Nat} {r : Except GroupError Answer} (hcontents : x.Contents cfg Follow contents)
include hcontents

/-- The step of an operation that changes the content succeeds as it does in a single store, or fails
and leaves content and file as they are. -/
theorem change_step {f : Site → Except GroupError Answer × Site}
    (hacts : ∀ s, op.Acts cfg s (f s).2 (f s).1) (hleft : x.Left t k i (Script.once f))
    (hmove : x.moves t = .advance k) :
    (∃ a, (f (x.site t i)).1 = .ok a ∧ op.apply (contents t) = (.ok a, contents (t + 1))) ∨
      contents (t + 1) = contents t ∧ (x.disk (t + 1)).store = (x.disk t).store ∧
        op.Effect (x.disk t) (x.disk (t + 1)) (contents t) (f (x.site t i)).1 (contents t) := by
  obtain ⟨-, hsite⟩ := hleft.step hmove
  have hact := hacts (x.site t i)
  rw [← hsite] at hact
  have hholds := hcontents.site t i
  generalize (f (x.site t i)).1 = r at hact ⊢
  cases hact with
  | @changed a db db' hplain h =>
      obtain ⟨rfl, rfl⟩ := hcontents.of_changed hleft hmove h (Operation.plain_countsOn hplain)
      exact Or.inl ⟨a, rfl, Operation.apply_ok hplain⟩
  | failed hcontent h =>
      exact Or.inr ⟨hcontents.of_steady hleft hmove h.toSteady, h.store,
        .of_content hholds (hcontents.fits t) hcontent⟩
  | refused hdisk h =>
      exact Or.inr ⟨hcontents.of_steady hleft hmove h.toSteady, h.store,
        .refused (hdisk.resolve_right hholds.file)⟩

variable (hscript : ∀ op, x.script op = (op.work cfg).run)
include hscript

/-- How far an operation that changes the content has come: it has not begun, or has taken effect with
the step that answered it. -/
theorem change_cases (hasked : x.Asked b k i op) (hchanges : op.changes = true) (hbt : b < t) :
    ((x.state t).answer? k = none ∧ ∀ u, b < u → u < t → x.moves u ≠ .advance k) ∨
      ∃ r u, (x.state t).answer? k = some r ∧ b < u ∧ u < t ∧ x.Ends u k r ∧
        op.Effect (x.disk u) (x.disk (u + 1)) (contents u) r (contents (u + 1)) := by
  obtain ⟨f, hrun, hacts⟩ := op.run_changes cfg hchanges
  have hbegins := hasked.left
  rw [hscript, hrun] at hbegins
  rcases hbegins.cases_step hbt with
    ⟨hwaiting, hnever⟩ | ⟨u, hbu, hut, hmove, -, hbefore, hafter, -⟩
  · exact Or.inl ⟨hwaiting.unanswered, hnever⟩
  · refine Or.inr ⟨_, u, (hafter.later hut).answer, hbu, hut,
      ⟨hmove, hbefore.unanswered, hafter.answer⟩, ?_⟩
    rcases change_step hcontents hacts hbefore hmove with ⟨a, hok, happly⟩ | ⟨hsame, -, heffect⟩
    · rw [hok]
      exact .single happly
    · rw [hsame]
      exact heffect

/-- How far a reading operation has come: it has not begun, or has read the file, or is answered. -/
theorem read_cases (hdurable : cfg.isDurable = true) (hasked : x.Asked b k i op)
    (hreads : op.changes = false) (hbt : b < t) :
    ((x.state t).answer? k = none ∧ ∀ u, b < u → u < t → x.moves u ≠ .advance k) ∨
      (∃ u, (x.state t).answer? k = none ∧ b < u ∧ u < t ∧
        ∀ v, b < v → v < t → x.moves v = .advance k → v = u) ∨
      ∃ r u, (x.state t).answer? k = some r ∧ b < u ∧ u ≤ t ∧
        op.Effect (x.disk u) (x.disk (u + 1)) (contents u) r (contents u) := by
  have hbegins := hasked.left
  rw [hscript, op.run_reads hdurable hreads] at hbegins
  rcases hbegins.cases_step hbt with
    ⟨hwaiting, hnever⟩ | ⟨u, hbu, hut, hmove, hnever, hbefore, hafter, hsite⟩
  · exact Or.inl ⟨hwaiting.unanswered, hnever⟩
  · obtain ⟨hopen, hslot⟩ := Acquisition.openExclusive_answered cfg (x.site u i)
    have hholds := hcontents.site u i
    rcases hrun : (Acquisition.openExclusive cfg).run (x.site u i) with ⟨e | db, s⟩ <;>
      rw [hrun] at hopen hafter hsite
    · refine Or.inr (Or.inr ⟨.error e, u, (hafter.later hut).answer, hbu, Nat.le_of_lt hut, ?_⟩)
      rcases hopen.answered with herror | ⟨path, cause, hrefused, herror⟩
      · refine .of_content hholds (hcontents.fits u) ?_
        rw [← herror]
        rfl
      · cases herror
        rw [← hsite] at hrefused
        exact .refused hrefused
    · have hslot : (x.site (u + 1) i).slot = ⟨true, contents (u + 1)⟩ := by
        rw [hcontents.of_steady hbefore hmove (hsite ▸ hopen.kept.toSteady), hsite, hslot db s hrun,
          hholds.eq_of_content (hcontents.fits u) hopen.eq_ok]
      rcases hafter.cases_step hut with
        ⟨hwaiting, hnever'⟩ | ⟨v, huv, hvt, -, -, -, hafter, -⟩
      · refine Or.inr (Or.inl ⟨u, hwaiting.unanswered, hbu, hut, fun v hbv hvt hv => ?_⟩)
        rcases Nat.lt_trichotomy v u with hlt | rfl | hgt
        · exact absurd hv (hnever v hbv hlt)
        · rfl
        · exact absurd hv (hnever' v hgt hvt)
      -- since then others may have replaced the content, and others at this instance have read it
      · obtain ⟨w, huw, hwv, hslot⟩ := hcontents.slot_since hslot huv
        rw [Operation.rest, hslot] at hafter
        refine Or.inr (Or.inr ⟨_, w, (hafter.later hvt).answer, by omega, by omega, ?_⟩)
        exact .of_reads hreads

/-- The step of an operation leaves the content and the file, or is that of a change that succeeds. -/
theorem own_cases (hasked : x.Asked b k i op) (hbt : b < t) (hmove : x.moves t = .advance k) :
    contents (t + 1) = contents t ∧ (x.disk (t + 1)).store = (x.disk t).store ∨
      op.changes = true ∧ ∃ a, x.Ends t k (.ok a) ∧
        op.apply (contents t) = (.ok a, contents (t + 1)) := by
  cases hchanges : op.changes with
  | false =>
      obtain ⟨_, -, hleft, -⟩ := hasked.history hbt
      have hkept : (x.site t i).Kept cfg (x.site (t + 1) i) := by
        refine hasked.own_step Site.Kept.refl ?_ hbt hmove
        rw [hscript, op.work_reads cfg hchanges]
        exact Work.Within.bind (snapshot_within fun _ _ h => h) fun db => .monadLift _
      exact Or.inl ⟨hcontents.of_steady hleft hmove hkept.toSteady, hkept.store⟩
  | true =>
      obtain ⟨f, hrun, hacts⟩ := op.run_changes cfg hchanges
      have hbegins := hasked.left
      rw [hscript, hrun] at hbegins
      rcases hbegins.cases_step hbt with ⟨hbefore, -⟩ | ⟨u, -, hut, -, -, -, hafter, -⟩
      · rcases change_step hcontents hacts hbefore hmove with ⟨a, hok, happly⟩ | ⟨hsame, hstore, -⟩
        · have hafter := (hbefore.step hmove).1
          rw [hok] at hafter
          exact Or.inr ⟨rfl, a, ⟨hmove, hbefore.unanswered, hafter.answer⟩, happly⟩
        · exact Or.inl ⟨hsame, hstore⟩
      · have hended := hafter.later hut
        have hstate := hended.stays hmove
        refine Or.inl ⟨hcontents.of_steady hended hmove ?_, ?_⟩
        · rw [Session.site, Session.site, hstate]
          exact .refl _
        · rw [Session.disk, Session.disk, hstate]

theorem answered_of_two (hdurable : cfg.isDurable = true) (hasked : x.Asked b k i op) {v : Nat}
    (hbu : b < u) (huv : u < v) (hu : x.moves u = .advance k) (hv : x.moves v = .advance k) :
    ∃ r, (x.state (v + 1)).answer? k = some r := by
  have hbv : b < v + 1 := by omega
  cases hchanges : op.changes with
  | true =>
      rcases change_cases hcontents hscript hasked hchanges hbv with
        ⟨-, hnever⟩ | ⟨r, -, hanswer, -⟩
      · exact absurd hu (hnever u hbu (by omega))
      · exact ⟨r, hanswer⟩
  | false =>
      rcases read_cases hcontents hscript hdurable hasked hchanges hbv with
        ⟨-, hnever⟩ | ⟨w, -, -, -, honly⟩ | ⟨r, -, hanswer, -⟩
      · exact absurd hu (hnever u hbu (by omega))
      · have := honly u hbu (by omega) hu
        have := honly v (by omega) (by omega) hv
        omega
      · exact ⟨r, hanswer⟩

end

/-- Up to the moment `T` all instances of a session together are one store, which holds `contents` moment
by moment. -/
structure Refines (x : Session Operation (Except GroupError Answer)) (contents : Nat → Database)
    (T : Nat) : Prop where
  /-- The file holds the content as it is written, unless it is still what it was at first. -/
  file : ∀ t ≤ T, (x.disk t).store = .file (contents t).octets ∨
    (x.disk t).store = x.first.store ∧ contents t = contents 0
  /-- Only a change that succeeds replaces the content, or the file. -/
  replaced : ∀ t < T, contents (t + 1) = contents t ∧ (x.disk (t + 1)).store = (x.disk t).store ∨
    ∃ b k i op a, x.Asked b k i op ∧ b < t ∧ op.changes = true ∧ x.Ends t k (.ok a) ∧
      op.apply (contents t) = (.ok a, contents (t + 1))
  /-- A change takes effect with the step that answers it. -/
  changed : ∀ b k i op r, ∀ t ≤ T, x.Asked b k i op → op.changes = true →
    (x.state t).answer? k = some r → ∃ u, b < u ∧ u < t ∧ x.Ends u k r ∧
      op.Effect (x.disk u) (x.disk (u + 1)) (contents u) r (contents (u + 1))
  /-- What is read was there between the question and the answer. -/
  read : ∀ b k i op r, ∀ t ≤ T, x.Asked b k i op → op.changes = false →
    (x.state t).answer? k = some r →
    ∃ u, b < u ∧ u ≤ t ∧ op.Effect (x.disk u) (x.disk (u + 1)) (contents u) r (contents u)
  /-- What was asked for is answered with the second step at the latest. -/
  answered : ∀ b k i op u, ∀ v < T, x.Asked b k i op → b < u → u < v → x.moves u = .advance k →
    x.moves v = .advance k → ∃ r, (x.state (v + 1)).answer? k = some r

/-- Instances that go through a lock file are one store, whatever they find in the file at first, however
many there are, whenever they are opened, in whatever order their acquisitions take place and whichever
accesses are refused, for as long as the counter is a word. -/
theorem session_refines (hdurable : cfg.isDurable = true) (n : Nat) (moves : Nat → Move Operation)
    {first : Disk} (hfirst : first.content cfg = .ok db) :
    ∃ contents : Nat → Database, contents 0 = db ∧
      (∀ t, (contents t).CountsOn (contents (t + 1))) ∧
      ∀ T, (contents T).lastId < Text.wordLimit → Refines (session cfg n moves first) contents T := by
  have hscript : ∀ op, (session cfg n moves first).script op = (op.work cfg).run := fun _ => rfl
  obtain ⟨contents, hcontents⟩ := Session.exists_contents (x := session cfg n moves first)
    (work_within cfg) (Or.inl hdurable) hfirst fun _ _ => Follow.countsOn
  refine ⟨contents, hcontents.eq_first hfirst, hcontents.countsOn fun _ _ => Follow.countsOn,
    fun T _ => ⟨fun t _ => hcontents.store_cases t, fun t _ => ?_,
      fun b k i op r t _ hasked hchanges hanswer => ?_,
      fun b k i op r t _ hasked hreads hanswer => ?_,
      fun b k i op u v _ hasked => answered_of_two hcontents hscript hdurable hasked⟩⟩
  · rcases hcontents.follows t with ⟨hsame, hsteady⟩ | ⟨k, i, _, hmove, hleft, -, -⟩
    · exact Or.inl ⟨hsame, (hsteady 0).store⟩
    · obtain ⟨b, op, hasked, hbt⟩ := hleft.exists_asked
      exact (own_cases hcontents hscript hasked hbt hmove).imp_right
        fun ⟨hchanges, a, hends, happly⟩ => ⟨b, k, i, op, a, hasked, hbt, hchanges, hends, happly⟩
  · rcases change_cases hcontents hscript hasked hchanges (hasked.lt_of_answer hanswer) with
      ⟨hnone, -⟩ | ⟨r', u, hsome, heffect⟩
    · rw [hanswer] at hnone
      cases hnone
    · obtain rfl := Option.some.inj (hanswer.symm.trans hsome)
      exact ⟨u, heffect⟩
  · rcases read_cases hcontents hscript hdurable hasked hreads (hasked.lt_of_answer hanswer) with
      ⟨hnone, -⟩ | ⟨_, hnone, -⟩ | ⟨r', u, hsome, heffect⟩
    · rw [hanswer] at hnone
      cases hnone
    · rw [hanswer] at hnone
      cases hnone
    · obtain rfl := Option.some.inj (hanswer.symm.trans hsome)
      exact ⟨u, heffect⟩

/-! Instances find a file that none of them has written. While one of them reads, another one stores a
group: the answer is what was read before that. -/

/-- A file without a counter, in which an id is given twice and a group has none. -/
def sampleDisk : Disk where
  store := .file (Text.Utf8.encode
    "\x7b\"groups\":[[7,\"b\",[\"AND\",[]]],[null,\"c\",[\"AND\",[]]],[7,\"a\",[\"AND\",[]]]]\x7d")

def sampleGroup : Group := { name := "d", rules := .all }

def sampleMoves (t : Nat) : Move Operation :=
  [.ask 1 .ids, .advance 0, .ask 0 (.save sampleGroup), .advance 1, .advance 0].getD t (.refuse [])

def sampleSession : Session Operation (Except GroupError Answer) :=
  session { lock := .file } 2 sampleMoves sampleDisk

def idsOf? : Except GroupError Answer → Option (List Nat)
  | .ok (.ids ids) => some ids
  | _ => none

def groupOf? : Except GroupError Answer → Option Group
  | .ok (.group g) => some g
  | _ => none

variable {r : Except GroupError Answer}

theorem eq_of_idsOf? {ids : List Nat} (h : idsOf? r = some ids) : r = .ok (.ids ids) := by
  unfold idsOf? at h
  split at h
  · rw [Option.some.inj h]
  · cases h

theorem eq_of_groupOf? {g : Group} (h : groupOf? r = some g) : r = .ok (.group g) := by
  unfold groupOf? at h
  split at h
  · rw [Option.some.inj h]
  · cases h

theorem session_refines_meanwhile : ∃ contents u v stored,
    (contents 0).ids = [7, 7] ∧ Refines sampleSession contents 5 ∧
    (sampleSession.state 5).answer? 0 = some (.ok (.ids [7, 7])) ∧ u ≤ 5 ∧
    Operation.ids.Effect (sampleSession.disk u) (sampleSession.disk (u + 1)) (contents u)
      (.ok (.ids [7, 7])) (contents u) ∧
    sampleSession.Ends v 1 (.ok (.group stored)) ∧ stored.id = some 1 ∧ v < 5 := by
  have hfound : (fun db => (db.lastId, db.ids)) <$> sampleDisk.content { lock := .file } =
      .ok (0, [7, 7]) := by
    decide +kernel
  -- one evaluation for both: most of it is the reading of the file
  obtain ⟨hlisted, hsaved⟩ : ((sampleSession.state 5).answer? 0).bind idsOf? = some [7, 7] ∧
      (((sampleSession.state 5).answer? 1).bind groupOf?).map (·.id) = some (some 1) := by
    decide +kernel
  obtain ⟨db, hfirst, hdb⟩ := map_eq_ok.mp hfound
  obtain ⟨hlast, hids⟩ := Prod.mk.inj hdb
  obtain ⟨listed, hlisted, hanswer⟩ := Option.bind_eq_some_iff.mp hlisted
  obtain rfl := eq_of_idsOf? hanswer
  obtain ⟨stored, hsaved, hid⟩ := Option.map_eq_some_iff.mp hsaved
  obtain ⟨saved, hsaved, hanswer⟩ := Option.bind_eq_some_iff.mp hsaved
  obtain rfl := eq_of_groupOf? hanswer
  obtain ⟨contents, hbegins, hcounts, hrefines⟩ := session_refines rfl 2 sampleMoves hfirst
  have hword : (contents 5).lastId < Text.wordLimit := by
    refine Nat.lt_of_le_of_lt (Database.CountsOn.lastId_le_add hcounts 5) ?_
    rw [hbegins, ← hlast]
    decide
  have hask : sampleSession.Asked 0 0 1 .ids := ⟨rfl, by decide, rfl⟩
  have hsave : sampleSession.Asked 2 1 0 (.save sampleGroup) :=
    ⟨rfl, by decide +kernel, by decide +kernel⟩
  have hsession : Refines sampleSession contents 5 := hrefines 5 hword
  obtain ⟨u, -, hu, heffect⟩ := hsession.read _ _ _ _ _ _ (Nat.le_refl 5) hask rfl hlisted
  obtain ⟨v, -, hv, hends, -⟩ := hsession.changed _ _ _ _ _ _ (Nat.le_refl 5) hsave rfl hsaved
  exact ⟨contents, u, v, stored, hbegins ▸ hids.symm, hsession, hlisted, hu, heffect, hends, hid, hv⟩

end Store

end AssetGroups
