import AssetGroups.Proofs.Outcome
import AssetGroups.Proofs.Store.Alone

/-!
# The content of a store

The content that an instance sees, and work that only reads it: nothing that others could see is
changed, and apart from accesses that the disk refuses the answer depends on the content alone.
-/

namespace AssetGroups

variable {α β : Type} {cfg : Storage}

/-- On the way from one disk to the other an access was refused with this cause. -/
def Disk.Refused (d e : Disk) (cause : String) : Prop :=
  ∃ used, d.refusals = used ++ e.refusals ∧ some cause ∈ used

theorem Disk.Refused.of_suffix {d d' e : Disk} {cause : String} (h : d'.Refused e cause)
    (hsuffix : d'.refusals <:+ d.refusals) : d.Refused e cause := by
  obtain ⟨used, hused, hmem⟩ := h
  obtain ⟨before, hbefore⟩ := hsuffix
  refine ⟨before ++ used, ?_, List.mem_append_right before hmem⟩
  rw [← hbefore, hused, List.append_assoc]

theorem Disk.Refused.not_quiet {d e : Disk} {cause : String} (h : d.Refused e cause) :
    d.refusals ≠ [] := by
  intro hquiet
  obtain ⟨used, hused, hmem⟩ := h
  rw [hquiet] at hused
  rw [(List.append_eq_nil_iff.mp hused.symm).1] at hmem
  cases hmem

/-- The content of the store file. -/
def Disk.content (cfg : Storage) (d : Disk) : Except GroupError Database :=
  (Disk.load cfg { d with refusals := [] }).1

namespace Site

/-- The content that an instance finds when it acquires its store: what it knows, unless it knows
nothing yet or others may have written the file. -/
def content (cfg : Storage) (s : Site) : Except GroupError Database :=
  if cfg.isDurable = false ∧ s.slot.loaded = true then .ok s.slot.database
  else s.disk.content cfg

/-- The content is the same at two sites, and the slot has at most been filled with it. -/
structure Steady (cfg : Storage) (s t : Site) : Prop where
  store : t.disk.store = s.disk.store
  content : t.content cfg = s.content cfg
  slot : t.slot = s.slot ∨ ∃ db, s.content cfg = .ok db ∧ t.slot = ⟨true, db⟩

theorem Steady.refl (s : Site) : Steady cfg s s := ⟨rfl, rfl, Or.inl rfl⟩

theorem Steady.trans {s t u : Site} (h : Steady cfg s t) (h' : Steady cfg t u) : Steady cfg s u where
  store := h'.store.trans h.store
  content := h'.content.trans h.content
  slot := by
    rcases h'.slot with hslot | ⟨db, hcontent, hslot⟩
    · rw [hslot]
      exact h.slot
    · exact Or.inr ⟨db, h.content ▸ hcontent, hslot⟩

/-- Nothing that others could see has changed between two sites, nor has the content. -/
structure Kept (cfg : Storage) (s t : Site) : Prop extends Steady cfg s t where
  feed : t.feed = s.feed
  refusals : t.disk.refusals <:+ s.disk.refusals

theorem Kept.refl (s : Site) : Kept cfg s s := ⟨.refl s, rfl, List.suffix_rfl⟩

theorem Kept.trans {s t u : Site} (h : Kept cfg s t) (h' : Kept cfg t u) : Kept cfg s u :=
  ⟨h.toSteady.trans h'.toSteady, h'.feed.trans h.feed, h'.refusals.trans h.refusals⟩

/-- The outcome is `answer`, or a refused access kept it from being that. -/
structure Answered (cfg : Storage) (s : Site) (answer : Except GroupError α)
    (o : Outcome α) : Prop where
  kept : Kept cfg s o.2
  answered : o.1 = answer ∨
    ∃ path cause, s.disk.Refused o.2.disk cause ∧ o.1 = .error (.storage path cause)

theorem Answered.of_kept {s t : Site} {answer : Except GroupError α}
    {o : Outcome α} (hkept : Kept cfg s t) (h : Answered cfg t answer o) :
    Answered cfg s answer o where
  kept := hkept.trans h.kept
  answered := h.answered.imp_right fun ⟨path, cause, hrefused, herror⟩ =>
    ⟨path, cause, hrefused.of_suffix hkept.refusals, herror⟩

theorem Answered.eq_ok {s t : Site} {answer : Except GroupError α} {a : α}
    (h : Answered cfg s answer (.ok a, t)) : answer = .ok a := by
  rcases h.answered with hok | ⟨_, _, -, herror⟩
  · exact hok.symm
  · cases herror

/-- Outcomes of two steps in a row: the second is taken from where the first has left the site. -/
theorem Answered.bind {s : Site} {answer : Except GroupError α} {o : Outcome α}
    (answers : α → Except GroupError β) {next : α → Site → Outcome β}
    (h : Answered cfg s answer o)
    (hnext : ∀ a, o.1 = .ok a → answer = .ok a → Answered cfg o.2 (answers a) (next a o.2)) :
    Answered cfg s (answer >>= answers) (o.andThen next) := by
  obtain ⟨e | a, t⟩ := o
  · refine ⟨h.kept, h.answered.imp (fun herror => ?_) fun ⟨path, cause, hrefused, herror⟩ => ?_⟩
    · rw [← herror]
      rfl
    · rw [Except.error.injEq] at herror
      subst herror
      exact ⟨path, cause, hrefused, rfl⟩
  · rw [h.eq_ok]
    exact .of_kept h.kept (hnext a rfl h.eq_ok)

theorem Answered.pure {s t : Site} (hkept : Kept cfg s t) (answer : Except GroupError α) :
    Answered cfg s answer (answer, t) :=
  ⟨hkept, Or.inl rfl⟩

theorem Answered.of_quiet {s : Site} {answer : Except GroupError α} {o : Outcome α}
    (h : Answered cfg s answer o) (hquiet : s.disk.refusals = []) : o.1 = answer := by
  rcases h.answered with hanswer | ⟨_, cause, hrefused, -⟩
  · exact hanswer
  · exact absurd hquiet hrefused.not_quiet

end Site

/-! ## The disk -/

namespace Disk

/-- The file of a disk is as it was, and refusals have at most been used up. -/
structure Kept (d e : Disk) : Prop where
  store : e.store = d.store
  refusals : e.refusals <:+ d.refusals

theorem Kept.refl (d : Disk) : Kept d d := ⟨rfl, List.suffix_rfl⟩

theorem content_congr (cfg : Storage) {d e : Disk} (h : e.store = d.store) :
    e.content cfg = d.content cfg := by
  simp only [content, Disk.load, h]
  cases d.store <;> rfl

theorem access_cases (d : Disk) : ∃ e, Kept d e ∧ (d.access = (none, e) ∨
    ∃ cause, d.Refused e cause ∧ d.access = (some cause, e)) := by
  obtain ⟨store, lockFile, _ | ⟨_ | cause, rest⟩⟩ := d
  · exact ⟨_, .refl _, Or.inl rfl⟩
  · exact ⟨⟨store, lockFile, rest⟩, ⟨rfl, List.suffix_cons _ rest⟩, Or.inl rfl⟩
  · exact ⟨⟨store, lockFile, rest⟩, ⟨rfl, List.suffix_cons _ rest⟩,
      Or.inr ⟨cause, ⟨[some cause], rfl, List.mem_singleton_self _⟩, rfl⟩⟩

/-- What becomes of an operation on the disk that is to give an answer. -/
structure Answered (d : Disk) (answer : Except GroupError α) (o : Except GroupError α × Disk) :
    Prop where
  kept : Kept d o.2
  answered : o.1 = answer ∨
    ∃ path cause, d.Refused o.2 cause ∧ o.1 = .error (.storage path cause)

theorem takeLock_answered (cfg : Storage) (d : Disk) : Answered d (.ok ()) (takeLock cfg d) := by
  obtain ⟨e, hkept, haccess | ⟨cause, hrefused, haccess⟩⟩ := access_cases d
  · simp only [takeLock, haccess]
    exact ⟨⟨hkept.store, hkept.refusals⟩, Or.inl rfl⟩
  · simp only [takeLock, haccess]
    exact ⟨hkept, Or.inr ⟨_, cause, hrefused, rfl⟩⟩

theorem load_answered (cfg : Storage) (d : Disk) : Answered d (d.content cfg) (load cfg d) := by
  unfold content load
  cases hstore : d.store with
  | missing => exact ⟨.refl d, Or.inl rfl⟩
  | folder => exact ⟨.refl d, Or.inl rfl⟩
  | file octets =>
      obtain ⟨e, hkept, haccess | ⟨cause, hrefused, haccess⟩⟩ := access_cases d
      · simp only [haccess]
        exact ⟨hkept, Or.inl rfl⟩
      · simp only [haccess]
        exact ⟨hkept, Or.inr ⟨_, cause, hrefused, rfl⟩⟩

end Disk

theorem Site.Steady.of_store {s : Site} {d : Disk} (h : d.store = s.disk.store) :
    s.Steady cfg { s with disk := d } where
  store := h
  content := by
    simp only [Site.content, Disk.content_congr cfg h]
  slot := Or.inl rfl

theorem Site.Kept.of_disk {s : Site} {d : Disk} (h : Disk.Kept s.disk d) :
    s.Kept cfg { s with disk := d } :=
  ⟨.of_store h.store, rfl, h.refusals⟩

/-! ## Acquisitions -/

namespace Acquisition

theorem exclude_answered (cfg : Storage) (s : Site) : s.Answered cfg (.ok ()) ((exclude cfg).run s) ∧
    ((exclude cfg).run s).2.slot = s.slot := by
  unfold exclude
  split
  · have h := Disk.takeLock_answered cfg s.disk
    rw [run_onDisk]
    exact ⟨⟨.of_disk h.kept, h.answered⟩, rfl⟩
  · exact ⟨⟨.refl s, Or.inl rfl⟩, rfl⟩

/-- Filling the slot of an instance that does not go by it. -/
theorem load_answered {s : Site} (h : ¬ (cfg.isDurable = false ∧ s.slot.loaded = true)) :
    s.Answered cfg ((s.content cfg).map fun _ => ()) ((load cfg).run s) ∧
      ∀ t, (load cfg).run s = (.ok (), t) → s.content cfg = .ok t.slot.database ∧
        t.slot.loaded = true := by
  have hload := Disk.load_answered cfg s.disk
  have hcontent := Disk.content_congr cfg hload.kept.store
  have hs : s.content cfg = s.disk.content cfg := if_neg h
  unfold load
  rw [run_bind, run_onDisk, hs]
  rcases hanswer : Disk.load cfg s.disk with ⟨e | db, d⟩ <;> rw [hanswer] at hload hcontent
  · refine ⟨⟨⟨⟨hload.kept.store, ?_, Or.inl rfl⟩, rfl, hload.kept.refusals⟩, ?_⟩, fun t ht => ?_⟩
    · rw [hs, ← hcontent]
      exact if_neg h
    · refine hload.answered.imp (fun herror => ?_) fun ⟨path, cause, hrefused, herror⟩ => ?_
      · rw [← herror]
        rfl
      · rw [Except.error.injEq] at herror
        subst herror
        exact ⟨path, cause, hrefused, rfl⟩
    · cases ht
  · have hdb : s.disk.content cfg = .ok db := by
      rcases hload.answered with hok | ⟨_, _, -, herror⟩
      · exact hok.symm
      · cases herror
    rw [hdb] at hs hcontent ⊢
    refine ⟨⟨⟨⟨hload.kept.store, ?_, Or.inr ⟨db, hs, rfl⟩⟩, rfl, hload.kept.refusals⟩, Or.inl rfl⟩,
      fun t ht => ?_⟩
    · rw [hs]
      show ite _ (Except.ok db) (d.content cfg) = _
      rw [hcontent, ite_self]
    · cases ht
      exact ⟨rfl, rfl⟩

theorem loadOnce_loaded {s : Site} {db : Database} (hprocess : cfg.isDurable = false)
    (hcontent : s.content cfg = .ok db) (hquiet : s.disk.refusals = []) :
    ∃ t, (loadOnce cfg).run s = (.ok (), t) ∧ t.slot.loaded = true := by
  have hrun : (loadOnce cfg).run s = if s.slot.loaded then (.ok (), s) else (load cfg).run s := by
    cases hloaded : s.slot.loaded <;> simp [loadOnce, exclude, hprocess, hloaded, run_bind]
  rw [hrun]
  cases hloaded : s.slot.loaded with
  | true => exact ⟨s, rfl, hloaded⟩
  | false =>
      have hunknown : ¬ (cfg.isDurable = false ∧ s.slot.loaded = true) := by simp [hloaded]
      obtain ⟨hload, hslot⟩ := load_answered hunknown
      have hok := Outcome.eq_of_fst (hload.of_quiet hquiet)
      rw [hcontent] at hok
      exact ⟨_, hok, (hslot _ hok).2⟩

/-- The slot that is filled, unless the instance goes by it already, holds the content. -/
theorem fill_answered (cfg : Storage) (s : Site) :
    let filled := (if (cfg.isDurable || !s.slot.loaded) = true then do load cfg; database
      else database : Acquisition Database).run s
    s.Answered cfg (s.content cfg) filled ∧
      ∀ db t, filled = (.ok db, t) → t.slot = ⟨true, db⟩ := by
  by_cases hknown : cfg.isDurable = false ∧ s.slot.loaded = true
  · have hcontent : s.content cfg = .ok s.slot.database := if_pos hknown
    simp only [hknown.1, hknown.2, hcontent, Bool.not_true, Bool.or_self, Bool.false_eq_true,
      if_false, run_database]
    refine ⟨.pure (.refl s) _, fun db t ht => ?_⟩
    cases ht
    rw [← hknown.2]
  · have hfill : (cfg.isDurable || !s.slot.loaded) = true := by
      cases hdurable : cfg.isDurable <;> simp_all
    obtain ⟨hload, hslot⟩ := load_answered hknown
    have hanswer : s.content cfg = (s.content cfg).map (fun _ => ()) >>= fun _ => s.content cfg := by
      cases s.content cfg <;> rfl
    rw [if_pos hfill, run_bind]
    constructor
    · rw [hanswer]
      refine hload.bind _ fun _ hok _ => ?_
      obtain ⟨hcontent, -⟩ := hslot _ (Prod.ext hok rfl)
      rw [run_database, hcontent]
      exact .pure (.refl _) _
    · intro db t ht
      rcases hrun : (load cfg).run s with ⟨e | _, u⟩ <;> rw [hrun] at ht
      · cases ht
      · obtain ⟨-, hloaded⟩ := hslot u hrun
        rw [Outcome.andThen_ok, run_database] at ht
        cases ht
        rw [← hloaded]

theorem openExclusive_answered (cfg : Storage) (s : Site) :
    s.Answered cfg (s.content cfg) ((openExclusive cfg).run s) ∧
      ∀ db t, (openExclusive cfg).run s = (.ok db, t) → t.slot = ⟨true, db⟩ := by
  obtain ⟨hexclude, -⟩ := exclude_answered cfg s
  unfold openExclusive
  simp only [run_bind, run_get, Outcome.andThen_ok]
  constructor
  · refine hexclude.bind (fun _ => s.content cfg) fun _ _ _ => ?_
    rw [← hexclude.kept.content]
    exact (fill_answered cfg _).1
  · intro db t ht
    rcases hrun : (exclude cfg).run s with ⟨e | _, u⟩ <;> rw [hrun] at ht
    · cases ht
    · exact (fill_answered cfg u).2 db t ht

end Acquisition

/-! ## Reading work -/

/-- The work only reads, and `answer` is how it answers the content `c`. -/
def Work.Reads (cfg : Storage) (c : Except GroupError Database) (w : Work α)
    (answer : Except GroupError α) : Prop :=
  ∀ s : Site, s.content cfg = c → s.Answered cfg answer (w.outcome s)

namespace Work.Reads

variable {c : Except GroupError Database}

theorem pure (a : α) : Reads cfg c (Pure.pure a) (.ok a) := by
  intro s _
  exact Site.Answered.pure (.refl s) (.ok a)

theorem throw (e : GroupError) : Reads cfg c (MonadExcept.throw e : Work α) (.error e) := by
  intro s _
  exact Site.Answered.pure (.refl s) (.error e)

theorem bind {w : Work α} {next : α → Work β} {answer : Except GroupError α}
    {answers : α → Except GroupError β} (hw : Reads cfg c w answer)
    (hnext : ∀ a, Reads cfg c (next a) (answers a)) :
    Reads cfg c (w >>= next) (answer >>= answers) := by
  intro s hs
  rw [outcome_bind]
  refine (hw s hs).bind answers fun a _ _ => hnext a _ ?_
  rw [(hw s hs).kept.content, hs]

/-- Work after work that answers is done with that answer only. -/
theorem bind_ok {w : Work α} {next : α → Work β} {a : α} {answer : Except GroupError β}
    (hw : Reads cfg c w (.ok a)) (hnext : Reads cfg c (next a) answer) :
    Reads cfg c (w >>= next) answer := by
  intro s hs
  rw [outcome_bind]
  refine (hw s hs).bind (fun _ => answer) fun a' _ ha => ?_
  obtain rfl := Except.ok.inj ha
  refine hnext _ ?_
  rw [(hw s hs).kept.content, hs]

theorem monadLift (x : Except GroupError α) : Reads cfg c (MonadLift.monadLift x : Work α) x := by
  intro s _
  rw [outcome_monadLift]
  exact Site.Answered.pure (.refl s) x

theorem eq_ok {w : Work α} {answer : Except GroupError α} {s t : Site} {a : α}
    (h : Reads cfg (s.content cfg) w answer) (hok : w.outcome s = (.ok a, t)) : answer = .ok a := by
  have hanswer := h s rfl
  rw [hok] at hanswer
  exact hanswer.eq_ok

theorem fst_eq {w : Work α} {answer : Except GroupError α} {s : Site}
    (h : Reads cfg (s.content cfg) w answer) (hquiet : s.disk.refusals = []) :
    (w.outcome s).1 = answer :=
  (h s rfl).of_quiet hquiet

end Work.Reads

namespace Store

open Acquisition

/-- A shared acquisition finds what an exclusive one would. -/
theorem outcome_snapshot (s : Site) :
    (snapshot cfg).outcome s = (openExclusive cfg).run s := by
  unfold snapshot
  cases hdurable : cfg.isDurable with
  | true =>
      have hslot := (openExclusive_answered cfg s).2
      simp only [if_true, Work.outcome_bind, Work.outcome_discard, Work.outcome_asWork]
      rcases hopen : (openExclusive cfg).run s with ⟨e | db, t⟩
      · rfl
      · simp [Except.map, hslot db t hopen]
  | false =>
      cases hloaded : s.slot.loaded <;>
        simp [openExclusive, loadOnce, exclude, hdurable, hloaded, Work.outcome_bind, run_bind]

section

variable {c : Except GroupError Database}

theorem snapshot_reads : Work.Reads cfg c (snapshot cfg) c := by
  intro s hs
  rw [outcome_snapshot, ← hs]
  exact (openExclusive_answered cfg s).1

theorem byId_reads (id : Nat) : Work.Reads cfg c (byId cfg id) (c >>= fun db => db.byId id) :=
  snapshot_reads.bind fun db => .monadLift (db.byId id)

theorem list_reads : Work.Reads cfg c (list cfg) (c >>= fun db => .ok db.list) :=
  snapshot_reads.bind fun db => .pure db.list

end

end Store

end AssetGroups
