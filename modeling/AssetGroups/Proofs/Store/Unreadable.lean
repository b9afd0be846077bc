import AssetGroups.Proofs.Guarantee
import AssetGroups.Proofs.Job.Removal
import AssetGroups.Proofs.Store.Refinement

/-!
# Stores that cannot be read

As long as an instance finds no content, none of its operations takes anything for the content: each
fails and leaves everything as it is, so that the next one finds no content either.
-/

namespace AssetGroups

variable {α : Type} {cfg : Storage} {s t : Site} {db : Database}

/-- The instance finds no content. -/
def Site.Unreadable (cfg : Storage) (s : Site) : Prop := ∃ e, s.content cfg = .error e

theorem Site.Unreadable.steady (h : s.Unreadable cfg) (hsteady : s.Steady cfg t) :
    t.Unreadable cfg := by
  obtain ⟨e, he⟩ := h
  exact ⟨e, hsteady.content.trans he⟩

/-- What an instance that goes by its slot has there can be found. -/
theorem Site.Unreadable.unknown (h : s.Unreadable cfg) :
    ¬ (cfg.isDurable = false ∧ s.slot.loaded = true) := by
  obtain ⟨e, he⟩ := h
  intro hknown
  rw [Site.content, if_pos hknown] at he
  cases he

theorem Site.Answered.unread {r : Except GroupError α} {o : Outcome α} (h : s.Answered cfg r o)
    {e : GroupError} (hr : r = .error e) :
    s.Kept cfg o.2 ∧ Work.Ends (fun _ => False) (fun _ => True) o.1 := by
  refine ⟨h.kept, ?_⟩
  rcases h.answered with hanswer | ⟨path, cause, -, hanswer⟩
  · rw [hanswer, hr]
    trivial
  · rw [hanswer]
    trivial

/-! ## Acquisitions -/

namespace Acquisition

theorem openExclusive_unread (h : s.Unreadable cfg) : s.Kept cfg ((openExclusive cfg).run s).2 ∧
    Work.Ends (fun _ => False) (fun _ => True) ((openExclusive cfg).run s).1 := by
  obtain ⟨e, he⟩ := h
  exact (openExclusive_answered cfg s).1.unread he

theorem loadOnce_unread (hprocess : cfg.isDurable = false) (h : s.Unreadable cfg) :
    s.Kept cfg ((loadOnce cfg).run s).2 ∧
      Work.Ends (fun _ => False) (fun _ => True) ((loadOnce cfg).run s).1 := by
  have hloaded : s.slot.loaded = false := by simpa [hprocess] using h.unknown
  have hrun : (loadOnce cfg).run s = (load cfg).run s := by
    simp [loadOnce, exclude, hprocess, hloaded, run_bind]
  obtain ⟨e, he⟩ := id h
  rw [hrun]
  exact (load_answered h.unknown).1.unread (e := e) (by rw [he]; rfl)

/-- What such a change fails with does not look like the text of a success. -/
theorem change_unread (h : s.Unreadable cfg)
    (f : Database → Except GroupError (α × Database)) : s.Kept cfg ((change cfg f).run s).2 ∧
    Work.Ends (fun _ => False) (fun e => e.message ≠ "Ok") ((change cfg f).run s).1 := by
  obtain ⟨e, he⟩ := h
  rcases change_cases cfg f s with
    ⟨e', t, hrun, hkept, hfails | ⟨path, cause, -, rfl⟩⟩ | ⟨a, t, db, db', -, -, hchanged⟩
  · rw [he] at hfails
    cases hfails
    rw [hrun]
    exact ⟨hkept, Site.content_ne_ok he⟩
  · rw [hrun]
    exact ⟨hkept, GroupError.storage_ne_ok path cause⟩
  · rw [hchanged.content] at he
    cases he

end Acquisition

/-! ## Operations -/

/-- The work fails, and none of its steps changes anything, wherever no content is found. -/
def Work.FailsUnread (cfg : Storage) (w : Work α) : Prop :=
  w.Guarantees (Site.Unreadable cfg) (Site.Kept cfg) (fun _ => False) fun _ => True

theorem Work.FailsUnread.guarantees {w : Work α} (h : w.FailsUnread cfg) (Q : α → Prop) :
    w.Guarantees (Site.Unreadable cfg) (Site.Kept cfg) Q fun _ => True :=
  h.mono (fun _ => False.elim) fun _ he => he

theorem Work.FailsUnread.bind {β : Type} {w : Work α} {f : α → Work β} (h : w.FailsUnread cfg) :
    (w >>= f).FailsUnread cfg :=
  Work.Guarantees.bind h fun _ => False.elim

theorem Work.FailsUnread.map {β : Type} {w : Work α} {f : α → β} (h : w.FailsUnread cfg) :
    (f <$> w).FailsUnread cfg :=
  Work.Guarantees.map h fun _ => False.elim

namespace Store

open Acquisition

theorem change_unread (f : Database → Except GroupError (α × Database)) :
    (change cfg f).FailsUnread cfg :=
  (Work.Guarantees.asWork fun _ hs => Acquisition.change_unread hs f).mono (fun _ hfalse => hfalse)
    fun _ _ => trivial

theorem snapshot_unread : (snapshot cfg).FailsUnread cfg := by
  unfold snapshot
  cases hdurable : cfg.isDurable with
  | true =>
      have hopen : Work.FailsUnread cfg (openExclusive cfg).asWork :=
        .asWork fun s hs => openExclusive_unread hs
      exact hopen.map.bind
  | false =>
      refine Work.Guarantees.bind (Q := fun known => known = none) (.asWork fun s hs => ?_) ?_
      · have hloaded : s.slot.loaded = false := by simpa [hdurable] using hs.unknown
        simp only [run_known?, hloaded]
        exact ⟨.refl s, rfl⟩
      · rintro _ rfl
        have hload : Work.FailsUnread cfg (loadOnce cfg).asWork :=
          .asWork fun s hs => loadOnce_unread hdurable hs
        exact hload.bind

theorem Operation.work_unread (op : Operation) : (op.work cfg).FailsUnread cfg := by
  cases op with
  | save | saveUnique | remove | clear => exact (Store.change_unread _).map
  | byId | byName | names | ids | list => exact snapshot_unread.bind.map

/-! ## When the content can be read again -/

/-- An instance that finds a content answers as a single store does that holds it. -/
theorem Operation.fst_of_content (op : Operation) (hcontent : s.content cfg = .ok db)
    (hquiet : s.disk.refusals = []) (hfile : s.disk.store ≠ .folder) :
    ((op.work cfg).outcome s).1 = (op.apply db).1 := by
  cases hchanges : op.changes with
  | false =>
      have hreads : Work.Reads cfg (s.content cfg) (op.work cfg)
          (s.content cfg >>= fun db => (op.plain db).map Prod.fst) := by
        rw [op.work_reads cfg hchanges]
        exact snapshot_reads.bind fun db => .monadLift _
      rw [hreads.fst_eq hquiet, hcontent]
      show (op.plain db).map Prod.fst = _
      rcases hplain : op.plain db with e | ⟨a, db'⟩
      · rw [Operation.apply_error hplain]
        rfl
      · rw [Operation.apply_ok hplain]
        rfl
  | true =>
      obtain ⟨f, hrun, hacts⟩ := op.run_changes cfg hchanges
      have hact := hacts s
      rw [Work.outcome, hrun, Script.run_once]
      generalize (f s).1 = r at hact ⊢
      cases hact with
      | changed hplain h =>
          obtain rfl := Except.ok.inj (h.content.symm.trans hcontent)
          rw [Operation.apply_ok hplain]
      | failed herror _ =>
          rw [hcontent] at herror
          rw [Operation.apply_error herror]
      | refused hdisk _ =>
          rcases hdisk with hrefused | hfolder
          · exact absurd hquiet hrefused.not_quiet
          · exact absurd hfolder hfile

end Store

end AssetGroups
