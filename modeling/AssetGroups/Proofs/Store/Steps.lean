import AssetGroups.Proofs.Script
import AssetGroups.Proofs.Store.Change

/-!
# What the operations of a store do to a site

Each acquisition leaves what others could see as it is, or puts a new content in the place of the one
that it found. Which contents may follow one another is up to those who use the store.
-/

namespace AssetGroups

variable {α : Type} {cfg : Storage} {R : Site → Site → Prop} {s t : Site} {db : Database}

/-! ## Acquisitions -/

theorem Acquisition.loadOnce_kept (cfg : Storage) (s : Site) :
    s.Kept cfg ((Acquisition.loadOnce cfg).run s).2 := by
  obtain ⟨hexclude, -⟩ := Acquisition.exclude_answered cfg s
  unfold Acquisition.loadOnce
  simp only [Acquisition.run_bind]
  rcases hrun : (Acquisition.exclude cfg).run s with ⟨e | _, t⟩ <;> rw [hrun] at hexclude
  · exact hexclude.kept
  · refine hexclude.kept.trans ?_
    cases hloaded : t.slot.loaded with
    | true =>
        simp only [Outcome.andThen_ok, Acquisition.run_get, hloaded]
        exact .refl t
    | false =>
        have hunknown : ¬ (cfg.isDurable = false ∧ t.slot.loaded = true) := by simp [hloaded]
        simp only [Outcome.andThen_ok, Acquisition.run_get, hloaded]
        exact (Acquisition.load_answered hunknown).1.kept

/-! ## Work that reads -/

/-- What holds of every acquisition that leaves everything as it is, and of whatever is put together
from work of which it holds. -/
structure Work.Closed (cfg : Storage) (P : (α : Type) → Work α → Prop) : Prop where
  pure {α : Type} (a : α) : P α (Pure.pure a)
  throw {α : Type} (e : GroupError) : P α (MonadExcept.throw e)
  bind {α β : Type} {w : Work α} {f : α → Work β} : P α w → (∀ a, P β (f a)) → P β (w >>= f)
  kept {α : Type} {a : Acquisition α} : (∀ s : Site, s.Kept cfg (a.run s).2) → P α a.asWork

namespace Work.Closed

variable {P : (α : Type) → Work α → Prop} (h : Work.Closed cfg P)
include h

theorem map {β : Type} {w : Work α} (hw : P α w) (f : α → β) : P β (f <$> w) := by
  rw [map_eq_pure_bind]
  exact h.bind hw fun a => h.pure (f a)

theorem monadLift (x : Except GroupError α) : P α (MonadLift.monadLift x) := by
  cases x with
  | error e => exact h.throw e
  | ok a => exact h.pure a

theorem snapshot : P _ (Store.snapshot cfg) := by
  have hknown : P _ Acquisition.known?.asWork := h.kept fun s => .refl s
  have hload : P Database (do (Acquisition.loadOnce cfg).asWork; Acquisition.database.asWork) :=
    h.bind (h.kept (Acquisition.loadOnce_kept cfg)) fun _ => h.kept fun s => .refl s
  unfold Store.snapshot
  split
  on_goal 1 =>
    refine h.bind (h.map (h.kept fun s => ?_) _) fun _ => ?_
    · exact (Acquisition.openExclusive_answered cfg s).1.kept
  all_goals
    refine h.bind hknown fun slot? => ?_
    cases slot? with
    | some db => exact h.pure db
    | none => exact hload

theorem byId (id : Nat) : P _ (Store.byId cfg id) :=
  h.bind h.snapshot fun db => h.monadLift (db.byId id)

theorem list : P _ (Store.list cfg) := h.bind h.snapshot fun db => h.pure db.list

end Work.Closed

theorem Work.within_closed (hkept : ∀ s t, s.Kept cfg t → R s t) :
    Work.Closed cfg fun _ w => w.Within R where
  pure := .pure
  throw := .throw
  bind := .bind
  kept h := .asWork fun s => hkept s _ (h s)

/-! ## Operations -/

namespace Store

section

variable (hkept : ∀ s t, s.Kept cfg t → R s t)
include hkept

theorem snapshot_within : (snapshot cfg).Within R := (Work.within_closed hkept).snapshot

theorem change_within {f : Database → Except GroupError (α × Database)}
    (hchanged : ∀ s t db db' a, f db = .ok (a, db') → s.Changed cfg t db db' → R s t) :
    (change cfg f).Within R := by
  refine .asWork fun s => ?_
  rcases Acquisition.change_cases cfg f s with ⟨e, t, hrun, h, -⟩ | ⟨a, t, db, db', hrun, hdb, h⟩
  · rw [hrun]
    exact hkept s t h
  · rw [hrun]
    exact hchanged s t db db' a hdb h

end

/-- A change that was made took one step. -/
theorem change_answers {f : Database → Except GroupError (α × Database)} {steps : List (Site × Site)}
    {a : α} (h : (change cfg f).Answers steps (.ok a)) :
    ∃ s t db db', steps = [(s, t)] ∧ f db = .ok (a, db') ∧ s.Changed cfg t db db' := by
  obtain ⟨s, rfl, ha⟩ := Work.answers_asWork.mp h
  obtain ⟨db, db', hf, hchanged⟩ := Store.change_ok (Outcome.eq_of_fst ha)
  exact ⟨s, _, db, db', rfl, hf, hchanged⟩

end Store

/-! ## Steps -/

/-- What a step that uses the store does, when a content may only be followed by some. -/
inductive Site.Step (cfg : Storage) (allowed : Database → Database → Prop) (s t : Site) : Prop where
  | kept (h : s.Kept cfg t)
  | published (e : Event) (h : t = { s with feed := s.feed.publish e })
  | changed {db db' : Database} (hallowed : allowed db db') (h : s.Changed cfg t db db')

namespace Site

variable {allowed : Database → Database → Prop}

/-- A step leaves the content as it is or replaces it by one that is allowed. -/
theorem Step.holds {first : Entry} (h : s.Step cfg allowed t) (hholds : s.Holds cfg db first)
    (hfits : db.Fits) : s.Steady cfg t ∧ t.Holds cfg db first ∨
      ∃ db', s.Changed cfg t db db' ∧ allowed db db' ∧ t.Holds cfg db' first := by
  rcases h with hkept | ⟨e, rfl⟩ | ⟨hallowed, hchanged⟩
  · exact Or.inl ⟨hkept.toSteady, hholds.steady hfits hkept.toSteady⟩
  · exact Or.inl ⟨⟨rfl, rfl, Or.inl rfl⟩, hholds.store, hholds.slot⟩
  · obtain rfl := hholds.eq_of_content hfits hchanged.content
    exact Or.inr ⟨_, hchanged, hallowed, hchanged.holds⟩

/-- The store of the site holds a sound content. -/
def Sound (cfg : Storage) (s : Site) : Prop := ∃ db : Database, db.Sound ∧ s.Holds cfg db

theorem Sound.kept (h : s.Sound cfg) (hkept : s.Kept cfg t) : t.Sound cfg := by
  obtain ⟨db, hsound, hholds⟩ := h
  exact ⟨db, hsound, hholds.steady hsound.fits hkept.toSteady⟩

end Site

end AssetGroups
