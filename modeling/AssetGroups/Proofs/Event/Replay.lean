import AssetGroups.Event
import AssetGroups.Proofs.Store.Sound

/-!
# Events replayed

Whoever follows the events from the first one on has the ids of the stored groups, as long as every change
of the content is announced before the next one is made.
-/

namespace AssetGroups

namespace Event

/-- What becomes of a list of ids when the event is followed. -/
def follow (ids : List Nat) (e : Event) : List Nat :=
  match e.subject with
  | .created => ids ++ [e.id]
  | .updated => ids
  | .deleted => ids.filter (· != e.id)

/-- The ids that the events, oldest first, lead to. -/
def replay (es : List Event) : List Nat := es.foldl follow []

/-- Whether the event may come after others: a group is announced as created once, and as updated or
deleted only while it is there. -/
def Fits (es : List Event) (e : Event) : Prop :=
  match e.subject with
  | .created => ∀ e' ∈ es, e'.id ≠ e.id
  | .updated => e.id ∈ replay es
  | .deleted => e.id ∈ replay es

def Orderly (es : List Event) : Prop :=
  ∀ before e after, es = before ++ e :: after → Fits before e

variable {es rest : List Event} {e : Event}

theorem replay_concat : replay (es ++ [e]) = follow (replay es) e := by
  rw [replay, List.foldl_concat]
  rfl

theorem Orderly.of_append (h : Orderly (es ++ rest)) : Orderly es := by
  intro before e after hes
  refine h before e (after ++ rest) ?_
  rw [hes, List.append_assoc, List.cons_append]

theorem Orderly.concat (h : Orderly es) (hfits : Fits es e) : Orderly (es ++ [e]) := by
  intro before e' after hes
  rcases List.eq_nil_or_concat after with rfl | ⟨after, last, rfl⟩
  · obtain ⟨rfl, hlast⟩ := List.append_inj' hes rfl
    obtain rfl := List.singleton_inj.mp hlast
    exact hfits
  · rw [List.concat_eq_append, ← List.cons_append, ← List.append_assoc] at hes
    exact h before e' after (List.append_inj_left' hes rfl)

end Event

/-! ## Contents and events -/

namespace Database

/-- What there is to announce about the content that was put in the place of another one. -/
inductive Tells (db db' : Database) : Event → Prop where
  | created {g stored : Group} (hid : g.id = none) (hsave : db.saveUnique g = .ok (stored, db')) :
      Tells db db' ⟨.created, db.lastId + 1⟩
  | updated {g stored : Group} {id : Nat} (hid : g.id = some id)
      (hsave : db.saveUnique g = .ok (stored, db')) : Tells db db' ⟨.updated, id⟩
  | deleted {id : Nat} (hremove : db.remove id = .ok db') : Tells db db' ⟨.deleted, id⟩

theorem mem_ids_of_byId? {db : Database} {id : Nat} {g : Group} (h : db.byId? id = some g) :
    id ∈ db.ids :=
  mem_ids.mpr ⟨g, List.mem_of_find?_eq_some h, id_of_byId? h⟩

theorem mem_ids_of_remove {db db' : Database} {id : Nat} (h : db.remove id = .ok db') : id ∈ db.ids := by
  unfold remove at h
  cases hfound : db.byId? id with
  | none => simp [hfound] at h
  | some g => exact mem_ids_of_byId? hfound

theorem ids_filter (db : Database) (id : Nat) :
    ids { db with groups := db.groups.filter (·.id != some id) } = db.ids.filter (· != id) := by
  rw [ids, ids, List.filterMap_filter, List.filter_filterMap]
  refine List.filterMap_congr fun g _ => ?_
  cases g.id with
  | none => simp
  | some other => by_cases hother : other = id <;> simp [Option.filter, hother]

namespace Tells

variable {db db' : Database} {e : Event}

theorem ids_eq (h : db.Tells db' e) : db'.ids = Event.follow db.ids e := by
  cases h with
  | created hid hsave =>
      rcases (saveUnique_cases hsave).2 with ⟨-, rfl, rfl⟩ | ⟨_, _, hid', -⟩
      · simp [ids, Event.follow]
      · rw [hid] at hid'
        cases hid'
  | updated hid hsave =>
      rcases (saveUnique_cases hsave).2 with ⟨hid', -⟩ | ⟨_, _, hid', -, rfl, rfl⟩
      · rw [hid] at hid'
        cases hid'
      · exact ids_replaceFirst db hid'
  | deleted hremove =>
      rw [remove_ok hremove]
      exact ids_filter db _

/-- A group is announced as created under the next id, and otherwise under an id that is there. -/
theorem id_cases (h : db.Tells db' e) :
    (e.subject = .created ∧ e.id = db.lastId + 1 ∧ db'.lastId = e.id) ∨
      (e.subject ≠ .created ∧ e.id ∈ db.ids ∧ db'.lastId = db.lastId) := by
  cases h with
  | created hid hsave =>
      rcases (saveUnique_cases hsave).2 with ⟨-, -, rfl⟩ | ⟨_, _, hid', -⟩
      · exact Or.inl ⟨rfl, rfl, rfl⟩
      · rw [hid] at hid'
        cases hid'
  | updated hid hsave =>
      rcases (saveUnique_cases hsave).2 with ⟨hid', -⟩ | ⟨_, _, hid', hold, -, rfl⟩
      · rw [hid] at hid'
        cases hid'
      · obtain rfl := Option.some.inj (hid.symm.trans hid')
        exact Or.inr ⟨by simp, mem_ids_of_byId? hold, rfl⟩
  | deleted hremove =>
      rw [remove_ok hremove]
      exact Or.inr ⟨by simp, mem_ids_of_remove hremove, rfl⟩

theorem fits (h : db.Tells db' e) {es : List Event} (hreplayed : Event.replay es = db.ids)
    (hknown : ∀ e ∈ es, e.id ≤ db.lastId) : Event.Fits es e := by
  unfold Event.Fits
  rcases h.id_cases with ⟨hsubject, hid, -⟩ | ⟨hsubject, hid, -⟩
  · rw [hsubject]
    intro e' he' hsame
    have := hknown e' he'
    omega
  · rw [← hreplayed] at hid
    cases hcase : e.subject with
    | created => exact absurd hcase hsubject
    | updated => exact hid
    | deleted => exact hid

theorem countsOn (h : db.Tells db' e) : db.CountsOn db' := by
  cases h with
  | created _ hsave => exact saveUnique_countsOn hsave
  | updated _ hsave => exact saveUnique_countsOn hsave
  | deleted hremove => exact remove_countsOn hremove

theorem id_le (h : db.Tells db' e) (hbounded : db.Bounded) : e.id ≤ db'.lastId := by
  rcases h.id_cases with ⟨-, -, hlast⟩ | ⟨-, hid, hlast⟩
  · exact Nat.le_of_eq hlast.symm
  · exact hlast ▸ hbounded e.id hid

end Tells

/-- The events tell how the content came about. -/
structure Told (db : Database) (es : List Event) : Prop where
  orderly : Event.Orderly es
  replayed : Event.replay es = db.ids
  known : ∀ e ∈ es, e.id ≤ db.lastId
  bounded : db.Bounded

theorem told_nil : Told {} [] where
  orderly before e after h := by cases before <;> cases h
  replayed := rfl
  known := by simp
  bounded := by simp [Bounded, ids]

theorem Told.concat {es : List Event} {db db' : Database} {e : Event} (h : db.Told es)
    (htells : db.Tells db' e) : db'.Told (es ++ [e]) where
  orderly := h.orderly.concat (htells.fits h.replayed h.known)
  replayed := by rw [Event.replay_concat, h.replayed, htells.ids_eq]
  known := by
    intro e' he'
    rcases List.mem_append.mp he' with he' | he'
    · exact Nat.le_trans (h.known e' he') htells.countsOn.lastId_le
    · rw [List.mem_singleton.mp he']
      exact htells.id_le h.bounded
  bounded := h.bounded.countsOn htells.countsOn

end Database

/-! ## Contents and events side by side -/

/-- A content, what is still to be announced about it, and what was announced. -/
structure Ledger where
  content : Database := {}
  owed : Option Event := none
  announced : List Event := []

/-- Nothing happens, the content is replaced, or its replacement is announced. A content of which this is
still to be done is not replaced again. -/
inductive Ledger.Step (l : Ledger) : Ledger → Prop where
  | still : Step l l
  | changed {db : Database} {e : Event} (howed : l.owed = none) (htells : l.content.Tells db e) :
      Step l ⟨db, some e, l.announced⟩
  | published {e : Event} (howed : l.owed = some e) : Step l ⟨l.content, none, l.announced ++ [e]⟩

/-- What was announced, and then what is still to be, tell how the content came about. -/
def Ledger.Told (l : Ledger) : Prop := l.content.Told (l.announced ++ l.owed.toList)

theorem Ledger.Step.told {l l' : Ledger} (h : l.Step l') (htold : l.Told) : l'.Told := by
  unfold Ledger.Told at htold ⊢
  cases h with
  | still => exact htold
  | changed howed htells =>
      rw [howed, Option.toList_none, List.append_nil] at htold
      exact htold.concat htells
  | published howed =>
      rw [howed, Option.toList_some] at htold
      simpa using htold

end AssetGroups
