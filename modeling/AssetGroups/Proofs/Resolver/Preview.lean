import AssetGroups.Proofs.Job.Persistence
import AssetGroups.Proofs.Resolver.Theorems

/-!
# Previews

A group that was resolved before it was stored is resolved as before by the id that it got, as long as
its references are not nested too deeply. The id takes a place on the trail that was empty for the
preview, so that a preview follows one reference more.
-/

namespace AssetGroups

/-! ## Resolution with less allowance -/

/-- Whatever `x` answers is answered by `y`, unless `y` may fail because references are nested too
deeply, and does. -/
def Deepens (mayFail : Prop) (limit : Nat) {α : Type} (x y : Except GroupError α) : Prop :=
  ∀ a, x = .ok a → y = .ok a ∨ mayFail ∧ y = .error (.tooDeep limit)

theorem deepens_simulates (mayFail : Prop) (limit : Nat) :
    Simulates (m := Except GroupError) (n := Except GroupError)
      fun _ => Deepens mayFail limit where
  pure _ _ h := Or.inl h
  throw _ _ h := by cases h
  bind := by
    intro _ _ x y f g hxy hfg b hb
    obtain ⟨a, hx, hf⟩ := bind_eq_ok.mp hb
    rcases hxy a hx with rfl | ⟨hmay, rfl⟩
    · exact hfg a b hf
    · exact Or.inr ⟨hmay, rfl⟩

namespace Resolver

variable {r : Resolver} {lookup lookup' : Nat → Except GroupError Group} {new : Nat}

/-- A trail that begins with the id of a group that no reference leads to. The induction is on the
number of references that may still follow one another. -/
theorem follow_deepens (hlookup : ∀ id g, lookup id = .ok g → id ≠ new ∧ lookup' id = .ok g)
    {a b : Nat} (hle : b ≤ a) (trail : List Nat) (value : String) :
    Deepens (b < a) r.maxDepth (follow r lookup a trail value)
      (follow r lookup' b (new :: trail) value) := by
  induction b generalizing a trail value with
  | zero =>
      intro s hs
      obtain ⟨id, g, left, hid, hmem, rfl, hg, -⟩ := follow_ok.mp hs
      refine Or.inr ⟨left.succ_pos, ?_⟩
      rw [follow]
      simp [hid, hmem, (hlookup id g hg).1]
  | succ b ih =>
      intro s hs
      obtain ⟨id, g, left, hid, hmem, rfl, hg, hcompile⟩ := follow_ok.mp hs
      obtain ⟨hne, hg'⟩ := hlookup id g hg
      have hrules := compile_simulates (deepens_simulates (b < left) r.maxDepth)
        (ih (Nat.le_of_succ_le_succ hle) (trail ++ [id])) g.rules.toRule s hcompile
      rw [follow]
      simp only [hid, List.contains_eq_mem, List.mem_cons, hne, hmem, or_self, decide_false,
        Bool.false_eq_true, if_false, hg', Nat.succ_lt_succ_iff]
      exact hrules

variable {stored? : Nat → Option Group} {g : Group} {found : List Inventory.AssetRef}

/-- What was found below an empty trail is found by the new id exactly when no chain of references that
begins with it is longer than the limit. -/
theorem resolveId_new (hlookup : ∀ id g, lookup id = .ok g → id ≠ new ∧ lookup' id = .ok g)
    (hstored : ∀ id g, lookup' id = .ok g ↔ stored? id = some g) (hg : lookup' new = .ok g)
    (hid : g.id = some new) (hfound : r.resolveFrom lookup [] g.rules = .ok found) :
    ((∀ path, List.IsChain (Links stored?) (new :: path) → path.length ≤ r.maxDepth) →
      r.resolveId lookup' new = .ok found) ∧
    ∀ path, List.IsChain (Links stored?) (new :: path) → r.maxDepth < path.length →
      r.resolveId lookup' new = .error (.tooDeep r.maxDepth) := by
  rw [resolveId_of_lookup hg hid]
  obtain ⟨s, hs, hdescribe⟩ := bind_eq_ok.mp hfound
  have hsame := compile_simulates (deepens_simulates _ r.maxDepth)
    (follow_deepens hlookup (Nat.le_refl (r.maxDepth + 1)) []) g.rules.toRule s hs
  have hless := compile_simulates (deepens_simulates _ r.maxDepth)
    (follow_deepens hlookup (Nat.le_succ r.maxDepth) []) g.rules.toRule s hs
  have hopens : Opens r lookup' (r.maxDepth + 1) [new] new :=
    ⟨g, hg, s, hsame.resolve_right fun h => Nat.lt_irrefl _ h.1⟩
  obtain ⟨hwired, hclear⟩ := (opens_iff_clear hstored _ _ _).mp hopens
  constructor
  · intro hbounded
    have hclear' : Clear stored? r.maxDepth [new] new :=
      fun path hpath => ⟨hbounded path hpath, (hclear path hpath).2⟩
    obtain ⟨g', hg', s', hs'⟩ := (opens_iff_clear hstored (r := r) _ _ _).mpr
      ⟨hwired, hclear'⟩
    obtain rfl : g = g' := by simpa [hg] using hg'
    rcases hless with hless | ⟨-, hless⟩
    · exact bind_eq_ok.mpr ⟨s, hless, hdescribe⟩
    · rw [hless] at hs'
      cases hs'
  · intro path hpath hlong
    rcases hless with hless | ⟨-, hless⟩
    · obtain ⟨-, hclear'⟩ := (opens_iff_clear hstored _ _ _).mp ⟨g, hg, s, hless⟩
      exact absurd (hclear' path hpath).1 (Nat.not_le_of_lt hlong)
    · unfold resolveFrom
      simp only [List.length_singleton, Nat.add_sub_cancel]
      rw [hless]
      rfl

end Resolver

/-! ## Stored groups -/

namespace Database

variable {db db' : Database} {g stored : Group} {id : Nat}

/-- A new group gets an id that no group bears, and everything else stays where it is. -/
theorem byId_create (hsound : db.Sound) (hsound' : db'.Sound) (hid : g.id = none)
    (hsave : db.saveUnique g = .ok (stored, db')) :
    stored = { g with id := some (db.lastId + 1) } ∧ db'.byId (db.lastId + 1) = .ok stored ∧
      ∀ id h, db.byId id = .ok h → id ≠ db.lastId + 1 ∧ db'.byId id = .ok h := by
  rcases (saveUnique_cases hsave).2 with ⟨-, rfl, rfl⟩ | ⟨_, _, hid', -⟩
  · refine ⟨rfl, byId_eq_ok.mpr (hsound'.byId?_eq_some.mpr ⟨by simp, rfl⟩), fun id h hh => ?_⟩
    obtain ⟨hmem, hid⟩ := hsound.byId?_eq_some.mp (byId_eq_ok.mp hh)
    have hbound := hsound.bounded id (mem_ids.mpr ⟨h, hmem, hid⟩)
    refine ⟨by omega, byId_eq_ok.mpr (hsound'.byId?_eq_some.mpr ⟨?_, hid⟩)⟩
    exact List.mem_append_left _ hmem
  · rw [hid] at hid'
    cases hid'

end Database

theorem Site.stored?_eq_some {cfg : Storage} {s : Site} {db : Database}
    (hcontent : s.content cfg = .ok db) (id : Nat) (g : Group) :
    s.stored? cfg id = some g ↔ db.byId id = .ok g := by
  rw [stored?, hcontent]
  show (db.byId id).toOption = some g ↔ _
  cases db.byId id <;> simp [Except.toOption]

namespace Service

variable (sv : Service) {s s₁ t : Site} {g stored : Group} {found : List Inventory.AssetRef}

theorem preview_ok (hid : g.id = none)
    (hok : (sv.resolve (.group g)).outcome s = (.ok found, s₁)) : s.Kept sv.storage s₁ ∧
      sv.resolver.resolveFrom (groupIn (s₁.content sv.storage)) [] g.rules = .ok found := by
  have hkept := (sv.resolveGroup_reads g s rfl).kept
  have hfound := (sv.resolveGroup_reads g).eq_ok hok
  rw [hok] at hkept
  rw [← hkept.content] at hfound
  unfold Resolver.resolve at hfound
  cases hcheck : g.check with
  | error v =>
      rw [hcheck] at hfound
      cases hfound
  | ok =>
      rw [hcheck, hid] at hfound
      exact ⟨hkept, hfound⟩

/-- A group that was resolved before it was created, wherever jobs had led to, is resolved as before by
the id that it got if no more than `maxDepth` references follow one another from there. Otherwise it is
refused, although the preview was not. -/
theorem create_resolves {n : Nat} (hn : n = 1 ∨ sv.storage.isDurable = true) {sch : Schedule Unit}
    (hreached : Schedule.Reached sv n sch) (i : Nat) (hid : g.id = none)
    (hpreview : (sv.resolve (.group g)).outcome (sch.cluster.site i) = (.ok found, s₁))
    (hcreate : (sv.create g).outcome s₁ = (.ok stored, t))
    (hreadable : sv.storage.isDurable = true → t.slot.database.Readable)
    (hquiet : t.disk.refusals = []) :
    ∃ new, stored = { g with id := some new } ∧
      ((∀ path, List.IsChain (Links (t.stored? sv.storage)) (new :: path) →
          path.length ≤ sv.resolver.maxDepth) →
        ((sv.resolve (.id new)).outcome t).1 = .ok found) ∧
      ∀ path, List.IsChain (Links (t.stored? sv.storage)) (new :: path) →
        sv.resolver.maxDepth < path.length →
        ((sv.resolve (.id new)).outcome t).1 = .error (.tooDeep sv.resolver.maxDepth) := by
  obtain ⟨hkept, hrules⟩ := sv.preview_ok hid hpreview
  rw [create, Work.outcome_inTurn] at hcreate
  obtain ⟨db, db', hcontent, hsound, hsave, hslot, hserves⟩ :=
    (createOne_ok hcreate).serves (((hreached.sound hn).site i).kept hkept)
  have hcontent' : t.content sv.storage = .ok db' := by
    rw [hslot] at hreadable
    exact hserves.content_eq hreadable
  obtain ⟨hstored, hnew, hold⟩ := Database.byId_create hsound hserves.sound rfl hsave
  refine ⟨db.lastId + 1, hstored, ?_⟩
  have hanswer : ((sv.resolve (.id (db.lastId + 1))).outcome t).1 = _ :=
    (sv.resolveId_reads _).fst_eq hquiet
  rw [hanswer, hcontent']
  rw [hcontent, show g.rules = stored.rules by rw [hstored]] at hrules
  exact Resolver.resolveId_new hold (fun id h => (Site.stored?_eq_some hcontent' id h).symm) hnew
    (by rw [hstored]) hrules

/-! A preview through one reference more than is allowed from a stored group. -/

/-- A service that lets no reference follow another one. -/
def shallow : Service := { resolver := { inventory := sampleInventory, maxDepth := 1 } }

def byWayOfTwo : Group where
  name := "by way of two"
  rules := ⟨.and, [.condition (.of .group .equals "2")]⟩

/-- An instance at which the first two of the sample groups have been restored. -/
def shallowSchedule : Schedule Unit :=
  (Schedule.start { cluster := .opened 1 } 0 (Command.script shallow
    (.restore ⟨[(Backup.featureName, ⟨Backup.version, sampleGroups.groups.take 2⟩)]⟩))).finish 0 40

theorem shallowSchedule_reached : Schedule.Reached shallow 1 shallowSchedule :=
  (Schedule.Reached.opened.start _ Nat.zero_lt_one).finish 0 40

theorem links_of_references {stored? : Nat → Option Group} {a b : Nat} (value : String)
    (h : (stored? a).map (·.rules.references.head?) = some (some value))
    (hb : Resolver.referredId? value = some b) : Links stored? a b := by
  obtain ⟨g, hg, hhead⟩ := Option.map_eq_some_iff.mp h
  exact ⟨g, hg, value, List.mem_of_head? hhead, hb⟩

/-- What becomes of the group when it is created after its preview. -/
def shallowCreated : Outcome Group :=
  (shallow.create byWayOfTwo).outcome
    ((shallow.resolve (.group byWayOfTwo)).outcome (shallowSchedule.cluster.site 0)).2

theorem create_resolves_shallow : ∃ s₁ stored,
    (shallow.resolve (.group byWayOfTwo)).outcome (shallowSchedule.cluster.site 0) =
      (.ok [⟨2, "srv"⟩], s₁) ∧
    (shallow.create byWayOfTwo).outcome s₁ = (.ok stored, shallowCreated.2) ∧
    stored.id = some 3 ∧
    ((shallow.resolve (.id 3)).outcome shallowCreated.2).1 = .error (.tooDeep 1) := by
  have hpreview : ((shallow.resolve (.group byWayOfTwo)).outcome
      (shallowSchedule.cluster.site 0)).1 = .ok [⟨2, "srv"⟩] := by
    decide +kernel
  have hcreated : (·.id) <$> shallowCreated.1 = .ok (some 3) := by decide +kernel
  obtain ⟨stored, hcreate, hid⟩ := map_eq_ok.mp hcreated
  obtain ⟨new, hstored, -, hdeep⟩ := create_resolves shallow (Or.inl rfl) shallowSchedule_reached 0 rfl
    (Outcome.eq_of_fst hpreview) (Outcome.eq_of_fst hcreate) (fun h => absurd h (by decide))
    (by decide +kernel)
  obtain rfl : new = 3 := by simpa [hstored, eq_comm] using hid
  have hthree : Links (shallowCreated.2.stored? shallow.storage) 3 2 :=
    links_of_references "2" (by decide +kernel) (by decide +kernel)
  have htwo : Links (shallowCreated.2.stored? shallow.storage) 2 1 :=
    links_of_references "1" (by decide +kernel) (by decide +kernel)
  have herror := hdeep [2, 1] (.cons_cons hthree (.cons_cons htwo (.singleton 1))) (by decide)
  exact ⟨_, stored, Outcome.eq_of_fst hpreview, Outcome.eq_of_fst hcreate, hid.symm, herror⟩

end Service

end AssetGroups
