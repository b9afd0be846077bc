import AssetGroups.Proofs.Store.Change

/-!
# Ids and names of new groups

A new group gets the id after the counter of the file, and its name is looked for among the groups that
have an id. Neither the counter nor the ids of a file need be those that a store would have written: a
group of the file may have the new id already, and one without an id may bear the new name. Such a group
stands before the new one and is found in its place.
-/

namespace AssetGroups

namespace Database

variable {db : Database} {g stored : Group} {id : Nat} {name : String}

theorem save_new (hid : g.id = none) : db.save g =
    ({ g with id := some (db.lastId + 1) },
      ⟨db.lastId + 1, db.groups ++ [{ g with id := some (db.lastId + 1) }]⟩) := by
  rw [save, hid]

/-- No group has the id or bears the name. -/
def Free (db : Database) (id : Nat) (name : String) : Prop :=
  ∀ h ∈ db.groups, h.id ≠ some id ∧ h.name ≠ name

theorem byId_append (db : Database) (last : Nat) (hid : g.id = some id) :
    byId ⟨last, db.groups ++ [g]⟩ id = .ok ((db.byId? id).getD g) := by
  refine byId_eq_ok.mpr ?_
  rw [byId?, List.find?_append, byId?]
  cases db.groups.find? (·.id == some id) <;> simp [hid]

theorem byName_append (db : Database) (last : Nat) (g : Group) :
    byName ⟨last, db.groups ++ [g]⟩ g.name = .ok ((db.byName? g.name).getD g) := by
  have hfound : byName? ⟨last, db.groups ++ [g]⟩ g.name = some ((db.byName? g.name).getD g) := by
    rw [byName?, List.find?_append, byName?]
    cases db.groups.find? (·.name == g.name) <;> simp
  rw [byName, hfound]

/-- What is found by the id and by the name of a new group is the group unless another one has them. -/
theorem free_iff_found (hid : g.id = some id) (hnew : ∀ h ∈ db.groups, h.name = g.name → h.id = none) :
    db.Free id g.name ↔ (db.byId? id).getD g = g ∧ (db.byName? g.name).getD g = g := by
  constructor
  · intro hfree
    have hnone : db.byId? id = none ∧ db.byName? g.name = none := by
      constructor <;> refine List.find?_eq_none.mpr fun h hh => ?_
      · simpa using (hfree h hh).1
      · simpa using (hfree h hh).2
    rw [hnone.1, hnone.2]
    exact ⟨rfl, rfl⟩
  · rintro ⟨hbyId, hbyName⟩ h hh
    constructor
    · intro hhid
      cases hfound : db.byId? id with
      | none => simpa [hhid] using List.find?_eq_none.mp hfound h hh
      -- a group with an id that bore the new name would have kept the new one from being stored
      | some old =>
          rw [hfound, Option.getD_some] at hbyId
          have hnone := hnew old (List.mem_of_find?_eq_some hfound) (by rw [hbyId])
          rw [hbyId, hid] at hnone
          cases hnone
    · intro hname
      cases hfound : db.byName? g.name with
      | none => simpa [hname] using List.find?_eq_none.mp hfound h hh
      | some old =>
          rw [hfound, Option.getD_some] at hbyName
          have hnone := hnew old (List.mem_of_find?_eq_some hfound) (by rw [hbyName])
          rw [hbyName, hid] at hnone
          cases hnone

/-- Where no id is past the counter and every group has one, a new group collides with none. -/
theorem Bounded.free (hbounded : db.Bounded) (hids : ∀ h ∈ db.groups, h.id ≠ none)
    (hnew : ∀ h ∈ db.groups, h.name = name → h.id = none) : db.Free (db.lastId + 1) name := by
  intro h hh
  refine ⟨fun hid => ?_, fun hname => hids h hh (hnew h hh hname)⟩
  have := hbounded _ (mem_ids.mpr ⟨h, hh, hid⟩)
  omega

/-- The numbers of a content stay words while the counter does. -/
theorem InWords.save (h : db.InWords) (hid : g.id = none) (hroom : db.lastId + 1 < Text.wordLimit) :
    (db.save g).2.InWords := by
  rw [save_new hid]
  refine ⟨hroom, fun h' hh' => ?_⟩
  rcases List.mem_append.mp hh' with hold | hlast
  · exact h.2 h' hold
  · rw [List.mem_singleton.mp hlast]
    rintro id hsome
    exact Option.some.inj hsome ▸ hroom

end Database

namespace Store

variable {α : Type} {cfg : Storage} {s t u : Site} {octets : List UInt8} {db db' : Database}
    {g stored : Group}

theorem byName_reads {c : Except GroupError Database} (name : String) :
    Work.Reads cfg c (byName cfg name) (c >>= fun db => db.byName name) :=
  snapshot_reads.bind fun db => .monadLift (db.byName name)

/-- What an instance answers after a change: with a lock file it reads the file again, which may be too
deeply nested. -/
theorem fst_of_changed {w : Work α} {f : Database → Except GroupError α} {a : α}
    (hw : ∀ c, Work.Reads cfg c w (c >>= f)) (hchanged : s.Changed cfg t db db')
    (hwords : db'.InWords) (hlater : u.content cfg = t.content cfg) (hquiet : u.disk.refusals = [])
    (ha : f db' = .ok a) : (w.outcome u).1 =
      if cfg.isDurable = true ∧ ¬ db'.Readable then .error (.serialization "not a group database")
      else .ok a := by
  have hread := Database.ofText_words hwords.1 fun id hid => by
    obtain ⟨h, hh, hhid⟩ := Database.mem_ids.mp hid
    exact hwords.2 h hh id hhid
  rw [(hw _).fst_eq hquiet, hlater]
  by_cases hlost : cfg.isDurable = true ∧ ¬ db'.Readable
  · rw [if_pos hlost, Site.content, if_neg (by simp [hlost.1])]
    simp only [Disk.content, Disk.load, hchanged.store, Disk.access, Database.ofOctets_octets]
    rw [hread, if_neg fun hshallow => hlost.2 ⟨hwords.1, hshallow⟩]
    rfl
  · have hcontent : t.content cfg = .ok db' := hchanged.content_eq fun hdurable => by
      rw [hread, if_pos (not_not.mp (not_and.mp hlost hdurable)).shallow]
    rw [if_neg hlost, hcontent]
    exact ha

/-- Whatever file was read, with or without a counter and ids: a group without id that is stored gets the
id after the counter, and no group with an id bears its name. By its id and by its name the group is
found afterwards unless a group of the file has the id, or bears the name and has no id; that one is
found then. -/
theorem saveUnique_lookup (hfile : s.disk.store = .file octets)
    (hread : Database.ofOctets cfg.path octets = .ok db)
    (hunread : cfg.isDurable = true ∨ s.slot.loaded = false)
    (hroom : db.lastId + 1 < Text.wordLimit) (hid : g.id = none)
    (hok : (saveUnique cfg g).outcome s = (.ok stored, t))
    (hlater : u.content cfg = t.content cfg) (hquiet : u.disk.refusals = []) :
    let found (h : Group) : Except GroupError Group :=
      if cfg.isDurable = true ∧ ¬ (db.save g).2.Readable then
        .error (.serialization "not a group database")
      else .ok h
    stored = { g with id := some (db.lastId + 1) } ∧
      (∀ h ∈ db.groups, h.name = g.name → h.id = none) ∧
      ((byId cfg (db.lastId + 1)).outcome u).1 = found ((db.byId? (db.lastId + 1)).getD stored) ∧
      ((byName cfg g.name).outcome u).1 = found ((db.byName? g.name).getD stored) ∧
      (db.Free (db.lastId + 1) g.name ↔
        (db.byId? (db.lastId + 1)).getD stored = stored ∧
          (db.byName? g.name).getD stored = stored) ∧
      (db.Bounded → (∀ h ∈ db.groups, h.id ≠ none) → db.Free (db.lastId + 1) g.name) := by
  have hcontent : s.content cfg = .ok db := by
    rw [Site.content, if_neg (by rcases hunread with h | h <;> simp [h])]
    simp only [Disk.content, Disk.load, hfile, Disk.access]
    exact hread
  obtain ⟨db₀, db', hsave, hchanged⟩ := Store.change_ok hok
  obtain rfl : db₀ = db := Except.ok.inj (hchanged.content.symm.trans hcontent)
  obtain ⟨hnames, ⟨-, rfl, rfl⟩ | ⟨_, _, hid', -⟩⟩ := Database.saveUnique_cases hsave
  · have hnew : ∀ h ∈ db₀.groups, h.name = g.name → h.id = none :=
      fun h hh hname => (hnames h hh hname).trans hid
    have hwords := (Database.inWords_of_ofOctets hread).save hid hroom
    rw [Database.save_new hid] at hwords ⊢
    exact ⟨rfl, hnew,
      fst_of_changed (fun _ => byId_reads _) hchanged hwords hlater hquiet
        (Database.byId_append _ _ rfl),
      fst_of_changed (fun _ => byName_reads _) hchanged hwords hlater hquiet
        (Database.byName_append _ _ _),
      Database.free_iff_found (g := { g with id := some (db₀.lastId + 1) }) rfl hnew,
      fun hbounded hids => hbounded.free hids hnew⟩
  · rw [hid] at hid'
    cases hid'

/-- A file without a counter, in which one group has the first id and another one has no id. -/
def foreignFile : List UInt8 :=
  Text.Utf8.encode "\x7b\"groups\":[[1,\"old\",[\"AND\",[]]],[null,\"twin\",[\"AND\",[]]]]\x7d"

def foreignSite : Site := { disk := { store := .file foreignFile } }

/-- Neither by its id nor by its name is the new group found. -/
theorem saveUnique_lookup_foreign : ∃ stored t old twin,
    (saveUnique {} { name := "twin", rules := .all }).outcome foreignSite = (.ok stored, t) ∧
      stored.id = some 1 ∧
      ((byId {} 1).outcome t).1 = .ok old ∧ old.name = "old" ∧
      ((byName {} "twin").outcome t).1 = .ok twin ∧ twin.id = none := by
  have hcontent : (match Database.ofOctets ({} : Storage).path foreignFile with
      | .ok db => db.lastId == 0 && ((db.byId? 1).map (·.name)) == some "old" &&
          ((db.byName? "twin").map (·.id)) == some none
      | .error _ => false) = true := by
    decide +kernel
  have hsaves : (match (saveUnique {} { name := "twin", rules := .all }).outcome foreignSite with
      | (.ok _, t) => t.disk.refusals.isEmpty
      | (.error _, _) => false) = true := by
    decide +kernel
  rcases hread : Database.ofOctets ({} : Storage).path foreignFile with e | db <;> rw [hread] at hcontent
  · cases hcontent
  rcases hok : (saveUnique {} { name := "twin", rules := .all }).outcome foreignSite with
    ⟨e | stored, t⟩ <;> rw [hok] at hsaves
  · cases hsaves
  simp only [Bool.and_eq_true, beq_iff_eq, Option.map_eq_some_iff] at hcontent
  obtain ⟨⟨hlast, old, hold, hname⟩, twin, htwin, hnoId⟩ := hcontent
  obtain ⟨rfl, -, hbyId, hbyName, -⟩ := saveUnique_lookup rfl hread (Or.inr rfl)
    (by rw [hlast]; decide) rfl hok rfl (List.isEmpty_iff.mp hsaves)
  rw [hlast, hold] at hbyId
  rw [htwin] at hbyName
  exact ⟨_, t, old, twin, rfl, by rw [hlast], hbyId, hname, hbyName, hnoId⟩

end Store

end AssetGroups
