import AssetGroups.Job.Dispatch
import AssetGroups.Proofs.Schedule

/-!
# What removals report

Groups are removed one by one, and the next removal is tried whatever became of the one before. What the
reply says of each id is what was done: the groups that are left, the events and the texts of the reply
agree after every removal, and hence after all of them.
-/

namespace AssetGroups

variable {cfg : Storage} {s t u : Site} {db : Database}

theorem Disk.Refused.later {d e e' : Disk} {cause : String} (h : d.Refused e cause)
    (hsuffix : e'.refusals <:+ e.refusals) : d.Refused e' cause := by
  obtain ⟨used, hused, hmem⟩ := h
  obtain ⟨more, hmore⟩ := hsuffix
  refine ⟨used ++ more, ?_, List.mem_append_left more hmem⟩
  rw [List.append_assoc, hmore, hused]

theorem Work.outcome_lift {α : Type} (w : Work α) (s : Site) :
    Work.outcome (ExceptT.lift w.run) s = (.ok (w.outcome s).1, (w.outcome s).2) := by
  show ((w.run >>= fun r => pure (Except.ok r) : Script Site _)).run s = _
  rw [Script.run_bind]
  rfl

/-! ## Contents without some groups -/

/-- Without the groups that have one of the ids. The counter and the order of the others stay. -/
def Database.without (ids : List Nat) (db : Database) : Database :=
  { db with groups := db.groups.filter fun g => ids.all fun id => g.id != some id }

namespace Database

@[simp]
theorem without_nil (db : Database) : db.without [] = db := by simp [without]

theorem without_append (first rest : List Nat) (db : Database) :
    db.without (first ++ rest) = (db.without first).without rest := by
  simp [without, List.filter_filter, Bool.and_comm]

theorem mem_ids_without {ids : List Nat} {id : Nat} :
    id ∈ (db.without ids).ids ↔ id ∈ db.ids ∧ id ∉ ids := by
  simp only [mem_ids, without, List.mem_filter, List.all_eq_true, bne_iff_ne]
  constructor
  · rintro ⟨g, ⟨hg, hne⟩, hid⟩
    exact ⟨⟨g, hg, hid⟩, fun hmem => hne id hmem hid⟩
  · rintro ⟨⟨g, hg, hid⟩, hnot⟩
    refine ⟨g, ⟨hg, fun other hother hsame => hnot ?_⟩, hid⟩
    rw [hid] at hsame
    exact Option.some.inj hsame ▸ hother

theorem Readable.without (h : db.Readable) (ids : List Nat) : (db.without ids).Readable where
  lastId := h.lastId
  shallow g hg := h.shallow g (List.mem_of_mem_filter hg)

theorem remove_eq_error {id : Nat} {e : GroupError} (h : db.remove id = .error e) :
    e = .nothingToRemove id ∧ id ∉ db.ids := by
  unfold remove at h
  split at h
  · rename_i hnone
    refine ⟨(Except.error.inj h).symm, fun hid => ?_⟩
    obtain ⟨g, hg, hgid⟩ := mem_ids.mp hid
    have hall := List.find?_eq_none.mp (Option.isNone_iff_eq_none.mp hnone) g hg
    simp [hgid] at hall
  · cases h

theorem remove_eq_ok {id : Nat} {db' : Database} (h : db.remove id = .ok db') :
    db' = db.without [id] ∧ id ∈ db.ids := by
  refine ⟨?_, ?_⟩
  · rw [remove_ok h]
    simp [without]
  · unfold remove at h
    split at h
    · cases h
    · rename_i hsome
      obtain ⟨g, hg⟩ := Option.ne_none_iff_exists'.mp (mt Option.isNone_iff_eq_none.mpr hsome)
      exact mem_ids.mpr ⟨g, List.mem_of_find?_eq_some hg, id_of_byId? hg⟩

end Database

/-! ## Texts that say something else than success -/

theorem ne_ok_of_head? {text : String} {c : Char} (h : text.toList.head? = some c) (hc : c ≠ 'O') :
    text ≠ "Ok" := by
  intro hok
  rw [hok] at h
  exact hc (Option.some.inj h).symm

namespace GroupError

theorem nothingToRemove_ne_ok (id : Nat) : (nothingToRemove id).message ≠ "Ok" := by
  have hhead : s!"Id '{id}' was not found".toList.head? = some 'I' := by
    rw [String.toList_append, String.toList_append]
    rfl
  exact ne_ok_of_head? hhead (by decide)

theorem storage_ne_ok (path cause : String) : (storage path cause).message ≠ "Ok" := by
  have hhead : s!"Failed to access group store `{path}`: {cause}".toList.head? = some 'F' := by
    simp only [String.toList_append]
    rfl
  exact ne_ok_of_head? hhead (by decide)

theorem serialization_ne_ok (cause : String) : (serialization cause).message ≠ "Ok" := by
  have hhead : s!"Serialization error: {cause}".toList.head? = some 'S' := by
    simp only [String.toList_append]
    rfl
  exact ne_ok_of_head? hhead (by decide)

end GroupError

theorem Site.content_ne_ok {e : GroupError} (h : s.content cfg = .error e) : e.message ≠ "Ok" := by
  rcases content_eq_error h with rfl | ⟨path, cause, rfl⟩
  · exact GroupError.serialization_ne_ok _
  · exact GroupError.storage_ne_ok path cause

/-! ## One removal -/

namespace Service

/-- The ids of which the reply says that their groups were removed. -/
def confirmed (removals : List Removal) : List Nat :=
  (removals.filter fun r => r.text == "Ok").map (·.id)

theorem confirmed_cons (r : Removal) (removals : List Removal) :
    confirmed (r :: removals) = confirmed [r] ++ confirmed removals := by
  rw [← List.singleton_append, confirmed, confirmed, confirmed, List.filter_append, List.map_append]

/-- What becomes of the removal of a group, between the two sites. -/
inductive Removes (cfg : Storage) (id : Nat) (s t : Site) : Except GroupError Unit → Prop where
  | done {db : Database} (hcontent : s.content cfg = .ok db) (hid : id ∈ db.ids)
      (hleft : t.content cfg = .ok (db.without [id]))
      (hfeed : t.feed = s.feed.publish ⟨.deleted, id⟩)
      (hrefusals : t.disk.refusals <:+ s.disk.refusals) : Removes cfg id s t (.ok ())
  | unknown {db : Database} (hcontent : s.content cfg = .ok db) (hid : id ∉ db.ids)
      (hkept : s.Kept cfg t) : Removes cfg id s t (.error (.nothingToRemove id))
  | refused {path cause : String} (hrefused : s.disk.Refused t.disk cause) (hkept : s.Kept cfg t) :
      Removes cfg id s t (.error (.storage path cause))
  | unreadable {e : GroupError} (hcontent : s.content cfg = .error e) (hkept : s.Kept cfg t) :
      Removes cfg id s t (.error e)

variable {id : Nat} {ids : List Nat} {r : Except GroupError Unit} {removals : List Removal}

theorem deleteOne_removes (sv : Service) (h : s.Wholesome) (id : Nat) :
    Removes sv.storage id s ((sv.deleteOne id).outcome s).2 ((sv.deleteOne id).outcome s).1 := by
  unfold deleteOne Store.remove Store.change
  rw [Work.outcome_bind, Work.outcome_asWork]
  rcases Acquisition.change_cases sv.storage (fun db => (db.remove id).map ((), ·)) s with
    ⟨e, t, hrun, hkept, hfails | ⟨path, cause, hrefused | hfolder, rfl⟩⟩ |
      ⟨_, t, db, db', hrun, hremove, hchanged⟩ <;> rw [hrun]
  · rcases bind_eq_error.mp hfails with hcontent | ⟨db, hcontent, hremove⟩
    · exact .unreadable hcontent hkept
    · obtain ⟨rfl, hid⟩ := Database.remove_eq_error (map_eq_error.mp hremove)
      exact .unknown hcontent hid hkept
  · exact .refused hrefused hkept
  · rcases h.store with hmissing | ⟨_, -, hfile⟩ <;> simp_all
  · obtain ⟨removed, hremoved, hpair⟩ := map_eq_ok.mp hremove
    obtain rfl : db' = removed := (Prod.mk.inj hpair).2
    obtain ⟨rfl, hid⟩ := Database.remove_eq_ok hremoved
    have hsound := (h.sound hchanged.content).remove hremoved
    have hleft : t.content sv.storage = .ok (db.without [id]) :=
      (Site.Serves.changed hchanged hsound).content_eq fun hdurable =>
        (h.readable hdurable hchanged.content).without [id]
    refine .done hchanged.content hid hleft ?_ hchanged.refusals
    show t.feed.publish ⟨.deleted, id⟩ = _
    rw [hchanged.feed]

namespace Removes

/-- The group was removed, and the reply says so, or everything is as it was. -/
theorem cases (h : Removes cfg id s t r) :
    (confirmed [⟨id, r⟩] = [id] ∧ r = .ok () ∧ t.feed = s.feed.publish ⟨.deleted, id⟩ ∧
        t.disk.refusals <:+ s.disk.refusals ∧ ∃ db, s.content cfg = .ok db ∧ id ∈ db.ids ∧
          t.content cfg = .ok (db.without [id])) ∨
      confirmed [⟨id, r⟩] = [] ∧ r ≠ .ok () ∧ s.Kept cfg t := by
  have hunconfirmed : ∀ e : GroupError, e.message ≠ "Ok" → confirmed [⟨id, .error e⟩] = [] := by
    intro e he
    simp [confirmed, Removal.text, he]
  cases h with
  | done hcontent hid hleft hfeed hrefusals =>
      exact Or.inl ⟨rfl, rfl, hfeed, hrefusals, _, hcontent, hid, hleft⟩
  | unknown _ _ hkept =>
      exact Or.inr ⟨hunconfirmed _ (GroupError.nothingToRemove_ne_ok id), nofun, hkept⟩
  | refused _ hkept => exact Or.inr ⟨hunconfirmed _ (GroupError.storage_ne_ok _ _), nofun, hkept⟩
  | unreadable hcontent hkept =>
      exact Or.inr ⟨hunconfirmed _ (Site.content_ne_ok hcontent), nofun, hkept⟩

theorem refusals (h : Removes cfg id s t r) : t.disk.refusals <:+ s.disk.refusals := by
  rcases h.cases with ⟨-, -, -, hrefusals, -⟩ | ⟨-, -, hkept⟩
  · exact hrefusals
  · exact hkept.refusals

theorem content (h : Removes cfg id s t r) :
    t.content cfg = (s.content cfg).map (Database.without (confirmed [⟨id, r⟩])) := by
  rcases h.cases with ⟨hconfirmed, -, -, -, db, hcontent, -, hleft⟩ | ⟨hconfirmed, -, hkept⟩
  · rw [hconfirmed, hleft, hcontent]
    rfl
  · rw [hconfirmed, hkept.content]
    cases s.content cfg <;> simp [Except.map]

theorem published (h : Removes cfg id s t r) : t.feed.published =
    s.feed.published ++ (confirmed [⟨id, r⟩]).map fun id => ⟨.deleted, id⟩ := by
  rcases h.cases with ⟨hconfirmed, -, hfeed, -⟩ | ⟨hconfirmed, -, hkept⟩
  · rw [hconfirmed, hfeed]
    rfl
  · rw [hconfirmed, hkept.feed, List.map_nil, List.append_nil]

theorem stored (h : Removes cfg id s t r) {other : Nat} (hother : other ∈ confirmed [⟨id, r⟩]) :
    ∃ db, s.content cfg = .ok db ∧ other ∈ db.ids := by
  rcases h.cases with ⟨hconfirmed, -, -, -, db, hcontent, hid, -⟩ | ⟨hconfirmed, -, -⟩
  · rw [hconfirmed, List.mem_singleton] at hother
    exact ⟨db, hcontent, hother ▸ hid⟩
  · rw [hconfirmed] at hother
    cases hother

/-- Without a refusal, a group that is found is removed and one that is not is reported. -/
theorem answers (h : Removes cfg id s t r) (hcontent : s.content cfg = .ok db)
    (haccess : ∀ cause, ¬ s.disk.Refused t.disk cause) :
    r = if id ∈ db.ids then .ok () else .error (.nothingToRemove id) := by
  cases h with
  | done hfound hid =>
      obtain rfl := Except.ok.inj (hfound.symm.trans hcontent)
      rw [if_pos hid]
  | unknown hfound hid =>
      obtain rfl := Except.ok.inj (hfound.symm.trans hcontent)
      rw [if_neg hid]
  | refused hrefused => exact absurd hrefused (haccess _)
  | unreadable herror =>
      rw [herror] at hcontent
      cases hcontent

end Removes

/-! ## All removals -/

/-- Removals one after another, whatever becomes of each of them. -/
inductive RemovesAll (cfg : Storage) : List Nat → Site → Site → List Removal → Prop where
  | nil {s : Site} : RemovesAll cfg [] s s []
  | cons {id : Nat} {ids : List Nat} {s t u : Site} {r : Except GroupError Unit}
      {removals : List Removal} (hfirst : Removes cfg id s t r)
      (hrest : RemovesAll cfg ids t u removals) : RemovesAll cfg (id :: ids) s u (⟨id, r⟩ :: removals)

theorem deleteAll_removes (sv : Service) (h : s.Wholesome) (ids : List Nat) :
    ∃ removals t, (sv.deleteAll ids).outcome s = (.ok removals, t) ∧
      RemovesAll sv.storage ids s t removals := by
  induction ids generalizing s with
  | nil => exact ⟨[], s, rfl, .nil⟩
  | cons id ids ih =>
      obtain ⟨removals, t, hrest, hremoves⟩ := ih (h.outcome (sv.deleteOne_within id))
      refine ⟨_, t, ?_, .cons (sv.deleteOne_removes h id) hremoves⟩
      rw [deleteAll, Work.outcome_bind, Work.outcome_lift]
      exact Work.outcome_bind_ok.mpr ⟨removals, t, hrest, rfl⟩

namespace RemovesAll

theorem asked (h : RemovesAll cfg ids s t removals) : removals.map (·.id) = ids := by
  induction h with
  | nil => rfl
  | cons _ _ ih => rw [List.map_cons, ih]

theorem refusals (h : RemovesAll cfg ids s t removals) :
    t.disk.refusals <:+ s.disk.refusals := by
  induction h with
  | nil => exact List.suffix_rfl
  | cons hfirst _ ih => exact ih.trans hfirst.refusals

theorem content (h : RemovesAll cfg ids s t removals) :
    t.content cfg = (s.content cfg).map (Database.without (confirmed removals)) := by
  induction h with
  | @nil s => cases s.content cfg <;> simp [Except.map, confirmed]
  | @cons id ids s t u r removals hfirst _ ih =>
      rw [ih, hfirst.content, confirmed_cons _ removals]
      cases s.content cfg <;> simp [Except.map, Database.without_append]

theorem published (h : RemovesAll cfg ids s t removals) : t.feed.published =
    s.feed.published ++ (confirmed removals).map fun id => ⟨.deleted, id⟩ := by
  induction h with
  | nil => exact (List.append_nil _).symm
  | @cons id ids s t u r removals hfirst _ ih =>
      rw [ih, hfirst.published, confirmed_cons _ removals, List.map_append, List.append_assoc]

theorem stored (h : RemovesAll cfg ids s t removals) {id : Nat} (hid : id ∈ confirmed removals) :
    ∃ db, s.content cfg = .ok db ∧ id ∈ db.ids := by
  induction h with
  | nil => cases hid
  | cons hfirst _ ih =>
      rw [confirmed_cons, List.mem_append] at hid
      rcases hid with hid | hid
      · exact hfirst.stored hid
      · obtain ⟨left, hleft, hmem⟩ := ih hid
        obtain ⟨db, hcontent, rfl⟩ := map_eq_ok.mp (hfirst.content.symm.trans hleft)
        exact ⟨db, hcontent, (Database.mem_ids_without.mp hmem).1⟩

/-- A group that was removed is not there to be removed again. -/
theorem once (h : RemovesAll cfg ids s t removals) : (confirmed removals).Nodup := by
  induction h with
  | nil => exact List.nodup_nil
  | @cons id ids s t u r removals hfirst hrest ih =>
      rw [confirmed_cons, List.nodup_append]
      refine ⟨?_, ih, fun a ha b hb hab => ?_⟩
      · rcases hfirst.cases with ⟨hconfirmed, -⟩ | ⟨hconfirmed, -⟩ <;> simp [hconfirmed]
      · obtain ⟨left, hleft, hmem⟩ := hrest.stored hb
        obtain ⟨db, -, rfl⟩ := map_eq_ok.mp (hfirst.content.symm.trans hleft)
        exact (Database.mem_ids_without.mp hmem).2 (hab ▸ ha)

/-- Without a refusal, the first removal of a stored group succeeds, and every other one finds nothing. -/
theorem answers (h : RemovesAll cfg ids s t removals) (hcontent : s.content cfg = .ok db)
    (haccess : ∀ cause, ¬ s.disk.Refused t.disk cause) {k : Nat} {removal : Removal}
    (hk : removals[k]? = some removal) : removal.outcome =
      if removal.id ∈ db.ids ∧ removal.id ∉ ids.take k then .ok ()
      else .error (.nothingToRemove removal.id) := by
  induction h generalizing db k with
  | nil => cases hk
  | @cons id ids s t u r removals hfirst hrest ih =>
      have hr := hfirst.answers hcontent fun cause hrefused =>
        haccess cause (hrefused.later hrest.refusals)
      cases k with
      | zero =>
          obtain rfl : ⟨id, r⟩ = removal := Option.some.inj hk
          simpa using hr
      | succ k =>
          have hleft := hfirst.content
          rw [hcontent] at hleft
          rw [ih hleft (fun cause hrefused => haccess cause (hrefused.of_suffix hfirst.refusals)) hk,
            List.take_succ_cons]
          -- what was not stored before the first removal is none of what is stored after it
          rcases hfirst.cases with ⟨hconfirmed, -⟩ | ⟨hconfirmed, hfailed, -⟩
          · refine if_congr ?_ rfl rfl
            simp [hconfirmed, Database.mem_ids_without, and_assoc]
          · have hother : removal.id ∈ db.ids → removal.id ≠ id := by
              rintro hmem rfl
              exact hfailed (hr.trans (if_pos hmem))
            simp only [hconfirmed, Database.without_nil, List.mem_cons, not_or]
            refine if_congr ⟨fun h => ⟨h.1, hother h.1, h.2⟩, fun h => ⟨h.1, h.2.2⟩⟩ rfl rfl

end RemovesAll

/-- Wherever jobs have led to, and whichever accesses are refused, the reply to the removal of groups has an
entry for each id that was asked for, in that order, and tells what was done. Exactly the groups whose
ids it calls `Ok` are gone and announced, each of them once. If no access was refused, these are the ids
of stored groups where they occur first. -/
theorem delete_reports (sv : Service) {n : Nat} {sch : Schedule Unit}
    (hreached : Schedule.Reached sv n sch) (i : Nat) (ids : List Nat) :
    ∃ removals t, (sv.delete ids).outcome (sch.cluster.site i) = (.ok removals, t) ∧
      (∀ subject payload, Subject.ofText? subject = some .delete →
        decodePayload idsDecoder payload = pure ids →
        (sv.handle subject payload).outcome (sch.cluster.site i) =
          (.ok (.list (removals.map fun r => .object [(toString r.id, .string r.text)])), t)) ∧
      removals.map (·.id) = ids ∧
      t.content sv.storage = ((sch.cluster.site i).content sv.storage).map
        (Database.without (confirmed removals)) ∧
      (∀ id ∈ confirmed removals,
        ∃ db, (sch.cluster.site i).content sv.storage = .ok db ∧ id ∈ db.ids) ∧
      (confirmed removals).Nodup ∧
      t.feed.published = (sch.cluster.site i).feed.published ++
        (confirmed removals).map (fun id => ⟨.deleted, id⟩) ∧
      ∀ db, (sch.cluster.site i).content sv.storage = .ok db →
        (∀ cause, ¬ (sch.cluster.site i).disk.Refused t.disk cause) →
        ∀ k r, removals[k]? = some r →
          (r.text = "Ok" ↔ r.id ∈ db.ids ∧ r.id ∉ ids.take k) ∧
            (r.text = "Ok" ∨ r.text = s!"Id '{r.id}' was not found") := by
  obtain ⟨removals, t, hdelete, h⟩ := sv.deleteAll_removes (hreached.wholesome.2.2 i) ids
  have hok : (sv.delete ids).outcome (sch.cluster.site i) = (.ok removals, t) := by
    rw [delete, Work.outcome_inTurn, hdelete]
  refine ⟨removals, t, hok, fun subject payload hsubject hpayload => ?_, h.asked, h.content,
    fun id => h.stored, h.once, h.published, fun db hcontent haccess k r hk => ?_⟩
  · unfold handle
    rw [hsubject]
    show (decodePayload idsDecoder payload >>= _).outcome _ = _
    rw [hpayload, pure_bind]
    exact Work.outcome_bind_ok.mpr ⟨removals, t, hok, rfl⟩
  · have hr := h.answers hcontent haccess hk
    unfold Removal.text
    by_cases hfirst : r.id ∈ db.ids ∧ r.id ∉ ids.take k
    · rw [hr, if_pos hfirst]
      exact ⟨⟨fun _ => hfirst, fun _ => rfl⟩, Or.inl rfl⟩
    · rw [hr, if_neg hfirst]
      exact ⟨⟨fun h => absurd h (GroupError.nothingToRemove_ne_ok _), fun h => absurd h hfirst⟩,
        Or.inr rfl⟩

/-- An instance with three groups, at which the second access to come will be refused. -/
def threeStored : Schedule Unit :=
  let rules : RuleSet := ⟨.and, [.condition (.of .name .contains "s")]⟩
  ((Schedule.start { cluster := .opened 1 } 0 (Command.script {} (.restore ⟨[(Backup.featureName,
    ⟨Backup.version, [.named "a" rules, .named "b" rules, .named "c" rules]⟩)]⟩))).finish 0 40).refuse
      [none, some "No space left on device"]

theorem threeStored_reached : Schedule.Reached {} 1 threeStored :=
  .refuse _ ((Schedule.Reached.opened.start _ Nat.zero_lt_one).finish 0 40)

/-- An id that is asked for twice, one that is not stored, and a removal that cannot be written. -/
theorem delete_reports_refused :
    ∃ removals t, (({} : Service).delete [2, 9, 2, 1, 3]).outcome (threeStored.cluster.site 0) =
        (.ok removals, t) ∧
      removals.map (·.text == "Ok") = [true, false, false, false, true] ∧
      t.feed.published = (threeStored.cluster.site 0).feed.published ++
        [⟨.deleted, 2⟩, ⟨.deleted, 3⟩] ∧
      t.content {} = ((threeStored.cluster.site 0).content {}).map (Database.without [2, 3]) := by
  have htexts : (List.map fun r => (r.id, r.text == "Ok")) <$> ((({} : Service).delete
      [2, 9, 2, 1, 3]).outcome (threeStored.cluster.site 0)).1 =
        .ok [(2, true), (9, false), (2, false), (1, false), (3, true)] := by
    decide +kernel
  obtain ⟨removals, t, hdelete, -, -, hcontent, -, -, hpublished, -⟩ :=
    delete_reports {} threeStored_reached 0 [2, 9, 2, 1, 3]
  rw [hdelete] at htexts
  obtain ⟨_, hremovals, htexts⟩ := map_eq_ok.mp htexts
  cases hremovals
  have hconfirmed : confirmed removals = [2, 3] := by
    have hpairs : confirmed removals =
        ((removals.map fun r => (r.id, r.text == "Ok")).filter (·.2)).map (·.1) := by
      rw [List.filter_map, List.map_map]
      rfl
    rw [hpairs, ← htexts]
    rfl
  rw [hconfirmed] at hcontent hpublished
  refine ⟨removals, t, hdelete, ?_, hpublished, hcontent⟩
  have hsecond := congrArg (List.map Prod.snd) htexts
  rw [List.map_map] at hsecond
  exact hsecond.symm

end Service

end AssetGroups
