import AssetGroups.Http.Router
import AssetGroups.Proofs.Backup.Codec
import AssetGroups.Proofs.Backup.RoundTrip

/-!
# Which backups are taken back

What a request to save is answered with, and when a restore query that holds the saved feature is
read. A group lies five levels deep in such a query but only two in the store file, so a store that
can be loaded may have a backup that nobody can restore.
-/

namespace AssetGroups

open Json

theorem Script.run_mapM {σ α β : Type} {P : σ → Prop} {f : α → Script σ β} {g : α → β}
    (hf : ∀ a s, P s → ∃ t, (f a).run s = (g a, t) ∧ P t) (as : List α) {s : σ} (hs : P s) :
    ∃ t, (as.mapM f).run s = (as.map g, t) ∧ P t := by
  induction as generalizing s with
  | nil => exact ⟨s, rfl, hs⟩
  | cons a as ih =>
      obtain ⟨u, hfirst, hu⟩ := hf a s hs
      obtain ⟨t, hrest, ht⟩ := ih hu
      refine ⟨t, ?_, ht⟩
      rw [List.mapM_cons, run_bind, hfirst, run_bind, hrest]
      rfl

namespace Backup

variable {sv : Service} {s : Site} {db : Database}

/-! ## What is answered -/

/-- The entry of a feature in the answer when `f` is what is saved. -/
def savedEntry (f : Feature) (name : String) : String × FeatureAndStatus :=
  (name, if name = featureName then ⟨some f, ⟨true, none⟩⟩ else ⟨none, .unsupported⟩)

/-- What is done for one of the features that are asked for. -/
def saveEntry (sv : Service) (name : String) : Script Site (String × FeatureAndStatus) :=
  if name = featureName then
    (save sv).run >>= fun result => return (name, ⟨result.toOption, .ofResult result⟩)
  else return (name, ⟨none, .unsupported⟩)

theorem saveEntry_ready (h : s.Ready sv.storage db) (name : String) :
    ∃ t, (saveEntry sv name).run s = (savedEntry ⟨version, db.groups⟩ name, t) ∧
      t.Ready sv.storage db := by
  by_cases hname : name = featureName
  · obtain ⟨t, hsave, ht⟩ := h.reads (save_reads sv h.sound)
    have hrun : (save sv).run.run s = (.ok ⟨version, db.groups⟩, t) := hsave
    refine ⟨t, ?_, ht⟩
    rw [saveEntry, if_pos hname, Script.run_bind, hrun, savedEntry, if_pos hname]
    rfl
  · refine ⟨s, ?_, h⟩
    rw [saveEntry, if_neg hname, savedEntry, if_neg hname]
    rfl

theorem answerSave_ready (h : s.Ready sv.storage db) (q : SaveQuery) :
    ∃ t, (answerSave sv q).run s =
      (⟨version, Dict.ofEntries (q.features.map (savedEntry ⟨version, db.groups⟩))⟩, t) := by
  obtain ⟨t, hrun, -⟩ := Script.run_mapM
    (fun name u (hu : u.Ready sv.storage db) => saveEntry_ready hu name) q.features h
  refine ⟨t, ?_⟩
  show (q.features.mapM (saveEntry sv) >>= _).run s = _
  rw [Script.run_bind, hrun]
  rfl

theorem find?_savedEntry {f : Feature} {names : List String} (h : featureName ∈ names) :
    Dict.find? featureName (Dict.ofEntries (names.map (savedEntry f))) =
      some ⟨some f, ⟨true, none⟩⟩ := by
  refine Dict.find?_ofEntries (fun e he hkey => ?_) ⟨_, List.mem_map_of_mem h, rfl⟩
  obtain ⟨name, -, rfl⟩ := List.mem_map.1 he
  exact if_pos hkey

/-! ## What is read -/

/-- How deep a group may be nested by itself if a restore query that holds it is to be read. -/
def restoreRoom : Nat := textRoom - 5

theorem depth_restoreQuery {name : String} {f : Feature} :
    (RestoreQuery.toJson ⟨[(name, f)]⟩).depth ≤ textRoom ↔
      ∀ g ∈ f.groups, g.toJson.depth ≤ restoreRoom := by
  rw [← Value.depthOfItems_map_le]
  simp only [RestoreQuery.toJson, Feature.toJson, groupListJson, List.map_cons, List.map_nil,
    Value.depth, Value.depthOfMembers, restoreRoom, textRoom]
  omega

theorem decodeText_restoreQuery (l : Layout) {name : String} {f : Feature} :
    decodeText RestoreQuery.decoder ((RestoreQuery.toJson ⟨[(name, f)]⟩).laidOut l) =
      .ok ⟨[(name, f)]⟩ ↔ f.InWords ∧ ∀ g ∈ f.groups, g.toJson.depth ≤ restoreRoom := by
  constructor
  · intro hread
    have hwell : RestoreQuery.WellFormed ⟨[(name, f)]⟩ :=
      decodeText_yields RestoreQuery.decoder_yields hread
    rw [RestoreQuery.roundTrips.written l _ hwell] at hread
    split at hread
    · exact ⟨hwell.inWords _ List.mem_cons_self, depth_restoreQuery.1 ‹_›⟩
    · cases hread
  · rintro ⟨hwords, hshallow⟩
    have hwell : RestoreQuery.WellFormed ⟨[(name, f)]⟩ :=
      ⟨List.pairwise_singleton _ _, List.forall_mem_singleton.2 hwords⟩
    rw [RestoreQuery.roundTrips.written l _ hwell, if_pos (depth_restoreQuery.2 hshallow)]

/-! ## From one to the other -/

/-- However the store was led to, if its file loads, a request to save gets all of its groups as the
feature, and the feature is read back from a restore query, in any layout, exactly when none of its
groups is nested more than 122 levels deep. The file loads with 125. -/
theorem save_taken_back {n : Nat} {sch : Schedule Unit} (hreached : Schedule.Reached sv n sch)
    (i : Nat) {stored : Database}
    (hfile : (sch.cluster.site i).disk.content sv.storage = .ok stored)
    (hquiet : (sch.cluster.site i).disk.refusals = []) {q : Http.Request} {query : SaveQuery}
    (hroute : Http.Route.ofTarget? q.target = some .save) (hmethod : q.method = "POST")
    (hbody : Http.decodeBody SaveQuery.decoder q = .ok query)
    (hasked : featureName ∈ query.features) :
    ∃ db reply t, (sch.cluster.site i).content sv.storage = .ok db ∧
      (n = 1 ∨ sv.storage.isDurable = true → db = stored ∧ Feature.InWords ⟨version, db.groups⟩) ∧
      (Http.answer sv q).run (sch.cluster.site i) = (⟨200, .json (SaveReply.toJson reply)⟩, t) ∧
      reply.features.find? featureName = some ⟨some ⟨version, db.groups⟩, ⟨true, none⟩⟩ ∧
      ∀ l : Layout, decodeText RestoreQuery.decoder
          ((RestoreQuery.toJson ⟨[(featureName, ⟨version, db.groups⟩)]⟩).laidOut l) =
            .ok ⟨[(featureName, ⟨version, db.groups⟩)]⟩ ↔
        Feature.InWords ⟨version, db.groups⟩ ∧ ∀ g ∈ db.groups, g.toJson.depth ≤ restoreRoom := by
  obtain ⟨db, hcontent⟩ := Site.content_of_loads hfile
  have hready := (hreached.wholesome.2.2 i).ready hcontent hquiet
  obtain ⟨t, hsave⟩ := answerSave_ready hready query
  refine ⟨db, ⟨version, Dict.ofEntries (query.features.map (savedEntry ⟨version, db.groups⟩))⟩, t,
    hcontent, fun hn => ?_, ?_, find?_savedEntry hasked, fun l => decodeText_restoreQuery l⟩
  · obtain ⟨db₀, hsound, hholds⟩ := (hreached.sound hn).site i
    obtain rfl := hholds.eq_of_content hsound.fits hcontent
    have heq : stored = db := hholds.eq_of_loads hsound.fits hfile
    exact ⟨heq.symm, (heq ▸ Disk.inWords_of_content hfile).2⟩
  · have hallowed : Http.Route.allows q.method .save = true := by rw [hmethod]; rfl
    simp only [Http.answer, hroute, hallowed, hbody, Bool.not_true, Bool.false_eq_true, if_false]
    rw [Script.run_bind, hsave]
    rfl

open Service in
/-- A group that is nested 124 levels deep. -/
def nestedBody : List UInt8 :=
  ("\x7b\"name\":\"deep\",\"rules\":".toList ++ nestedText 61 ++ "\x7d".toList).map
    fun c => UInt8.ofNat c.toNat

/-- An instance at which the group has been created. -/
def nestedSchedule : Schedule Unit :=
  (Schedule.start { cluster := .opened 1 } 0
    (Command.script {} (.request "CREATE" nestedBody))).finish 0 20

theorem nestedSchedule_reached : Schedule.Reached {} 1 nestedSchedule :=
  (Schedule.Reached.opened.start _ Nat.zero_lt_one).finish 0 20

def saveRequest : Http.Request where
  target := "/v1/srr/save"
  contentType := some "application/json"
  body := ("\x7b\"features\":[\"automatic-groups\"]\x7d".toList).map fun c => UInt8.ofNat c.toNat

theorem saveRequest_body : Http.decodeBody SaveQuery.decoder saveRequest = .ok ⟨[featureName]⟩ := by
  have hread : (match Http.decodeBody SaveQuery.decoder saveRequest with
    | .ok query => query.features == [featureName]
    | .error _ => false) = true := by
    decide +kernel
  split at hread
  · rename_i query hquery
    rw [hquery, ← eq_of_beq hread]
  · cases hread

theorem nestedSchedule_site : (nestedSchedule.cluster.site 0).slot.loaded = true ∧
    (nestedSchedule.cluster.site 0).disk.refusals = [] ∧
    (nestedSchedule.cluster.site 0).slot.database.Readable ∧
    ¬ ∀ g ∈ (nestedSchedule.cluster.site 0).slot.database.groups,
      g.toJson.depth ≤ restoreRoom := by
  decide +kernel

/-- The file loads and the feature is handed out, and nobody takes it back. -/
theorem save_taken_back_nested : ∃ stored groups reply t,
    (nestedSchedule.cluster.site 0).disk.content ({} : Service).storage = .ok stored ∧
      (Http.answer {} saveRequest).run (nestedSchedule.cluster.site 0) =
        (⟨200, .json (SaveReply.toJson reply)⟩, t) ∧
      reply.features.find? featureName = some ⟨some ⟨version, groups⟩, ⟨true, none⟩⟩ ∧
      ∀ l : Layout, decodeText RestoreQuery.decoder
        ((RestoreQuery.toJson ⟨[(featureName, ⟨version, groups⟩)]⟩).laidOut l) ≠
          .ok ⟨[(featureName, ⟨version, groups⟩)]⟩ := by
  obtain ⟨hloaded, hquiet, hreadable, hdeep⟩ := nestedSchedule_site
  obtain ⟨db₀, hsound, hholds⟩ := (nestedSchedule_reached.sound (.inl rfl)).site 0
  obtain rfl := hholds.slot rfl hloaded
  have hfile : (nestedSchedule.cluster.site 0).disk.content ({} : Service).storage =
      .ok (nestedSchedule.cluster.site 0).slot.database :=
    (hholds.loads hsound.fits).trans (if_pos hreadable)
  obtain ⟨db, reply, t, -, hstored, hanswer, hreply, htaken⟩ := save_taken_back
    nestedSchedule_reached 0 hfile hquiet (by decide +kernel) rfl saveRequest_body
    (List.mem_singleton_self _)
  have hdb := (hstored (.inl rfl)).1
  refine ⟨_, _, reply, t, hfile, hanswer, hreply, fun l htext => hdeep ?_⟩
  exact hdb ▸ ((htaken l).1 htext).2

end Backup

end AssetGroups
