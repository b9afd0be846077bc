import AssetGroups.Proofs.Resolver.References
import AssetGroups.Proofs.Resolver.Theorems
import AssetGroups.Proofs.Store.Change

/-!
# Previews of changes

A stored group that is given other rules is resolved by its id, once they are stored, as the new rules
were before that. References back to the group are met on the trail, so that the group is never looked
up while its own rules are resolved, neither as it was nor as it is now.
-/

namespace AssetGroups

/-! ## Groups on the trail -/

namespace Resolver

section

variable {m : Type → Type} [Monad m] [MonadExceptOf GroupError m] {lookup lookup' : Nat → m Group}

/-- Groups on the trail are not looked up. The induction is on the number of references that may still
follow one another. -/
theorem follow_congr (r : Resolver) (allowance : Nat) {trail : List Nat}
    (h : ∀ id, id ∉ trail → lookup id = lookup' id) (value : String) :
    follow r lookup allowance trail value = follow r lookup' allowance trail value := by
  induction allowance generalizing trail value with
  | zero => rw [follow, follow]
  | succ allowance ih =>
      rw [follow, follow]
      cases referredId? value with
      | none => rfl
      | some id =>
          by_cases hmem : id ∈ trail
          · simp [hmem]
          · have hrules : ∀ g : Group,
                compile r.inventory (follow r lookup allowance (trail ++ [id])) g.rules.toRule =
                  compile r.inventory (follow r lookup' allowance (trail ++ [id])) g.rules.toRule :=
              fun g => compile_congr _ fun value _ =>
                ih (fun other hother => h other fun hin => hother (List.mem_append_left _ hin)) value
            simp only [h id hmem, hrules]

/-- What a group answers does not depend on what is stored under its own id. -/
theorem resolveFrom_own (r : Resolver) {id : Nat}
    (h : ∀ other, other ≠ id → lookup other = lookup' other) (rules : RuleSet) :
    r.resolveFrom lookup [id] rules = r.resolveFrom lookup' [id] rules :=
  resolveFrom_congr fun value _ =>
    follow_congr r _ (fun other hother => h other (by simpa using hother)) value

end

theorem resolve_eq_resolveId (r : Resolver) {lookup lookup' : Nat → Except GroupError Group} {g : Group}
    {id : Nat} (hid : g.id = some id) (hcheck : g.check = .ok ())
    (hother : ∀ other, other ≠ id → lookup other = lookup' other) (hstored : lookup' id = .ok g) :
    r.resolve lookup g = r.resolveId lookup' id := by
  rw [resolveId_of_lookup hstored hid, resolve, hcheck, hid]
  exact resolveFrom_own r hother g.rules

end Resolver

/-! ## What an instance finds -/

namespace Site

variable {cfg : Storage} {s t : Site} {db db' : Database}

/-- An edit that was written is found again if the groups are not nested too deeply. -/
theorem Changed.content_edit {g : Group} {id : Nat} (hid : g.id = some id)
    (hshallow : cfg.isDurable = true → ∀ h ∈ g :: db.groups, h.toJson.depth ≤ Database.groupRoom)
    (h : s.Changed cfg t db { db with groups := Database.replaceFirst id g db.groups }) :
    t.content cfg = .ok { db with groups := Database.replaceFirst id g db.groups } := by
  refine h.content_eq fun hdurable => ?_
  have hwords : db.InWords := by
    have hcontent := h.content
    rw [Site.content, if_neg (by simp [hdurable])] at hcontent
    exact Disk.inWords_of_content hcontent
  have hids : ∀ other ∈ Database.ids { db with groups := Database.replaceFirst id g db.groups },
      other < Text.wordLimit := by
    intro other hother
    obtain ⟨h', hh', hid'⟩ := Database.mem_ids.mp hother
    obtain ⟨old, hold, hoid⟩ := Database.mem_replaceFirst hid hh'
    exact hwords.2 old hold other (hoid.trans hid')
  refine (Database.ofText_words (by exact hwords.1) hids).trans (if_pos ?_)
  intro h' hh'
  rcases Database.eq_or_mem_of_mem_replaceFirst hh' with rfl | hh'
  · exact hshallow hdurable h' List.mem_cons_self
  · exact hshallow hdurable h' (List.mem_cons_of_mem g hh')

end Site

namespace Service

variable (sv : Service) {s : Site} {db : Database} {g : Group} {id : Nat}

/-- Whatever is stored: a group with a stored id and a name that no other group bears answers before it
is stored, be it with assets or with an error, what its id answers once it has been stored. -/
theorem edit_resolves (hcontent : s.content sv.storage = .ok db) (hquiet : s.disk.refusals = [])
    (hfile : s.disk.store ≠ .folder) (hid : g.id = some id) (hstored : id ∈ db.ids)
    (hcheck : g.check = .ok ()) (hname : ∀ h ∈ db.groups, h.name = g.name → h.id = g.id)
    (hshallow : sv.storage.isDurable = true →
      ∀ h ∈ g :: db.groups, h.toJson.depth ≤ Database.groupRoom) :
    ∃ answer s₁ t, (sv.resolve (.group g)).outcome s = (answer, s₁) ∧
      (Store.saveUnique sv.storage g).outcome s₁ = (.ok g, t) ∧
      ((sv.resolve (.id id)).outcome t).1 = answer := by
  have hkept := (sv.resolveGroup_reads g s rfl).kept
  have hpreview := (sv.resolveGroup_reads g).fst_eq hquiet
  rw [hcontent] at hpreview
  generalize hs₁ : ((sv.resolve (.group g)).outcome s).2 = s₁ at hkept
  have hquiet₁ : s₁.disk.refusals = [] := by
    have hsuffix := hkept.refusals
    rwa [hquiet, List.suffix_nil] at hsuffix
  obtain ⟨t, hsave, hchanged⟩ := Store.change_eq_ok (hkept.content.trans hcontent)
    (Database.saveUnique_eq_ok hid hstored hname) hquiet₁ (hkept.store ▸ hfile)
  have hquiet₂ : t.disk.refusals = [] := by
    have hsuffix := hchanged.refusals
    rwa [hquiet₁, List.suffix_nil] at hsuffix
  refine ⟨_, s₁, t, Prod.ext rfl hs₁, hsave, ?_⟩
  have hanswer : ((sv.resolve (.id id)).outcome t).1 = _ := (sv.resolveId_reads id).fst_eq hquiet₂
  refine hanswer.trans (Eq.trans ?_ hpreview.symm)
  rw [hchanged.content_edit hid hshallow]
  refine (sv.resolver.resolve_eq_resolveId hid hcheck (fun other hother => ?_) ?_).symm
  · show db.byId other = Database.byId _ other
    rw [Database.byId, Database.byId, Database.byId?, Database.byId?,
      Database.find?_replaceFirst_of_ne hid hother]
  · exact Database.byId_eq_ok.mpr
      (Database.find?_replaceFirst_self hid (Database.mem_ids.mp hstored))

/-- The group 2 of the samples, to which 4 refers, with a reference to 3 in place of its rules. -/
def rewired : Group := ⟨some 2, "rewired", ⟨.or, [.condition (.of .group .equals "3")]⟩⟩

/-- The group 1 of the samples with a reference to 4, from where references lead back to 1. -/
def tangled : Group := ⟨some 1, "in the lab", ⟨.and, [.condition (.of .group .equals "4")]⟩⟩

theorem edit_resolves_sample :
    (∃ s₁ t, (sample.resolve (.group rewired)).outcome sampleSite = (.ok [⟨4, "power"⟩], s₁) ∧
      (Store.saveUnique sample.storage rewired).outcome s₁ = (.ok rewired, t) ∧
      ((sample.resolve (.id 2)).outcome t).1 = .ok [⟨4, "power"⟩]) ∧
    ∃ s₁ t, (sample.resolve (.group tangled)).outcome sampleSite = (.error (.cycle [1, 4, 2, 1]), s₁) ∧
      (Store.saveUnique sample.storage tangled).outcome s₁ = (.ok tangled, t) ∧
      ((sample.resolve (.id 1)).outcome t).1 = .error (.cycle [1, 4, 2, 1]) := by
  have hrewired : ((sample.resolve (.group rewired)).outcome sampleSite).1 = .ok [⟨4, "power"⟩] := by
    decide +kernel
  have htangled : ((sample.resolve (.group tangled)).outcome sampleSite).1 =
      .error (.cycle [1, 4, 2, 1]) := by
    decide +kernel
  constructor
  · obtain ⟨answer, s₁, t, hpreview, hsave, hanswer⟩ := edit_resolves sample (g := rewired)
      (s := sampleSite) rfl rfl (by decide) rfl (by decide) (by decide) (by decide) (by decide)
    rw [hpreview] at hrewired
    subst hrewired
    exact ⟨s₁, t, hpreview, hsave, hanswer⟩
  · obtain ⟨answer, s₁, t, hpreview, hsave, hanswer⟩ := edit_resolves sample (g := tangled)
      (s := sampleSite) rfl rfl (by decide) rfl (by decide) (by decide) (by decide) (by decide)
    rw [hpreview] at htangled
    subst htangled
    exact ⟨s₁, t, hpreview, hsave, hanswer⟩

end Service

end AssetGroups
