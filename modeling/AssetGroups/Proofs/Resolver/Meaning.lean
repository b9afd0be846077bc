import AssetGroups.Proofs.Resolver.Compile
import AssetGroups.Proofs.Resolver.Verdict

/-!
# Resolution agrees with the verdicts

Whenever a rule set is resolved, the set that was found holds the ids of the assets that satisfy the
rules, asset by asset, and the list that is made of it describes them without the reserved one.
-/

namespace AssetGroups

/-! ## Joining -/

namespace Resolver

theorem mem_foldl_inter {x : Nat} (ss : List IdSet) {s : IdSet} :
    x ∈ ss.foldl IdSet.inter s ↔ x ∈ s ∧ ∀ t ∈ ss, x ∈ t := by
  induction ss generalizing s with
  | nil => simp
  | cons t ss ih => simp [ih, and_assoc]

theorem mem_foldl_union {x : Nat} (ss : List IdSet) {s : IdSet} :
    x ∈ ss.foldl IdSet.union s ↔ x ∈ s ∨ ∃ t ∈ ss, x ∈ t := by
  induction ss generalizing s with
  | nil => simp
  | cons t ss ih => simp [ih, or_assoc]

theorem mem_joinAll_and {x : Nat} {ss : List IdSet} (hne : ss ≠ []) :
    x ∈ joinAll .and ss ↔ ∀ s ∈ ss, x ∈ s := by
  cases ss with
  | nil => contradiction
  | cons s ss => simp [joinAll, mem_foldl_inter]

theorem mem_joinAll_or {x : Nat} {ss : List IdSet} : x ∈ joinAll .or ss ↔ ∃ s ∈ ss, x ∈ s := by
  cases ss with
  | nil => simp [joinAll]
  | cons s ss => simp [joinAll, mem_foldl_union]

end Resolver

variable {inv : Inventory} {stored? : Nat → Option Group} {refer : String → Except GroupError IdSet}

/-- The set holds ids of assets only, and of every asset its membership is the verdict. -/
structure Answers (inv : Inventory) (stored? : Nat → Option Group) (r : Rule) (s : IdSet) : Prop where
  knows : inv.Knows s
  verdict : ∀ a ∈ inv.assets, Verdict inv stored? a r (decide (a.id ∈ s))

/-! ## Conditions -/

theorem Answers.applyOperator (h : inv.Numbered) {c : Condition} {found : IdSet}
    (hknows : inv.Knows found)
    (hanswer : ∀ a ∈ inv.assets, ∀ b, (b = true ↔ a.id ∈ found) →
      Verdict inv stored? a (.condition c) (c.answer a.kind b)) :
    Answers inv stored? (.condition c) (Resolver.applyOperator inv c found) where
  knows := by
    intro x hx
    unfold Resolver.applyOperator at hx
    split at hx
    · exact Inventory.knows_select _ x (IdSet.mem_diff.mp hx).1
    · exact hknows x hx
  verdict := by
    intro a ha
    have hb : decide (a.id ∈ Resolver.applyOperator inv c found) =
        c.answer a.kind (decide (a.id ∈ found)) := by
      unfold Resolver.applyOperator Condition.answer
      split
      · simp [Inventory.inDomain, h.id_mem_select ha, Bool.decide_and]
      · rfl
    rw [hb]
    exact hanswer a ha _ (by simp)

/-- The set of a reference answers the rules of the group that is referred to. -/
def Refers (inv : Inventory) (stored? : Nat → Option Group)
    (refer : String → Except GroupError IdSet) : Prop :=
  ∀ value found, refer value = .ok found → ∃ id g, Resolver.referredId? value = some id ∧
    stored? id = some g ∧ Answers inv stored? g.rules.toRule found

theorem condition_answers (h : inv.Numbered) (hrefer : Refers inv stored? refer) {c : Condition}
    {s : IdSet} (hs : Resolver.condition inv refer c = .ok s) :
    Answers inv stored? (.condition c) s := by
  obtain ⟨-, found, hfound, rfl⟩ := Resolver.condition_ok.mp hs
  by_cases hfield : c.field = .group
  · rw [Resolver.Finds, if_pos hfield] at hfound
    obtain ⟨id, g, hid, hg, hanswers⟩ := hrefer _ _ hfound
    refine .applyOperator h hanswers.knows fun a ha b hb => ?_
    have hverdict := hanswers.verdict a ha
    rw [← Bool.eq_iff_iff.mpr (hb.trans decide_eq_true_iff.symm)] at hverdict
    exact .reference hfield hid hg hverdict
  · rw [Resolver.Finds, if_neg hfield] at hfound
    refine .applyOperator h (h.knows_positive? hfound) fun a ha b hb => ?_
    exact .condition hfield (hb.trans (h.mem_positive? ha hfound))

/-! ## Rule sets -/

/-- What each member of a rule set found. -/
inductive AllAnswer (inv : Inventory) (stored? : Nat → Option Group) :
    List Rule → List IdSet → Prop where
  | nil : AllAnswer inv stored? [] []
  | cons {r : Rule} {rs : List Rule} {s : IdSet} {ss : List IdSet} : Answers inv stored? r s →
      AllAnswer inv stored? rs ss → AllAnswer inv stored? (r :: rs) (s :: ss)

theorem AllAnswer.verdicts {rs : List Rule} {ss : List IdSet} {a : Asset} (ha : a ∈ inv.assets) :
    AllAnswer inv stored? rs ss → Verdicts inv stored? a rs (ss.map fun s => decide (a.id ∈ s))
  | .nil => .nil
  | .cons hs hss => .cons (hs.verdict a ha) (hss.verdicts ha)

theorem AllAnswer.knows {rs : List Rule} {ss : List IdSet} :
    AllAnswer inv stored? rs ss → ∀ s ∈ ss, inv.Knows s
  | .nil, s, hs => by simp at hs
  | .cons hfirst hss, s, hs => by
      rcases List.mem_cons.mp hs with rfl | hs
      · exact hfirst.knows
      · exact hss.knows s hs

theorem AllAnswer.length_eq {rs : List Rule} {ss : List IdSet} :
    AllAnswer inv stored? rs ss → ss.length = rs.length
  | .nil => rfl
  | .cons _ hss => by simp [hss.length_eq]

theorem AllAnswer.joinAll {connective : Connective} {rs : List Rule} {ss : List IdSet}
    (hcheck : connective.check rs = .ok ()) (hss : AllAnswer inv stored? rs ss) :
    Answers inv stored? (.nested connective rs) (Resolver.joinAll connective ss) := by
  have hrs : rs ≠ [] := by
    rintro rfl
    simp [Connective.check] at hcheck
  have hne : ss ≠ [] := by
    rintro rfl
    exact hrs (List.length_eq_zero_iff.mp hss.length_eq.symm)
  cases connective with
  | and =>
      constructor
      · intro x hx
        obtain ⟨s, hs⟩ := List.exists_mem_of_ne_nil ss hne
        exact hss.knows s hs x ((Resolver.mem_joinAll_and hne).mp hx s hs)
      · intro a ha
        have hb : decide (a.id ∈ Resolver.joinAll .and ss) =
            (ss.map fun s => decide (a.id ∈ s)).all id := by
          rw [Bool.eq_iff_iff]
          simp [Resolver.mem_joinAll_and hne]
        rw [hb]
        exact .all (hss.verdicts ha)
  | or =>
      constructor
      · intro x hx
        obtain ⟨s, hs, hx⟩ := Resolver.mem_joinAll_or.mp hx
        exact hss.knows s hs x hx
      · intro a ha
        have hb : decide (a.id ∈ Resolver.joinAll .or ss) =
            (ss.map fun s => decide (a.id ∈ s)).any id := by
          rw [Bool.eq_iff_iff]
          simp [Resolver.mem_joinAll_or]
        rw [hb]
        exact .any (hss.verdicts ha)
  | unknown =>
      simp [Connective.check, hrs] at hcheck

mutual

theorem compile_answers (h : inv.Numbered) (hrefer : Refers inv stored? refer) : (r : Rule) →
    {s : IdSet} → Resolver.compile inv refer r = .ok s → Answers inv stored? r s
  | .condition _, _, hs => by
      rw [Resolver.compile] at hs
      exact condition_answers h hrefer hs
  | .nested _ rules, _, hs => by
      obtain ⟨hcheck, ss, hss, rfl⟩ := Resolver.compile_nested_ok.mp hs
      exact (compileAll_answers h hrefer rules hss).joinAll hcheck

theorem compileAll_answers (h : inv.Numbered) (hrefer : Refers inv stored? refer) :
    (rs : List Rule) → {ss : List IdSet} → Resolver.compileAll inv refer rs = .ok ss →
    AllAnswer inv stored? rs ss
  | [], _, hss => by
      rw [Resolver.compileAll, pure_eq_ok] at hss
      subst hss
      exact .nil
  | r :: rs, _, hss => by
      obtain ⟨first, rest, hfirst, hrest, rfl⟩ := Resolver.compileAll_cons_ok.mp hss
      exact .cons (compile_answers h hrefer r hfirst) (compileAll_answers h hrefer rs hrest)

end

/-! ## References and whole groups -/

namespace Resolver

variable {r : Resolver} {lookup : Nat → Except GroupError Group}

/-- The induction is on the number of references that may still follow one another. -/
theorem follow_refers (h : r.inventory.Numbered) (allowance : Nat) (trail : List Nat) :
    Refers r.inventory (fun id => (lookup id).toOption) (follow r lookup allowance trail) := by
  induction allowance generalizing trail with
  | zero =>
      intro value found hfound
      obtain ⟨_, _, _, _, _, hleft, _⟩ := follow_ok.mp hfound
      contradiction
  | succ n ih =>
      intro value found hfound
      obtain ⟨id, g, left, hid, -, hleft, hg, hcompile⟩ := follow_ok.mp hfound
      obtain rfl : left = n := by omega
      refine ⟨id, g, hid, ?_, compile_answers h (ih (trail ++ [id])) _ hcompile⟩
      simp [hg, Except.toOption]

/-- The list describes, in ascending order of their ids, exactly the assets that satisfy the rules and
do not bear the reserved name. -/
structure Lists (r : Resolver) (stored? : Nat → Option Group) (rules : RuleSet)
    (found : List Inventory.AssetRef) : Prop where
  ascending : found.Pairwise (·.id < ·.id)
  described : ∀ ref ∈ found, ∃ a ∈ r.inventory.assets, ref = ⟨a.id, a.name⟩
  satisfying : ∀ a ∈ r.inventory.assets, ∃ b,
    (∀ b', Verdict r.inventory stored? a rules.toRule b' ↔ b' = b) ∧
    (⟨a.id, a.name⟩ ∈ found ↔ b = true ∧ r.reserved ≠ some a.name)

theorem resolveFrom_lists (h : r.inventory.Numbered) {trail : List Nat} {rules : RuleSet}
    {found : List Inventory.AssetRef} (hfound : r.resolveFrom lookup trail rules = .ok found) :
    r.Lists (fun id => (lookup id).toOption) rules found := by
  rw [resolveFrom, bind_eq_ok] at hfound
  obtain ⟨s, hs, hdescribe⟩ := hfound
  rw [pure_eq_ok] at hdescribe
  have hanswers := compile_answers h (follow_refers h _ trail) _ hs
  obtain ⟨shown, rfl, hmem⟩ : ∃ shown, found = r.inventory.describe shown ∧
      ∀ a ∈ r.inventory.assets, a.id ∈ shown ↔ a.id ∈ s ∧ r.reserved ≠ some a.name := by
    cases hreserved : r.reserved with
    | none =>
        rw [hreserved] at hdescribe
        exact ⟨s, hdescribe, by simp⟩
    | some name =>
        rw [hreserved] at hdescribe
        refine ⟨_, hdescribe, fun a ha => ?_⟩
        simp [Inventory.byInternalName, h.id_mem_select ha, TextMatch.accepts, eq_comm (a := name)]
  refine ⟨h.describe_ascending shown, fun ref href => ?_, fun a ha => ?_⟩
  · obtain ⟨a, ha, -, rfl⟩ := h.mem_describe.mp href
    exact ⟨a, ha, rfl⟩
  · refine ⟨decide (a.id ∈ s), fun b' => ⟨fun hb' => hb'.unique (hanswers.verdict a ha), ?_⟩, ?_⟩
    · rintro rfl
      exact hanswers.verdict a ha
    · rw [h.mem_describe, decide_eq_true_iff, ← hmem a ha]
      constructor
      · rintro ⟨b, hb, hb', href⟩
        rw [Inventory.AssetRef.mk.injEq] at href
        rwa [href.1]
      · intro hx
        exact ⟨a, ha, hx, rfl⟩

end Resolver

end AssetGroups
