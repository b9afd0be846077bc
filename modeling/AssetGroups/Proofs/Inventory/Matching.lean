import AssetGroups.Inventory.Matching
import AssetGroups.Proofs.Glob
import AssetGroups.Proofs.Text.Blank

/-!
# What the match of an address accepts

An address is matched by whichever form suits each of its alternatives. What is accepted depends on
the alternatives alone: every one stands for texts as a pattern does.
-/

namespace AssetGroups

open Text Glob

/-- `c` is one of the texts between the bars of an address, freed of white space, and not empty. -/
def IsAlternative (value : String) (c : List Char) : Prop :=
  c ≠ [] ∧ ∃ first pieces, Split '|' value.toList first pieces ∧
    ∃ piece ∈ first :: pieces, Trimmed piece c

/-- Whether a text answers an alternative: the whole of it does, or, for the operators on parts, some
part of it. -/
def Operator.Covers (op : Operator) (c text : List Char) : Prop :=
  match op with
  | .contains | .doesNotContain => ∃ part, part <:+: text ∧ StandsFor c part
  | .equals | .differs | .unknown => StandsFor c text

theorem Operator.covers_whole {op : Operator} {c text : List Char} (h : op.isPartial = false) :
    op.Covers c text ↔ StandsFor c text := by
  cases op <;> simp_all [isPartial, Covers]

theorem Operator.covers_part {op : Operator} {c text : List Char} (h : op.isPartial = true) :
    op.Covers c text ↔ ∃ part, part <:+: text ∧ StandsFor c part := by
  cases op <;> simp_all [isPartial, Covers]

/-- The matches that can take the place of an alternative. One without a star need not be read as a
pattern. -/
inductive Operator.Renders : Operator → List Char → TextMatch → Prop where
  | exact {op : Operator} {c : List Char} : op.isPartial = false → '*' ∉ c →
      op.Renders c (.exact (String.ofList c))
  | pattern {op : Operator} {c : List Char} : op.isPartial = false →
      op.Renders c (.wildcard (String.ofList c))
  | part {op : Operator} {c : List Char} : op.isPartial = true → '*' ∉ c →
      op.Renders c (.contains (String.ofList c))
  | wrapped {op : Operator} {c : List Char} : op.isPartial = true →
      op.Renders c (.wildcard (String.ofList ('*' :: c ++ ['*'])))

/-- The matches that can take the place of an address: each of its alternatives is rendered, in any
form, at any place and any number of times, and a single one may stand for itself. -/
inductive Operator.RendersAll (op : Operator) (value : String) : TextMatch → Prop where
  | anyOf {ms : List TextMatch} : (∀ m ∈ ms, ∃ c, IsAlternative value c ∧ op.Renders c m) →
      (∀ c, IsAlternative value c → ∃ m ∈ ms, op.Renders c m) → op.RendersAll value (.anyOf ms)
  | only {c : List Char} {m : TextMatch} : (∀ c', IsAlternative value c' ↔ c' = c) →
      op.Renders c m → op.RendersAll value m

namespace TextMatch

variable {op : Operator} {value : String} {c : List Char} {m : TextMatch} {text : String}

/-! ## Alternatives -/

theorem mem_alternatives : c ∈ alternatives value ↔ IsAlternative value c := by
  obtain ⟨first, pieces, heq, hsplit⟩ := splitAt_split '|' value.toList
  simp only [alternatives, heq, List.mem_filter, List.mem_map, Bool.not_eq_true',
    List.isEmpty_eq_false_iff, and_comm (b := c ≠ []), IsAlternative]
  refine and_congr_right fun _ => ⟨?_, ?_⟩
  · rintro ⟨piece, hpiece, rfl⟩
    exact ⟨first, pieces, hsplit, piece, hpiece, trim_trimmed piece⟩
  · rintro ⟨first', pieces', hsplit', piece, hpiece, htrim⟩
    rw [hsplit'.splitAt_eq, List.cons.injEq] at heq
    obtain ⟨rfl, rfl⟩ := heq
    exact ⟨piece, hpiece, htrim.eq_trim.symm⟩

/-! ## Matches -/

theorem anyAccepts_iff {ms : List TextMatch} :
    anyAccepts ms text = true ↔ ∃ m ∈ ms, m.accepts text = true := by
  induction ms with
  | nil => simp [anyAccepts]
  | cons m ms ih => simp [anyAccepts, ih]

theorem accepts_of_renders (h : op.Renders c m) :
    m.accepts text = true ↔ op.Covers c text.toList := by
  cases h with
  | exact hop hc =>
      rw [Operator.covers_whole hop, standsFor_literal hc, accepts, beq_iff_eq,
        ← String.toList_inj, String.toList_ofList]
  | pattern hop =>
      rw [Operator.covers_whole hop, accepts, String.toList_ofList, Glob.accepts_eq_true]
  | part hop hc =>
      simp only [Operator.covers_part hop, standsFor_literal hc, accepts, String.toList_ofList,
        occursIn_iff, exists_eq_right]
  | wrapped hop =>
      rw [Operator.covers_part hop, accepts, String.toList_ofList, Glob.accepts_eq_true,
        standsFor_wrapped]

theorem ofAlternative_renders (op : Operator) (c : List Char) :
    op.Renders c (ofAlternative op c) := by
  unfold ofAlternative
  split
  case h_1 hc hop => exact .wrapped hop
  case h_2 hc hop => exact .pattern hop
  case h_3 hc hop => exact .part hop (by simpa using hc)
  case h_4 hc hop => exact .exact hop (by simpa using hc)

theorem ofAddress_renders (op : Operator) (value : String) :
    op.RendersAll value (ofAddress op value) := by
  unfold ofAddress
  split
  case h_1 m hm =>
    obtain ⟨c, hc, rfl⟩ := List.map_eq_singleton_iff.mp hm
    refine .only (c := c) (fun c' => ?_) (ofAlternative_renders op c)
    rw [← mem_alternatives, hc, List.mem_singleton]
  case h_2 =>
    refine .anyOf (fun m hm => ?_) fun c hc => ?_
    · obtain ⟨c, hc, rfl⟩ := List.mem_map.mp hm
      exact ⟨c, mem_alternatives.mp hc, ofAlternative_renders op c⟩
    · exact ⟨_, List.mem_map.mpr ⟨c, mem_alternatives.mpr hc, rfl⟩, ofAlternative_renders op c⟩

/-- Whatever takes the place of an address accepts what one of its alternatives covers. -/
theorem accepts_of_rendersAll (h : op.RendersAll value m) :
    m.accepts text = true ↔ ∃ c, IsAlternative value c ∧ op.Covers c text.toList := by
  cases h with
  | anyOf hms hcs =>
      rw [accepts, anyAccepts_iff]
      constructor
      · rintro ⟨m, hm, hacc⟩
        obtain ⟨c, hc, hrenders⟩ := hms m hm
        exact ⟨c, hc, (accepts_of_renders hrenders).mp hacc⟩
      · rintro ⟨c, hc, hcovers⟩
        obtain ⟨m, hm, hrenders⟩ := hcs c hc
        exact ⟨m, hm, (accepts_of_renders hrenders).mpr hcovers⟩
  | only hc hrenders =>
      rw [accepts_of_renders hrenders]
      simp [hc]

/-- The match of an address accepts a text if one of the alternatives covers it. It makes no
difference which forms render the alternatives, nor in which order and how often they are given;
and without any alternative nothing is accepted. -/
theorem ofAddress_accepts (op : Operator) (value text : String) :
    ((ofAddress op value).accepts text = true ↔
      ∃ c, IsAlternative value c ∧ op.Covers c text.toList) ∧
    (∀ m, op.RendersAll value m → m.accepts text = (ofAddress op value).accepts text) ∧
    (∀ value', (∀ c, IsAlternative value' c ↔ IsAlternative value c) →
      (ofAddress op value').accepts text = (ofAddress op value).accepts text) ∧
    ((∀ c, ¬ IsAlternative value c) → (ofAddress op value).accepts text = false) := by
  have haccepts (value' : String) : (ofAddress op value').accepts text = true ↔
      ∃ c, IsAlternative value' c ∧ op.Covers c text.toList :=
    accepts_of_rendersAll (ofAddress_renders op value')
  refine ⟨haccepts value, fun m hm => ?_, fun value' hsame => ?_, fun hnone => ?_⟩
  · rw [Bool.eq_iff_iff, haccepts]
    exact accepts_of_rendersAll hm
  · rw [Bool.eq_iff_iff, haccepts, haccepts]
    simp only [hsame]
  · rw [Bool.eq_false_iff, ne_eq, haccepts]
    rintro ⟨c, hc, -⟩
    exact hnone c hc

/-- Alternatives in another order and one of them twice, then all of them read as patterns; and an
address of bars and white space. -/
theorem ofAddress_accepts_reordered :
    ((∀ c, IsAlternative "srv|10.*|srv" c ↔ IsAlternative " 10.* | srv |" c) ∧
      (ofAddress .contains "srv|10.*|srv").accepts "at 10.0.0.1" = true) ∧
    (Operator.contains.RendersAll " 10.* | srv |" (.anyOf [.wildcard "*srv*", .wildcard "*10.**"]) ∧
      TextMatch.accepts (.anyOf [.wildcard "*srv*", .wildcard "*10.**"]) "at 10.0.0.1" = true) ∧
    ((∀ c, ¬ IsAlternative " | " c) ∧ (ofAddress .equals " | ").accepts "at 10.0.0.1" = false) := by
  obtain ⟨haccepts, hrendered, hsame, -⟩ :=
    ofAddress_accepts .contains " 10.* | srv |" "at 10.0.0.1"
  have hmem (c : List Char) : IsAlternative " 10.* | srv |" c ↔ c = "10.*".toList ∨ c = "srv".toList := by
    rw [← mem_alternatives, show alternatives " 10.* | srv |" = ["10.*".toList, "srv".toList] by decide]
    simp
  have hmem' (c : List Char) : IsAlternative "srv|10.*|srv" c ↔ IsAlternative " 10.* | srv |" c := by
    rw [hmem, ← mem_alternatives, show alternatives "srv|10.*|srv" =
      ["srv".toList, "10.*".toList, "srv".toList] by decide]
    simp only [List.mem_cons, List.not_mem_nil, or_false]
    tauto
  have hnone (c : List Char) : ¬ IsAlternative " | " c := by
    rw [← mem_alternatives, show alternatives " | " = [] by decide]
    exact List.not_mem_nil
  have htrue : (ofAddress .contains " 10.* | srv |").accepts "at 10.0.0.1" = true :=
    haccepts.mpr ⟨"10.*".toList, (hmem _).mpr (.inl rfl), "10.0.0.1".toList, ⟨"at ".toList, [], rfl⟩,
      Glob.accepts_eq_true.mp (by decide)⟩
  have hrenders : Operator.contains.RendersAll " 10.* | srv |"
      (.anyOf [.wildcard "*srv*", .wildcard "*10.**"]) := by
    refine .anyOf (fun m hm => ?_) fun c hc => ?_
    · simp only [List.mem_cons, List.not_mem_nil, or_false] at hm
      rcases hm with rfl | rfl
      · exact ⟨"srv".toList, (hmem _).mpr (.inr rfl), .wrapped rfl⟩
      · exact ⟨"10.*".toList, (hmem _).mpr (.inl rfl), .wrapped rfl⟩
    · rcases (hmem c).mp hc with rfl | rfl
      · exact ⟨_, List.mem_cons_of_mem _ List.mem_cons_self, .wrapped rfl⟩
      · exact ⟨_, List.mem_cons_self, .wrapped rfl⟩
  exact ⟨⟨hmem', (hsame _ hmem').trans htrue⟩, ⟨hrenders, (hrendered _ hrenders).trans htrue⟩, hnone,
    (ofAddress_accepts .equals " | " "at 10.0.0.1").2.2.2 hnone⟩

end TextMatch

end AssetGroups
