import AssetGroups.Glob
import AssetGroups.Proofs.Text.Pieces

/-!
Patterns with stars. The match seeks every piece from the left and never goes back, and still
accepts a text exactly when the pieces can be spaced out over it.
-/

namespace AssetGroups.Glob

open AssetGroups.Text

/-- Some run of characters, perhaps empty, before each of the pieces, and nothing behind them. -/
def Spaced (pieces : List (List Char)) (text : List Char) : Prop :=
  ∃ runs : List (List Char), runs.length = pieces.length ∧
    text = (runs.zipWith (· ++ ·) pieces).flatten

@[simp]
theorem spaced_nil {text : List Char} : Spaced [] text ↔ text = [] := by
  simp [Spaced]

theorem spaced_cons {piece text : List Char} {pieces : List (List Char)} :
    Spaced (piece :: pieces) text ↔
      ∃ run rest, text = run ++ piece ++ rest ∧ Spaced pieces rest := by
  constructor
  · rintro ⟨_ | ⟨run, runs⟩, hlen, rfl⟩
    · simp at hlen
    · exact ⟨run, _, by simp, runs, by simpa using hlen, rfl⟩
  · rintro ⟨run, _, rfl, runs, hlen, rfl⟩
    exact ⟨run :: runs, by simp [hlen], by simp⟩

/-- Why seeking from the left loses nothing: what the earlier place of a piece leaves over goes
into the next run. -/
theorem Spaced.lengthen {piece text : List Char} {pieces : List (List Char)}
    (h : Spaced (piece :: pieces) text) (more : List Char) :
    Spaced (piece :: pieces) (more ++ text) := by
  obtain ⟨run, rest, rfl, hrest⟩ := spaced_cons.1 h
  exact spaced_cons.2 ⟨more ++ run, rest, by simp, hrest⟩

theorem matchTail_iff {pieces : List (List Char)} {text : List Char} :
    matchTail pieces text = true ↔ Spaced pieces text := by
  fun_induction matchTail pieces text with
  | case1 text => simp
  | case2 last text =>
      simp only [List.isSuffixOf_iff_suffix, spaced_cons, spaced_nil]
      constructor
      · rintro ⟨run, rfl⟩
        exact ⟨run, [], by simp, rfl⟩
      · rintro ⟨run, _, rfl, rfl⟩
        exact ⟨run, by simp⟩
  | case3 piece pieces text hmore rest hfirst ih =>
      rw [ih, spaced_cons]
      constructor
      · intro hrest
        obtain ⟨run, rfl⟩ := exists_of_afterFirst hfirst
        exact ⟨run, rest, rfl, hrest⟩
      · rintro ⟨run, rest', rfl, hrest'⟩
        obtain ⟨more, hleft⟩ := afterFirst_leftmost run piece rest'
        cases hfirst.symm.trans hleft
        obtain ⟨next, pieces, rfl⟩ := List.exists_cons_of_ne_nil hmore
        exact hrest'.lengthen more
  | case4 piece pieces text hmore hfirst =>
      simp only [Bool.false_eq_true, false_iff, spaced_cons]
      rintro ⟨run, rest, rfl, -⟩
      obtain ⟨more, hleft⟩ := afterFirst_leftmost run piece rest
      exact absurd (hfirst.symm.trans hleft) (Option.some_ne_none _).symm

theorem accepts_iff_of_splitAt {pattern first text : List Char} {pieces : List (List Char)}
    (h : splitAt '*' pattern = first :: pieces) :
    accepts pattern text = true ↔ ∃ rest, text = first ++ rest ∧ Spaced pieces rest := by
  simp only [accepts, h]
  split
  case h_1 rest hfront =>
    obtain rfl := afterFront_eq_some_iff.1 hfront
    simp [matchTail_iff]
  case h_2 hfront =>
    simp only [Bool.false_eq_true, false_iff]
    rintro ⟨rest, rfl, -⟩
    simp [afterFront_eq_some_iff.2] at hfront

/-- A pattern accepts exactly the texts that its pieces make up with some run of characters in the
place of each star; without a star, its own text alone. -/
theorem accepts_iff (pattern : List Char) :
    ∃ first pieces, Split '*' pattern first pieces ∧
      ∀ text, accepts pattern text = true ↔
        ∃ runs : List (List Char), runs.length = pieces.length ∧
          text = first ++ (runs.zipWith (· ++ ·) pieces).flatten := by
  obtain ⟨first, pieces, heq, hsplit⟩ := splitAt_split '*' pattern
  refine ⟨first, pieces, hsplit, fun text => (accepts_iff_of_splitAt heq).trans ?_⟩
  constructor
  · rintro ⟨_, rfl, runs, hlen, rfl⟩
    exact ⟨runs, hlen, rfl⟩
  · rintro ⟨runs, hlen, rfl⟩
    exact ⟨_, rfl, runs, hlen, rfl⟩

/-- Pieces that stand side by side may not share what they match. -/
example : accepts "ab*ba".toList "aba".toList = false := by decide

/-! ## What a pattern stands for -/

/-- The texts that a pattern stands for, read character by character. -/
inductive StandsFor : List Char → List Char → Prop where
  | nil : StandsFor [] []
  | char {c : Char} {pattern text : List Char} : c ≠ '*' → StandsFor pattern text →
      StandsFor (c :: pattern) (c :: text)
  | star {pattern text : List Char} (run : List Char) : StandsFor pattern text →
      StandsFor ('*' :: pattern) (run ++ text)

@[simp]
theorem standsFor_nil {text : List Char} : StandsFor [] text ↔ text = [] := by
  constructor
  · rintro ⟨⟩
    rfl
  · rintro rfl
    exact .nil

theorem standsFor_char {c : Char} {pattern text : List Char} (hc : c ≠ '*') :
    StandsFor (c :: pattern) text ↔ ∃ rest, text = c :: rest ∧ StandsFor pattern rest := by
  constructor
  · intro h
    cases h with
    | char _ h => exact ⟨_, rfl, h⟩
    | star _ _ => exact absurd rfl hc
  · rintro ⟨rest, rfl, h⟩
    exact .char hc h

theorem standsFor_star {pattern text : List Char} :
    StandsFor ('*' :: pattern) text ↔ ∃ run rest, text = run ++ rest ∧ StandsFor pattern rest := by
  constructor
  · intro h
    cases h with
    | char hc _ => exact absurd rfl hc
    | star run h => exact ⟨run, _, rfl, h⟩
  · rintro ⟨run, rest, rfl, h⟩
    exact .star run h

/-- The pieces between the stars, spaced out, are what the pattern stands for. -/
theorem standsFor_iff_spaced {pattern first : List Char} {pieces : List (List Char)}
    (h : splitAt '*' pattern = first :: pieces) {text : List Char} :
    StandsFor pattern text ↔ ∃ rest, text = first ++ rest ∧ Spaced pieces rest := by
  induction pattern generalizing first pieces text with
  | nil =>
      cases h
      simp
  | cons c pattern ih =>
      obtain ⟨first', pieces', heq, -⟩ := splitAt_split '*' pattern
      by_cases hc : c = '*'
      · subst hc
        simp only [splitAt, ↓reduceIte, heq, List.cons.injEq] at h
        obtain ⟨rfl, rfl⟩ := h
        simp only [standsFor_star, ih heq, List.nil_append, spaced_cons, exists_eq_left',
          List.append_assoc]
        constructor
        · rintro ⟨run, _, rfl, rest, rfl, hs⟩
          exact ⟨run, rest, rfl, hs⟩
        · rintro ⟨run, rest, rfl, hs⟩
          exact ⟨run, _, rfl, rest, rfl, hs⟩
      · simp only [splitAt, hc, ↓reduceIte, heq, List.cons.injEq] at h
        obtain ⟨rfl, rfl⟩ := h
        simp only [standsFor_char hc, ih heq, List.cons_append]
        constructor
        · rintro ⟨_, rfl, rest, rfl, hs⟩
          exact ⟨rest, rfl, hs⟩
        · rintro ⟨rest, rfl, hs⟩
          exact ⟨_, rfl, rest, rfl, hs⟩

theorem accepts_eq_true {pattern text : List Char} :
    accepts pattern text = true ↔ StandsFor pattern text := by
  obtain ⟨first, pieces, heq, -⟩ := splitAt_split '*' pattern
  rw [accepts_iff_of_splitAt heq, standsFor_iff_spaced heq]

theorem standsFor_append {front back text : List Char} :
    StandsFor (front ++ back) text ↔
      ∃ before after, text = before ++ after ∧ StandsFor front before ∧ StandsFor back after := by
  induction front generalizing text with
  | nil => simp
  | cons c front ih =>
      by_cases hc : c = '*'
      · subst hc
        simp only [List.cons_append, standsFor_star, ih]
        constructor
        · rintro ⟨run, _, rfl, before, after, rfl, hbefore, hafter⟩
          exact ⟨run ++ before, after, by simp, ⟨run, before, rfl, hbefore⟩, hafter⟩
        · rintro ⟨_, after, rfl, ⟨run, before, rfl, hbefore⟩, hafter⟩
          exact ⟨run, before ++ after, by simp, before, after, rfl, hbefore, hafter⟩
      · simp only [List.cons_append, standsFor_char hc, ih]
        constructor
        · rintro ⟨_, rfl, before, after, rfl, hbefore, hafter⟩
          exact ⟨c :: before, after, by simp, ⟨before, rfl, hbefore⟩, hafter⟩
        · rintro ⟨_, after, rfl, ⟨before, rfl, hbefore⟩, hafter⟩
          exact ⟨before ++ after, by simp, before, after, rfl, hbefore, hafter⟩

/-- Without a star a pattern stands for its own text alone. -/
theorem standsFor_literal {pattern text : List Char} (h : '*' ∉ pattern) :
    StandsFor pattern text ↔ text = pattern := by
  induction pattern generalizing text with
  | nil => exact standsFor_nil
  | cons c pattern ih =>
      simp only [List.mem_cons, not_or] at h
      simp [standsFor_char (Ne.symm h.1), ih h.2]

/-- Between two stars a pattern stands for the texts with a part that it stands for. -/
theorem standsFor_wrapped {pattern text : List Char} :
    StandsFor ('*' :: pattern ++ ['*']) text ↔ ∃ part, part <:+: text ∧ StandsFor pattern part := by
  simp only [List.cons_append, standsFor_star, standsFor_append, standsFor_nil]
  constructor
  · rintro ⟨run, _, rfl, part, _, rfl, hpart, after, _, rfl, rfl⟩
    exact ⟨part, ⟨run, after, by simp⟩, hpart⟩
  · rintro ⟨part, ⟨before, after, rfl⟩, hpart⟩
    exact ⟨before, part ++ after, by simp, part, after, rfl, hpart, after, [], by simp, rfl⟩

end AssetGroups.Glob
