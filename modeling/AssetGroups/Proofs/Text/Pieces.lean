import Mathlib.Data.List.Infix
import AssetGroups.Proofs.Text.Numerals
import AssetGroups.Text.Pieces

/-!
What cutting a text leaves: `splitAt` the pieces between the separators, `afterFront` all that
follows the front, and `afterFirst` the longest rest that follows the sought piece.
-/

namespace AssetGroups.Text

/-! ## Pieces between separators -/

/-- `first` is what stands before the first separator, and `pieces` holds what follows each one up
to the next. -/
structure Split (sep : Char) (text first : List Char) (pieces : List (List Char)) : Prop where
  joined : text = first ++ pieces.flatMap (sep :: ·)
  unbroken : ∀ piece ∈ first :: pieces, sep ∉ piece

theorem Split.separator {sep : Char} {text first : List Char} {pieces : List (List Char)}
    (h : Split sep text first pieces) : Split sep (sep :: text) [] (first :: pieces) where
  joined := by simp [h.joined]
  unbroken := by simpa using h.unbroken

theorem Split.cons {sep c : Char} {text first : List Char} {pieces : List (List Char)}
    (h : Split sep text first pieces) (hc : c ≠ sep) :
    Split sep (c :: text) (c :: first) pieces where
  joined := by simp [h.joined]
  unbroken := by simpa [hc.symm] using h.unbroken

theorem splitAt_split (sep : Char) (text : List Char) :
    ∃ first pieces, splitAt sep text = first :: pieces ∧ Split sep text first pieces := by
  induction text with
  | nil => exact ⟨[], [], rfl, by simp, by simp⟩
  | cons c text ih =>
      obtain ⟨first, pieces, heq, hsplit⟩ := ih
      by_cases hc : c = sep
      · subst hc
        exact ⟨[], first :: pieces, by simp [splitAt, heq], hsplit.separator⟩
      · exact ⟨c :: first, pieces, by simp [splitAt, hc, heq], hsplit.cons hc⟩

theorem splitAt_unbroken {sep : Char} {text : List Char} (h : sep ∉ text) :
    splitAt sep text = [text] := by
  induction text with
  | nil => rfl
  | cons c text ih =>
      simp only [List.mem_cons, not_or] at h
      simp [splitAt, Ne.symm h.1, ih h.2]

theorem splitAt_append {sep : Char} {first : List Char} (h : sep ∉ first) (text : List Char) :
    splitAt sep (first ++ sep :: text) = first :: splitAt sep text := by
  induction first with
  | nil => simp [splitAt]
  | cons c first ih =>
      simp only [List.mem_cons, not_or] at h
      simp [splitAt, Ne.symm h.1, ih h.2]

/-- There is only one way to cut a text. -/
theorem Split.splitAt_eq {sep : Char} {text first : List Char} {pieces : List (List Char)}
    (h : Split sep text first pieces) : splitAt sep text = first :: pieces := by
  induction pieces generalizing text first with
  | nil =>
      rw [h.joined, List.flatMap_nil, List.append_nil]
      exact splitAt_unbroken (h.unbroken first (by simp))
  | cons piece pieces ih =>
      rw [h.joined, List.flatMap_cons, List.cons_append,
        splitAt_append (h.unbroken first (by simp))]
      rw [ih ⟨rfl, fun p hp => h.unbroken p (List.mem_cons_of_mem _ hp)⟩]

theorem splitAt_intercalate {sep : Char} {first : List Char} {pieces : List (List Char)}
    (h : ∀ piece ∈ first :: pieces, sep ∉ piece) :
    splitAt sep ([sep].intercalate (first :: pieces)) = first :: pieces :=
  Split.splitAt_eq ⟨intercalate_cons first pieces, h⟩

theorem intercalate_splitAt (sep : Char) (text : List Char) :
    [sep].intercalate (splitAt sep text) = text := by
  obtain ⟨first, pieces, heq, hsplit⟩ := splitAt_split sep text
  rw [heq, intercalate_cons]
  exact hsplit.joined.symm

/-! ## What follows a piece -/

theorem afterFront_eq_some_iff {piece text rest : List Char} :
    afterFront piece text = some rest ↔ text = piece ++ rest := by
  induction piece generalizing text with
  | nil => simp [afterFront]
  | cons p piece ih =>
      cases text with
      | nil => simp [afterFront]
      | cons c text =>
          by_cases hc : p = c
          · simp [afterFront, hc, ih]
          · simp [afterFront, hc, Ne.symm hc]

theorem exists_of_afterFirst {piece text rest : List Char}
    (h : afterFirst piece text = some rest) : ∃ run, text = run ++ piece ++ rest := by
  induction text with
  | nil =>
      cases piece with
      | nil => exact ⟨[], by simpa [afterFirst] using h.symm⟩
      | cons p piece => simp [afterFirst] at h
  | cons c text ih =>
      rw [afterFirst] at h
      split at h
      case h_1 after hfront =>
        cases h
        exact ⟨[], by simpa using afterFront_eq_some_iff.1 hfront⟩
      case h_2 =>
        obtain ⟨run, rfl⟩ := ih h
        exact ⟨c :: run, rfl⟩

/-- No other place where the piece occurs has a longer rest behind it: its rest ends the one that
is found. -/
theorem afterFirst_leftmost (run piece rest : List Char) :
    ∃ more, afterFirst piece (run ++ piece ++ rest) = some (more ++ rest) := by
  generalize htext : run ++ piece ++ rest = text
  induction text generalizing run with
  | nil =>
      simp only [List.append_eq_nil_iff] at htext
      obtain ⟨⟨-, rfl⟩, rfl⟩ := htext
      exact ⟨[], rfl⟩
  | cons c text ih =>
      rw [afterFirst]
      split
      case h_1 after hfront =>
        have hafter : c :: text = piece ++ after := afterFront_eq_some_iff.1 hfront
        have hlen : rest.length ≤ after.length := by
          have := congrArg List.length (htext.trans hafter)
          simp only [List.length_append] at this
          omega
        obtain ⟨more, hmore⟩ := List.suffix_of_suffix_length_le
          (htext ▸ List.suffix_append _ _) (hafter ▸ List.suffix_append _ _) hlen
        exact ⟨more, by rw [hmore]⟩
      case h_2 hfront =>
        cases run with
        | nil => exact absurd (afterFront_eq_some_iff.2 htext.symm) (by simp [hfront])
        | cons d run =>
            simp only [List.cons_append, List.cons.injEq] at htext
            exact ih run htext.2

theorem occursIn_iff {piece text : List Char} : occursIn piece text = true ↔ piece <:+: text := by
  rw [occursIn, Option.isSome_iff_exists]
  constructor
  · rintro ⟨rest, hfirst⟩
    obtain ⟨run, rfl⟩ := exists_of_afterFirst hfirst
    exact ⟨run, rest, rfl⟩
  · rintro ⟨run, rest, rfl⟩
    obtain ⟨more, hfirst⟩ := afterFirst_leftmost run piece rest
    exact ⟨more ++ rest, hfirst⟩

end AssetGroups.Text
