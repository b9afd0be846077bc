import AssetGroups.Text.Blank
import Mathlib.Data.List.Basic

/-!
# Texts freed of white space

What trimming leaves, said without the two directions in which it goes.
-/

namespace AssetGroups.Text

/-- `core` is `text` without the white space at its ends. -/
structure Trimmed (text core : List Char) : Prop where
  surrounded : ∃ before after, text = before ++ core ++ after ∧
    (∀ c ∈ before, isBlank c = true) ∧ ∀ c ∈ after, isBlank c = true
  head : ∀ c, core.head? = some c → isBlank c = false
  last : ∀ c, core.getLast? = some c → isBlank c = false

theorem trimLeft_append {before text : List Char} (h : ∀ c ∈ before, isBlank c = true) :
    trimLeft (before ++ text) = trimLeft text := by
  rw [trimLeft, List.dropWhile_append_of_pos h, trimLeft]

theorem trimLeft_eq_self {text : List Char} (h : ∀ c, text.head? = some c → isBlank c = false) :
    trimLeft text = text := by
  cases text with
  | nil => rfl
  | cons c text => simp [trimLeft, h c rfl]

theorem trimRight_eq (text : List Char) : trimRight text = (trimLeft text.reverse).reverse := rfl

theorem exists_trimLeft (text : List Char) :
    ∃ before, text = before ++ trimLeft text ∧ (∀ c ∈ before, isBlank c = true) ∧
      ∀ c, (trimLeft text).head? = some c → isBlank c = false := by
  refine ⟨text.takeWhile isBlank, List.takeWhile_append_dropWhile.symm,
    fun c hc => List.all_eq_true.mp List.all_takeWhile c hc, fun c hc => ?_⟩
  have := List.head?_dropWhile_not isBlank text
  rw [trimLeft] at hc
  rw [hc] at this
  simpa using this

theorem trim_trimmed (text : List Char) : Trimmed text (trim text) := by
  obtain ⟨before, htext, hbefore, hhead⟩ := exists_trimLeft text
  obtain ⟨after, hrest, hafter, hlast⟩ := exists_trimLeft (trimLeft text).reverse
  have hrest' : trimLeft text = trim text ++ after.reverse := by
    rw [trim, trimRight_eq, ← List.reverse_append, ← hrest, List.reverse_reverse]
  refine ⟨⟨before, after.reverse, ?_, hbefore, by simpa using hafter⟩, fun c hc => ?_, fun c hc => ?_⟩
  · rw [List.append_assoc, ← hrest', ← htext]
  · refine hhead c ?_
    rw [hrest', List.head?_append, hc, Option.some_or]
  · refine hlast c ?_
    rwa [trim, trimRight_eq, List.getLast?_reverse] at hc

theorem Trimmed.eq_trim {text core : List Char} (h : Trimmed text core) : core = trim text := by
  obtain ⟨before, after, rfl, hbefore, hafter⟩ := h.surrounded
  rw [trim, List.append_assoc, trimLeft_append hbefore]
  cases core with
  | nil =>
      have hblank : trimLeft (after ++ []) = [] := trimLeft_append hafter
      rw [List.append_nil] at hblank
      simp [hblank, trimRight]
  | cons c core =>
      rw [trimLeft_eq_self fun d hd => h.head d (by simpa using hd), trimRight_eq,
        List.reverse_append, trimLeft_append (by simpa using hafter),
        trimLeft_eq_self fun d hd => h.last d (by rwa [List.head?_reverse] at hd),
        List.reverse_reverse]

end AssetGroups.Text
