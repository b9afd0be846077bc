import Mathlib.Data.List.Basic

/-!
# Rows of numerals

Numbers that are written one after another can be told from the text, since the separator begins with a
character that is no digit.
-/

namespace AssetGroups.Text

/-! ## Joined words -/

section

variable {α : Type} {p : α → Bool} {sep : List α}

theorem takeWhile_append_eq {word rest : List α} (hword : ∀ a ∈ word, p a = true)
    (hrest : ∀ a, rest.head? = some a → p a = false) : (word ++ rest).takeWhile p = word := by
  rw [List.takeWhile_append_of_pos hword]
  cases rest with
  | nil => simp
  | cons a rest => simp [hrest a rfl]

theorem cut_unique {w v rest rest' : List α} (hw : ∀ a ∈ w, p a = true)
    (hv : ∀ a ∈ v, p a = true) (hrest : ∀ a, rest.head? = some a → p a = false)
    (hrest' : ∀ a, rest'.head? = some a → p a = false) (h : w ++ rest = v ++ rest') :
    w = v ∧ rest = rest' := by
  obtain rfl : w = v := by
    rw [← takeWhile_append_eq hw hrest, h, takeWhile_append_eq hv hrest']
  exact ⟨rfl, List.append_cancel_left h⟩

theorem intercalate_cons (w : List α) (ws : List (List α)) :
    sep.intercalate (w :: ws) = w ++ ws.flatMap (sep ++ ·) := by
  induction ws generalizing w with
  | nil => simp
  | cons v ws ih =>
      rw [List.intercalate_cons_cons, ih, List.flatMap_cons, List.append_assoc, List.append_assoc]

variable {c : α} {ws vs : List (List α)} (hsep : sep.head? = some c) (hc : p c = false)
include hsep hc

theorem head?_flatMap_sep (ws : List (List α)) :
    ∀ a, (ws.flatMap (sep ++ ·)).head? = some a → p a = false := by
  intro a ha
  cases ws with
  | nil => cases ha
  | cons w ws =>
      rw [List.flatMap_cons, List.append_assoc, List.head?_append, hsep] at ha
      cases ha
      exact hc

theorem flatMap_sep_inj (hws : ∀ w ∈ ws, ∀ a ∈ w, p a = true) (hvs : ∀ v ∈ vs, ∀ a ∈ v, p a = true)
    (h : ws.flatMap (sep ++ ·) = vs.flatMap (sep ++ ·)) : ws = vs := by
  -- otherwise empty words could be added unseen
  have hne : sep ≠ [] := by
    rintro rfl
    cases hsep
  induction ws generalizing vs with
  | nil =>
      cases vs with
      | nil => rfl
      | cons v vs => simp [hne] at h
  | cons w ws ih =>
      cases vs with
      | nil => simp [hne] at h
      | cons v vs =>
          rw [List.flatMap_cons, List.flatMap_cons, List.append_assoc, List.append_assoc] at h
          rw [List.forall_mem_cons] at hws hvs
          obtain ⟨rfl, hrest⟩ := cut_unique hws.1 hvs.1 (head?_flatMap_sep hsep hc ws)
            (head?_flatMap_sep hsep hc vs) (List.append_cancel_left h)
          rw [ih hws.2 hvs.2 hrest]

/-- Joined words can be told apart if the separator does not begin like a word. -/
theorem intercalate_inj (hws : ∀ w ∈ ws, w ≠ [] ∧ ∀ a ∈ w, p a = true)
    (hvs : ∀ v ∈ vs, v ≠ [] ∧ ∀ a ∈ v, p a = true) (h : sep.intercalate ws = sep.intercalate vs) :
    ws = vs := by
  cases ws with
  | nil =>
      cases vs with
      | nil => rfl
      | cons v vs =>
          rw [intercalate_cons, List.intercalate_nil] at h
          exact absurd (List.append_eq_nil_iff.mp h.symm).1 (hvs v List.mem_cons_self).1
  | cons w ws =>
      rw [List.forall_mem_cons] at hws
      cases vs with
      | nil =>
          rw [intercalate_cons, List.intercalate_nil] at h
          exact absurd (List.append_eq_nil_iff.mp h).1 hws.1.1
      | cons v vs =>
          rw [List.forall_mem_cons] at hvs
          rw [intercalate_cons, intercalate_cons] at h
          obtain ⟨rfl, hrest⟩ := cut_unique hws.1.2 hvs.1.2 (head?_flatMap_sep hsep hc ws)
            (head?_flatMap_sep hsep hc vs) h
          rw [flatMap_sep_inj hsep hc (fun w hw => (hws.2 w hw).2) (fun v hv => (hvs.2 v hv).2) hrest]

end

/-! ## Numerals -/

theorem toList_toString (n : Nat) : (toString n).toList = Nat.toDigits 10 n := by
  rw [Nat.toString_eq_ofList_toDigits, String.toList_ofList]

theorem toDigits_injective : Function.Injective (Nat.toDigits 10) := by
  intro n k h
  rw [← Nat.ofDigitChars_ten_toDigits (n := n), h, Nat.ofDigitChars_ten_toDigits]

theorem toList_numerals (sep : String) (ns : List Nat) :
    (sep.intercalate (ns.map toString)).toList = sep.toList.intercalate (ns.map (Nat.toDigits 10)) := by
  rw [String.toList_intercalate, List.map_map]
  exact congrArg _ (List.map_congr_left fun n _ => toList_toString n)

theorem isDigit_toDigits {ns : List Nat} :
    ∀ w ∈ ns.map (Nat.toDigits 10), w ≠ [] ∧ ∀ c ∈ w, c.isDigit = true := by
  intro w hw
  obtain ⟨n, -, rfl⟩ := List.mem_map.mp hw
  exact ⟨Nat.toDigits_ne_nil, fun c => Nat.isDigit_of_mem_toDigits (by decide) (by decide)⟩

theorem numerals_inj {sep : String} {c : Char} (hsep : sep.toList.head? = some c)
    (hc : c.isDigit = false) {ns ks : List Nat} :
    sep.intercalate (ns.map toString) = sep.intercalate (ks.map toString) ↔ ns = ks := by
  constructor
  · intro h
    have h := congrArg String.toList h
    rw [toList_numerals, toList_numerals] at h
    exact List.map_injective_iff.mpr toDigits_injective
      (intercalate_inj hsep hc isDigit_toDigits isDigit_toDigits h)
  · rintro rfl
    rfl

theorem isDigit_head?_numerals (sep : String) (ns : List Nat) :
    ∀ c, (sep.intercalate (ns.map toString)).toList.head? = some c → c.isDigit = true := by
  intro c h
  rw [toList_numerals] at h
  cases ns with
  | nil => cases h
  | cons n ns =>
      obtain ⟨hne, hdigits⟩ := isDigit_toDigits (Nat.toDigits 10 n)
        (List.mem_map_of_mem (List.mem_cons_self : n ∈ n :: ns))
      rw [List.map_cons, intercalate_cons, List.head?_append_of_ne_nil _ hne] at h
      exact hdigits c (List.mem_of_mem_head? h)

end AssetGroups.Text
