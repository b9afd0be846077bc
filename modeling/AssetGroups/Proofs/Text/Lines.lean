import AssetGroups.Error
import AssetGroups.Proofs.Text.Numerals

/-!
# Texts on one line

When a text that was put together stays on one line, and which messages do: those that quote no other
text, and those whose quoted text does.
-/

namespace AssetGroups

namespace Text

/-- The characters at which a line ends. -/
def isBreak (c : Char) : Bool :=
  c == '\n' || c == '\r' || c == '\x0b' || c == '\x0c' || c == '\u0085' || c == '\u2028' ||
    c == '\u2029'

def OnOneLine (s : String) : Prop := ∀ c ∈ s.toList, isBreak c = false

instance : DecidablePred OnOneLine := fun s =>
  decidable_of_iff (s.toList.any isBreak = false) (by simp [OnOneLine])

theorem onOneLine_append {s t : String} : OnOneLine (s ++ t) ↔ OnOneLine s ∧ OnOneLine t := by
  simp only [OnOneLine, String.toList_append, List.mem_append, or_imp, forall_and]

/-- A text between two others decides when these are on one line. -/
theorem onOneLine_between {before s after : String} (hbefore : OnOneLine before)
    (hafter : OnOneLine after) : OnOneLine (before ++ s ++ after) ↔ OnOneLine s := by
  rw [onOneLine_append, onOneLine_append]
  exact ⟨fun h => h.1.2, fun h => ⟨⟨hbefore, h⟩, hafter⟩⟩

theorem isBreak_of_isDigit {c : Char} (h : c.isDigit = true) : isBreak c = false := by
  simp only [isBreak, Bool.or_eq_false_iff, beq_eq_false_iff_ne]
  refine ⟨⟨⟨⟨⟨⟨?_, ?_⟩, ?_⟩, ?_⟩, ?_⟩, ?_⟩, ?_⟩ <;> rintro rfl <;> cases h

theorem onOneLine_numeral (n : Nat) : OnOneLine (toString n) := by
  intro c hc
  rw [toList_toString] at hc
  exact isBreak_of_isDigit (Nat.isDigit_of_mem_toDigits (by decide) (by decide) hc)

theorem onOneLine_intercalate {sep : String} (hsep : OnOneLine sep) {ss : List String}
    (h : ∀ s ∈ ss, OnOneLine s) : OnOneLine (sep.intercalate ss) := by
  intro c hc
  rw [String.toList_intercalate] at hc
  cases ss with
  | nil => simp at hc
  | cons s ss =>
      rw [List.map_cons, intercalate_cons, List.mem_append, List.mem_flatMap] at hc
      rcases hc with hc | ⟨_, hw, hc⟩
      · exact h s List.mem_cons_self c hc
      · obtain ⟨t, ht, rfl⟩ := List.mem_map.mp hw
        rcases List.mem_append.mp hc with hc | hc
        · exact hsep c hc
        · exact h t (List.mem_cons_of_mem _ ht) c hc

end Text

open Text

namespace GroupError

/-! ## Messages that quote no other text -/

theorem onOneLine_ofViolation (v : Violation) : OnOneLine (ofViolation v).message := by
  cases v <;> decide +kernel

theorem onOneLine_noGroupWithId (id : Nat) : OnOneLine (noGroupWithId id).message :=
  (onOneLine_between (by decide) (by decide)).mpr (onOneLine_numeral id)

theorem onOneLine_nothingToRemove (id : Nat) : OnOneLine (nothingToRemove id).message :=
  (onOneLine_between (by decide) (by decide)).mpr (onOneLine_numeral id)

theorem onOneLine_tooDeep (limit : Nat) : OnOneLine (tooDeep limit).message :=
  onOneLine_append.mpr ⟨by decide, onOneLine_append.mpr ⟨by decide, onOneLine_numeral limit⟩⟩

theorem onOneLine_cycle (trail : List Nat) : OnOneLine (cycle trail).message := by
  refine onOneLine_append.mpr ⟨by decide, onOneLine_intercalate (by decide) fun s hs => ?_⟩
  obtain ⟨n, -, rfl⟩ := List.mem_map.mp hs
  exact onOneLine_numeral n

/-! ## Messages that quote another text -/

theorem onOneLine_unsupportedSubject {subject : String} :
    OnOneLine (unsupportedSubject subject).message ↔ OnOneLine subject :=
  onOneLine_between (by decide) (by decide)

theorem onOneLine_duplicateName {name : String} :
    OnOneLine (duplicateName name).message ↔ OnOneLine name :=
  onOneLine_between (by decide) (by decide)

theorem onOneLine_noLinkedGroup {value : String} :
    OnOneLine (noLinkedGroup value).message ↔ OnOneLine value :=
  onOneLine_between (by decide) (by decide)

theorem onOneLine_storage {path cause : String} (hcause : OnOneLine cause) :
    OnOneLine (storage path cause).message ↔ OnOneLine path := by
  show OnOneLine ("Failed to access group store `" ++ path ++ "`: " ++ cause) ↔ OnOneLine path
  rw [onOneLine_append, and_iff_left hcause, onOneLine_between (by decide) (by decide)]

end GroupError

end AssetGroups
