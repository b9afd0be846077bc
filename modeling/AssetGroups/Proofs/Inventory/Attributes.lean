import AssetGroups.Inventory.Basic
import AssetGroups.Proofs.Text.Blank
import AssetGroups.Proofs.Text.Pieces
import Mathlib.Tactic.MkIffOfInductiveProp

/-!
# Lists in attributes

An attribute may hold several values in square brackets. However such a list is written, its values
are read back, and every text in brackets is a list of the values that are read from it.
-/

namespace AssetGroups

open Text

/-! ## Values and items -/

/-- Nothing at the ends of the text could be taken for what adorns an item. -/
@[mk_iff]
structure Bare (v : String) : Prop where
  no_slash : v.toList.head? ≠ some '/'
  head : ∀ c, v.toList.head? = some c → isBlank c = false
  last : ∀ c, v.toList.getLast? = some c → isBlank c = false

/-- What a list can hold as a value. -/
@[mk_iff]
structure Listable (v : String) : Prop extends Bare v where
  ne_empty : v ≠ ""
  no_comma : ',' ∉ v.toList

instance : DecidablePred Bare := fun v =>
  decidable_of_iff (v.toList.head? ≠ some '/' ∧ v.toList.head?.all (!isBlank ·) = true ∧
    v.toList.getLast?.all (!isBlank ·) = true) (by simp [bare_iff, Option.all_eq_true])

instance : DecidablePred Listable := fun v =>
  decidable_of_iff (Bare v ∧ v ≠ "" ∧ ',' ∉ v.toList) (listable_iff v).symm

/-- `item` is `v` with any number of slashes before it and any white space around both. -/
def Adorned (v item : String) : Prop :=
  ∃ before slashes after : String, item = before ++ slashes ++ v ++ after ∧
    (∀ c ∈ before.toList, isBlank c = true) ∧ (∀ c ∈ slashes.toList, c = '/') ∧
      ∀ c ∈ after.toList, isBlank c = true

/-- The items are the values in their order, each of them adorned, and empty items anywhere among
them. A comma at the end of a list stands before an empty item. -/
inductive Lists : (values items : List String) → Prop where
  | nil : Lists [] []
  | value {v item : String} {values items : List String} : Adorned v item → Lists values items →
      Lists (v :: values) (item :: items)
  | empty {item : String} {values items : List String} : Adorned "" item → Lists values items →
      Lists values (item :: items)

/-- What is left of an item. White space behind a slash is left, since it is taken off first. -/
def itemValue (item : List Char) : List Char := (trim item).dropWhile (· == '/')

theorem Adorned.trimmed {v item : String} (h : Adorned v item) (hv : Bare v) :
    ∃ slashes, (∀ c ∈ slashes, c = '/') ∧ Trimmed item.toList (slashes ++ v.toList) := by
  obtain ⟨before, slashes, after, rfl, hbefore, hslashes, hafter⟩ := h
  have hslash : ∀ c ∈ slashes.toList, isBlank c = false := by
    intro c hc
    rw [hslashes c hc]
    decide
  refine ⟨slashes.toList, hslashes, ⟨before.toList, after.toList, by simp, hbefore, hafter⟩,
    fun c hc => ?_, fun c hc => ?_⟩
  · rw [List.head?_append, Option.or_eq_some_iff] at hc
    rcases hc with hc | ⟨-, hc⟩
    · exact hslash c (List.mem_of_mem_head? hc)
    · exact hv.head c hc
  · rw [List.getLast?_append, Option.or_eq_some_iff] at hc
    rcases hc with hc | ⟨-, hc⟩
    · exact hv.last c hc
    · exact hslash c (List.mem_of_mem_getLast? hc)

theorem dropWhile_slashes {slashes core : List Char} (hslashes : ∀ c ∈ slashes, c = '/')
    (hcore : core.head? ≠ some '/') : (slashes ++ core).dropWhile (· == '/') = core := by
  rw [List.dropWhile_append_of_pos (by simpa using hslashes)]
  cases core with
  | nil => rfl
  | cons c core =>
      have hc : c ≠ '/' := by simpa using hcore
      simp [hc]

theorem Adorned.itemValue_eq {v item : String} (h : Adorned v item) (hv : Bare v) :
    itemValue item.toList = v.toList := by
  obtain ⟨slashes, hslashes, htrimmed⟩ := h.trimmed hv
  rw [itemValue, ← htrimmed.eq_trim]
  exact dropWhile_slashes hslashes hv.no_slash

theorem adorned_itemValue (item : List Char) :
    Adorned (String.ofList (itemValue item)) (String.ofList item) := by
  obtain ⟨before, after, hitem, hbefore, hafter⟩ := (trim_trimmed item).surrounded
  refine ⟨String.ofList before, String.ofList ((trim item).takeWhile (· == '/')), String.ofList after,
    ?_, by simpa using hbefore, fun c hc => ?_, by simpa using hafter⟩
  · rw [← String.ofList_append, ← String.ofList_append, ← String.ofList_append,
      List.append_assoc before, itemValue, List.takeWhile_append_dropWhile, ← hitem]
  · rw [String.toList_ofList] at hc
    exact beq_iff_eq.mp (List.all_eq_true.mp List.all_takeWhile c hc)

theorem Adorned.no_comma {v item : String} (h : Adorned v item) (hv : ',' ∉ v.toList) :
    ',' ∉ item.toList := by
  obtain ⟨before, slashes, after, rfl, hbefore, hslashes, hafter⟩ := h
  simp only [String.toList_append, List.mem_append, not_or]
  refine ⟨⟨⟨fun hc => ?_, fun hc => ?_⟩, hv⟩, fun hc => ?_⟩
  · exact absurd (hbefore _ hc) (by decide)
  · exact absurd (hslashes _ hc) (by decide)
  · exact absurd (hafter _ hc) (by decide)

/-! ## Lists of items -/

def itemValues (items : List (List Char)) : List String :=
  ((items.map itemValue).filter (!·.isEmpty)).map String.ofList

theorem itemValues_of_empty {item : List Char} (h : itemValue item = []) (items : List (List Char)) :
    itemValues (item :: items) = itemValues items := by
  simp [itemValues, h]

theorem itemValues_of_value {item : List Char} (h : itemValue item ≠ []) (items : List (List Char)) :
    itemValues (item :: items) = String.ofList (itemValue item) :: itemValues items := by
  simp [itemValues, h]

variable {values items : List String}

theorem Lists.itemValues_eq (h : Lists values items) (hvalues : ∀ v ∈ values, Listable v) :
    itemValues (items.map String.toList) = values := by
  induction h with
  | nil => rfl
  | @value v item values items hitem _ ih =>
      rw [List.forall_mem_cons] at hvalues
      have heq : itemValue item.toList = v.toList := hitem.itemValue_eq hvalues.1.toBare
      have hne : itemValue item.toList ≠ [] := by
        rw [heq]
        simpa using hvalues.1.ne_empty
      rw [List.map_cons, itemValues_of_value hne, ih hvalues.2, heq, String.ofList_toList]
  | empty hitem _ ih =>
      rw [List.map_cons, itemValues_of_empty (hitem.itemValue_eq (by decide)), ih hvalues]

theorem lists_itemValues (items : List (List Char)) :
    Lists (itemValues items) (items.map String.ofList) := by
  induction items with
  | nil => exact .nil
  | cons item items ih =>
      have hitem := adorned_itemValue item
      by_cases hempty : itemValue item = []
      · rw [hempty] at hitem
        rw [itemValues_of_empty hempty]
        exact .empty hitem ih
      · rw [itemValues_of_value hempty]
        exact .value hitem ih

theorem Lists.no_comma (h : Lists values items) (hvalues : ∀ v ∈ values, Listable v) :
    ∀ item ∈ items, ',' ∉ item.toList := by
  induction h with
  | nil => simp
  | value hitem _ ih =>
      rw [List.forall_mem_cons] at hvalues ⊢
      exact ⟨hitem.no_comma hvalues.1.no_comma, ih hvalues.2⟩
  | empty hitem _ ih => exact List.forall_mem_cons.mpr ⟨hitem.no_comma (by simp), ih hvalues⟩

/-! ## Attributes -/

theorem attributeValues_enclosed (inner : String) :
    attributeValues ("[" ++ inner ++ "]") = itemValues (splitAt ',' inner.toList) := by
  have htext : ("[" ++ inner ++ "]").toList = '[' :: (inner.toList ++ [']']) := by simp
  simp only [attributeValues, htext, List.reverse_append, List.reverse_singleton,
    List.singleton_append, List.reverse_reverse]
  rfl

theorem attributeValues_single {raw : String} (h : ∀ inner : String, raw ≠ "[" ++ inner ++ "]") :
    attributeValues raw = [raw] := by
  unfold attributeValues
  split
  case h_1 r hraw =>
    split
    case h_1 inner hr =>
      refine absurd (String.ext ?_) (h (String.ofList inner.reverse))
      rw [hraw, List.reverse_eq_cons_iff.mp hr]
      simp
    case h_2 => rfl
  case h_2 => rfl

theorem Lists.attributeValues_eq (h : Lists values items) (hvalues : ∀ v ∈ values, Listable v) :
    attributeValues ("[" ++ ",".intercalate items ++ "]") = values := by
  have hunbroken : ∀ item ∈ items.map String.toList, ',' ∉ item :=
    List.forall_mem_map.mpr (h.no_comma hvalues)
  rw [attributeValues_enclosed, String.toList_intercalate, ← h.itemValues_eq hvalues]
  cases items with
  -- without a comma there is still one item, which is empty
  | nil => rfl
  | cons item items =>
      rw [List.map_cons] at hunbroken ⊢
      exact congrArg itemValues (splitAt_intercalate hunbroken)

theorem exists_lists (inner : String) : ∃ items,
    Lists (attributeValues ("[" ++ inner ++ "]")) items ∧ inner = ",".intercalate items := by
  refine ⟨(splitAt ',' inner.toList).map String.ofList, ?_, String.ext ?_⟩
  · rw [attributeValues_enclosed]
    exact lists_itemValues _
  · have hitems : ((splitAt ',' inner.toList).map String.ofList).map String.toList =
        splitAt ',' inner.toList := by
      simp [Function.comp_def]
    rw [String.toList_intercalate, hitems]
    exact (intercalate_splitAt ',' inner.toList).symm

/-- White space behind a slash begins the value. -/
example : attributeValues "[/ 10.1.0.1 ]" = [" 10.1.0.1"] := by decide

/-- What one of the attributes contributes. -/
theorem Asset.hasAttribute_split {a : Asset} {before after : List (String × String)}
    {key raw : String} (h : a.attributes = before ++ (key, raw) :: after) (keys : List AttributeKey)
    (m : TextMatch) : a.hasAttribute keys m = true ↔
      (keys.any (·.accepts key) = true ∧ ∃ v ∈ attributeValues raw, m.accepts v = true) ∨
        ({ a with attributes := before ++ after } : Asset).hasAttribute keys m = true := by
  simp only [hasAttribute, h, List.any_append, List.any_cons, Bool.or_eq_true, Bool.and_eq_true,
    List.any_eq_true (l := attributeValues raw)]
  exact or_left_comm

/-- Values are read from a text in brackets exactly if it is a list of them, and an attribute that
holds the list matches if one of them does. Any other text is a value itself. -/
theorem attributeValues_reads_back (hvalues : ∀ v ∈ values, Listable v) :
    (∀ inner : String, attributeValues ("[" ++ inner ++ "]") = values ↔
      ∃ items, Lists values items ∧ inner = ",".intercalate items) ∧
    (∀ items, Lists values items → ∀ (a : Asset) (before after : List (String × String)) (key : String),
      a.attributes = before ++ (key, "[" ++ ",".intercalate items ++ "]") :: after →
        ∀ (keys : List AttributeKey) (m : TextMatch), a.hasAttribute keys m = true ↔
          (keys.any (·.accepts key) = true ∧ ∃ v ∈ values, m.accepts v = true) ∨
            ({ a with attributes := before ++ after } : Asset).hasAttribute keys m = true) ∧
    ∀ raw : String, (∀ inner : String, raw ≠ "[" ++ inner ++ "]") → attributeValues raw = [raw] := by
  refine ⟨fun inner => ⟨?_, ?_⟩, fun items hitems a before after key ha keys m => ?_,
    fun raw => attributeValues_single⟩
  · rintro rfl
    exact exists_lists inner
  · rintro ⟨items, hitems, rfl⟩
    exact hitems.attributeValues_eq hvalues
  · rw [Asset.hasAttribute_split ha, hitems.attributeValues_eq hvalues]

def twoAddresses : Asset where
  id := 1
  name := "hyper"
  type := "hypervisor"
  attributes := [("address", "[/10.1.0.1,, //10.1.0.2\u2003,]")]

/-- Two addresses with slashes, white space of two kinds, an empty item and a comma at the end; and
a bracket that is not closed. -/
theorem attributeValues_reads_back_addresses :
    ((∀ v ∈ ["10.1.0.1", "10.1.0.2"], Listable v) ∧
      Lists ["10.1.0.1", "10.1.0.2"] ["/10.1.0.1", "", " //10.1.0.2\u2003", ""] ∧
      attributeValues "[/10.1.0.1,, //10.1.0.2\u2003,]" = ["10.1.0.1", "10.1.0.2"]) ∧
    (∀ m : TextMatch, twoAddresses.hasAttribute [.exact "address"] m = true ↔
      m.accepts "10.1.0.1" = true ∨ m.accepts "10.1.0.2" = true) ∧
    attributeValues "[10.1.0.1" = ["[10.1.0.1"] := by
  have hitems : Lists ["10.1.0.1", "10.1.0.2"] ["/10.1.0.1", "", " //10.1.0.2\u2003", ""] :=
    .value ⟨"", "/", "", by simp⟩ <| .empty ⟨"", "", "", by simp⟩ <|
      .value ⟨" ", "//", "\u2003", by simp [isBlank]⟩ <| .empty ⟨"", "", "", by simp⟩ .nil
  have htext : "[/10.1.0.1,, //10.1.0.2\u2003,]" =
      "[" ++ ",".intercalate ["/10.1.0.1", "", " //10.1.0.2\u2003", ""] ++ "]" := by decide
  have hvalues : ∀ v ∈ ["10.1.0.1", "10.1.0.2"], Listable v := by decide
  obtain ⟨hread, hmatch, hsingle⟩ := attributeValues_reads_back hvalues
  refine ⟨⟨hvalues, hitems, ?_⟩, fun m => ?_, hsingle _ fun inner hraw => ?_⟩
  · rw [htext]
    exact (hread _).mpr ⟨_, hitems, rfl⟩
  · have hattributes : twoAddresses.attributes = [] ++ ("address", _) :: [] :=
      congrArg (fun text => [("address", text)]) htext
    rw [hmatch _ hitems twoAddresses [] [] "address" hattributes]
    simp [Asset.hasAttribute, AttributeKey.accepts]
  · have := congrArg (List.head? ∘ List.reverse ∘ String.toList) hraw
    simp at this

end AssetGroups
