import AssetGroups.Store.Storage
import Mathlib.Data.List.Infix

/-!
# Paths with an extension replaced

The folder of a path stays, and so does its last component up to the extension. Only where the last
component is a dot and an extension, the folder above may be left.
-/

namespace AssetGroups.Path

variable {before after name folder path extension : List Char} {c : Char}

/-! ## Texts cut at a character -/

/-- What comes before the first `c`, and what is left from there on. -/
structure Cut (c : Char) (before after : List Char) : Prop where
  unbroken : c ∉ before
  reaches : after = [] ∨ after.head? = some c

theorem Cut.spans (h : Cut c before after) : (before ++ after).takeWhile (· != c) = before ∧
    (before ++ after).dropWhile (· != c) = after := by
  have hbefore : ∀ d ∈ before, (d != c) = true := by
    intro d hd
    rw [bne_iff_ne]
    rintro rfl
    exact h.unbroken hd
  rw [List.takeWhile_append_of_pos hbefore, List.dropWhile_append_of_pos hbefore]
  rcases h.reaches with rfl | hhead
  · simp
  · cases after with
    | nil => cases hhead
    | cons d rest =>
        obtain rfl : d = c := by simpa using hhead
        simp

theorem exists_cut (c : Char) (text : List Char) :
    ∃ before after, text = before ++ after ∧ Cut c before after := by
  induction text with
  | nil => exact ⟨[], [], rfl, by simp, Or.inl rfl⟩
  | cons d text ih =>
      by_cases hd : d = c
      · exact ⟨[], d :: text, rfl, by simp, Or.inr (by rw [hd]; rfl)⟩
      · obtain ⟨before, after, rfl, hcut⟩ := ih
        refine ⟨d :: before, after, rfl, ?_, hcut.reaches⟩
        simpa [Ne.symm hd] using hcut.unbroken

/-! ## The last component -/

/-- A last component and what comes before it, both from their ends. -/
structure Names (name folder : List Char) : Prop extends Cut '/' name folder where
  ne_nil : name ≠ []
  ne_dot : name ≠ ['.']
  ne_dots : name ≠ ['.', '.']

theorem significant_eq_self {r : List Char} (hslash : r.head? ≠ some '/')
    (hdot : ¬ ['.', '/'] <+: r) : significant r = r := by
  unfold significant
  split
  · exact absurd rfl hslash
  · exact absurd ⟨_, rfl⟩ hdot
  · rfl

theorem Names.significant (h : Names name folder) :
    Path.significant (name ++ folder) = name ++ folder := by
  refine significant_eq_self (fun hhead => ?_) fun ⟨rest, heq⟩ => ?_
  · cases name with
    | nil => exact h.ne_nil rfl
    | cons c name =>
        obtain rfl : c = '/' := by simpa using hhead
        exact h.unbroken List.mem_cons_self
  · match name, h with
    | [c], h =>
        simp only [List.cons_append, List.nil_append, List.cons.injEq] at heq
        exact h.ne_dot (by rw [heq.1])
    | c :: d :: name, h =>
        simp only [List.cons_append, List.cons.injEq] at heq
        exact h.unbroken (by simp [← heq.2.1])

theorem Names.splitName (h : Names name folder) :
    splitName (name ++ folder).reverse = some (name, folder) := by
  simp [Path.splitName, h.significant, h.spans.1, h.ne_nil, h.ne_dot, h.ne_dots]

theorem splitName_eq_some (h : splitName path = some (name, folder)) :
    Names name folder ∧ significant path.reverse = name ++ folder := by
  obtain ⟨before, after, htext, hcut⟩ := exists_cut '/' (significant path.reverse)
  unfold splitName at h
  simp only [htext, hcut.spans.1, Option.ite_none_left_eq_some, Option.some.injEq, Prod.mk.injEq,
    not_or, List.drop_left] at h
  obtain ⟨⟨hnil, hdot, hdots⟩, rfl, rfl⟩ := h
  exact ⟨⟨hcut, hnil, hdot, hdots⟩, htext⟩

/-! ## Extensions -/

/-- A name has no extension, or one that is cut off with the dot before it. -/
theorem stem_cases (name : List Char) : stem name = name ∨
    ∃ extension, name = extension ++ '.' :: stem name ∧ '.' ∉ extension ∧ stem name ≠ [] := by
  obtain ⟨before, after, rfl, hcut⟩ := exists_cut '.' name
  unfold stem
  rw [hcut.spans.2]
  match after, hcut.reaches with
  | [], _ => exact Or.inl rfl
  | [_], _ => exact Or.inl rfl
  | d :: kept :: rest, hreaches =>
      obtain rfl : d = '.' := by simpa using hreaches
      exact Or.inr ⟨before, rfl, hcut.unbroken, by simp⟩

theorem stem_append {kept : List Char} (hextension : '.' ∉ extension) (hkept : kept ≠ []) :
    stem (extension ++ '.' :: kept) = kept := by
  have hcut : Cut '.' extension ('.' :: kept) := ⟨hextension, Or.inr rfl⟩
  unfold stem
  rw [hcut.spans.2]
  cases kept with
  | nil => exact absurd rfl hkept
  | cons => rfl

theorem stem_ne_nil (h : name ≠ []) : stem name ≠ [] := by
  rcases stem_cases name with heq | ⟨_, -, -, hne⟩
  · rwa [heq]
  · exact hne

theorem Names.stem_unbroken (h : Names name folder) : '/' ∉ stem name := by
  rcases stem_cases name with heq | ⟨before, heq, -, -⟩
  · rw [heq]
    exact h.unbroken
  · exact fun hmem => h.unbroken (by rw [heq]; simp [hmem])

theorem Names.withExtension (h : Names name folder) (hslash : '/' ∉ extension)
    (hne : extension ≠ []) : Names (extension.reverse ++ '.' :: stem name) folder := by
  have hlength : 0 < extension.length ∧ 0 < (stem name).length :=
    ⟨List.length_pos_iff.mpr hne, List.length_pos_iff.mpr (stem_ne_nil h.ne_nil)⟩
  have hlong : ∀ other : List Char, other.length ≤ 2 →
      extension.reverse ++ '.' :: stem name ≠ other := by
    rintro other hother rfl
    simp only [List.length_append, List.length_reverse, List.length_cons] at hother
    omega
  refine ⟨⟨?_, h.reaches⟩, hlong _ (by simp), hlong _ (by simp), hlong _ (by simp)⟩
  simpa [hslash] using h.stem_unbroken

/-- The extension of the last component is replaced, or set if there is none. -/
theorem splitName_setExtension (h : splitName path = some (name, folder)) (hslash : '/' ∉ extension)
    (hne : extension ≠ []) : splitName (setExtension extension path) =
      some (extension.reverse ++ '.' :: stem name, folder) := by
  rw [← ((splitName_eq_some h).1.withExtension hslash hne).splitName, setExtension, h]
  simp

/-- A path without what stands behind the last dot of its name. -/
theorem take_kept (extension kept folder : List Char) :
    (extension ++ '.' :: kept ++ folder).reverse.take
        ((extension ++ '.' :: kept ++ folder).reverse.length -
          (extension ++ '.' :: kept).length + kept.length + 1) =
      ('.' :: kept ++ folder).reverse := by
  have htake : (extension ++ '.' :: kept ++ folder).reverse.length -
      (extension ++ '.' :: kept).length + kept.length + 1 =
        ('.' :: kept ++ folder).reverse.length := by
    simp
    omega
  have hjoined : (extension ++ '.' :: kept ++ folder).reverse =
      ('.' :: kept ++ folder).reverse ++ extension.reverse := by
    simp
  rw [htake, hjoined, List.take_left]

/-- A slash or a dot behind the name has no extension. -/
theorem stem_behind (h : significant path.reverse ≠ path.reverse) :
    stem (path.reverse.takeWhile (· != '/')) = path.reverse.takeWhile (· != '/') := by
  by_cases hslash : path.reverse.head? = some '/'
  · cases hpath : path.reverse with
    | nil => rfl
    | cons c rest =>
        obtain rfl : c = '/' := by simpa [hpath] using hslash
        rfl
  · by_cases hdot : ['.', '/'] <+: path.reverse
    · obtain ⟨rest, hrest⟩ := hdot
      rw [← hrest]
      rfl
    · exact absurd (significant_eq_self hslash hdot) h

/-- An extension is cut off a path that ends in it, without a slash or a dot behind. -/
theorem cutExtension_cases (h : splitName path = some (name, folder)) :
    (name = stem name ∨ path ≠ (name ++ folder).reverse) ∧ cutExtension path = path ∨
      path = (name ++ folder).reverse ∧ name ≠ stem name ∧
        cutExtension path = ('.' :: stem name ++ folder).reverse := by
  obtain ⟨hnames, hsignificant⟩ := splitName_eq_some h
  by_cases hself : significant path.reverse = path.reverse
  · obtain rfl : path = (name ++ folder).reverse := by
      rw [← hsignificant, hself, List.reverse_reverse]
    have hlast : cutExtension (name ++ folder).reverse =
        if stem name = name then (name ++ folder).reverse
        else (name ++ folder).reverse.take
          ((name ++ folder).reverse.length - name.length + (stem name).length + 1) := by
      rw [cutExtension, List.reverse_reverse, hnames.spans.1]
    rcases stem_cases name with hstem | ⟨extension, hname, -, -⟩
    · exact Or.inl ⟨Or.inl hstem.symm, hlast.trans (if_pos hstem)⟩
    · have hne : name ≠ stem name := by
        intro heq
        have hlength := congrArg List.length hname
        rw [← heq, List.length_append, List.length_cons] at hlength
        omega
      refine Or.inr ⟨rfl, hne, ?_⟩
      rw [hlast, if_neg (Ne.symm hne)]
      generalize stem name = kept at hname
      subst hname
      exact take_kept extension kept folder
  · refine Or.inl ⟨Or.inr fun hpath => hself ?_, ?_⟩
    · rw [hsignificant, hpath, List.reverse_reverse]
    -- what stands at the end is no name, and nothing is cut off it
    · rw [cutExtension]
      simp only [stem_behind hself, if_true]

theorem splitName_dots (hfolder : folder = [] ∨ folder.head? = some '/') :
    splitName ('.' :: '.' :: folder).reverse = none := by
  have hcut : Cut '/' ['.', '.'] folder := ⟨by decide, hfolder⟩
  have hself : significant ('.' :: '.' :: folder) = '.' :: '.' :: folder :=
    significant_eq_self (by simp) (by simp)
  have hspan := hcut.spans.1
  simp only [List.cons_append, List.nil_append] at hspan
  simp [splitName, hself, hspan]

/-- The folder stays, and the name keeps what comes before its extension. A dot that an extension was cut
off is lost, since with the dot that comes before the extension it means the folder above. -/
theorem splitName_withExtension {path extension : String}
    (h : splitName path.toList = some (name, folder)) (hslash : '/' ∉ extension.toList)
    (hne : extension.toList ≠ []) : splitName (withExtension path extension).toList =
      if stem name = ['.'] ∧ path.toList = (name ++ folder).reverse then none
      else some (extension.toList.reverse ++ '.' :: stem name, folder) := by
  obtain ⟨hnames, -⟩ := splitName_eq_some h
  rw [withExtension, String.toList_ofList]
  rcases cutExtension_cases h with ⟨hkeeps, hcut⟩ | ⟨hpath, hstem, hcut⟩
  · rw [hcut, splitName_setExtension h hslash hne, if_neg]
    rintro ⟨hdot, hpath⟩
    rcases hkeeps with hname | hother
    · exact hnames.ne_dot (hname.trans hdot)
    · exact hother hpath
  · rw [hcut]
    by_cases hdot : stem name = ['.']
    · have hnone := splitName_dots hnames.reaches
      rw [if_pos ⟨hdot, hpath⟩, hdot, List.cons_append, List.singleton_append, setExtension, hnone]
      exact hnone
    · have hkept : stem ('.' :: stem name) = stem name :=
        List.nil_append ('.' :: stem name) ▸ stem_append (by simp) (stem_ne_nil hnames.ne_nil)
      have hdotted : Names ('.' :: stem name) folder :=
        ⟨⟨by simpa using hnames.stem_unbroken, hnames.reaches⟩, by simp,
          by simpa using stem_ne_nil hnames.ne_nil, by simpa using hdot⟩
      rw [if_neg fun hlost => hdot hlost.1, splitName_setExtension hdotted.splitName hslash hne,
        hkept]

end AssetGroups.Path
