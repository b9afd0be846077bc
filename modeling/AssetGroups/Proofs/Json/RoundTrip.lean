import AssetGroups.Json.Decoder
import AssetGroups.Json.Printer

/-!
# What is written is read back

The text of a value, indented or on one line, is read as the value that it was made of, and nothing
of what follows it is taken. The numbers are natural numbers; strings hold any characters.
-/

namespace AssetGroups.Json

open AssetGroups.Text

/-! ## Strings -/

namespace StringPart

/-- How a character of a string is met again after it was written. -/
def ofChar (c : Char) : StringPart :=
  if c.toNat < 0x20 ∧ c ∉ ['\x08', '\t', '\n', '\x0c', '\r'] then .unit c.toNat else .char c

theorem text?_unit {n : Nat} (h : n < 0x20) (ps : List StringPart) :
    text? (.unit n :: ps) = (text? ps).map (Char.ofNat n :: ·) := by
  have hhigh : isHigh n = false := by simp [isHigh]; omega
  have hlow : isLow n = false := by simp [isLow]; omega
  rcases ps with _ | ⟨c | m | _, ps⟩ <;> simp [text?, hhigh, hlow]

theorem text?_ofChar (cs : List Char) : text? (cs.map ofChar) = some cs := by
  induction cs with
  | nil => rfl
  | cons c cs ih =>
      rw [List.map_cons, ofChar]
      split
      · rename_i h
        rw [text?_unit h.1, ih, Option.map_some, Char.ofNat_toNat]
      · rw [text?, ih, Option.map_some]

end StringPart

theorem hexDigit?_digitChar {d : Nat} (h : d < 16) : hexDigit? (Nat.digitChar d) = some d := by
  revert h d
  decide

theorem readParts_escape (c : Char) (t : Scanned) :
    readParts ((escape c).map some ++ t) =
      (readParts t).map fun (ps, rest) => (StringPart.ofChar c :: ps, rest) := by
  by_cases hletter : c ∈ ['"', '\\', '\x08', '\t', '\n', '\x0c', '\r']
  · simp only [List.mem_cons, List.not_mem_nil, or_false] at hletter
    rcases hletter with rfl | rfl | rfl | rfl | rfl | rfl | rfl <;> rfl
  · simp only [List.mem_cons, List.not_mem_nil, or_false, not_or] at hletter
    obtain ⟨hquote, hback, hb, ht, hn, hf, hr⟩ := hletter
    by_cases hcontrol : c.toNat < 0x20
    · have hunit : hexUnit? '0' '0' (Nat.digitChar (c.toNat / 16)) (Nat.digitChar (c.toNat % 16)) =
          some c.toNat := by
        have hzero : hexDigit? '0' = some 0 := by decide
        rw [hexUnit?, hzero, hexDigit?_digitChar (by omega), hexDigit?_digitChar (by omega)]
        simp only [Option.some.injEq]
        omega
      simp [escape, StringPart.ofChar, *, readParts]
    · simp [escape, StringPart.ofChar, *, readParts]

theorem readString_quoted (s : String) (rest : List Char) :
    ∃ t, (quoted s rest).map some = some '"' :: t ∧ readString t = some (some s, rest.map some) := by
  have hparts : ∀ cs : List Char,
      readParts ((cs.foldr (fun c t => escape c ++ t) ('"' :: rest)).map some) =
        some (cs.map StringPart.ofChar, rest.map some) := by
    intro cs
    induction cs with
    | nil => rfl
    | cons c cs ih =>
        rw [List.foldr_cons, List.map_append, readParts_escape, ih]
        rfl
  refine ⟨_, rfl, ?_⟩
  rw [readString, hparts]
  simp [StringPart.text?_ofChar]

/-! ## Numerals -/

/-- What may stand after a numeral, so that the numeral does not go on. -/
def EndsNumeral (rest : List Char) : Prop :=
  rest = [] ∨ ∃ t, rest = ',' :: t ∨ rest = ']' :: t ∨ rest = '\x7d' :: t ∨ rest = '\n' :: t

theorem digitOf?_digitChar {d : Nat} (h : d < 10) : digitOf? (Nat.digitChar d) = some d := by
  revert h d
  decide

theorem digitsOf_lt (n : Nat) : ∀ d ∈ digitsOf n, d < 10 := by
  rw [digitsOf]
  split
  · simpa
  · intro d hd
    rw [List.mem_append, List.mem_singleton] at hd
    rcases hd with hd | rfl
    · exact digitsOf_lt (n / 10) d hd
    · omega

theorem digitsOf_cons (n : Nat) : ∃ d ds, digitsOf n = d :: ds ∧ (d = 0 → n = 0) := by
  rw [digitsOf]
  split
  · exact ⟨n, [], rfl, id⟩
  · obtain ⟨d, ds, hds, hzero⟩ := digitsOf_cons (n / 10)
    refine ⟨d, ds ++ [n % 10], by rw [hds, List.cons_append], fun hd => ?_⟩
    have := hzero hd
    omega

theorem readDigits_digits {ds : List Nat} (hds : ∀ d ∈ ds, d < 10) {rest : List Char}
    (hrest : EndsNumeral rest) :
    readDigits ((ds.map Nat.digitChar ++ rest).map some) = (ds, rest.map some) := by
  induction ds with
  | nil =>
      rcases hrest with rfl | ⟨t, rfl | rfl | rfl | rfl⟩ <;> rfl
  | cons d ds ih =>
      have hd := digitOf?_digitChar (hds d (by simp))
      have hrec := ih fun d hd => hds d (List.mem_cons_of_mem _ hd)
      simp only [List.map_cons, List.cons_append, readDigits, hd]
      rw [hrec]

theorem readFraction_end {rest : List Char} (hrest : EndsNumeral rest) :
    readFraction (rest.map some) = some ([], rest.map some) := by
  rcases hrest with rfl | ⟨t, rfl | rfl | rfl | rfl⟩ <;> rfl

theorem readExponent_end {rest : List Char} (hrest : EndsNumeral rest) :
    readExponent (rest.map some) = some (none, rest.map some) := by
  rcases hrest with rfl | ⟨t, rfl | rfl | rfl | rfl⟩ <;> rfl

theorem readWhole_digitsOf (n : Nat) {rest : List Char} (hrest : EndsNumeral rest) :
    readWhole (((digitsOf n).map Nat.digitChar ++ rest).map some) =
      some (digitsOf n, rest.map some) := by
  rw [readWhole, readDigits_digits (digitsOf_lt n) hrest]
  obtain ⟨d, ds, hds, hzero⟩ := digitsOf_cons n
  by_cases hd : d = 0
  · have hone : digitsOf 0 = [0] := by
      rw [digitsOf]
      rfl
    rw [hzero hd, hone]
    rfl
  · rw [hds]
    cases d with
    | zero => contradiction
    | succ d => rfl

theorem Numeral.chars_ofNat (n : Nat) :
    (Numeral.ofNat n).chars = (digitsOf n).map Nat.digitChar := by
  simp [chars, ofNat]

theorem readPlain_ofNat (n : Nat) {rest : List Char} (hrest : EndsNumeral rest) :
    ∃ d, d < 10 ∧ ∃ t, ((Numeral.ofNat n).chars ++ rest).map some = some (Nat.digitChar d) :: t ∧
      readPlain (Nat.digitChar d) (some (Nat.digitChar d) :: t) =
        (.number (.ofNat n), rest.map some) := by
  obtain ⟨d, ds, hds, -⟩ := digitsOf_cons n
  have hd : d < 10 := digitsOf_lt n d (by simp [hds])
  have hchars : ((Numeral.ofNat n).chars ++ rest).map some =
      some (Nat.digitChar d) :: (ds.map Nat.digitChar ++ rest).map some := by
    rw [Numeral.chars_ofNat, hds]
    rfl
  refine ⟨d, hd, _, hchars, ?_⟩
  have hletter : ∀ d < 10, Nat.digitChar d ∉ ['n', 't', 'f', '-'] := by decide
  have hunsigned : readUnsigned false (((Numeral.ofNat n).chars ++ rest).map some) =
      some (.ofNat n, rest.map some) := by
    rw [Numeral.chars_ofNat, readUnsigned, readWhole_digitsOf n hrest]
    simp only [readFraction_end hrest, readExponent_end hrest]
    rfl
  have hfirst := hletter d hd
  simp only [List.mem_cons, List.not_mem_nil, or_false, not_or] at hfirst
  rw [hchars] at hunsigned
  simp only [readPlain, hfirst, if_false]
  rw [readNumeral, hunsigned]
  simp [hfirst]

/-! ## Values -/

namespace Value

mutual

/-- All numbers in the value are natural numbers. -/
def Plain : Value → Prop
  | .number n => ∃ k, n = .ofNat k
  | .list items => AllPlain items
  | .object members => MembersPlain members
  | _ => True

def AllPlain : List Value → Prop
  | [] => True
  | v :: vs => Plain v ∧ AllPlain vs

def MembersPlain : List (String × Value) → Prop
  | [] => True
  | (_, v) :: ms => Plain v ∧ MembersPlain ms

end

variable {l : Layout}

theorem length_lt_quoted (s : String) (rest : List Char) :
    rest.length < (quoted s rest).length := by
  have hfold : ∀ cs : List Char,
      rest.length < (cs.foldr (fun c t => escape c ++ t) ('"' :: rest)).length := by
    intro cs
    induction cs with
    | nil => simp
    | cons c cs ih =>
        rw [List.foldr_cons, List.length_append]
        omega
  have := hfold s.toList
  rw [quoted, List.length_cons]
  omega

mutual

theorem length_lt_write : (level : Nat) → (v : Value) → v.Plain → (rest : List Char) →
    rest.length < (v.write l level rest).length
  | _, .null, _, rest => by
      rw [write, List.length_append]
      exact Nat.lt_add_of_pos_left (by decide)
  | _, .bool true, _, rest => by
      rw [write, List.length_append]
      exact Nat.lt_add_of_pos_left (by decide)
  | _, .bool false, _, rest => by
      rw [write, List.length_append]
      exact Nat.lt_add_of_pos_left (by decide)
  | _, .number _, ⟨k, rfl⟩, rest => by
      obtain ⟨d, ds, hds, -⟩ := digitsOf_cons k
      simp only [write, Numeral.chars_ofNat, hds, List.length_append, List.length_map,
        List.length_cons]
      omega
  | _, .string s, _, rest => by
      rw [write]
      exact length_lt_quoted s rest
  | _, .list [], _, rest => by
      simp only [write, List.length_cons]
      omega
  | level, .list (v :: vs), ⟨hv, hvs⟩, rest => by
      have hitems := length_le_writeItems (level + 1) vs hvs (l.lineBreak level ++ ']' :: rest)
      have hfirst := length_lt_write (level + 1) v hv
        (writeItems l (level + 1) vs (l.lineBreak level ++ ']' :: rest))
      simp only [write, List.length_cons, List.length_append] at hitems hfirst ⊢
      omega
  | _, .object [], _, rest => by
      simp only [write, List.length_cons]
      omega
  | level, .object ((k, v) :: ms), ⟨hv, hms⟩, rest => by
      have hmembers := length_le_writeMembers (level + 1) ms hms
        (l.lineBreak level ++ '\x7d' :: rest)
      have hfirst := length_lt_write (level + 1) v hv
        (writeMembers l (level + 1) ms (l.lineBreak level ++ '\x7d' :: rest))
      have hkey := length_lt_quoted k (l.colon ++ v.write l (level + 1)
        (writeMembers l (level + 1) ms (l.lineBreak level ++ '\x7d' :: rest)))
      simp only [write, List.length_cons, List.length_append] at hmembers hfirst hkey ⊢
      omega

theorem length_le_writeItems : (level : Nat) → (vs : List Value) → AllPlain vs →
    (rest : List Char) → rest.length ≤ (writeItems l level vs rest).length
  | _, [], _, rest => by simp [writeItems]
  | level, v :: vs, ⟨hv, hvs⟩, rest => by
      have hitems := length_le_writeItems level vs hvs rest
      have hfirst := length_lt_write level v hv (writeItems l level vs rest)
      simp only [writeItems, List.length_cons, List.length_append]
      omega

theorem length_le_writeMembers : (level : Nat) → (ms : List (String × Value)) → MembersPlain ms →
    (rest : List Char) → rest.length ≤ (writeMembers l level ms rest).length
  | _, [], _, rest => by simp [writeMembers]
  | level, (k, v) :: ms, ⟨hv, hms⟩, rest => by
      have hmembers := length_le_writeMembers level ms hms rest
      have hfirst := length_lt_write level v hv (writeMembers l level ms rest)
      have hkey := length_lt_quoted k (l.colon ++ v.write l level (writeMembers l level ms rest))
      simp only [writeMembers, List.length_cons, List.length_append] at hkey ⊢
      omega

end

/-! ## Blanks -/

theorem write_cons (level : Nat) {v : Value} (hv : v.Plain) (rest : List Char) :
    ∃ c t, v.write l level rest = c :: t ∧ isSpace c = false ∧ c ≠ ']' ∧ c ≠ '\x7d' := by
  cases v with
  | null => exact ⟨_, _, rfl, by decide⟩
  | bool b => cases b <;> exact ⟨_, _, rfl, by decide⟩
  | number n =>
      obtain ⟨k, rfl⟩ := hv
      obtain ⟨d, ds, hds, -⟩ := digitsOf_cons k
      have hd : d < 10 := digitsOf_lt k d (by simp [hds])
      have hdigit : ∀ d < 10, isSpace (Nat.digitChar d) = false ∧ Nat.digitChar d ≠ ']' ∧
          Nat.digitChar d ≠ '\x7d' := by decide
      exact ⟨_, _, by rw [write, Numeral.chars_ofNat, hds]; rfl, hdigit d hd⟩
  | string s => exact ⟨_, _, by rw [write, quoted], by decide⟩
  | list items => cases items <;> exact ⟨_, _, by rw [write], by decide⟩
  | object members =>
      cases members with
      | nil => exact ⟨_, _, by rw [write], by decide⟩
      | cons m ms => exact ⟨_, _, by rw [write], by decide⟩

theorem skipSpace_cons {c : Char} (hc : isSpace c = false) (t : List Char) :
    skipSpace ((c :: t).map some) = (c :: t).map some := by
  simp [skipSpace, hc]

theorem skipSpace_blanks {blanks : List Char} (h : ∀ c ∈ blanks, isSpace c = true) (t : List Char) :
    skipSpace ((blanks ++ t).map some) = skipSpace (t.map some) := by
  induction blanks with
  | nil => rfl
  | cons c blanks ih =>
      have hc := h c (by simp)
      have hrec := ih fun d hd => h d (by simp [hd])
      simp only [List.cons_append, List.map_cons, skipSpace, hc, if_true]
      exact hrec

theorem skipSpace_lineBreak (level : Nat) (t : List Char) :
    skipSpace ((l.lineBreak level ++ t).map some) = skipSpace (t.map some) := by
  apply skipSpace_blanks
  intro c hc
  unfold Layout.lineBreak at hc
  split at hc
  · simp at hc
  · rcases List.mem_cons.mp hc with rfl | hc
    · rfl
    · rw [List.eq_of_mem_replicate hc]
      rfl

theorem colon_cons (l : Layout) :
    ∃ blanks, l.colon = ':' :: blanks ∧ ∀ c ∈ blanks, isSpace c = true := by
  unfold Layout.colon
  split
  · exact ⟨[' '], rfl, List.forall_mem_singleton.mpr rfl⟩
  · exact ⟨[], rfl, by simp⟩

theorem readValue_congr {t t' : Scanned} (h : skipSpace t = skipSpace t') (fuel : Nat) :
    readValue fuel t = readValue fuel t' := by
  cases fuel with
  | zero => rfl
  | succ fuel => rw [readValue, readValue, h]

theorem endsNumeral_close (level : Nat) {c : Char} (hc : c = ']' ∨ c = '\x7d') (t : List Char) :
    EndsNumeral (l.lineBreak level ++ c :: t) := by
  unfold Layout.lineBreak
  split
  · rcases hc with rfl | rfl
    · exact Or.inr ⟨t, Or.inr (Or.inl rfl)⟩
    · exact Or.inr ⟨t, Or.inr (Or.inr (Or.inl rfl))⟩
  · exact Or.inr ⟨_, Or.inr (Or.inr (Or.inr rfl))⟩

theorem endsNumeral_writeItems (level : Nat) (vs : List Value) {rest : List Char}
    (hrest : EndsNumeral rest) : EndsNumeral (writeItems l level vs rest) := by
  cases vs with
  | nil => exact hrest
  | cons v vs => exact Or.inr ⟨_, Or.inl (by rw [writeItems])⟩

theorem endsNumeral_writeMembers (level : Nat) (ms : List (String × Value)) {rest : List Char}
    (hrest : EndsNumeral rest) : EndsNumeral (writeMembers l level ms rest) := by
  cases ms with
  | nil => exact hrest
  | cons m ms => exact Or.inr ⟨_, Or.inl (by rw [writeMembers])⟩

/-! ## Reading -/

theorem readValue_plain {c : Char} (hc : c ∉ ['"', '[', '\x7b']) (hspace : isSpace c = false)
    (fuel : Nat) (t : Scanned) :
    readValue (fuel + 1) (some c :: t) = readPlain c (some c :: t) := by
  simp only [List.mem_cons, List.not_mem_nil, or_false, not_or] at hc
  simp [readValue, skipSpace, hspace, hc]

theorem readItems_congr {t t' : Scanned} (h : skipSpace t = skipSpace t') (fuel : Nat) :
    readItems fuel t = readItems fuel t' := by
  cases fuel with
  | zero => rfl
  | succ fuel => rw [readItems, readItems, readValue_congr h]

theorem readMembers_congr {t t' : Scanned} (h : skipSpace t = skipSpace t') (fuel : Nat) :
    readMembers fuel t = readMembers fuel t' := by
  cases fuel with
  | zero => rfl
  | succ fuel => rw [readMembers, readMembers, h]

theorem readValue_list {c : Char} (hc : c ≠ ']') {t t' : Scanned} (h : skipSpace t = some c :: t')
    (hc' : isSpace c = false) (fuel : Nat) :
    readValue (fuel + 1) (some '[' :: t) =
      (.list (readItems fuel t).1 (readItems fuel t).2.1, (readItems fuel t).2.2) := by
  have hitems : readItems fuel t = readItems fuel (some c :: t') :=
    readItems_congr (by rw [h, skipSpace, hc']; rfl) fuel
  rw [hitems]
  simp [readValue, skipSpace, isSpace, h, hc]

theorem readValue_object {c : Char} (hc : c ≠ '\x7d') {t t' : Scanned}
    (h : skipSpace t = some c :: t') (hc' : isSpace c = false) (fuel : Nat) :
    readValue (fuel + 1) (some '\x7b' :: t) =
      (.object (readMembers fuel t).1 (readMembers fuel t).2.1, (readMembers fuel t).2.2) := by
  have hmembers : readMembers fuel t = readMembers fuel (some c :: t') :=
    readMembers_congr (by rw [h, skipSpace, hc']; rfl) fuel
  rw [hmembers]
  simp [readValue, skipSpace, isSpace, h, hc]

open Source

mutual

theorem readValue_write : (level : Nat) → (v : Value) → v.Plain → (rest : List Char) →
    EndsNumeral rest → (fuel : Nat) → 2 * (v.write l level rest).length ≤ fuel →
    readValue fuel ((v.write l level rest).map some) = (ofValue v, rest.map some)
  | _, .null, _, rest, _, fuel + 1, _ => by
      exact readValue_plain (by decide) (by decide) fuel _
  | _, .bool true, _, rest, _, fuel + 1, _ => by
      exact readValue_plain (by decide) (by decide) fuel _
  | _, .bool false, _, rest, _, fuel + 1, _ => by
      exact readValue_plain (by decide) (by decide) fuel _
  | _, .number _, ⟨k, rfl⟩, rest, hrest, fuel + 1, _ => by
      obtain ⟨d, hd, t, ht, hread⟩ := readPlain_ofNat k hrest
      have hdigit : ∀ d < 10, Nat.digitChar d ∉ ['"', '[', '\x7b'] ∧
          isSpace (Nat.digitChar d) = false := by decide
      rw [write, ht, readValue_plain (hdigit d hd).1 (hdigit d hd).2, hread]
      rfl
  | _, .string s, _, rest, _, fuel + 1, _ => by
      obtain ⟨t, ht, hread⟩ := readString_quoted s rest
      rw [write, ht]
      simp [readValue, skipSpace, isSpace, hread, ofValue]
  | _, .list [], _, rest, _, fuel + 1, _ => by
      simp [write, readValue, skipSpace, isSpace, ofValue, ofValues]
  | level, .list (v :: vs), hvs, rest, _, fuel + 1, hfuel => by
      have hclose := endsNumeral_close (l := l) level (Or.inl rfl) rest
      have hskip : skipSpace ((l.lineBreak level ++ ']' :: rest).map some) =
          some ']' :: rest.map some := by
        rw [skipSpace_lineBreak, skipSpace_cons (by decide), List.map_cons]
      have hitems := readItems_write (level + 1) (v :: vs) hvs _ rest _ hclose hskip rfl fuel
        (by simp only [write, List.length_cons] at hfuel; omega)
      obtain ⟨c, t, ht, hspace, hc, -⟩ := write_cons (l := l) (level + 1) hvs.1
        (writeItems l (level + 1) vs (l.lineBreak level ++ ']' :: rest))
      have hstart : skipSpace ((l.lineBreak (level + 1) ++ v.write l (level + 1)
          (writeItems l (level + 1) vs (l.lineBreak level ++ ']' :: rest))).map some) =
            some c :: t.map some := by
        rw [skipSpace_lineBreak, ht, skipSpace_cons hspace, List.map_cons]
      rw [write, List.map_cons, readValue_list hc hstart hspace, hitems, ofValue]
  | _, .object [], _, rest, _, fuel + 1, _ => by
      simp [write, readValue, skipSpace, isSpace, ofValue, ofEntries]
  | level, .object ((k, v) :: ms), hms, rest, _, fuel + 1, hfuel => by
      have hclose := endsNumeral_close (l := l) level (Or.inr rfl) rest
      have hskip : skipSpace ((l.lineBreak level ++ '\x7d' :: rest).map some) =
          some '\x7d' :: rest.map some := by
        rw [skipSpace_lineBreak, skipSpace_cons (by decide), List.map_cons]
      have hmembers := readMembers_write (level + 1) ((k, v) :: ms) hms _ rest _ hclose hskip rfl
        fuel (by simp only [write, List.length_cons] at hfuel; omega)
      obtain ⟨t, ht, -⟩ := readString_quoted k (l.colon ++ v.write l (level + 1)
        (writeMembers l (level + 1) ms (l.lineBreak level ++ '\x7d' :: rest)))
      have hstart : skipSpace ((l.lineBreak (level + 1) ++ quoted k (l.colon ++ v.write l
          (level + 1) (writeMembers l (level + 1) ms (l.lineBreak level ++ '\x7d' :: rest)))).map
            some) = some '"' :: t := by
        rw [skipSpace_lineBreak, ht]
        rfl
      rw [write, List.map_cons, readValue_object (by decide) hstart (by decide), hmembers, ofValue]
  | level, v, hv, rest, _, 0, hfuel => by
      have := length_lt_write (l := l) level v hv rest
      omega

/-- The items of a list from the first on, or from any other on. -/
theorem readItems_write : (level : Nat) → (vs : List Value) → AllPlain vs →
    (close rest text : List Char) → EndsNumeral close →
    skipSpace (close.map some) = some ']' :: rest.map some →
    writeItems l level vs close = ',' :: text → (fuel : Nat) → 2 * text.length + 1 ≤ fuel →
    readItems fuel (text.map some) = (ofValues vs, true, rest.map some)
  | _, [], _, close, rest, text, _, hskip, htext, fuel, _ => by
      rw [writeItems] at htext
      rw [htext, skipSpace_cons (by decide)] at hskip
      simp at hskip
  | level, v :: vs, ⟨hv, hvs⟩, close, rest, text, hclose, hskip, htext, fuel + 1, hfuel => by
      have hrec := readItems_write level vs hvs close rest
      have hends := endsNumeral_writeItems (l := l) level vs hclose
      have hvalue := readValue_write level v hv (writeItems l level vs close) hends fuel
      obtain rfl : l.lineBreak level ++ write l level v (writeItems l level vs close) = text := by
        simpa [writeItems] using htext
      rw [List.length_append] at hfuel
      rw [readItems, readValue_congr (skipSpace_lineBreak level _), hvalue (by omega)]
      cases vs with
      | nil => simp [writeItems, hskip, ofValues]
      | cons w ws =>
          have hlength := length_lt_write (l := l) level v hv (writeItems l level (w :: ws) close)
          obtain ⟨text, htext⟩ : ∃ text, writeItems l level (w :: ws) close = ',' :: text :=
            ⟨_, by rw [writeItems]⟩
          rw [htext] at hfuel hlength ⊢
          rw [List.length_cons] at hlength
          have hitems := hrec text hclose hskip htext fuel (by omega)
          have hcomma := skipSpace_cons (c := ',') (by decide) text
          simp only [List.map_cons] at hcomma ⊢
          simp [hcomma, hitems, ofValues]
  | _, _, _, _, _, _, _, _, _, 0, hfuel => by omega

theorem readMembers_write : (level : Nat) → (ms : List (String × Value)) → MembersPlain ms →
    (close rest text : List Char) → EndsNumeral close →
    skipSpace (close.map some) = some '\x7d' :: rest.map some →
    writeMembers l level ms close = ',' :: text → (fuel : Nat) → 2 * text.length + 1 ≤ fuel →
    readMembers fuel (text.map some) = (ofEntries ms, true, rest.map some)
  | _, [], _, close, rest, text, _, hskip, htext, fuel, _ => by
      rw [writeMembers] at htext
      rw [htext, skipSpace_cons (by decide)] at hskip
      simp at hskip
  | level, (k, v) :: ms, ⟨hv, hms⟩, close, rest, text, hclose, hskip, htext, fuel + 1, hfuel => by
      have hrec := readMembers_write level ms hms close rest
      have hends := endsNumeral_writeMembers (l := l) level ms hclose
      have hvalue := readValue_write level v hv (writeMembers l level ms close) hends fuel
      obtain ⟨blanks, hcolon, hblanks⟩ := colon_cons l
      obtain ⟨t, ht, hkey⟩ := readString_quoted k
        (l.colon ++ v.write l level (writeMembers l level ms close))
      have hlength := length_lt_quoted k
        (l.colon ++ v.write l level (writeMembers l level ms close))
      obtain rfl : l.lineBreak level ++
          quoted k (l.colon ++ v.write l level (writeMembers l level ms close)) = text := by
        simpa [writeMembers] using htext
      rw [List.length_append] at hfuel hlength
      have hstart : skipSpace ((l.lineBreak level ++
          quoted k (l.colon ++ v.write l level (writeMembers l level ms close))).map some) =
            some '"' :: t := by
        rw [skipSpace_lineBreak, ht]
        rfl
      have hmark : skipSpace ((l.colon ++ v.write l level (writeMembers l level ms close)).map some) =
          some ':' :: (blanks ++ v.write l level (writeMembers l level ms close)).map some := by
        rw [hcolon, List.cons_append, skipSpace_cons (by decide), List.map_cons]
      rw [readMembers, hstart]
      simp only [hkey, hmark]
      rw [readValue_congr (skipSpace_blanks hblanks _), hvalue (by omega)]
      cases ms with
      | nil => simp [writeMembers, hskip, ofEntries]
      | cons m ms =>
          have hrest := length_lt_write (l := l) level v hv (writeMembers l level (m :: ms) close)
          obtain ⟨text, htext⟩ : ∃ text, writeMembers l level (m :: ms) close = ',' :: text :=
            ⟨_, by rw [writeMembers]⟩
          rw [htext] at hfuel hlength hrest ⊢
          rw [List.length_cons] at hrest
          have hmembers := hrec text hclose hskip htext fuel (by omega)
          have hcomma := skipSpace_cons (c := ',') (by decide) text
          simp only [List.map_cons] at hcomma ⊢
          simp [hcomma, hmembers, ofEntries]
  | _, _, _, _, _, _, _, _, _, 0, hfuel => by omega

end

end Value

/-- The whole text of a value is read as the value. -/
theorem read_write (l : Layout) {v : Value} (hv : v.Plain) :
    read ((v.write l 0 []).map some) = (.ofValue v, true) := by
  have hread := Value.readValue_write (l := l) 0 v hv [] (Or.inl rfl)
    (2 * ((v.write l 0 []).map some).length + 2) (by rw [List.length_map]; omega)
  rw [read, hread]
  rfl

/-- The text of a value in some layout, as `compact` and `pretty` write it in theirs. -/
def Value.laidOut (l : Layout) (v : Value) : String := String.ofList (v.write l 0 [])

theorem decodeText_laidOut {α : Type} (d : Decoder α) (l : Layout) {v : Value} (hv : v.Plain) :
    decodeText d (v.laidOut l) = d textRoom (.ofValue v) := by
  rw [decodeText, decodeScanned, Value.laidOut, String.toList_ofList, read_write _ hv]
  cases hd : d textRoom (.ofValue v) <;> simp [hd]

theorem decodeText_pretty {α : Type} (d : Decoder α) {v : Value} (hv : v.Plain) :
    decodeText d v.pretty = d textRoom (.ofValue v) :=
  decodeText_laidOut d .indented hv

end AssetGroups.Json
