import AssetGroups.Text.Utf8
import Mathlib.Data.List.Basic

/-!
# Text as octets and back

The octets of a text are scanned as its characters, and so read as the text. The first octet of a
character says how many belong to it, and what they say together is the number of the character.
-/

namespace AssetGroups.Text.Utf8

/-! ## Octets as numbers -/

variable {a b c d : UInt8} {v : Nat} {rest : List UInt8}

theorem isTail_iff : isTail b = true ↔ 128 ≤ b.toNat ∧ b.toNat ≤ 191 := by
  simp [isTail, UInt8.le_iff_toNat_le]

theorem secondAllowed_iff : secondAllowed a b = true ↔
    (128 ≤ b.toNat ∧ b.toNat ≤ 191) ∧ (a.toNat = 224 → 160 ≤ b.toNat) ∧
      (a.toNat = 237 → b.toNat ≤ 159) ∧ (a.toNat = 240 → 144 ≤ b.toNat) ∧
      (a.toNat = 244 → b.toNat ≤ 143) := by
  simp [secondAllowed, isTail_iff, UInt8.le_iff_toNat_le, ← UInt8.toNat_inj, or_iff_not_imp_left,
    and_assoc]

/-! ## Characters -/

theorem leading_one (ha : a.toNat = v) (hv : v ≤ 127) : leading a rest = some (Char.ofNat v, 0) := by
  have hfirst : a < 0x80 := by
    rw [UInt8.lt_iff_toNat_lt, ha]
    exact Nat.lt_succ_of_le hv
  unfold leading
  rw [if_pos hfirst, ha]

theorem leading_two (ha : a.toNat = v / 64 + 192) (hb : b.toNat = v % 64 + 128)
    (hv : 128 ≤ v ∧ v ≤ 2047) : leading a (b :: rest) = some (Char.ofNat v, 1) := by
  have hone : ¬ a.toNat < 128 := by omega
  have htwo : 194 ≤ a.toNat ∧ a.toNat ≤ 223 := by omega
  have hsecond : isTail b = true := isTail_iff.mpr (by omega)
  have hnumber : a.toNat % 32 * 64 + tailBits b = v := by
    rw [tailBits]
    omega
  simp [leading, UInt8.lt_iff_toNat_lt, UInt8.le_iff_toNat_le, hone, htwo, hsecond, hnumber]

theorem leading_three (ha : a.toNat = v / 4096 + 224) (hb : b.toNat = v / 64 % 64 + 128)
    (hc : c.toNat = v % 64 + 128) (hv : 2048 ≤ v ∧ v ≤ 65535) (hvalid : v < 0xD800 ∨ 0xDFFF < v) :
    leading a (b :: c :: rest) = some (Char.ofNat v, 2) := by
  have hone : ¬ a.toNat < 128 := by omega
  have htwo : ¬ a.toNat ≤ 223 := by omega
  have hthree : 224 ≤ a.toNat ∧ a.toNat ≤ 239 := by omega
  have hsecond : secondAllowed a b = true := secondAllowed_iff.mpr (by omega)
  have hthird : isTail c = true := isTail_iff.mpr (by omega)
  have hnumber : a.toNat % 16 * 4096 + tailBits b * 64 + tailBits c = v := by
    rw [tailBits, tailBits]
    omega
  simp [leading, UInt8.lt_iff_toNat_lt, UInt8.le_iff_toNat_le, hone, htwo, hthree, hsecond, hthird,
    hnumber]

theorem leading_four (ha : a.toNat = v / 262144 + 240) (hb : b.toNat = v / 4096 % 64 + 128)
    (hc : c.toNat = v / 64 % 64 + 128) (hd : d.toNat = v % 64 + 128)
    (hv : 65536 ≤ v ∧ v < 0x110000) :
    leading a (b :: c :: d :: rest) = some (Char.ofNat v, 3) := by
  have hone : ¬ a.toNat < 128 := by omega
  have htwo : ¬ a.toNat ≤ 223 := by omega
  have hthree : ¬ a.toNat ≤ 239 := by omega
  have hfour : 240 ≤ a.toNat ∧ a.toNat ≤ 244 := by omega
  have hsecond : secondAllowed a b = true := secondAllowed_iff.mpr (by omega)
  have hthird : isTail c = true := isTail_iff.mpr (by omega)
  have hfourth : isTail d = true := isTail_iff.mpr (by omega)
  have hnumber : a.toNat % 8 * 262144 + tailBits b * 4096 + tailBits c * 64 + tailBits d = v := by
    rw [tailBits, tailBits, tailBits]
    omega
  simp [leading, UInt8.lt_iff_toNat_lt, UInt8.le_iff_toNat_le, hone, htwo, hthree, hfour, hsecond,
    hthird, hfourth, hnumber]

/-- The octets of a character, by its number. -/
theorem encodeChar_eq (c : Char) : String.utf8EncodeChar c =
    if c.toNat ≤ 127 then [.ofNat c.toNat]
    else if c.toNat ≤ 2047 then [.ofNat (c.toNat / 64 % 32 + 192), .ofNat (c.toNat % 64 + 128)]
    else if c.toNat ≤ 65535 then
      [.ofNat (c.toNat / 4096 % 16 + 224), .ofNat (c.toNat / 64 % 64 + 128),
        .ofNat (c.toNat % 64 + 128)]
    else
      [.ofNat (c.toNat / 262144 % 8 + 240), .ofNat (c.toNat / 4096 % 64 + 128),
        .ofNat (c.toNat / 64 % 64 + 128), .ofNat (c.toNat % 64 + 128)] := rfl

theorem leading_encodeChar (c : Char) (rest : List UInt8) :
    ∃ a tail, String.utf8EncodeChar c = a :: tail ∧
      leading a (tail ++ rest) = some (c, tail.length) := by
  have hvalid : c.toNat < 0xD800 ∨ 0xDFFF < c.toNat ∧ c.toNat < 0x110000 := c.valid
  have hoctet : ∀ {n m : Nat}, n < 256 → n = m → (UInt8.ofNat n).toNat = m := by
    rintro n _ hn rfl
    exact UInt8.toNat_ofNat_of_lt' hn
  have hnumber : Char.ofNat c.toNat = c := Char.ofNat_toNat c
  rw [encodeChar_eq]
  generalize c.toNat = v at hvalid hnumber ⊢
  subst hnumber
  split
  · exact ⟨_, [], rfl, leading_one (hoctet (by omega) rfl) ‹_›⟩
  · split
    · exact ⟨_, [_], rfl, leading_two (hoctet (by omega) (by omega)) (hoctet (by omega) rfl) (by omega)⟩
    · split
      · exact ⟨_, [_, _], rfl, leading_three (hoctet (by omega) (by omega)) (hoctet (by omega) rfl)
          (hoctet (by omega) rfl) (by omega) (by omega)⟩
      · exact ⟨_, [_, _, _], rfl, leading_four (hoctet (by omega) (by omega)) (hoctet (by omega) rfl)
          (hoctet (by omega) rfl) (hoctet (by omega) rfl) (by omega)⟩

/-! ## Texts -/

theorem scanFrom_length (tail rest : List UInt8) :
    scanFrom tail.length (tail ++ rest) = scanFrom 0 rest := by
  induction tail with
  | nil => rfl
  | cons b tail ih => exact ih

theorem scan_encodeChars (cs : List Char) :
    scan (cs.flatMap String.utf8EncodeChar) = cs.map some := by
  induction cs with
  | nil => rfl
  | cons c cs ih =>
      obtain ⟨a, tail, hoctets, hleading⟩ :=
        leading_encodeChar c (cs.flatMap String.utf8EncodeChar)
      rw [List.flatMap_cons, hoctets, scan, List.cons_append, scanFrom, hleading]
      show some c :: scanFrom _ _ = _
      rw [scanFrom_length, List.map_cons]
      exact congrArg (some c :: ·) ih

theorem chars?_map_some (cs : List Char) : Scanned.chars? (cs.map some) = some cs := by
  induction cs with
  | nil => rfl
  | cons c cs ih =>
      unfold Scanned.chars? at ih ⊢
      rw [List.map_cons, List.mapM_cons, ih]
      rfl

@[simp]
theorem decode?_encode (s : String) : decode? (encode s) = some s := by
  rw [decode?, encode, scan_encodeChars, chars?_map_some, Option.map_some, String.ofList_toList]

end AssetGroups.Text.Utf8
