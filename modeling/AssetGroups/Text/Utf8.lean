/-!
Octets as characters. An octet that begins no well-formed sequence stands for no character; the
scan goes on with the octet after it, so that every ASCII octet is found wherever it stands.
-/

namespace AssetGroups.Text

/-- A text that came as octets; `none` marks an octet that belongs to no character. -/
abbrev Scanned := List (Option Char)

def Scanned.chars? (t : Scanned) : Option (List Char) := t.mapM id

namespace Utf8

def isTail (b : UInt8) : Bool := 0x80 ≤ b && b ≤ 0xBF

def tailBits (b : UInt8) : Nat := b.toNat % 64

/-- The second octets that may follow `a` when it begins a sequence of three or four octets; the
others would encode a number in more octets than it needs, a surrogate, or one past U+10FFFF. -/
def secondAllowed (a b : UInt8) : Bool :=
  isTail b && (a != 0xE0 || 0xA0 ≤ b) && (a != 0xED || b ≤ 0x9F) &&
    (a != 0xF0 || 0x90 ≤ b) && (a != 0xF4 || b ≤ 0x8F)

/-- The first character of a sequence of octets and the number of octets after the first that
belong to it. -/
def leading (a : UInt8) (rest : List UInt8) : Option (Char × Nat) :=
  if a < 0x80 then some (Char.ofNat a.toNat, 0)
  else if 0xC2 ≤ a && a ≤ 0xDF then
    match rest with
    | b :: _ => if isTail b then some (Char.ofNat (a.toNat % 32 * 64 + tailBits b), 1) else none
    | _ => none
  else if 0xE0 ≤ a && a ≤ 0xEF then
    match rest with
    | b :: c :: _ =>
      if secondAllowed a b && isTail c then
        some (Char.ofNat (a.toNat % 16 * 4096 + tailBits b * 64 + tailBits c), 2)
      else none
    | _ => none
  else if 0xF0 ≤ a && a ≤ 0xF4 then
    match rest with
    | b :: c :: d :: _ =>
      if secondAllowed a b && isTail c && isTail d then
        some (Char.ofNat (a.toNat % 8 * 262144 + tailBits b * 4096 + tailBits c * 64 + tailBits d), 3)
      else none
    | _ => none
  else none

/-- The characters of a sequence of octets; the first `skip` octets belong to a character that was
already found. -/
def scanFrom : (skip : Nat) → List UInt8 → Scanned
  | _, [] => []
  | k + 1, _ :: rest => scanFrom k rest
  | 0, a :: rest =>
    match leading a rest with
    | some (c, k) => some c :: scanFrom k rest
    | none => none :: scanFrom 0 rest

def scan (octets : List UInt8) : Scanned := scanFrom 0 octets

/-- The octets of a text. -/
def encode (s : String) : List UInt8 := s.toList.flatMap String.utf8EncodeChar

/-- The text that octets make up, if all of them belong to characters. -/
def decode? (octets : List UInt8) : Option String := (scan octets).chars?.map String.ofList

end Utf8

end AssetGroups.Text
