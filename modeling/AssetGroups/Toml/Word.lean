import AssetGroups.Text.Pieces
import AssetGroups.Toml.Basic

/-!
The words of a TOML text: booleans, numbers, dates and times.
-/

namespace AssetGroups.Toml

open Text

/-- The digits of a text in which single underscores may stand between digits. -/
def underscored? (digit? : Char → Option Nat) (s : List Char) : Option (List Nat) :=
  let groups := splitAt '_' s
  if groups.any (·.isEmpty) then none
  else (groups.mapM fun (g : List Char) => g.mapM digit?).map List.flatten

def integerLimit : Int := Int.ofNat (Nat.pow 2 63)

def radix? (base : Nat) (digits : List Char) : Option Toml :=
  (underscored? (fun c => (hexDigit? c).filter (· < base)) digits).bind fun ds =>
    let n : Int := (ds.foldl (fun n d => base * n + d) 0 : Nat)
    if n < integerLimit then some (.integer n) else none

def whole? (s : List Char) : Option (List Nat) :=
  (underscored? digitOf? s).filter fun ds => ds.length == 1 || ds.head? != some 0

def signed (negative : Bool) (n : Nat) : Int := if negative then -(n : Int) else n

/-- The part of a text before a character, and what follows it if it is there. -/
def cutAt (p : Char → Bool) (s : List Char) : List Char × Option (List Char) :=
  match s.dropWhile fun c => !p c with
  | [] => (s, none)
  | _ :: rest => (s.takeWhile fun c => !p c, some rest)

def takeSign : List Char → Bool × List Char
  | '-' :: s => (true, s)
  | '+' :: s => (false, s)
  | s => (false, s)

/-- A number with a point or an exponent, as long as it stays within the doubles. -/
def floating (d : Decimal) : Option Toml :=
  match Double.ofDecimal d with
  | .finite negative m e => some (.float (.finite negative m e))
  | _ => none

def number? (negative : Bool) (s : List Char) : Option Toml :=
  let (mantissa, exponent) := cutAt (fun c => c == 'e' || c == 'E') s
  let (before, after) := cutAt (· == '.') mantissa
  match whole? before, after, exponent with
  | none, _, _ => none
  | some ds, none, none =>
    let i := signed negative (ofDigits ds)
    if -integerLimit ≤ i ∧ i < integerLimit then some (.integer i) else none
  | some ds, fraction, exponent =>
    let fraction? := match fraction with
      | none => some []
      | some f => underscored? digitOf? f
    let power? := match exponent with
      | none => some 0
      | some e =>
        let (minus, e) := takeSign e
        (underscored? digitOf? e).map fun ds => signed minus (ofDigits ds)
    match fraction?, power? with
    | some f, some e => floating ⟨negative, ofDigits (ds ++ f), e - f.length⟩
    | _, _ => none

def word? (s : List Char) : Option Toml :=
  let (negative, unsigned) := takeSign s
  match s with
  | ['t', 'r', 'u', 'e'] => some (.bool true)
  | ['f', 'a', 'l', 's', 'e'] => some (.bool false)
  | '0' :: 'x' :: ds => radix? 16 ds
  | '0' :: 'o' :: ds => radix? 8 ds
  | '0' :: 'b' :: ds => radix? 2 ds
  | _ =>
    if unsigned = ['i', 'n', 'f'] then some (.float (.infinite negative))
    else if unsigned = ['n', 'a', 'n'] then some (.float .nan)
    else
      match Moment.ofText? s with
      | some m => some (.moment m)
      | none => number? negative unsigned

def isWordChar (c : Char) : Bool :=
  c.isAlphanum || c == '_' || c == '-' || c == '+' || c == '.' || c == ':'

/-- The word at the front of a text. A blank belongs to it between a date and a time. -/
def takeWord (s : List Char) : List Char :=
  let front := s.takeWhile isWordChar
  match s.drop front.length with
  | ' ' :: c :: rest =>
    if c.isDigit then front ++ ' ' :: (c :: rest).takeWhile isWordChar else front
  | _ => front

end AssetGroups.Toml
