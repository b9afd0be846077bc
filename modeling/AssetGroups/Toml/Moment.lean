import AssetGroups.Text.Digits

/-!
Dates and times of day, each alone or both together, then perhaps with the distance from universal
time; and the one text in which each is written again.
-/

namespace AssetGroups.Toml

open Text

structure Date where
  year : Nat
  month : Nat
  day : Nat
deriving DecidableEq, Repr

/-- A time of day. Seconds may be left out; a fraction of a second is in units of `10 ^ -9`. -/
structure Clock where
  hour : Nat
  minute : Nat
  second : Option Nat := none
  fraction : Option Nat := none
deriving DecidableEq, Repr

/-- The distance from universal time: none, or minutes that local time is ahead of it. -/
inductive Zone where
  | universal
  | ahead (minutes : Int)
deriving DecidableEq, Repr

inductive Moment where
  | day (d : Date)
  | clock (c : Clock)
  | both (d : Date) (c : Clock) (zone : Option Zone)
deriving DecidableEq, Repr

/-! ## Writing -/

/-- The last digits of a number, with zeros before them if there are too few. -/
def padded (width n : Nat) : List Char :=
  let unit := Nat.pow 10 width
  (Nat.toDigits 10 (unit + n % unit)).drop 1

def Date.text (d : Date) : List Char :=
  padded 4 d.year ++ '-' :: padded 2 d.month ++ '-' :: padded 2 d.day

/-- The nine digits of a fraction without the zeros at their end, of which one stays if there is
nothing else. -/
def fractionText (n : Nat) : List Char :=
  let digits := ((padded 9 n).reverse.dropWhile (· == '0')).reverse
  if digits.isEmpty then ['0'] else digits

def Clock.text (c : Clock) : List Char :=
  let second := (c.second.map fun n => ':' :: padded 2 n).getD []
  let fraction := (c.fraction.map fun n => '.' :: fractionText n).getD []
  padded 2 c.hour ++ ':' :: padded 2 c.minute ++ second ++ fraction

def Zone.text : Zone → List Char
  | .universal => ['Z']
  | .ahead minutes =>
    let n := minutes.natAbs
    (if minutes < 0 then '-' else '+') :: padded 2 (n / 60) ++ ':' :: padded 2 (n % 60)

def Moment.text : Moment → List Char
  | .day d => d.text
  | .clock c => c.text
  | .both d c zone => d.text ++ 'T' :: c.text ++ (zone.map Zone.text).getD []

/-! ## Reading -/

def isLeap (year : Nat) : Bool := year % 4 == 0 && (year % 100 != 0 || year % 400 == 0)

def daysOf (year month : Nat) : Nat :=
  if month = 2 then if isLeap year then 29 else 28
  else if [4, 6, 9, 11].contains month then 30
  else 31

def Date.isValid (d : Date) : Bool :=
  1 ≤ d.month && d.month ≤ 12 && 1 ≤ d.day && d.day ≤ daysOf d.year d.month

/-- Whether the clock shows a time; a minute may have a 61st second. -/
def Clock.isValid (c : Clock) : Bool :=
  c.hour ≤ 23 && c.minute ≤ 59 && c.second.getD 0 ≤ 60

/-- The number that the given count of digits writes at the front of a text; no further digit may
follow. -/
def readFixed (width : Nat) (s : List Char) : Option (Nat × List Char) :=
  let digits := s.takeWhile Char.isDigit
  if digits.length = width then
    (digits.mapM digitOf?).map fun ds => (ofDigits ds, s.drop width)
  else none

def readDate (s : List Char) : Option (Date × List Char) := do
  let (year, s) ← readFixed 4 s
  let '-' :: s := s | none
  let (month, s) ← readFixed 2 s
  let '-' :: s := s | none
  let (day, s) ← readFixed 2 s
  if Date.isValid ⟨year, month, day⟩ then some (⟨year, month, day⟩, s) else none

/-- Reads the digits of a fraction, of which nine count. -/
def readFraction (s : List Char) : Option (Nat × List Char) :=
  let digits := s.takeWhile Char.isDigit
  if digits.isEmpty then none
  else
    ((digits ++ List.replicate 9 '0').take 9).mapM digitOf? |>.map fun ds =>
      (ofDigits ds, s.drop digits.length)

/-- Reads the seconds that may stand in a time, and their fraction. -/
def readSeconds : List Char → Option ((Option Nat × Option Nat) × List Char)
  | ':' :: s =>
    (readFixed 2 s).bind fun (second, s) =>
      match s with
      | '.' :: s => (readFraction s).map fun (fraction, s) => ((some second, some fraction), s)
      | s => some ((some second, none), s)
  | s => some ((none, none), s)

def readClock (s : List Char) : Option (Clock × List Char) := do
  let (hour, s) ← readFixed 2 s
  let ':' :: s := s | none
  let (minute, s) ← readFixed 2 s
  let ((second, fraction), s) ← readSeconds s
  if Clock.isValid ⟨hour, minute, second, fraction⟩ then some (⟨hour, minute, second, fraction⟩, s)
  else none

def readAhead (sign : Int) (s : List Char) : Option Zone := do
  let (hours, s) ← readFixed 2 s
  let ':' :: s := s | none
  let (minutes, s) ← readFixed 2 s
  if hours ≤ 23 ∧ minutes ≤ 59 ∧ s = [] then some (.ahead (sign * (60 * hours + minutes))) else none

def zone? : List Char → Option (Option Zone)
  | [] => some none
  | ['Z'] => some (some .universal)
  | ['z'] => some (some .universal)
  | '+' :: s => (readAhead 1 s).map some
  | '-' :: s => (readAhead (-1) s).map some
  | _ => none

def isJoint (c : Char) : Bool := c == 'T' || c == 't' || c == ' '

def Moment.ofText? (s : List Char) : Option Moment :=
  match readDate s with
  | some (d, []) => some (.day d)
  | some (d, c :: s) =>
    if isJoint c then do
      let (time, s) ← readClock s
      let zone ← zone? s
      some (.both d time zone)
    else none
  | none =>
    match readClock s with
    | some (c, []) => some (.clock c)
    | _ => none

end AssetGroups.Toml
