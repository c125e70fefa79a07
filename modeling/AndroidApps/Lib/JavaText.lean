import AndroidApps.Lib.IndexOf
import Mathlib.Data.List.DropRight
import Mathlib.Data.Nat.Digits.Defs

/-! Strings of the Java library, as their UTF-16 units, and how they are cut up and read. -/

namespace AndroidApps

/-- A `java.lang.String`. -/
abbrev JString := List UInt16

namespace JString

/-- Whether `trim` removes a unit at either end. -/
def isBlank (unit : UInt16) : Bool := decide (unit ≤ 0x20)

/-- `trim`. -/
def trim (text : JString) : JString :=
  ((text.dropWhile isBlank).reverse.dropWhile isBlank).reverse

/-- The tokens of a `StringTokenizer`, none of which is empty. -/
def tokens (delimits : UInt16 → Bool) (text : JString) : List JString :=
  (text.splitOnP delimits).filter fun token => !token.isEmpty

/-- `split` at a separator: the pieces up to the last one that is not empty, or all of the text. -/
def split (separator : UInt16) (text : JString) : List JString :=
  if separator ∈ text then (text.splitOn separator).rdropWhile List.isEmpty else [text]

/--
The pieces of a text between the places where a separator stands.

The number counts the units of a separator that still have to be passed over.
-/
def cutAt (separator : JString) : Nat → JString → List JString
  | _, [] => [[]]
  | passed + 1, _ :: rest => cutAt separator passed rest
  | 0, unit :: rest =>
    if separator.isPrefixOf (unit :: rest) then [] :: cutAt separator (separator.length - 1) rest
    else
      match cutAt separator 0 rest with
      | [] => [[unit]]
      | piece :: pieces => (unit :: piece) :: pieces

/-- `split` at a separator of several units. -/
def splitText (separator text : JString) : List JString :=
  match cutAt separator 0 text with
  | [_] => [text]
  | pieces => pieces.rdropWhile List.isEmpty

/-- `contains`. -/
def contains (text piece : JString) : Bool := text.tails.any fun rest => piece.isPrefixOf rest

/-- `indexOf` from a place on, where -1 stands for a part that is not found. -/
def indexOfFrom (text piece : JString) (start : Int) : Int :=
  let passed := min start.toNat text.length
  match indexOfPart piece (text.drop passed) with
  | some place => passed + place
  | none => -1

/-- `indexOf`. -/
def indexOf (text piece : JString) : Int := indexOfFrom text piece 0

/-- `substring` from one place to another, with `none` for its exception. -/
def substring (text : JString) (first last : Int) : Option JString :=
  if 0 ≤ first ∧ first ≤ last ∧ last ≤ text.length then
    some ((text.take last.toNat).drop first.toNat)
  else none

/-- `Character.digit` on the ASCII digits alone. -/
def asciiDigit (unit : UInt16) : Option Nat :=
  if 0x30 ≤ unit ∧ unit ≤ 0x39 then some (unit.toNat - 0x30) else none

/-- `Integer.parseInt`, with `Character.digit` as the value of a decimal digit. -/
def parseInt (digit : UInt16 → Option Nat) (text : JString) : Option Int := do
  let (negative, digits) := match text with
    | 0x2D :: rest => (true, rest)
    | 0x2B :: rest => (false, rest)
    | _ => (false, text)
  guard (digits ≠ [])
  let values ← digits.mapM digit
  let magnitude : Int := Nat.ofDigits 10 values.reverse
  let value := if negative then -magnitude else magnitude
  -- A number that does not fit an `int` is refused like one that is none.
  guard (-2 ^ 31 ≤ value ∧ value < 2 ^ 31)
  return value

/-- `Integer.valueOf` in a radix, with `Character.digit` as the value of a digit in it. -/
def parseRadix (radix : Nat) (digit : UInt16 → Option Nat) (text : JString) : Option Int := do
  let (negative, digits) := match text with
    | 0x2D :: rest => (true, rest)
    | 0x2B :: rest => (false, rest)
    | _ => (false, text)
  guard (digits ≠ [])
  let values ← digits.mapM digit
  let magnitude : Int := Nat.ofDigits (radix : Int) values.reverse
  let value := if negative then -magnitude else magnitude
  guard (-2 ^ 31 ≤ value ∧ value < 2 ^ 31)
  return value

/-- `Long.parseLong`, with `Character.digit` as the value of a decimal digit. -/
def parseLong (digit : UInt16 → Option Nat) (text : JString) : Option Int := do
  let (negative, digits) := match text with
    | 0x2D :: rest => (true, rest)
    | 0x2B :: rest => (false, rest)
    | _ => (false, text)
  guard (digits ≠ [])
  let values ← digits.mapM digit
  let magnitude : Int := Nat.ofDigits 10 values.reverse
  let value := if negative then -magnitude else magnitude
  guard (-2 ^ 63 ≤ value ∧ value < 2 ^ 63)
  return value

/-- `Character.digit` in the radix 16 on the ASCII characters. -/
def asciiHexDigit (unit : UInt16) : Option Nat :=
  if 0x30 ≤ unit ∧ unit ≤ 0x39 then some (unit.toNat - 0x30)
  else if 0x41 ≤ unit ∧ unit ≤ 0x46 then some (unit.toNat - 0x37)
  else if 0x61 ≤ unit ∧ unit ≤ 0x66 then some (unit.toNat - 0x57)
  else none

/-- `Character.digit`, whose values below 0x80 are those of the ASCII digits. -/
structure CharacterDigit where
  digit : UInt16 → Option Nat
  small : ∀ unit, unit < 0x80 → digit unit = asciiDigit unit

/-- `Character.digit` without the digits of other scripts. -/
def CharacterDigit.ascii : CharacterDigit := ⟨asciiDigit, fun _ _ => rfl⟩

/-- `Character.digit` in the radix 16, whose values below 0x80 are those of the ASCII characters. -/
structure CharacterHexDigit where
  digit : UInt16 → Option Nat
  small : ∀ unit, unit < 0x80 → digit unit = asciiHexDigit unit

/-- `Character.digit` in the radix 16 without the digits of other scripts. -/
def CharacterHexDigit.ascii : CharacterHexDigit := ⟨asciiHexDigit, fun _ _ => rfl⟩

/-- The unit of a hexadecimal digit, whose letters are small. -/
def hexUnit (value : Nat) : UInt16 :=
  UInt16.ofNat (if value < 10 then 0x30 + value else 0x57 + value)

/-- The hexadecimal digits of a number, in a fixed width. -/
def hexText : Nat → Nat → JString
  | 0, _ => []
  | width + 1, value => hexText width (value / 16) ++ [hexUnit (value % 16)]

/-- The decimal digits of a number, at least one. -/
def digitsOf (value : Nat) : List Nat :=
  if value = 0 then [0] else (Nat.digits 10 value).reverse

/-- The unit of a decimal digit. -/
def digitUnit (value : Nat) : UInt16 := UInt16.ofNat (0x30 + value)

/-- `Integer.toString`. -/
def decimal (value : Int) : JString :=
  (if value < 0 then [0x2D] else []) ++ (digitsOf value.natAbs).map digitUnit

end JString

end AndroidApps
