import AndroidApps.Lib.JavaTextLaws
import Mathlib.Tactic.IntervalCases

/-! Texts of the C library: how `strtok` cuts them, and the number that `atoi` reads. -/

namespace AndroidApps.CText

section Tokens

/-- `strtok`: the first piece between separators, and what is left behind it. -/
def strtok (separator : UInt8) (text : List UInt8) : Option (List UInt8 × List UInt8) :=
  match text.dropWhile (· == separator) with
  | [] => none
  | first :: rest =>
    some ((first :: rest).takeWhile (· != separator),
      ((first :: rest).dropWhile (· != separator)).drop 1)

variable {separator : UInt8} {piece : List UInt8}

/-- A text that begins with a piece has no separator to pass over. -/
theorem dropWhile_piece (occupied : piece ≠ []) (plain : separator ∉ piece) (rest : List UInt8) :
    (piece ++ rest).dropWhile (· == separator) = piece ++ rest := by
  cases piece with
  | nil => exact absurd rfl occupied
  | cons first piece =>
    have other : (first == separator) = false :=
      beq_false_of_ne fun same => plain (same ▸ List.mem_cons_self)
    rw [List.cons_append, List.dropWhile_cons_of_neg (by simp [other])]

/-- No byte of a piece is the separator. -/
theorem piece_all (plain : separator ∉ piece) : ∀ byte ∈ piece, (byte != separator) = true :=
  fun _ member => bne_iff_ne.mpr fun same => plain (same ▸ member)

/-- A piece in front of a separator is cut off. -/
theorem strtok_piece (occupied : piece ≠ []) (plain : separator ∉ piece) (rest : List UInt8) :
    strtok separator (piece ++ separator :: rest) = some (piece, rest) := by
  unfold strtok
  rw [dropWhile_piece occupied plain]
  cases piece with
  | nil => exact absurd rfl occupied
  | cons first piece =>
    have all := piece_all plain
    dsimp only [List.cons_append]
    rw [← List.cons_append, List.takeWhile_append_of_pos all, List.dropWhile_append_of_pos all]
    simp

/-- A text without a separator is one piece. -/
theorem strtok_last (occupied : piece ≠ []) (plain : separator ∉ piece) :
    strtok separator piece = some (piece, []) := by
  have whole := dropWhile_piece occupied plain []
  rw [List.append_nil] at whole
  unfold strtok
  rw [whole]
  cases piece with
  | nil => exact absurd rfl occupied
  | cons first piece =>
    have all := piece_all plain
    dsimp only
    rw [List.takeWhile_eq_self_iff.mpr all, List.dropWhile_eq_nil_iff.mpr all]
    rfl

end Tokens

section Numbers

/-- `isspace`. -/
def isSpaceByte (byte : UInt8) : Bool := byte == 0x20 || (0x09 ≤ byte && byte ≤ 0x0D)

/-- `isdigit`. -/
def isDigitByte (byte : UInt8) : Bool := 0x30 ≤ byte && byte ≤ 0x39

/-- The number that digits stand for. -/
def digitsValue (digits : List UInt8) : Nat :=
  digits.foldl (fun value digit => value * 10 + (digit.toNat - 0x30)) 0

/-- The sign of a number and what is behind it. -/
def signOf : List UInt8 → Bool × List UInt8
  | 0x2D :: rest => (true, rest)
  | 0x2B :: rest => (false, rest)
  | text => (false, text)

/-- `atoi`, which gives the nearer bound of an `int` for a number beyond it. -/
def atoi (text : List UInt8) : Int :=
  let (negative, text) := signOf (text.dropWhile isSpaceByte)
  let value : Int := digitsValue (text.takeWhile isDigitByte)
  max (-(2 ^ 31)) (min (2 ^ 31 - 1) (if negative then -value else value))

/-- A digit is no space and no sign. -/
theorem isDigitByte_plain {byte : UInt8} (digit : isDigitByte byte = true) :
    isSpaceByte byte = false ∧ byte ≠ 0x2D ∧ byte ≠ 0x2B := by
  simp only [isDigitByte, Bool.and_eq_true, decide_eq_true_eq, UInt8.le_iff_toNat_le] at digit
  obtain ⟨low, high⟩ := digit
  have low : 48 ≤ byte.toNat := low
  have high : byte.toNat ≤ 57 := high
  refine ⟨?_, ?_, ?_⟩
  · simp only [isSpaceByte, Bool.or_eq_false_iff, Bool.and_eq_false_imp, decide_eq_true_eq,
      decide_eq_false_iff_not, beq_eq_false_iff_ne, UInt8.le_iff_toNat_le]
    refine ⟨?_, fun _ small => ?_⟩
    · rintro rfl
      exact absurd low (by decide)
    · have small : byte.toNat ≤ 13 := small
      omega
  · rintro rfl
    exact absurd low (by decide)
  · rintro rfl
    exact absurd low (by decide)

/-- Digits in front of anything else are read, if the number is an `int`. -/
theorem atoi_digits {digits : List UInt8} (occupied : digits ≠ [])
    (all : ∀ byte ∈ digits, isDigitByte byte = true) (small : digitsValue digits < 2 ^ 31)
    {rest : List UInt8} (behind : rest.takeWhile isDigitByte = []) :
    atoi (digits ++ rest) = digitsValue digits := by
  have read : (digits ++ rest).takeWhile isDigitByte = digits := by
    rw [List.takeWhile_append_of_pos all, behind, List.append_nil]
  have begins : signOf ((digits ++ rest).dropWhile isSpaceByte) = (false, digits ++ rest) := by
    cases digits with
    | nil => exact absurd rfl occupied
    | cons first digits =>
      obtain ⟨solid, minus, plus⟩ := isDigitByte_plain (all first List.mem_cons_self)
      rw [List.cons_append, List.dropWhile_cons_of_neg (by simp [solid])]
      unfold signOf
      split
      · rename_i same
        cases same
        exact absurd rfl minus
      · rename_i same
        cases same
        exact absurd rfl plus
      · rfl
  unfold atoi
  rw [begins]
  dsimp only
  rw [read]
  simp only [Bool.false_eq_true, if_false]
  omega

end Numbers

section Encoding

/-- The bytes of a unit in a string of `GetStringUTFChars`, none of which is 0. -/
def unitBytes (unit : UInt16) : List UInt8 :=
  if unit ≠ 0 ∧ unit < 0x80 then [unit.toUInt8]
  else if unit < 0x800 then
    [UInt8.ofNat (0xC0 + unit.toNat / 2 ^ 6), UInt8.ofNat (0x80 + unit.toNat % 2 ^ 6)]
  else
    [UInt8.ofNat (0xE0 + unit.toNat / 2 ^ 12), UInt8.ofNat (0x80 + unit.toNat / 2 ^ 6 % 2 ^ 6),
      UInt8.ofNat (0x80 + unit.toNat % 2 ^ 6)]

/-- `GetStringUTFChars`, without the byte behind the end. -/
def stringChars (text : JString) : List UInt8 := text.flatMap unitBytes

/-- Plain characters are encoded as they are. -/
theorem stringChars_plain {text : JString} (plain : ∀ unit ∈ text, unit ≠ 0 ∧ unit < 0x80) :
    stringChars text = text.map UInt16.toUInt8 := by
  induction text with
  | nil => rfl
  | cons unit rest ih =>
    rw [List.forall_mem_cons] at plain
    have first : unitBytes unit = [unit.toUInt8] := if_pos plain.1
    have behind := ih plain.2
    unfold stringChars at behind ⊢
    rw [List.flatMap_cons, first, behind, List.map_cons]
    rfl

/-- The characters of a decimal text. -/
def decimalChars (value : Nat) : List UInt8 :=
  (JString.digitsOf value).map fun digit => UInt8.ofNat (0x30 + digit)

/-- A number is encoded digit by digit. -/
theorem stringChars_decimal (value : Nat) :
    stringChars (JString.decimal value) = decimalChars value := by
  have signless : JString.decimal value = (JString.digitsOf value).map JString.digitUnit := by
    simp [JString.decimal]
  have plain : ∀ unit ∈ (JString.digitsOf value).map JString.digitUnit, unit ≠ 0 ∧ unit < 0x80 := by
    intro unit member
    obtain ⟨digit, listed, rfl⟩ := List.mem_map.mp member
    have single := JString.digitsOf_lt listed
    refine ⟨?_, JString.digitUnit_small single⟩
    interval_cases digit <;> decide
  rw [signless, stringChars_plain plain, List.map_map, decimalChars]
  refine List.map_congr_left fun digit listed => ?_
  have single := JString.digitsOf_lt listed
  interval_cases digit <;> rfl

/-- The characters of a number are digits. -/
theorem decimalChars_digit {value : Nat} {byte : UInt8} (member : byte ∈ decimalChars value) :
    isDigitByte byte = true := by
  obtain ⟨digit, listed, rfl⟩ := List.mem_map.mp member
  have single := JString.digitsOf_lt listed
  interval_cases digit <;> rfl

theorem decimalChars_ne_nil (value : Nat) : decimalChars value ≠ [] := by
  simp [decimalChars, JString.digitsOf_ne_nil]

/-- A digit is no hyphen. -/
theorem decimalChars_plain (value : Nat) : 0x2D ∉ decimalChars value :=
  fun member => (isDigitByte_plain (decimalChars_digit member)).2.1 rfl

/-- Digits have the value of the number they are written for. -/
theorem digitsValue_decimalChars (value : Nat) : digitsValue (decimalChars value) = value := by
  have read : ∀ digits : List Nat, (∀ digit ∈ digits, digit < 10) →
      digitsValue (digits.map fun digit => UInt8.ofNat (0x30 + digit)) =
        Nat.ofDigits 10 digits.reverse := by
    intro digits small
    -- The digits are read from the left, so that the induction takes them off the end.
    induction digits using List.reverseRecOn with
    | nil => rfl
    | append_singleton digits digit ih =>
      have single := small digit (by simp)
      have last : (UInt8.ofNat (0x30 + digit)).toNat - 0x30 = digit := by
        rw [UInt8.toNat_ofNat']
        omega
      have before := ih fun other member => small other (List.mem_append_left _ member)
      rw [List.map_append, List.reverse_append, digitsValue, List.foldl_append]
      rw [digitsValue] at before
      simp only [List.map_cons, List.map_nil, List.foldl_cons, List.foldl_nil, before, last,
        List.reverse_singleton, List.singleton_append, Nat.ofDigits_cons]
      omega
  rw [decimalChars, read _ fun digit => JString.digitsOf_lt, JString.ofDigits_digitsOf]

/-- `atoi` reads a number back, whatever stands behind it, unless that begins with a digit. -/
theorem atoi_decimal {value : Nat} (small : value < 2 ^ 31) {behind : List UInt8}
    (ends : behind.takeWhile isDigitByte = []) : atoi (decimalChars value ++ behind) = value := by
  have read := atoi_digits (decimalChars_ne_nil value) (fun _ => decimalChars_digit)
    (by rwa [digitsValue_decimalChars]) ends
  rwa [digitsValue_decimalChars] at read

end Encoding

end AndroidApps.CText
