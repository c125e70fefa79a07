import AndroidApps.Gildroia.PoiBody
import AndroidApps.Gildroia.Tokens

/-! Phone numbers: the codes they are parsed to, and the text that is shown of the codes. -/

namespace AndroidApps.Gildroia

section Parsing

/-- `tranTelNumber2` of the digits of a text, four bits for each. -/
def telCode (pTel : List UInt16) : UInt16 :=
  pTel.foldl (fun nRet unit => (nRet <<< 4) + (unit - 0x30)) 0

/-- The code of the text that a token points to. -/
def TokenWalk.tokenCode (walk : TokenWalk) (i : Nat) : Option UInt16 := do
  let token ← walk.tokens[i]?.join
  let nLen ← u16len (walk.buffer.drop token)
  return telCode ((walk.buffer.drop token).take nLen)

/-- The area byte and the other code of the tokens of a number, if there are two or three. -/
def TokenWalk.telCodes (walk : TokenWalk) : Option (Option (Nat × Nat)) :=
  if walk.n = 3 then do
    let nTelDDD ← walk.tokenCode 0
    let nTelKUK ← walk.tokenCode 1
    let nTelNUM ← walk.tokenCode 2
    return some (nTelDDD.toNat % 2 ^ 8, nTelKUK.toNat * 2 ^ 16 + nTelNUM.toNat)
  -- A number without an area has the area byte 0.
  else if walk.n = 2 then do
    let nTelKUK ← walk.tokenCode 0
    let nTelNUM ← walk.tokenCode 1
    return some (0, nTelKUK.toNat * 2 ^ 16 + nTelNUM.toNat)
  else some none

/-- `tranTelNumber2` of a text: the codes of a number, unless the text is rejected. -/
def tranTelNumber2 (fuel : Nat) (pTel : List UInt16) : Option (Option (Option (Nat × Nat))) :=
  (u16Tokens fuel pTel 0x2D).map fun walk => walk.bind TokenWalk.telCodes

end Parsing

section Numbers

/-- The units of digits. -/
def digitUnits (digits : List (Fin 10)) : List UInt16 :=
  digits.map fun digit => UInt16.ofNat (48 + digit.val)

/-- The characters of digits. -/
def digitBytes (digits : List (Fin 10)) : List UInt8 :=
  digits.map fun digit => UInt8.ofNat (digit.val + 48)

/-- A phone number: the digits behind the 0 of its area, of its exchange and of its line. -/
structure PhoneNumber where
  ddd : List (Fin 10)
  kuk : List (Fin 10)
  num : List (Fin 10)
  dddLength : 1 ≤ ddd.length ∧ ddd.length ≤ 3
  dddFirst : ddd.head? ≠ some 0
  kukLength : 1 ≤ kuk.length ∧ kuk.length ≤ 4
  kukFirst : kuk.head? ≠ some 0
  numLength : num.length = 4
  deriving DecidableEq

/-- The number as it is typed in. -/
def PhoneNumber.text (number : PhoneNumber) : List UInt16 :=
  digitUnits (0 :: number.ddd) ++ 0x2D :: (digitUnits number.kuk ++ 0x2D :: digitUnits number.num)

/-- The number as it should be shown. -/
def PhoneNumber.shown (number : PhoneNumber) : List UInt8 :=
  digitBytes (0 :: number.ddd) ++ [41, 32] ++ digitBytes number.kuk ++ [45] ++
    digitBytes number.num

/-- A number is accepted with these codes, whatever is behind it in its buffer. -/
def StoredAs (number : PhoneNumber) (codes : Nat × Nat) : Prop :=
  ∀ rest, Loop.Yields (fun fuel => tranTelNumber2 fuel (number.text ++ 0 :: rest))
    (some (some codes))

/-- A number is accepted, and its codes are shown as the number. -/
def ShownAgain (number : PhoneNumber) : Prop :=
  ∃ codes, StoredAs number codes ∧ telText codes.1 codes.2 = number.shown

/-- Two numbers are shown again, and have their own codes. -/
structure Told (left right : PhoneNumber) : Prop where
  shown : ShownAgain left ∧ ShownAgain right
  apart : ∀ codes, StoredAs left codes → StoredAs right codes → left = right

end Numbers

section Codes

/-- The value of digits that take four bits each. -/
def nibblesValue (digits : List (Fin 10)) : Nat :=
  digits.foldl (fun value digit => value * 16 + digit.val) 0

/-- One more digit behind the others. -/
theorem nibblesValue_snoc (digits : List (Fin 10)) (digit : Fin 10) :
    nibblesValue (digits ++ [digit]) = nibblesValue digits * 16 + digit.val := by
  simp [nibblesValue]

/-- The value of digits is bounded by their number. -/
theorem nibblesValue_lt (digits : List (Fin 10)) : nibblesValue digits < 16 ^ digits.length := by
  induction digits using List.reverseRecOn with
  | nil => simp [nibblesValue]
  | append_singleton digits digit ih =>
    rw [nibblesValue_snoc, List.length_append, List.length_singleton, Nat.pow_succ]
    omega

/-- A digit is what its unit is above the unit of 0. -/
theorem digitUnit_sub : ∀ digit : Fin 10,
    (UInt16.ofNat (48 + digit.val) - 0x30).toNat = digit.val := by
  decide

/-- The code of digits is their value, in 16 bits. -/
theorem telCode_digits (digits : List (Fin 10)) :
    (telCode (digitUnits digits)).toNat = nibblesValue digits % 2 ^ 16 := by
  -- The last digit is shifted in behind the code of the others.
  induction digits using List.reverseRecOn with
  | nil => rfl
  | append_singleton digits digit ih =>
    have split : telCode (digitUnits (digits ++ [digit])) =
        (telCode (digitUnits digits) <<< 4) + (UInt16.ofNat (48 + digit.val) - 0x30) := by
      simp [telCode, digitUnits]
    have shift : (telCode (digitUnits digits) <<< 4).toNat =
        (telCode (digitUnits digits)).toNat * 16 % 2 ^ 16 := by
      rw [UInt16.toNat_shiftLeft, Nat.shiftLeft_eq]
      rfl
    rw [split, UInt16.toNat_add, digitUnit_sub, shift, ih, nibblesValue_snoc]
    omega

/-- The four digits of a code. -/
def nibbles (nTelCode : Nat) : List Nat :=
  [bitField nTelCode 12 4, bitField nTelCode 8 4, bitField nTelCode 4 4, bitField nTelCode 0 4]

/-- The code of up to four digits has zeros in front of them. -/
theorem nibbles_value {digits : List (Fin 10)} (short : digits.length ≤ 4) :
    nibbles (nibblesValue digits) =
      List.replicate (4 - digits.length) 0 ++ digits.map Fin.val := by
  have field : ∀ low, bitField (nibblesValue digits) low 4 =
      nibblesValue digits / 2 ^ low % 16 := fun low => rfl
  simp only [nibbles, field]
  -- The nibbles are read off for each number of digits.
  match digits, short with
  | [], _ => rfl
  | [a], _ => simp [nibblesValue, List.replicate]; omega
  | [a, b], _ => simp [nibblesValue, List.replicate]; omega
  | [a, b, c], _ => simp [nibblesValue]; omega
  | [a, b, c, d], _ => simp [nibblesValue]; omega

/-- Digits that do not begin with a zero are shown of their code without leading zeros. -/
theorem telDigits_trimmed {digits : List (Fin 10)} (short : digits.length ≤ 4)
    (first : digits.head? ≠ some 0) : telDigits (nibblesValue digits) true = digitBytes digits := by
  -- The zeros that are dropped in front are not those of the number, whose first digit is none.
  have fields : telDigits (nibblesValue digits) true =
      ((nibbles (nibblesValue digits)).dropWhile (· = 0)).map fun digit =>
        UInt8.ofNat (digit + 48) := rfl
  have kept : (digits.map Fin.val).dropWhile (· = 0) = digits.map Fin.val := by
    cases digits with
    | nil => rfl
    | cons digit digits =>
      have some : digit.val ≠ 0 := fun zero => first (by simp [Fin.ext_iff, zero])
      simp [some]
  rw [fields, nibbles_value short, List.dropWhile_append_of_pos (by simp), kept, digitBytes,
    List.map_map]
  rfl

/-- Four digits are shown of their code with all zeros. -/
theorem telDigits_all {digits : List (Fin 10)} (four : digits.length = 4) :
    telDigits (nibblesValue digits) false = digitBytes digits := by
  have fields : telDigits (nibblesValue digits) false =
      (nibbles (nibblesValue digits)).map fun digit => UInt8.ofNat (digit + 48) := rfl
  rw [fields, nibbles_value (Nat.le_of_eq four), four, digitBytes]
  simp

end Codes

section Reading

/-- The code of a token is the code of the text it points to. -/
theorem tokenCode_pointsTo {walk : TokenWalk} {i : Nat} {slot : Option Nat} {text : List UInt16}
    (entered : walk.tokens[i]? = some slot) (points : PointsTo walk.buffer slot text) :
    walk.tokenCode i = some (telCode text) := by
  obtain ⟨plain, front, more, split, rfl⟩ := points
  have behind : walk.buffer.drop front.length = text ++ 0 :: more := by
    rw [split, List.drop_left]
  simp [TokenWalk.tokenCode, entered, behind, u16len_terminated plain]

/-- A digit is no terminator, no space and no separator. -/
theorem digitUnit_apart : ∀ digit : Fin 10, UInt16.ofNat (48 + digit.val) ≠ 0 ∧
    UInt16.ofNat (48 + digit.val) ≠ 0x20 ∧ UInt16.ofNat (48 + digit.val) ≠ 0x2D := by
  decide

/-- Digits have no terminator and no separator among them. -/
theorem digitUnits_plain (digits : List (Fin 10)) :
    0 ∉ digitUnits digits ∧ (0x2D : UInt16) ∉ digitUnits digits := by
  -- A unit of a digit is neither of the two.
  constructor
  · intro member
    obtain ⟨digit, -, same⟩ := List.mem_map.mp member
    exact (digitUnit_apart digit).1 same
  · intro member
    obtain ⟨digit, -, same⟩ := List.mem_map.mp member
    exact (digitUnit_apart digit).2.2 same

/-- Nothing is trimmed in front of a digit. -/
theorem trimLeft_digits {digits : List (Fin 10)} (some : digits ≠ []) (rest : List UInt16) :
    trimLeft (digitUnits digits ++ rest) = digitUnits digits ++ rest := by
  cases digits with
  | nil => contradiction
  | cons digit digits =>
    exact List.dropWhile_cons_of_neg (by simpa using (digitUnit_apart digit).2.1)

/-- Digits and a separator are cut off in front of what begins with a digit. -/
theorem piecesOf_digits {digits others : List (Fin 10)} (some : digits ≠ []) (more : others ≠ [])
    (rest : List UInt16) :
    piecesOf 0x2D (digitUnits digits ++ 0x2D :: (digitUnits others ++ rest)) =
      digitUnits digits :: piecesOf 0x2D (digitUnits others ++ rest) := by
  have trimmed := trimLeft_digits some []
  rw [List.append_nil] at trimmed
  rw [piecesOf_split (by decide) (digitUnits_plain digits).2 trimmed, trimLeft_digits more]

namespace PhoneNumber

variable (number : PhoneNumber)

/-- A number has an exchange and a line. -/
theorem filled : number.kuk ≠ [] ∧ number.num ≠ [] := by
  -- Both have a least length.
  constructor
  · intro empty
    have long := number.kukLength.1
    simp [empty] at long
  · intro empty
    have long := number.numLength
    simp [empty] at long

/-- The pieces of the text of a number. -/
theorem wholePieces_text : wholePieces 0x2D number.text =
    [digitUnits (0 :: number.ddd), digitUnits number.kuk, digitUnits number.num] := by
  -- The pieces are cut off from the left, and only the last one ends the text.
  have first : trimLeft number.text = number.text := trimLeft_digits (List.cons_ne_nil _ _) _
  have last := trimLeft_digits number.filled.2 []
  have three := piecesOf_digits (List.cons_ne_nil 0 number.ddd) number.filled.1
    (0x2D :: (digitUnits number.num ++ []))
  rw [List.append_nil] at last three
  rw [wholePieces, first, if_neg (by simp [text, digitUnits]), text, three]
  have two := piecesOf_digits number.filled.1 number.filled.2 []
  rw [List.append_nil] at two
  rw [two, piecesOf_whole (digitUnits_plain _).2 last]

/-- Up to four digits fit a code. -/
theorem value_mod {digits : List (Fin 10)} (short : digits.length ≤ 4) :
    nibblesValue digits % 2 ^ 16 = nibblesValue digits := by
  refine Nat.mod_eq_of_lt ?_
  calc nibblesValue digits < 16 ^ digits.length := nibblesValue_lt digits
    _ ≤ 16 ^ 4 := Nat.pow_le_pow_right (by decide) short

/-- The text of a number has no terminator inside. -/
theorem text_plain : 0 ∉ number.text := by
  simp [text, (digitUnits_plain _).1]

/-- The area byte and the other code of a number. -/
def codes : Nat × Nat :=
  (nibblesValue number.ddd % 2 ^ 8, nibblesValue number.kuk * 2 ^ 16 + nibblesValue number.num)

/-- A number is accepted with its codes. -/
theorem storedAs : StoredAs number number.codes := by
  intro rest
  have other : (0x2D : UInt16) ≠ 0x20 := by decide
  obtain ⟨result, yields, post⟩ := u16Tokens_yields rest number.text_plain other (by decide)
  rw [TokensEnd, number.wholePieces_text, if_pos (by simp)] at post
  obtain ⟨walk, slots, rfl, points, count, table⟩ := post
  -- The table has three pointers, each to one piece.
  cases points with
  | cons area points =>
  cases points with
  | cons exchange points =>
  cases points with
  | cons line points =>
  cases points
  have ddd := tokenCode_pointsTo (i := 0) (by rw [table]; rfl) area
  have kuk := tokenCode_pointsTo (i := 1) (by rw [table]; rfl) exchange
  have num := tokenCode_pointsTo (i := 2) (by rw [table]; rfl) line
  have three : walk.n = 3 := count
  have accepted : walk.telCodes = some (some number.codes) := by
    have zero : nibblesValue (0 :: number.ddd) = nibblesValue number.ddd := rfl
    rw [TokenWalk.telCodes, if_pos three, ddd, kuk, num]
    simp only [Option.bind_eq_bind, Option.bind_some, Option.pure_def, telCode_digits, zero, codes,
      value_mod (Nat.le_succ_of_le number.dddLength.2), value_mod number.kukLength.2,
      value_mod number.numLength.le]
  obtain ⟨enough, yields⟩ := yields
  refine ⟨enough, fun fuel longer => ?_⟩
  simp only [tranTelNumber2, yields fuel longer, Option.map_some, Option.bind_some, accepted]

/-- The codes of a number are its only ones. -/
theorem codes_unique {codes : Nat × Nat} (stored : StoredAs number codes) :
    codes = number.codes := by
  have same := (stored []).unique (number.storedAs [])
  simpa using same

/-- The exchange and the line are shown again of the codes. -/
theorem shown_behind : telDigits (number.codes.2 / 2 ^ 16) true = digitBytes number.kuk ∧
    telDigits (number.codes.2 % 2 ^ 16) false = digitBytes number.num := by
  -- The two halves of the second code do not overlap.
  have small : nibblesValue number.num < 2 ^ 16 := by
    have bound := nibblesValue_lt number.num
    rwa [number.numLength] at bound
  have upper : number.codes.2 / 2 ^ 16 = nibblesValue number.kuk := by
    rw [codes]
    omega
  have lower : number.codes.2 % 2 ^ 16 = nibblesValue number.num := by
    rw [codes]
    omega
  rw [upper, lower]
  exact ⟨telDigits_trimmed number.kukLength.2 number.kukFirst, telDigits_all number.numLength⟩

/-- An area of two digits is shown again of its byte. -/
theorem shown_area (short : number.ddd.length ≤ 2) :
    telDigits number.codes.1 true = digitBytes number.ddd := by
  have small : nibblesValue number.ddd < 2 ^ 8 :=
    calc nibblesValue number.ddd < 16 ^ number.ddd.length := nibblesValue_lt number.ddd
      _ ≤ 16 ^ 2 := Nat.pow_le_pow_right (by decide) short
  rw [codes, Nat.mod_eq_of_lt small]
  exact telDigits_trimmed (Nat.le_trans short (by decide)) number.dddFirst

/-- A number is shown again exactly if its area has no third digit behind the 0. -/
theorem shownAgain_iff : ShownAgain number ↔ number.ddd.length ≤ 2 := by
  obtain ⟨exchange, line⟩ := number.shown_behind
  have start : digitBytes (0 :: number.ddd) = [48] ++ digitBytes number.ddd := rfl
  constructor
  · rintro ⟨codes, stored, same⟩
    obtain rfl := number.codes_unique stored
    rw [telText, exchange, line, shown, start] at same
    -- What is behind the area is the same, so that the area is shown again, of one byte.
    have area : telDigits number.codes.1 true = digitBytes number.ddd := by
      simpa using same
    have small : number.codes.1 < 256 := Nat.mod_lt _ (by decide)
    have bound := telDigits_byte small
    rw [area, digitBytes, List.length_map] at bound
    exact bound
  · intro short
    refine ⟨number.codes, number.storedAs, ?_⟩
    rw [telText, exchange, line, number.shown_area short, shown, start]

end PhoneNumber

/-- Different digits have different characters. -/
theorem digitBytes_injective : Function.Injective digitBytes := by
  have single : ∀ left right : Fin 10,
      UInt8.ofNat (left.val + 48) = UInt8.ofNat (right.val + 48) → left = right := by
    decide
  exact List.map_injective_iff.mpr fun left right => single left right

/-- Numbers that are shown again are told apart by their codes. -/
theorem eq_of_storedAs {left right : PhoneNumber} {codes : Nat × Nat}
    (one : left.ddd.length ≤ 2) (other : right.ddd.length ≤ 2) (stored : StoredAs left codes)
    (again : StoredAs right codes) : left = right := by
  obtain rfl := left.codes_unique stored
  have same := right.codes_unique again
  -- Each part is what is shown of the codes.
  have ddd : digitBytes left.ddd = digitBytes right.ddd := by
    rw [← left.shown_area one, ← right.shown_area other, same]
  have kuk : digitBytes left.kuk = digitBytes right.kuk := by
    rw [← left.shown_behind.1, ← right.shown_behind.1, same]
  have num : digitBytes left.num = digitBytes right.num := by
    rw [← left.shown_behind.2, ← right.shown_behind.2, same]
  cases left
  cases right
  simp only [PhoneNumber.mk.injEq]
  exact ⟨digitBytes_injective ddd, digitBytes_injective kuk, digitBytes_injective num⟩

/-- Two numbers are told exactly if neither area has a third digit behind the 0. -/
theorem tranTelNumber2_told_iff (left right : PhoneNumber) :
    Told left right ↔ left.ddd.length ≤ 2 ∧ right.ddd.length ≤ 2 := by
  -- What is shown again decides, since a number that is shown again is told apart by it.
  constructor
  · intro told
    exact ⟨left.shownAgain_iff.mp told.shown.1, right.shownAgain_iff.mp told.shown.2⟩
  · intro ⟨one, other⟩
    refine ⟨⟨left.shownAgain_iff.mpr one, right.shownAgain_iff.mpr other⟩, ?_⟩
    exact fun codes stored again => eq_of_storedAs one other stored again

/-- The number 0505-123-4567. -/
def personal : PhoneNumber where
  ddd := [5, 0, 5]
  kuk := [1, 2, 3]
  num := [4, 5, 6, 7]
  dddLength := by decide
  dddFirst := by decide
  kukLength := by decide
  kukFirst := by decide
  numLength := rfl

/-- The first digit of the area of 0505-123-4567 is lost. -/
theorem not_told_personal : ¬ Told personal personal := by
  intro told
  have short := personal.shownAgain_iff.mp told.shown.1
  contradiction

end Reading

end AndroidApps.Gildroia
