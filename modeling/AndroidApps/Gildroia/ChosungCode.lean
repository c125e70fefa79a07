import AndroidApps.Gildroia.ChosungCollisions
import AndroidApps.Gildroia.TextMng

/-! Decoding an index code: which characters come back as their consonants. -/

namespace AndroidApps.Gildroia

section Decoding

/-- The character that six bits of a code stand for. -/
def codeChar (behind : Nat → UInt16) (number : Nat) : UInt16 :=
  match number with
  | 0 => 0x20
  | nChoIndex + 1 =>
    match chHangulCho[nChoIndex]? with
    | some ch => ch
    -- What stands behind the table in memory is not known.
    | none => behind (nChoIndex - chHangulCho.length)

/-- The loop of `tranChosung` over the fields of a code. -/
def codeChars (behind : Nat → UInt16) : Nat → Nat → List UInt16
  | 0, _ => []
  | count + 1, nChoCode => codeChar behind (nChoCode % 64) :: codeChars behind count (nChoCode / 64)

/-- `tranChosung` of a code: its buffer of six units, unless the loop writes behind it. -/
def tranChosungCode (behind : Nat → UInt16) (nChoCode : Nat) : Option (List UInt16) :=
  let nLen := nChoCode % 256
  -- The unit behind the last character is set to 0 as well.
  if nLen < 6 then
    some (codeChars behind nLen (nChoCode / 256) ++ List.replicate (6 - nLen) 0)
  else none

end Decoding

section Texts

/-- A digit. -/
def isDigit (ch : UInt16) : Bool := decide (48 ≤ ch.toNat) && decide (ch.toNat ≤ 57)

/-- A Hangul syllable, a consonant that leads syllables, an ASCII letter or a digit. -/
def CodedChar (ch : UInt16) : Prop :=
  0xAC00 ≤ ch.toNat ∧ ch.toNat ≤ 0xD7A3 ∨ ch ∈ chHangulCho.take 19 ∨ iswalpha ch = true ∨
    isDigit ch = true

instance (ch : UInt16) : Decidable (CodedChar ch) := by
  unfold CodedChar
  infer_instance

/-- The leading consonant of a syllable, the capital of a letter, and any other character itself. -/
def normalChar (ch : UInt16) : UInt16 :=
  if isHangul ch then tranChosung ch
  else if 97 ≤ ch.toNat ∧ ch.toNat ≤ 122 then ch - 32
  else ch

/-- What a code is meant to tell of a text. -/
def normalPrefix (pText : Nat → UInt16) (nLen : Nat) : List UInt16 :=
  (List.range (min nLen 2)).map fun i => normalChar (pText i)

/-- A text of one character or more, all of them syllables, consonants, letters and digits. -/
structure CodedText (pText : Nat → UInt16) (nLen : Nat) : Prop where
  filled : 1 ≤ nLen
  coded : ∀ i, i < nLen → CodedChar (pText i)

/-- Decoding the code of a text gives the consonants, whatever stands behind the table. -/
def CodeDecodes (pText : Nat → UInt16) (nLen : Nat) : Prop :=
  ∀ behind, (tranChosungCode behind (tranChosungText pText nLen)).map cString =
    some (normalPrefix pText nLen)

/-- The codes of two texts can be decoded, and are equal when they tell the same. -/
structure RoundTrip (left : Nat → UInt16) (nLen : Nat) (right : Nat → UInt16) (other : Nat) :
    Prop where
  decodes : CodeDecodes left nLen ∧ CodeDecodes right other
  codes : tranChosungText left nLen = tranChosungText right other ↔
    normalPrefix left nLen = normalPrefix right other

/-- No letter and no digit is among the first two characters. -/
def HangulOnly (pText : Nat → UInt16) (nLen : Nat) : Prop :=
  ∀ i, i < min nLen 2 → iswalpha (pText i) = false ∧ isDigit (pText i) = false

instance (pText : Nat → UInt16) (nLen : Nat) : Decidable (HangulOnly pText nLen) :=
  inferInstanceAs (Decidable (∀ i, i < min nLen 2 → _))

end Texts

section Fields

variable {pText : Nat → UInt16} {nLen : Nat} {behind : Nat → UInt16}

/-- The six bits of the code of a text that stand for one of its characters. -/
def codeField (pText : Nat → UInt16) (i : Nat) : Nat :=
  -- The number of the first character may spill into the bits of the second.
  if i = 0 then choIdx (pText 0) % 64 else (choIdx (pText 0) / 64 ||| choIdx (pText 1)) % 64

/-- The buffer of the decoded code of a text. -/
theorem tranChosungCode_text (filled : 1 ≤ nLen) :
    tranChosungCode behind (tranChosungText pText nLen) =
      some ((List.range (min nLen 2)).map (fun i => codeChar behind (codeField pText i)) ++
        List.replicate (6 - min nLen 2) 0) := by
  -- The length is in the lowest byte, and the fields follow it.
  have length := tranChosungText_mod pText nLen
  rcases Nat.lt_or_ge nLen 2 with short | long
  · have one : nLen = 1 := by omega
    subst one
    have rest : tranChosungText pText 1 / 256 = choIdx (pText 0) := by
      rw [tranChosungText_one]
      omega
    simp only [tranChosungCode, length, rest]
    rfl
  · have clipped : min nLen 2 = 2 := Nat.min_eq_right long
    have rest : tranChosungText pText nLen / 256 =
      (choIdx (pText 0) ||| choIdx (pText 1) <<< 6) := by
      rw [tranChosungText_two pText long]
      omega
    simp only [tranChosungCode, length, rest, clipped, codeChars, packed_mod, packed_div]
    rfl

/-- Decoding the code of a text gives the characters of its fields, if none of them is zero. -/
theorem decoded_fields (filled : 1 ≤ nLen)
    (plain : ∀ i, i < min nLen 2 → codeChar behind (codeField pText i) ≠ 0) :
    (tranChosungCode behind (tranChosungText pText nLen)).map cString =
      some ((List.range (min nLen 2)).map fun i => codeChar behind (codeField pText i)) := by
  have room : 6 - min nLen 2 = 5 - min nLen 2 + 1 := by omega
  rw [tranChosungCode_text filled, Option.map_some, room, List.replicate_succ, cString_terminated]
  intro member
  obtain ⟨i, listed, zero⟩ := List.mem_map.mp member
  exact plain i (List.mem_range.mp listed) zero

/-- No character of the table is zero. -/
theorem codeChar_ne_zero (some : ∀ index, behind index ≠ 0) (number : Nat) :
    codeChar behind number ≠ 0 := by
  -- Behind the 55 entries of the table stands what the linker put there.
  cases number with
  | zero => simp [codeChar]
  | succ nChoIndex =>
    rw [codeChar]
    cases listed : chHangulCho[nChoIndex]? with
    | none => exact some _
    | some ch =>
      have member := List.mem_of_getElem? listed
      have absent : 0 ∉ chHangulCho := by decide
      exact ne_of_mem_of_not_mem member absent

end Fields

section Characters

/-- A letter or a digit never comes back, whether or not the number before it spills. -/
theorem codeChar_ne_normalChar {ch : UInt16} (plain : iswalpha ch = true ∨ isDigit ch = true)
    {spill : Nat} (bit : spill < 2) :
    codeChar (fun _ => 0x20) ((spill ||| choIdx ch) % 64) ≠ normalChar ch := by
  -- All of them are ASCII characters, which are tried one by one.
  have all : ∀ n, n < 128 → ∀ spill, spill < 2 →
      (iswalpha (UInt16.ofNat n) = true ∨ isDigit (UInt16.ofNat n) = true) →
      codeChar (fun _ => 0x20) ((spill ||| choIdx (UInt16.ofNat n)) % 64) ≠
        normalChar (UInt16.ofNat n) := by decide +kernel
  have small : ch.toNat < 128 := by
    rcases plain with letter | digit
    · rw [iswalpha_iff] at letter
      omega
    · simp only [isDigit, Bool.and_eq_true, decide_eq_true_eq] at digit
      omega
  have same : UInt16.ofNat ch.toNat = ch := UInt16.ofNat_toNat
  rw [← same] at plain ⊢
  exact all ch.toNat small spill bit plain

/-- A syllable or a consonant has the number of its consonant in the table. -/
theorem CodedChar.place {ch : UInt16} (coded : CodedChar ch) (letter : iswalpha ch = false)
    (digit : isDigit ch = false) :
    ∃ place, place < 19 ∧ choIdx ch = place + 1 ∧ normalChar ch = chHangulCho.getD place 0 := by
  rcases coded with ⟨low, high⟩ | consonant | isLetter | isDigit
  · have syllable : isHangul ch = true := isHangul_iff.mpr ⟨low, by omega⟩
    refine ⟨(ch.toNat - 0xAC00) / 588, by omega, ?_, ?_⟩
    · rw [choIdx, if_pos syllable]
      omega
    · rw [normalChar, if_pos syllable, tranChosung, if_pos syllable]
  · -- The search in the table stops at the place where the consonant stands.
    obtain ⟨place, listed, here⟩ := List.getElem_of_mem consonant
    have within : place < 19 := by simpa [chHangulCho] using listed
    have entry : chHangulCho.getD place 0 = ch := by
      rw [← here, List.getElem_take, List.getD_eq_getElem?_getD, List.getElem?_eq_getElem (by
        simp only [chHangulCho, List.length_cons, List.length_nil]
        omega)]
      rfl
    obtain ⟨isConsonant, index⟩ := findIdx_chHangulCho place within
    rw [entry] at isConsonant index
    have other := isHangul_of_isChosung isConsonant
    rw [isChosung_iff] at isConsonant
    refine ⟨place, within, ?_, ?_⟩
    · rw [choIdx, if_neg (by simp [other]), if_pos (isChosung_iff.mpr isConsonant), index]
    · rw [normalChar, if_neg (by simp [other]), if_neg (by omega), entry]
  · rw [letter] at isLetter
    cases isLetter
  · rw [digit] at isDigit
    cases isDigit

/-- The number of a consonant stands for the consonant. -/
theorem codeChar_place (behind : Nat → UInt16) : ∀ place, place < 19 →
    codeChar behind (place + 1) = chHangulCho.getD place 0 := by
  -- The first entry of the table is no consonant, so the numbers are one more than the places.
  intro place within
  have listed : place < chHangulCho.length := by
    rw [show chHangulCho.length = 55 from rfl]
    omega
  rw [codeChar, List.getElem?_eq_getElem listed, List.getD_eq_getElem?_getD,
    List.getElem?_eq_getElem listed]
  rfl

end Characters

section Trips

variable {pText left right : Nat → UInt16} {nLen other : Nat}

/-- Every field of a text of syllables and consonants stands for its character. -/
theorem codeChar_codeField (text : CodedText pText nLen) (plain : HangulOnly pText nLen)
    (behind : Nat → UInt16) {i : Nat} (inside : i < min nLen 2) :
    codeChar behind (codeField pText i) = normalChar (pText i) := by
  obtain ⟨letter, digit⟩ := plain i inside
  obtain ⟨place, within, number, own⟩ := (text.coded i (by omega)).place letter digit
  have field : codeField pText i = place + 1 := by
    rcases Nat.eq_zero_or_pos i with rfl | second
    · rw [codeField, if_pos rfl, number]
      omega
    · -- The number in front is small enough not to spill.
      obtain ⟨noLetter, noDigit⟩ := plain 0 (by omega)
      obtain ⟨first, bound, firstNumber, _⟩ := (text.coded 0 (by omega)).place noLetter noDigit
      have one : i = 1 := by omega
      subst one
      rw [codeField, if_neg (by decide), firstNumber, number,
        show (first + 1) / 64 = 0 by omega, Nat.zero_or]
      omega
  rw [field, codeChar_place behind place within, own]

/-- A text is decoded exactly when its first characters are syllables and consonants. -/
theorem decodes_iff (text : CodedText pText nLen) :
    CodeDecodes pText nLen ↔ HangulOnly pText nLen := by
  constructor
  · intro decodes i inside
    -- With blanks behind the table, the fields are told from the characters they should be.
    have told := decodes fun _ => 0x20
    rw [decoded_fields text.filled fun i _ => codeChar_ne_zero (fun _ => by decide) _] at told
    have here := List.map_inj_left.mp (Option.some.inj told) i (List.mem_range.mpr inside)
    have misread : ¬ (iswalpha (pText i) = true ∨ isDigit (pText i) = true) := by
      intro plain
      rcases Nat.eq_zero_or_pos i with rfl | second
      · refine codeChar_ne_normalChar plain (show 0 < 2 by decide) ?_
        rw [← here, codeField, if_pos rfl, Nat.zero_or]
      · have one : i = 1 := by omega
        subst one
        have spill := spill_cases (pText 0)
        exact codeChar_ne_normalChar plain (show choIdx (pText 0) / 64 < 2 by omega) here
    simpa using misread
  · intro plain behind
    have fields : ∀ i, i < min nLen 2 →
        codeChar behind (codeField pText i) = normalChar (pText i) :=
      fun i inside => codeChar_codeField text plain behind inside
    rw [decoded_fields text.filled]
    · exact congrArg some (List.map_congr_left fun i listed => fields i (List.mem_range.mp listed))
    · intro i inside
      rw [fields i inside, ← codeChar_codeField text plain (fun _ => 0x20) inside]
      exact codeChar_ne_zero (fun _ => by decide) _

/-- Texts of syllables and consonants that tell the same have the same code. -/
theorem code_eq_of_normalPrefix (text : CodedText left nLen) (plain : HangulOnly left nLen)
    (second : CodedText right other) (plainSecond : HangulOnly right other)
    (same : normalPrefix left nLen = normalPrefix right other) :
    tranChosungText left nLen = tranChosungText right other := by
  have lengths : min nLen 2 = min other 2 := by
    simpa [normalPrefix] using congrArg List.length same
  refine tranChosungText_congr lengths fun i inside low => ?_
  rw [normalPrefix, normalPrefix, lengths] at same
  have here := List.map_inj_left.mp same i (List.mem_range.mpr (by omega))
  obtain ⟨letter, digit⟩ := plain i (by omega)
  obtain ⟨noLetter, noDigit⟩ := plainSecond i (by omega)
  obtain ⟨place, within, number, own⟩ := (text.coded i (by omega)).place letter digit
  obtain ⟨next, bound, nextNumber, nextOwn⟩ :=
    (second.coded i (by omega)).place noLetter noDigit
  -- A consonant stands at one place of the table only.
  have places := (findIdx_chHangulCho place within).2
  rw [← own, here, nextOwn, (findIdx_chHangulCho next bound).2] at places
  rw [number, nextNumber, places]

/--
Codes can be decoded, and tell two texts apart, exactly when the texts begin with Hangul.

The branch for digits tests for letters, so that a digit gets the number of no character, and a
letter one counted from the digits.
-/
theorem chosungCode_roundTrip_iff (text : CodedText left nLen) (second : CodedText right other) :
    RoundTrip left nLen right other ↔ HangulOnly left nLen ∧ HangulOnly right other := by
  -- Decoding needs both texts to be Hangul, and then tells them apart by itself.
  constructor
  · rintro ⟨⟨one, two⟩, _⟩
    exact ⟨(decodes_iff text).mp one, (decodes_iff second).mp two⟩
  · rintro ⟨plain, plainSecond⟩
    have one := (decodes_iff text).mpr plain
    have two := (decodes_iff second).mpr plainSecond
    refine ⟨⟨one, two⟩, fun same => ?_, code_eq_of_normalPrefix text plain second plainSecond⟩
    have told := one fun _ => 0x20
    rw [same, two fun _ => 0x20] at told
    exact (Option.some.inj told).symm

/-- A syllable and a consonant with the same consonants. -/
theorem chosungCode_roundTrip_ga :
    RoundTrip (fun i => [0xAC00, 0xB098, 0x41].getD i 0) 3
      (fun i => [0x3131, 0x3134].getD i 0) 2 := by
  refine (chosungCode_roundTrip_iff ⟨by decide, by decide⟩ ⟨by decide, by decide⟩).mpr ?_
  exact ⟨by decide, by decide⟩

/-- A digit comes back as a blank, and a letter as the one seven places on. -/
theorem chosungCode_digit :
    tranChosungCode (fun _ => 0x20) (tranChosungText (fun _ => 0x31) 1) =
      some [0x20, 0, 0, 0, 0, 0] ∧
      tranChosungCode (fun _ => 0x20) (tranChosungText (fun _ => 0x41) 1) =
        some [0x48, 0, 0, 0, 0, 0] ∧
      CodedText (fun _ => 0x31) 1 ∧ CodedText (fun _ => 0x41) 1 ∧
      ¬ RoundTrip (fun _ => 0x31) 1 (fun _ => 0x41) 1 := by
  refine ⟨by decide +kernel, by decide +kernel, ⟨by decide, by decide⟩, ⟨by decide, by decide⟩, ?_⟩
  intro trip
  exact absurd (trip.decodes.1 fun _ => 0x20) (by decide +kernel)

end Trips

end AndroidApps.Gildroia
