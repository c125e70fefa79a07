import AndroidApps.Lib.Bytes
import Mathlib.Data.List.Basic

/-! Leading consonants of Hangul text: the index codes and the completeness mask of a query. -/

namespace AndroidApps.Gildroia

/-- The leading consonants in syllable order, then the digits and the capital letters. -/
def chHangulCho : List UInt16 :=
  [12593, 12594, 12596, 12599, 12600, 12601, 12609, 12610, 12611, 12613,
   12614, 12615, 12616, 12617, 12618, 12619, 12620, 12621, 12622,
   48, 49, 50, 51, 52, 53, 54, 55, 56, 57,
   65, 66, 67, 68, 69, 70, 71, 72, 73, 74, 75, 76, 77, 78,
   79, 80, 81, 82, 83, 84, 85, 86, 87, 88, 89, 90]

/-- The range the program takes for Hangul syllables, `chHangulBegin` to `chHangulEnd`. -/
def isHangul (ch : UInt16) : Bool :=
  decide (0xAC00 ≤ ch.toNat) && decide (ch.toNat ≤ 0xD7AF)

/-- The compatibility consonants, `chHangulChosungBegin` to `chHangulChosungEnd`. -/
def isChosung (ch : UInt16) : Bool :=
  decide (0x3131 ≤ ch.toNat) && decide (ch.toNat ≤ 0x314E)

/-- `iswalpha` in the locale a program starts with, where only the ASCII letters are letters. -/
def iswalpha (ch : UInt16) : Bool :=
  (decide (65 ≤ ch.toNat) && decide (ch.toNat ≤ 90)) ||
    (decide (97 ≤ ch.toNat) && decide (ch.toNat ≤ 122))

/-- The leading consonant of a syllable, and any other character itself. -/
def tranChosung (ch : UInt16) : UInt16 :=
  -- One consonant leads `HAN_JUNG_MUL_JONG` = 588 syllables in a row.
  if isHangul ch then chHangulCho.getD ((ch.toNat - 0xAC00) / 588) 0 else ch

/-- The number one character contributes to an index code. -/
def choIdx (ch : UInt16) : Nat :=
  if isHangul ch then 1 + (ch.toNat - 0xAC00) / 588
  else if isChosung ch then
    -- The loop stops at `MAX_HAN_CHO_CNT` = 19 for a consonant that leads no syllable.
    (chHangulCho.take 19).findIdx (· == ch) + 1
  else if iswalpha ch then 1 + 19 + ch.toNat - 48
  -- The second `iswalpha` branch of the source is never reached.
  else 0

/-- The index code of a text: its length up to two, and the numbers of its first characters. -/
def tranChosungText (pText : Nat → UInt16) (nLen : Nat) : Nat :=
  -- `MAX_CHOSUNG_LEN` is 2.
  let nLen := if nLen > 2 then 2 else nLen
  (List.range nLen).foldl
    (fun nRet i => nRet ||| u32 (choIdx (pText i) <<< (8 + 6 * i))) nLen

/-- The bit `checkCompletHangul` enters for a character. -/
def completBit (ch : UInt16) : Nat := if isChosung ch then 0 else 1

/-- The loop of `checkCompletHangul`, from the last character down to the first. -/
def completHangulBits (pText : Nat → UInt16) : Nat → Nat → Nat
  | 0, nRet => nRet
  | i + 1, nRet =>
    completHangulBits pText i (u32 ((nRet ||| completBit (pText i)) <<< 1))

/-- The mask whose low bits tell the complete characters of a text from its consonants. -/
def checkCompletHangul (pText : Nat → UInt16) (nLen : Nat) : Nat :=
  completHangulBits pText nLen 0 >>> 1

/-- A character of a name matches one of a query. -/
def charMatches (query name : UInt16) : Prop :=
  -- A consonant stands for every syllable it leads.
  if isChosung query then tranChosung name = query else name = query

instance (query name : UInt16) : Decidable (charMatches query name) :=
  inferInstanceAs (Decidable (if isChosung query then tranChosung name = query else name = query))

/-- A name matches a query position by position. -/
def Matches (pText : Nat → UInt16) (nLen : Nat) (name : List UInt16) : Prop :=
  ∀ i, i < nLen → ∃ ch, name[i]? = some ch ∧ charMatches (pText i) ch

theorem isChosung_iff {ch : UInt16} :
    isChosung ch = true ↔ 0x3131 ≤ ch.toNat ∧ ch.toNat ≤ 0x314E := by
  simp [isChosung]

theorem isHangul_iff {ch : UInt16} :
    isHangul ch = true ↔ 0xAC00 ≤ ch.toNat ∧ ch.toNat ≤ 0xD7AF := by
  simp [isHangul]

theorem iswalpha_iff {ch : UInt16} :
    iswalpha ch = true ↔ 65 ≤ ch.toNat ∧ ch.toNat ≤ 90 ∨ 97 ≤ ch.toNat ∧ ch.toNat ≤ 122 := by
  simp [iswalpha]

/-- A consonant is no syllable. -/
theorem isHangul_of_isChosung {ch : UInt16} (consonant : isChosung ch = true) :
    isHangul ch = false := by
  rw [isChosung_iff] at consonant
  rw [← Bool.not_eq_true, isHangul_iff]
  omega

/-- A character that is no syllable is its own consonant. -/
theorem tranChosung_of_not_hangul {ch : UInt16} (other : isHangul ch = false) :
    tranChosung ch = ch := by
  simp [tranChosung, other]

/-- Each leading consonant stands at its own place in the table, and nowhere before it. -/
theorem findIdx_chHangulCho : ∀ place, place < 19 →
    isChosung (chHangulCho.getD place 0) = true ∧
      (chHangulCho.take 19).findIdx (· == chHangulCho.getD place 0) = place := by
  decide

/-- The place in the table is at most one behind the leading consonants. -/
theorem hangul_place_le {ch : UInt16} (syllable : isHangul ch = true) :
    (ch.toNat - 0xAC00) / 588 ≤ 19 := by
  rw [isHangul_iff] at syllable
  omega

/-- A character led by a consonant has the number of that consonant. -/
theorem choIdx_of_tranChosung {query name : UInt16} (consonant : isChosung query = true)
    (leads : tranChosung name = query) : choIdx name = choIdx query := by
  by_cases syllable : isHangul name = true
  · -- The consonant is found again at the place the syllable gives.
    have bound := hangul_place_le syllable
    simp only [tranChosung, if_pos syllable] at leads
    rcases Nat.lt_or_eq_of_le bound with place | last
    · have entry := (findIdx_chHangulCho _ place).2
      rw [leads] at entry
      have other := isHangul_of_isChosung consonant
      simp only [choIdx, if_pos syllable, other, Bool.false_eq_true, if_false, if_pos consonant,
        entry]
      omega
    · -- Behind the syllables proper the table goes on with a digit, which is no consonant.
      rw [last] at leads
      rw [← leads] at consonant
      exact absurd consonant (by decide)
  · rw [tranChosung_of_not_hangul (by simpa using syllable)] at leads
    rw [leads]

/-- Matching characters have equal numbers. -/
theorem choIdx_of_matches {query name : UInt16} (same : charMatches query name) :
    choIdx name = choIdx query := by
  unfold charMatches at same
  split at same
  · exact choIdx_of_tranChosung ‹_› same
  · rw [same]

/-- The numbers of the leading consonants tell which consonant leads a character. -/
theorem tranChosung_of_choIdx {name : UInt16} {place : Nat} (leading : place < 19)
    (number : choIdx name = place + 1) : tranChosung name = chHangulCho.getD place 0 := by
  unfold choIdx at number
  split at number
  · rename_i syllable
    have same : (name.toNat - 0xAC00) / 588 = place := by omega
    simp only [tranChosung, if_pos syllable, same]
  · rename_i noSyllable
    rw [tranChosung_of_not_hangul (by simpa using noSyllable)]
    split at number
    · -- The search in the table stopped at the character itself.
      have index : (chHangulCho.take 19).findIdx (· == name) = place := by omega
      have found : (chHangulCho.take 19).findIdx (· == name) <
          (chHangulCho.take 19).length := by
        rw [index]
        simpa [chHangulCho] using leading
      have held := List.findIdx_getElem (w := found)
      have listed : place < chHangulCho.length := by
        have : chHangulCho.length = 55 := rfl
        omega
      simp only [beq_iff_eq, List.getElem_take, index] at held
      rw [List.getD_eq_getElem?_getD, List.getElem?_eq_getElem listed, Option.getD_some, held]
    · split at number
      · rename_i letter
        rw [iswalpha_iff] at letter
        omega
      · omega

/-- The number of a consonant is its place in the table, or one behind the leading ones. -/
theorem choIdx_of_isChosung {ch : UInt16} (consonant : isChosung ch = true) :
    1 ≤ choIdx ch ∧ choIdx ch ≤ 19 + 1 := by
  -- A consonant that is not found has the number behind the whole table.
  have other := isHangul_of_isChosung consonant
  have bound : (chHangulCho.take 19).findIdx (· == ch) ≤ 19 := by
    have most : (chHangulCho.take 19).findIdx (· == ch) ≤ (chHangulCho.take 19).length :=
      List.findIdx_le_length
    simpa [chHangulCho] using most
  simp only [choIdx, other, Bool.false_eq_true, if_false, if_pos consonant]
  omega

/-- No number reaches beyond seven bits. -/
theorem choIdx_lt (ch : UInt16) : choIdx ch < 128 := by
  -- There are nineteen leading consonants, and each block of syllables has one of them.
  unfold choIdx
  split
  · rename_i syllable
    have := hangul_place_le syllable
    omega
  · split
    · have : (chHangulCho.take 19).findIdx (· == ch) ≤ (chHangulCho.take 19).length :=
        List.findIdx_le_length
      have : (chHangulCho.take 19).length = 19 := rfl
      omega
    · split
      · rename_i letter
        rw [iswalpha_iff] at letter
        omega
      · omega

/-- The code of a text of one character. -/
theorem tranChosungText_one (pText : Nat → UInt16) :
    tranChosungText pText 1 = 1 + 256 * choIdx (pText 0) := by
  have small := choIdx_lt (pText 0)
  simp only [tranChosungText, show ¬ 1 > 2 by decide, if_false, List.range_one,
    List.foldl_cons, List.foldl_nil]
  -- The length field and the number occupy different bits.
  rw [u32_of_lt (by rw [Nat.shiftLeft_eq]; omega), Nat.or_comm,
    ← Nat.shiftLeft_add_eq_or_of_lt (by decide), Nat.shiftLeft_eq]
  omega

/-- The code of a longer text packs the numbers of its first two characters six bits apart. -/
theorem tranChosungText_two (pText : Nat → UInt16) {nLen : Nat} (long : 2 ≤ nLen) :
    tranChosungText pText nLen =
      2 + 256 * (choIdx (pText 0) ||| choIdx (pText 1) <<< 6) := by
  have first := choIdx_lt (pText 0)
  have second := choIdx_lt (pText 1)
  have clipped : (if nLen > 2 then 2 else nLen) = 2 := by
    split <;> omega
  simp only [tranChosungText, clipped, show List.range 2 = [0, 1] by rfl, List.foldl_cons,
    List.foldl_nil]
  rw [u32_of_lt (by rw [Nat.shiftLeft_eq]; omega), u32_of_lt (by rw [Nat.shiftLeft_eq]; omega)]
  -- Both numbers are shifted past the length field together.
  have packed : choIdx (pText 0) <<< (8 + 6 * 0) ||| choIdx (pText 1) <<< (8 + 6 * 1) =
      (choIdx (pText 0) ||| choIdx (pText 1) <<< 6) <<< 8 := by
    rw [Nat.shiftLeft_or_distrib, ← Nat.shiftLeft_add]
  rw [Nat.or_assoc, packed, Nat.or_comm, ← Nat.shiftLeft_add_eq_or_of_lt (by decide),
    Nat.shiftLeft_eq]
  omega

/-- The low six bits of a packed pair are those of the first number. -/
theorem packed_mod (first second : Nat) : (first ||| second <<< 6) % 64 = first % 64 := by
  have aligned : second <<< 6 % 64 = 0 := by
    rw [Nat.shiftLeft_eq]
    omega
  rw [show 64 = 2 ^ 6 by rfl, Nat.or_mod_two_pow, show 2 ^ 6 = 64 by rfl, aligned, Nat.or_zero]

/-- What the first number has beyond six bits spills into the field of the second. -/
theorem packed_div (first second : Nat) :
    (first ||| second <<< 6) / 64 = first / 64 ||| second := by
  have aligned : second <<< 6 / 64 = second := by
    rw [Nat.shiftLeft_eq]
    omega
  rw [show 64 = 2 ^ 6 by rfl, Nat.or_div_two_pow, show 2 ^ 6 = 64 by rfl, aligned]

/-- The length field of a code. -/
theorem tranChosungText_mod (pText : Nat → UInt16) (nLen : Nat) :
    tranChosungText pText nLen % 256 = min nLen 2 := by
  -- The length is the lowest byte of all three forms of the code.
  rcases Nat.lt_or_ge nLen 2 with short | long
  · rcases Nat.lt_or_ge nLen 1 with none | one
    · have empty : nLen = 0 := by omega
      subst empty
      rfl
    · have single : nLen = 1 := by omega
      subst single
      rw [tranChosungText_one]
      omega
  · rw [tranChosungText_two pText long]
    omega

/-- A code fits its word. -/
theorem tranChosungText_lt (pText : Nat → UInt16) (nLen : Nat) :
    tranChosungText pText nLen < 2 ^ 32 := by
  have first := choIdx_lt (pText 0)
  have second := choIdx_lt (pText 1)
  rcases Nat.lt_or_ge nLen 2 with short | long
  · rcases Nat.lt_or_ge nLen 1 with none | one
    · have empty : nLen = 0 := by omega
      subst empty
      exact (by decide : 0 < 2 ^ 32)
    · have single : nLen = 1 := by omega
      subst single
      rw [tranChosungText_one]
      omega
  · -- Two numbers of seven bits, six bits apart, have thirteen bits.
    have packed : (choIdx (pText 0) ||| choIdx (pText 1) <<< 6) < 2 ^ 13 := by
      apply Nat.or_lt_two_pow
      · omega
      · rw [Nat.shiftLeft_eq]
        omega
    rw [tranChosungText_two pText long]
    omega

/-- The code depends on the numbers of the first two characters only. -/
theorem tranChosungText_congr {left right : Nat → UInt16} {nLen other : Nat}
    (clipped : min nLen 2 = min other 2)
    (same : ∀ i, i < nLen → i < 2 → choIdx (left i) = choIdx (right i)) :
    tranChosungText left nLen = tranChosungText right other := by
  have lengths : (if nLen > 2 then 2 else nLen) = if other > 2 then 2 else other := by
    split <;> split <;> omega
  unfold tranChosungText
  rw [← lengths]
  -- The fold visits the same positions and adds the same number at each.
  refine List.foldl_ext _ _ _ ?_
  intro nRet i visited
  rw [List.mem_range] at visited
  rw [same i (by split at visited <;> omega) (by split at visited <;> omega)]

/-- The mask under construction: its bits are those of the characters already passed. -/
theorem completHangulBits_testBit (pText : Nat → UInt16) :
    ∀ count nRet position, nRet % 2 = 0 → 1 ≤ position → position ≤ 31 →
      (completHangulBits pText count nRet).testBit position =
        if position ≤ count then !isChosung (pText (position - 1))
        else nRet.testBit (position - count) := by
  intro count
  induction count with
  | zero =>
    intro nRet position _ positive _
    rw [completHangulBits, if_neg (by omega), Nat.sub_zero]
  | succ count ih =>
    intro nRet position even positive bound
    have shifted : u32 ((nRet ||| completBit (pText count)) <<< 1) % 2 = 0 := by
      unfold u32
      rw [Nat.shiftLeft_eq]
      omega
    rw [completHangulBits, ih _ _ shifted positive bound]
    rcases Nat.lt_or_ge count position with beyond | within
    · rw [if_neg (by omega)]
      -- The bit just entered is the lowest one before the shift.
      have inWord : position - count < 32 := by omega
      rw [u32, Nat.testBit_mod_two_pow, Nat.testBit_shiftLeft, decide_eq_true inWord,
        Bool.true_and, decide_eq_true (by omega : position - count ≥ 1), Bool.true_and,
        Nat.testBit_or]
      rcases Nat.lt_or_ge (count + 1) position with later | here
      · rw [if_neg (by omega)]
        have high : (completBit (pText count)).testBit (position - count - 1) = false := by
          obtain ⟨rest, index⟩ : ∃ rest, position - count - 1 = rest + 1 :=
            ⟨position - count - 2, by omega⟩
          rw [index, completBit]
          split <;> simp [Nat.testBit_add_one]
        rw [high, Bool.or_false, Nat.sub_sub]
      · rw [if_pos (by omega)]
        have index : position - count - 1 = 0 := by omega
        have same : position - 1 = count := by omega
        rw [index, same, Nat.testBit_zero, Nat.testBit_zero, even, completBit]
        cases isChosung (pText count) <;> simp
    · rw [if_pos (by omega), if_pos (by omega)]

/-- A bit of the mask tells whether the character at its place is complete. -/
theorem checkCompletHangul_testBit (pText : Nat → UInt16) (nLen : Nat) {position : Nat}
    (bound : position ≤ 30) :
    (checkCompletHangul pText nLen).testBit position =
      (decide (position < nLen) && !isChosung (pText position)) := by
  rw [checkCompletHangul, Nat.testBit_shiftRight,
    completHangulBits_testBit pText nLen 0 _ (by decide) (by omega) (by omega)]
  rcases Nat.lt_or_ge position nLen with within | beyond
  · rw [if_pos (by omega), decide_eq_true within, Bool.true_and, Nat.add_sub_cancel_left]
  · rw [if_neg (by omega), Nat.zero_testBit, decide_eq_false (by omega), Bool.false_and]

end AndroidApps.Gildroia
