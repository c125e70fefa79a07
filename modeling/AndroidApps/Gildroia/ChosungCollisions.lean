import AndroidApps.Gildroia.NameMatchLaws

/-! Which queries an index code identifies, and the names that collide with the other ones. -/

namespace AndroidApps.Gildroia

variable {pText : Nat → UInt16} {nLen : Nat}

/-- The characters a query is made of: syllables, consonants, ASCII letters and digits. -/
def QueryChar (ch : UInt16) : Prop :=
  0xAC00 ≤ ch.toNat ∧ ch.toNat ≤ 0xD7A3 ∨ isChosung ch = true ∨ iswalpha ch = true ∨
    48 ≤ ch.toNat ∧ ch.toNat ≤ 57

/-- No character of a query is a terminator. -/
theorem QueryChar.ne_zero {ch : UInt16} (query : QueryChar ch) : ch ≠ 0 := by
  -- Zero is none of the four kinds of characters.
  intro terminator
  subst terminator
  rcases query with ⟨low, _⟩ | consonant | letter | ⟨low, _⟩
  · exact absurd low (by decide)
  · exact absurd consonant (by decide)
  · exact absurd letter (by decide)
  · exact absurd low (by decide)

/--
The index code of a query identifies what its consonants stand for.

Names have at most 31 characters, so a longer query has no bucket entry to confuse.
Otherwise a consonant in the first two places has to lead syllables.
The first number must not spill out of its six bits over a consonant in the second place,
and behind a consonant from the fifth one on the second number must be even.
-/
def CodeTells (pText : Nat → UInt16) (nLen : Nat) : Prop :=
  31 < nLen ∨
    (∀ place, place < 2 → place < nLen → isChosung (pText place) = true →
      choIdx (pText place) ≤ 19) ∧
    (1 < nLen → isChosung (pText 1) = true → choIdx (pText 0) < 64) ∧
    (1 < nLen → isChosung (pText 0) = true →
      choIdx (pText 0) < 5 ∨ choIdx (pText 1) % 2 = 0)

/-- Only small letters have numbers of seven bits, and the first of them is 69. -/
theorem choIdx_high {ch : UInt16} (high : 64 ≤ choIdx ch) : 69 ≤ choIdx ch := by
  -- The numbers of syllables, consonants, digits and capital letters are too small.
  unfold choIdx at high ⊢
  by_cases syllable : isHangul ch = true
  · have := hangul_place_le syllable
    rw [if_pos syllable] at high
    omega
  · rw [if_neg syllable] at high ⊢
    by_cases consonant : isChosung ch = true
    · have bound : (chHangulCho.take 19).findIdx (· == ch) ≤ (chHangulCho.take 19).length :=
        List.findIdx_le_length
      have : (chHangulCho.take 19).length = 19 := rfl
      rw [if_pos consonant] at high
      omega
    · rw [if_neg consonant] at high ⊢
      by_cases letter : iswalpha ch = true
      · rw [if_pos letter] at high ⊢
        rw [iswalpha_iff] at letter
        omega
      · rw [if_neg letter] at high
        omega

/-- A consonant that leads syllables is the entry of the table its number points to. -/
theorem tranChosung_of_same_choIdx {query name : UInt16} (consonant : isChosung query = true)
    (leading : choIdx query ≤ 19) (same : choIdx name = choIdx query) :
    tranChosung name = query := by
  -- The number is the place in the table, and the table has the consonant there.
  have positive := (choIdx_of_isChosung consonant).1
  have place : choIdx query = choIdx query - 1 + 1 := by omega
  have own : tranChosung query = chHangulCho.getD (choIdx query - 1) 0 :=
    tranChosung_of_choIdx (by omega) place
  rw [tranChosung_of_not_hangul (isHangul_of_isChosung consonant)] at own
  rw [tranChosung_of_choIdx (by omega) (same.trans place), ← own]

/-- Codes of two characters are equal when both parts of the packed numbers are. -/
theorem packed_eq_iff {left right : Nat → UInt16} {nLen other : Nat} (long : 2 ≤ nLen)
    (longer : 2 ≤ other) :
    tranChosungText left nLen = tranChosungText right other ↔
      choIdx (left 0) % 64 = choIdx (right 0) % 64 ∧
        (choIdx (left 0) / 64 ||| choIdx (left 1)) =
          (choIdx (right 0) / 64 ||| choIdx (right 1)) := by
  -- The second number is moved up by six bits, and so the lowest six are those of the first.
  rw [tranChosungText_two left long, tranChosungText_two right longer]
  constructor
  · intro same
    have packed : (choIdx (left 0) ||| choIdx (left 1) <<< 6) =
        (choIdx (right 0) ||| choIdx (right 1) <<< 6) := by omega
    rw [← packed_mod, ← packed_div, packed, packed_mod, packed_div]
    exact ⟨rfl, rfl⟩
  · rintro ⟨low, high⟩
    rw [← packed_mod (choIdx (left 0)) (choIdx (left 1)),
      ← packed_mod (choIdx (right 0)) (choIdx (right 1))] at low
    rw [← packed_div, ← packed_div] at high
    omega

/-- A number below 128 has at most one bit beyond six. -/
theorem spill_cases (ch : UInt16) : choIdx ch / 64 = 0 ∨ choIdx ch / 64 = 1 := by
  have := choIdx_lt ch
  omega

/-- Setting the lowest bit. -/
theorem one_or (number : Nat) : (1 ||| number) = number / 2 * 2 + 1 := by
  -- The lowest bit is set, and the others stay.
  have low : (1 ||| number) % 2 = 1 := by
    rw [show 2 = 2 ^ 1 by rfl, Nat.or_mod_two_pow]
    rcases Nat.mod_two_eq_zero_or_one number with even | odd
    · rw [show number % 2 ^ 1 = 0 from even]
      rfl
    · rw [show number % 2 ^ 1 = 1 from odd]
      rfl
  have high : (1 ||| number) / 2 = number / 2 := by
    rw [show 2 = 2 ^ 1 by rfl, Nat.or_div_two_pow]
    exact Nat.zero_or _
  omega

/--
A name with the code of an identified query, and agreeing with it where a matcher compares,
is led by the query's consonants.
-/
theorem CodeTells.consonant {name : Nat → UInt16} (short : ¬ 31 < nLen)
    (tells : CodeTells pText nLen)
    (code : tranChosungText name (min nLen 2) = tranChosungText pText nLen)
    (agree : agreesUpTo pText name nLen nLen) {place : Nat} (low : place < 2)
    (inside : place < nLen) (consonant : isChosung (pText place) = true) :
    tranChosung (name place) = pText place := by
  obtain ⟨leads, noSpill, even⟩ := tells.resolve_left short
  apply tranChosung_of_same_choIdx consonant (leads place low inside consonant)
  rcases Nat.lt_or_ge nLen 2 with single | long
  · -- A code of one character is its number.
    have one : nLen = 1 := by omega
    have first : place = 0 := by omega
    subst one first
    rw [tranChosungText_one, show min 1 2 = 1 by rfl, tranChosungText_one] at code
    omega
  · obtain ⟨sameLow, sameHigh⟩ := (packed_eq_iff (by omega) long).mp code
    -- The first number does not spill, whether it is compared or a consonant.
    have first : choIdx (name 0) = choIdx (pText 0) := by
      by_cases lead : isChosung (pText 0) = true
      · have small := (choIdx_of_isChosung lead).2
        rcases spill_cases (name 0) with none | spills
        · omega
        · -- A spilled letter would make the second number odd and the first at least five.
          have high := choIdx_high (show 64 ≤ choIdx (name 0) by omega)
          rw [spills, one_or, show choIdx (pText 0) / 64 = 0 by omega, Nat.zero_or] at sameHigh
          rcases even (by omega) lead with early | divisible
          · omega
          · omega
      · have complete : isChosung (pText 0) = false := by simpa using lead
        rw [(charMatches_complete complete).mp
          (agree 0 (by omega) (Or.inr ⟨by omega, complete⟩))]
    rcases Nat.lt_or_ge place 1 with zero | one
    · have head : place = 0 := by omega
      subst head
      exact first
    · have second : place = 1 := by omega
      subst second
      have small := noSpill (by omega) consonant
      rw [first, show choIdx (pText 0) / 64 = 0 by omega, Nat.zero_or, Nat.zero_or] at sameHigh
      exact sameHigh

/-- A query with one character replaced by another. -/
def replaced (pText : Nat → UInt16) (place : Nat) (ch : UInt16) : Nat → UInt16 :=
  fun i => if i = place then ch else pText i

@[simp] theorem replaced_here (place : Nat) (ch : UInt16) : replaced pText place ch place = ch :=
  if_pos rfl

theorem replaced_other {place i : Nat} (other : i ≠ place) (ch : UInt16) :
    replaced pText place ch i = pText i := if_neg other

/-- Another name has the code of the query, and differs from it only where nothing compares. -/
def Collides (pText : Nat → UInt16) (nLen : Nat) : Prop :=
  ∃ place ch, place < 2 ∧ place < nLen ∧ isChosung (pText place) = true ∧ ch ≠ 0 ∧
    tranChosung ch ≠ pText place ∧
    tranChosungText (replaced pText place ch) nLen = tranChosungText pText nLen

/-- A character whose number differs from a given one in the lowest bit only. -/
def neighbour (number : Nat) : UInt16 :=
  if number = 1 then 48 else chHangulCho.getD ((number ^^^ 1) - 1) 0

theorem neighbour_spec : ∀ number, number < 20 → 1 ≤ number →
    neighbour number ≠ 0 ∧ choIdx (neighbour number) / 2 = number / 2 ∧
      choIdx (neighbour number) ≠ number ∧ isHangul (neighbour number) = false := by
  decide

/-- The small letters from the first one on have numbers 64 above those of consonants. -/
theorem letter_spec : ∀ number, number < 20 → 5 ≤ number →
    UInt16.ofNat (number + 92) ≠ 0 ∧ choIdx (UInt16.ofNat (number + 92)) = number + 64 ∧
      isHangul (UInt16.ofNat (number + 92)) = false := by
  decide

/-- A character that is no syllable stands for itself and not for one with another number. -/
theorem tranChosung_ne {query ch : UInt16} (other : isHangul ch = false)
    (differs : choIdx ch ≠ choIdx query) : tranChosung ch ≠ query := by
  rw [tranChosung_of_not_hangul other]
  intro same
  exact differs (by rw [same])

/-- A consonant that leads no syllable shares its number with another one. -/
theorem collides_compound {place : Nat} (low : place < 2) (inside : place < nLen)
    (consonant : isChosung (pText place) = true) (compound : ¬ choIdx (pText place) ≤ 19) :
    Collides pText nLen := by
  have number : choIdx (pText place) = 20 := by
    have := (choIdx_of_isChosung consonant).2
    omega
  -- There are several such consonants, so one of two differs from the query's.
  obtain ⟨ch, nonzero, same, own, differs⟩ : ∃ ch : UInt16, ch ≠ 0 ∧ choIdx ch = 20 ∧
      isHangul ch = false ∧ ch ≠ pText place := by
    by_cases here : pText place = 0x3133
    · refine ⟨0x3135, by decide, by decide, by decide, ?_⟩
      rw [here]
      decide
    · exact ⟨0x3133, by decide, by decide, by decide, fun same => here same.symm⟩
  refine ⟨place, ch, low, inside, consonant, nonzero, ?_, ?_⟩
  · rw [tranChosung_of_not_hangul own]
    exact differs
  · apply tranChosungText_congr rfl
    intro i _ _
    by_cases here : i = place
    · subst here
      rw [replaced_here, same, number]
    · rw [replaced_other here]

/-- Every query of at most 31 characters that its code does not identify collides with a name. -/
theorem collides_of_not_tells (short : nLen ≤ 31) (fails : ¬ CodeTells pText nLen) :
    Collides pText nLen := by
  unfold CodeTells at fails
  rw [not_or] at fails
  by_cases leads : ∀ place, place < 2 → place < nLen → isChosung (pText place) = true →
      choIdx (pText place) ≤ 19
  · by_cases noSpill : 1 < nLen → isChosung (pText 1) = true → choIdx (pText 0) < 64
    · -- A consonant from the fifth on, before an odd number: a small letter has the same code.
      have odd : ¬ (1 < nLen → isChosung (pText 0) = true →
          choIdx (pText 0) < 5 ∨ choIdx (pText 1) % 2 = 0) :=
        fun even => fails.2 ⟨leads, noSpill, even⟩
      rw [Classical.not_imp, Classical.not_imp, not_or] at odd
      obtain ⟨long, lead, late, uneven⟩ := odd
      have small := leads 0 (by omega) (by omega) lead
      obtain ⟨nonzero, number, own⟩ := letter_spec (choIdx (pText 0)) (by omega) (by omega)
      refine ⟨0, _, by omega, by omega, lead, nonzero, tranChosung_ne own (by omega), ?_⟩
      rw [packed_eq_iff (by omega) (by omega), replaced_here,
        replaced_other (by decide : 1 ≠ 0), number]
      refine ⟨by omega, ?_⟩
      rw [show (choIdx (pText 0) + 64) / 64 = 1 by omega, one_or,
        show choIdx (pText 0) / 64 = 0 by omega, Nat.zero_or]
      omega
    · -- The spilled bit of the first letter covers the lowest bit of the second number.
      rw [Classical.not_imp, Classical.not_imp] at noSpill
      obtain ⟨long, consonant, spills⟩ := noSpill
      have small := leads 1 (by omega) long consonant
      have positive := (choIdx_of_isChosung consonant).1
      obtain ⟨nonzero, half, differs, own⟩ := neighbour_spec (choIdx (pText 1)) (by omega) positive
      refine ⟨1, _, by omega, long, consonant, nonzero, tranChosung_ne own differs, ?_⟩
      rw [packed_eq_iff (by omega) (by omega), replaced_here, replaced_other (by decide : 0 ≠ 1)]
      refine ⟨rfl, ?_⟩
      have spilled : choIdx (pText 0) / 64 = 1 := by
        rcases spill_cases (pText 0) with none | one
        · omega
        · exact one
      rw [spilled, one_or, one_or, half]
  · rw [Classical.not_forall] at leads
    obtain ⟨place, leads⟩ := leads
    rw [Classical.not_imp, Classical.not_imp, Classical.not_imp] at leads
    obtain ⟨low, inside, consonant, compound⟩ := leads
    exact collides_compound low inside consonant compound

end AndroidApps.Gildroia
