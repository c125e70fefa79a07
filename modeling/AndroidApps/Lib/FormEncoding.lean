import AndroidApps.Lib.JavaTextLaws
import AndroidApps.Lib.Utf8

/-! The form encoding of a text in a character set, and its way back through percent decoding. -/

namespace AndroidApps

section Characters

namespace JString

/-- The character that a unit stands for alone; half of a pair is replaced. -/
def single (unit : UInt16) : Char :=
  if 0xD800 ≤ unit ∧ unit ≤ 0xDFFF then '?' else Char.ofNat unit.toNat

/-- The characters of a text, as they are handed to a character set. -/
def chars : JString → List Char
  | [] => []
  | [unit] => [single unit]
  | high :: low :: rest =>
    if (0xD800 ≤ high ∧ high ≤ 0xDBFF) ∧ 0xDC00 ≤ low ∧ low ≤ 0xDFFF then
      Char.ofNat (0x10000 + (high.toNat - 0xD800) * 0x400 + (low.toNat - 0xDC00)) :: chars rest
    else single high :: chars (low :: rest)

/-- A text without halves of pairs. -/
def Whole (text : JString) : Prop := ofChars (chars text) = text

instance (text : JString) : Decidable (Whole text) := inferInstanceAs (Decidable (_ = _))

/-- A unit that does not begin a pair stands alone. -/
theorem chars_single {unit : UInt16} (alone : ¬ (0xD800 ≤ unit ∧ unit ≤ 0xDBFF))
    (rest : JString) : chars (unit :: rest) = single unit :: chars rest := by
  cases rest with
  | nil => rfl
  | cons low rest => rw [chars, if_neg fun pair => alone pair.1]

/-- A character of the basic plane is its only unit. -/
theorem single_ofNat {ch : Char} (narrow : ch.toNat < 0x10000) :
    single (UInt16.ofNat ch.toNat) = ch := by
  -- No character has the value of half a pair.
  have value : (UInt16.ofNat ch.toNat).toNat = ch.toNat := UInt16.toNat_ofNat_of_lt' narrow
  have valid : ch.toNat < 0xD800 ∨ 0xDFFF < ch.toNat ∧ ch.toNat < 0x110000 := ch.valid
  have alone : ¬ (0xD800 ≤ UInt16.ofNat ch.toNat ∧ UInt16.ofNat ch.toNat ≤ 0xDFFF) := by
    rw [UInt16.le_iff_toNat_le, UInt16.le_iff_toNat_le, value]
    simp only [UInt16.reduceToNat]
    omega
  rw [single, if_neg alone, value, Char.ofNat_toNat]

/-- The units of a character are read on their own, whatever comes behind them. -/
theorem chars_utf16 (ch : Char) (rest : JString) :
    chars (utf16 ch.toNat ++ rest) = ch :: chars rest := by
  have valid : ch.toNat < 0xD800 ∨ 0xDFFF < ch.toNat ∧ ch.toNat < 0x110000 := ch.valid
  unfold utf16
  split
  · rename_i narrow
    have value : (UInt16.ofNat ch.toNat).toNat = ch.toNat := UInt16.toNat_ofNat_of_lt' narrow
    have alone : ¬ (0xD800 ≤ UInt16.ofNat ch.toNat ∧ UInt16.ofNat ch.toNat ≤ 0xDBFF) := by
      rw [UInt16.le_iff_toNat_le, UInt16.le_iff_toNat_le, value]
      simp only [UInt16.reduceToNat]
      omega
    rw [List.singleton_append, chars_single alone, single_ofNat narrow]
  · -- The two halves of a pair give the value back.
    rename_i wide
    have high : (UInt16.ofNat (0xD800 + (ch.toNat - 0x10000) / 0x400 % 0x400)).toNat =
        0xD800 + (ch.toNat - 0x10000) / 0x400 % 0x400 :=
      UInt16.toNat_ofNat_of_lt' (by simp only [UInt16.size]; omega)
    have low : (UInt16.ofNat (0xDC00 + (ch.toNat - 0x10000) % 0x400)).toNat =
        0xDC00 + (ch.toNat - 0x10000) % 0x400 :=
      UInt16.toNat_ofNat_of_lt' (by simp only [UInt16.size]; omega)
    have back : 0x10000 + (0xD800 + (ch.toNat - 0x10000) / 0x400 % 0x400 - 0xD800) * 0x400 +
        (0xDC00 + (ch.toNat - 0x10000) % 0x400 - 0xDC00) = ch.toNat := by omega
    rw [List.cons_append, List.cons_append, List.nil_append, chars, if_pos, high, low, back,
      Char.ofNat_toNat]
    simp only [UInt16.le_iff_toNat_le, high, low, UInt16.reduceToNat]
    omega

/-- The characters of a text are found in its units. -/
theorem chars_ofChars (text : List Char) : chars (ofChars text) = text := by
  induction text with
  | nil => rfl
  | cons ch text ih =>
    rw [ofChars, List.flatMap_cons, chars_utf16, ← ofChars, ih]

/-- The units of some characters are a text without halves of pairs. -/
theorem whole_ofChars (text : List Char) : Whole (ofChars text) := by
  rw [Whole, chars_ofChars]

end JString

end Characters

/-- A character set that writes each character on its own and keeps the bytes of ASCII. -/
structure Charset where
  bytesOf : Char → List UInt8
  decode : List UInt8 → JString
  ascii : ∀ ch : Char, ch.toNat < 0x80 → bytesOf ch = [UInt8.ofNat ch.toNat]
  lossless : ∀ text : List Char, decode (text.flatMap bytesOf) = JString.ofChars text

namespace Charset

/-- `UTF-8`. -/
def utf8 : Charset where
  bytesOf := String.utf8EncodeChar
  decode := JString.ofBytes
  ascii ch narrow := by
    have small : ch.val.toNat ≤ 0x7F := Nat.le_of_lt_succ narrow
    rw [String.utf8EncodeChar, if_pos small]
    rfl
  lossless text := by
    have read := JString.ofBytes_utf8 text []
    rw [List.append_nil] at read
    exact read.trans (List.append_nil _)

end Charset

section Encoding

/-- A hexadecimal digit, whose letters are large. -/
def percentDigit (value : Nat) : UInt16 :=
  UInt16.ofNat (if value < 10 then 0x30 + value else 0x37 + value)

/-- A byte behind a percent sign. -/
def percentUnits (byte : UInt8) : JString :=
  [0x25, percentDigit (byte.toNat / 16), percentDigit (byte.toNat % 16)]

/-- The characters that a form keeps as they are. -/
def keeps (ch : Char) : Bool := ch.isAlphanum || ['.', '-', '*', '_'].contains ch

/-- The form encoding of a character. -/
def formUnits (charset : Charset) (ch : Char) : JString :=
  if ch = ' ' then [0x2B]
  else if keeps ch then [UInt16.ofNat ch.toNat]
  else (charset.bytesOf ch).flatMap percentUnits

/-- `URLEncoder.encode`. -/
def urlEncode (charset : Charset) (text : JString) : JString :=
  (JString.chars text).flatMap (formUnits charset)

/-- The bytes of a percent-encoded text. -/
def percentDecode : JString → List UInt8
  | [] => []
  | [unit] => [unit.toUInt8]
  | [unit, other] => [unit.toUInt8, other.toUInt8]
  | unit :: high :: low :: rest =>
    match unit == 0x25, JString.asciiHexDigit high, JString.asciiHexDigit low with
    | true, some upper, some lower => UInt8.ofNat (upper * 16 + lower) :: percentDecode rest
    | _, _, _ => unit.toUInt8 :: percentDecode (high :: low :: rest)

/-- A character as a form writes it, with a percent sign for a space too. -/
def escapeUnits (charset : Charset) (ch : Char) : JString :=
  if ch = ' ' then percentUnits 0x20 else formUnits charset ch

/-- Some characters as they stand in a path. -/
def escape (charset : Charset) (text : List Char) : JString := text.flatMap (escapeUnits charset)

/-- The units that are not left in a path: the space, the plus and the slash. -/
def reserved : List UInt16 := [0x20, 0x2B, 0x2F]

end Encoding

section Decoding

/-- The value of a hexadecimal digit. -/
theorem percentDigit_value : ∀ value < 16,
    JString.asciiHexDigit (percentDigit value) = some value := by decide

/-- A byte behind a percent sign is read back. -/
theorem percentDecode_units (byte : UInt8) (rest : JString) :
    percentDecode (percentUnits byte ++ rest) = byte :: percentDecode rest := by
  have bound := byte.toNat_lt
  have upper := percentDigit_value (byte.toNat / 16) (by omega)
  have lower := percentDigit_value (byte.toNat % 16) (by omega)
  have whole : byte.toNat / 16 * 16 + byte.toNat % 16 = byte.toNat := by omega
  simp [percentUnits, percentDecode, upper, lower, whole]

/-- A unit that is no percent sign is its own byte. -/
theorem percentDecode_cons {unit : UInt16} (plain : unit ≠ 0x25) (rest : JString) :
    percentDecode (unit :: rest) = unit.toUInt8 :: percentDecode rest := by
  match rest with
  | [] => rfl
  | [_] => rfl
  | high :: low :: rest => simp [percentDecode, plain]

/-- Bytes behind percent signs are read back. -/
theorem percentDecode_bytes (bytes : List UInt8) (rest : JString) :
    percentDecode (bytes.flatMap percentUnits ++ rest) = bytes ++ percentDecode rest := by
  induction bytes with
  | nil => rfl
  | cons byte bytes ih =>
    rw [List.flatMap_cons, List.append_assoc, percentDecode_units, ih, List.cons_append]

/-- A character that is kept is a letter, a digit or one of four signs. -/
theorem keeps_cases {ch : Char} (kept : keeps ch = true) :
    ch.toNat < 0x80 ∧ ch.toNat ∉ [0x20, 0x25, 0x2B, 0x2F] := by
  -- Letters and digits are ranges of values, and the four signs are looked at one by one.
  delta keeps Char.isAlphanum Char.isAlpha Char.isUpper Char.isLower Char.isDigit at kept
  simp only [Bool.or_eq_true, Bool.and_eq_true, decide_eq_true_eq, ge_iff_le,
    UInt32.le_iff_toNat_le, List.contains_eq_mem, List.mem_cons, List.not_mem_nil, or_false] at kept
  obtain inside | rfl | rfl | rfl | rfl := kept
  · have value : ch.val.toNat = ch.toNat := rfl
    simp only [value, Char.reduceVal, UInt32.reduceToNat, List.mem_cons, List.not_mem_nil,
      or_false] at inside ⊢
    omega
  all_goals decide

variable (charset : Charset)

/-- The bytes of a character are read back from its escape. -/
theorem percentDecode_escapeUnits (ch : Char) (rest : JString) :
    percentDecode (escapeUnits charset ch ++ rest) =
      charset.bytesOf ch ++ percentDecode rest := by
  unfold escapeUnits formUnits
  by_cases space : ch = ' '
  · subst space
    rw [if_pos rfl, percentDecode_units, charset.ascii ' ' (by decide)]
    rfl
  · rw [if_neg space, if_neg space]
    by_cases kept : keeps ch
    · obtain ⟨narrow, plain⟩ := keeps_cases kept
      -- The unit of a character that is kept has the value of its byte.
      have value : (UInt16.ofNat ch.toNat).toNat = ch.toNat :=
        UInt16.toNat_ofNat_of_lt' (by simp only [UInt16.size]; omega)
      have noPercent : UInt16.ofNat ch.toNat ≠ 0x25 := by
        intro same
        have equal := value.symm.trans (congrArg UInt16.toNat same)
        exact plain (by rw [equal]; decide)
      have byte : (UInt16.ofNat ch.toNat).toUInt8 = UInt8.ofNat ch.toNat := by
        rw [← UInt8.toNat_inj, UInt16.toNat_toUInt8, value, UInt8.toNat_ofNat']
      rw [if_pos kept, List.singleton_append, percentDecode_cons noPercent, byte,
        charset.ascii ch narrow, List.singleton_append]
    · rw [if_neg kept, percentDecode_bytes]

/-- A text is read back from its escape. -/
theorem decode_escape (text : List Char) :
    charset.decode (percentDecode (escape charset text)) = JString.ofChars text := by
  -- The bytes are read back one character after another.
  have bytes : percentDecode (escape charset text) = text.flatMap charset.bytesOf := by
    induction text with
    | nil => rfl
    | cons ch text ih =>
      rw [escape, List.flatMap_cons, percentDecode_escapeUnits, ← escape, ih, List.flatMap_cons]
  rw [bytes, charset.lossless]

/-- No unit of a digit is reserved. -/
theorem percentDigit_plain : ∀ value < 16, percentDigit value ∉ reserved := by decide

/-- No unit of a byte behind a percent sign is reserved. -/
theorem percentUnits_plain {byte : UInt8} {unit : UInt16} (member : unit ∈ percentUnits byte) :
    unit ∉ reserved := by
  -- The sign itself and the digits behind it are none of the three.
  have bound := byte.toNat_lt
  simp only [percentUnits, List.mem_cons, List.not_mem_nil, or_false] at member
  obtain rfl | rfl | rfl := member
  · decide
  · exact percentDigit_plain _ (by omega)
  · exact percentDigit_plain _ (by omega)

/-- No unit of a character but a space is reserved. -/
theorem formUnits_plain {ch : Char} (visible : ch ≠ ' ') {unit : UInt16}
    (member : unit ∈ formUnits charset ch) : unit ∉ reserved := by
  rw [formUnits, if_neg visible] at member
  split at member
  · rename_i kept
    -- The reserved units are those of a space, a plus and a slash.
    obtain ⟨narrow, plain⟩ := keeps_cases kept
    have value : (UInt16.ofNat ch.toNat).toNat = ch.toNat :=
      UInt16.toNat_ofNat_of_lt' (by simp only [UInt16.size]; omega)
    rw [List.mem_singleton.mp member]
    intro listed
    simp only [reserved, List.mem_cons, List.not_mem_nil, or_false] at listed plain
    obtain same | same | same := listed <;>
    · have equal := value.symm.trans (congrArg UInt16.toNat same)
      simp only [UInt16.reduceToNat] at equal
      omega
  · obtain ⟨byte, -, inside⟩ := List.mem_flatMap.mp member
    exact percentUnits_plain inside

/-- No unit of an escape is reserved. -/
theorem escape_plain (text : List Char) {unit : UInt16} (member : unit ∈ escape charset text) :
    unit ∉ reserved := by
  -- A space is written behind a percent sign too.
  obtain ⟨ch, -, inside⟩ := List.mem_flatMap.mp member
  unfold escapeUnits at inside
  split at inside
  · exact percentUnits_plain inside
  · rename_i visible
    exact formUnits_plain charset visible inside

/-- A form with its pluses replaced is an escape. -/
theorem replaced_formUnits (text : List Char) :
    JString.replaced 0x2B (percentUnits 0x20) (text.flatMap (formUnits charset)) =
      escape charset text := by
  rw [JString.replaced, List.flatMap_assoc, escape]
  congr 1
  funext ch
  rw [← JString.replaced]
  by_cases space : ch = ' '
  · subst space
    rfl
  · -- The units of any other character hold no plus.
    rw [escapeUnits, if_neg space]
    refine JString.replaced_of_not_mem fun member => ?_
    exact formUnits_plain charset space member (by decide)

/-- A character has at least one unit in a form. -/
theorem formUnits_ne_nil (ch : Char) : formUnits charset ch ≠ [] := by
  unfold formUnits
  split
  · exact List.cons_ne_nil _ _
  split
  · exact List.cons_ne_nil _ _
  · -- A character without bytes would be read as no character.
    intro empty
    have noBytes : charset.bytesOf ch = [] := by
      cases bytes : charset.bytesOf ch with
      | nil => rfl
      | cons byte others => simp [bytes, percentUnits] at empty
    have alone := charset.lossless [ch]
    have none := charset.lossless []
    rw [List.flatMap_singleton, noBytes] at alone
    have same : [ch] = [] := by
      rw [← JString.chars_ofChars [ch], ← alone, ← JString.chars_ofChars [], ← none]
      rfl
    exact List.cons_ne_nil ch [] same

/-- The pluses at the end of a form are the spaces at the end of its text. -/
theorem rdropWhile_formUnits (text : List Char) :
    (text.flatMap (formUnits charset)).rdropWhile (· == 0x2B) =
      (text.rdropWhile (· == ' ')).flatMap (formUnits charset) := by
  induction text using List.reverseRecOn with
  | nil => rfl
  | append_singleton text ch ih =>
    rw [List.flatMap_append, List.flatMap_singleton]
    by_cases space : ch = ' '
    · subst space
      rw [List.rdropWhile_concat_pos _ _ _ (by rfl), ← ih]
      exact List.rdropWhile_concat_pos _ _ _ (by rfl)
    · -- The last unit of the last character is no plus.
      have filled := formUnits_ne_nil charset ch
      have split := List.dropLast_append_getLast filled
      have plain := formUnits_plain charset space (List.getLast_mem filled)
      rw [List.rdropWhile_concat_neg _ _ _ (by simpa using space), List.flatMap_append,
        List.flatMap_singleton]
      rw [← split, ← List.append_assoc]
      refine List.rdropWhile_concat_neg _ _ _ fun plus => plain ?_
      rw [eq_of_beq plus]
      decide

end Decoding

end AndroidApps
