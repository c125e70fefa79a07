import Mathlib.Data.List.TakeWhile
import AndroidApps.Gildroia.KeySearch
import AndroidApps.Gildroia.Records

/-! The text manager: texts by packed offset, and the name tables of the regions. -/

namespace AndroidApps.Gildroia

/--
A loaded `CTextMng`: its two open files, the places of the name tables and its four buffers of 32
characters.
-/
structure TextMng where
  textFp : File
  nameFp : File
  sidoOfs : Nat
  sigunguOfs : Nat
  dongOfs : Nat
  roadOfs : Nat
  textBuff : Fin 4 → List UInt16
  sized : ∀ i, (textBuff i).length = 32

/-- There is a first buffer. -/
instance neZero_buffers : NeZero 4 := ⟨by decide⟩

/-- Buffers of zeros have their size. -/
theorem zeros_sized (_ : Fin 4) : (List.replicate 32 (0 : UInt16)).length = 32 :=
  List.length_replicate

/-- A text and its terminator replace as many characters of a buffer as they have. -/
theorem buffer_length {buff chars : List UInt16} {nLen : Nat} (sized : buff.length = 32)
    (low : nLen < 32) (filled : chars.length = (buff.take nLen).length) :
    (chars ++ 0 :: buff.drop (nLen + 1)).length = 32 := by
  rw [List.length_take] at filled
  rw [List.length_append, List.length_cons, List.length_drop]
  omega

/--
`getTextOfs`: the low five bits of a packed offset are the length of a text.

The text is left in a buffer, of which a pointer is returned.
-/
def TextMng.getTextOfs (mng : TextMng) (txtOfs : Nat) (nBufIdx : Fin 4) :
    List UInt16 × TextMng :=
  let nLen := txtOfs % 32
  let buff := mng.textBuff nBufIdx
  let result := File.freadArray decodeChar 2 (buff.take nLen) (mng.textFp.fseek (txtOfs / 32))
  let text := result.1 ++ 0 :: buff.drop (nLen + 1)
  (text, { mng with
    textFp := result.2
    textBuff := fun i => if i = nBufIdx then text else mng.textBuff i
    sized := fun i => by
      split
      · exact buffer_length (mng.sized nBufIdx) (Nat.mod_lt _ (by decide))
          (File.freadArray_length _ _)
      · exact mng.sized i })

/-- The string a pointer to a buffer stands for. -/
def cString (buffer : List UInt16) : List UInt16 := buffer.takeWhile (· != 0)

/-- The characters a packed offset stands for in a text file. -/
def textAt (data : List UInt8) (txtOfs : Nat) : List UInt16 :=
  File.elementsAt decodeChar 2 data (txtOfs / 32) (txtOfs % 32)

/-- The characters of a packed offset lie inside the text file. -/
def TextInside (data : List UInt8) (txtOfs : Nat) : Prop :=
  txtOfs / 32 + txtOfs % 32 * 2 ≤ data.length

instance (data : List UInt8) (txtOfs : Nat) : Decidable (TextInside data txtOfs) :=
  inferInstanceAs (Decidable (_ ≤ _))

@[simp] theorem textAt_length (data : List UInt8) (txtOfs : Nat) :
    (textAt data txtOfs).length = txtOfs % 32 := File.elementsAt_length ..

/-- A text inside the file stays the same when the file grows. -/
theorem textAt_append {data : List UInt8} {txtOfs : Nat} (inside : TextInside data txtOfs)
    (rest : List UInt8) : textAt (data ++ rest) txtOfs = textAt data txtOfs := by
  rw [textAt, textAt, File.elementsAt, File.elementsAt]
  refine List.map_congr_left fun i member => ?_
  have low := List.mem_range.mp member
  rw [TextInside] at inside
  rw [bytesAt_append_left (by omega)]

@[simp] theorem getTextOfs_data (mng : TextMng) (txtOfs : Nat) (nBufIdx : Fin 4) :
    (mng.getTextOfs txtOfs nBufIdx).2.textFp.data = mng.textFp.data := by
  simp [TextMng.getTextOfs]

/-- A text inside the file overwrites its buffer up to its terminator. -/
theorem getTextOfs_text {mng : TextMng} {txtOfs : Nat} (nBufIdx : Fin 4)
    (inside : TextInside mng.textFp.data txtOfs) :
    (mng.getTextOfs txtOfs nBufIdx).1 =
      textAt mng.textFp.data txtOfs ++ 0 :: (mng.textBuff nBufIdx).drop (txtOfs % 32 + 1) := by
  -- The lowest five bits of the offset are the length of the text, and the rest is its place.
  have low : txtOfs % 32 < 32 := Nat.mod_lt _ (by decide)
  have slots : ((mng.textBuff nBufIdx).take (txtOfs % 32)).length = txtOfs % 32 := by
    rw [List.length_take, mng.sized nBufIdx]
    omega
  have place : txtOfs / 32 < 2 ^ 31 := File.offset_lt inside
  simp only [TextMng.getTextOfs]
  rw [File.fseek_of_lt place, File.freadArray_inside (by simpa [slots, TextInside] using inside),
    slots]
  rfl

/-- A text in front of a terminator is the string of its buffer. -/
theorem cString_terminated {text rest : List UInt16} (plain : 0 ∉ text) :
    cString (text ++ 0 :: rest) = text := by
  rw [cString, List.takeWhile_append_of_pos]
  · simp
  · intro unit member
    simpa using fun zero : unit = 0 => plain (zero ▸ member)

/-- A string without a terminator inside is all of it. -/
theorem cString_eq_self {text : List UInt16} (plain : 0 ∉ text) : cString text = text := by
  rw [cString, List.takeWhile_eq_self_iff]
  intro unit member
  rw [bne_iff_ne]
  intro zero
  exact plain (zero ▸ member)

/-- The string of a text inside the file, whatever the buffer held before. -/
theorem cString_getTextOfs {mng : TextMng} {txtOfs : Nat} (nBufIdx : Fin 4)
    (inside : TextInside mng.textFp.data txtOfs) :
    cString (mng.getTextOfs txtOfs nBufIdx).1 = cString (textAt mng.textFp.data txtOfs) := by
  -- The terminator ends the string when no character of the text does.
  rw [getTextOfs_text nBufIdx inside, cString, cString, List.takeWhile_append]
  split
  · rename_i whole
    simp only [List.takeWhile_cons, bne_self_eq_false, Bool.false_eq_true, if_false,
      List.append_nil]
    exact (List.takeWhile_prefix _).eq_of_length whole |>.symm
  · rfl

/--
The name lookups: a table of keys and packed offsets, led by the number of its entries.

A name that is found is returned as a pointer to its buffer, with its length.
-/
def TextMng.getName (width : KeyWidth) (nBufIdx : Fin 4) (junk fuel : Nat) (mng : TextMng)
    (tableOfs key : Nat) : Option (Option (List UInt16 × Nat) × TextMng) :=
  let (nu32, fp) := (mng.nameFp.fseek tableOfs).freadWord 4 (u32 junk)
  match searchKeyValue width junk fuel fp key fp.pos (width.bytes + 4) nu32 with
  | none => none
  | some (false, fp) => some (none, { mng with nameFp := fp })
  | some (true, fp) =>
    let (nu32, fp) := fp.freadWord 4 nu32
    let (text, mng) := TextMng.getTextOfs { mng with nameFp := fp } nu32 nBufIdx
    some (some (text, nu32 % 32), mng)

/-- `getSidoName`, whose parameter has 8 bits. -/
def TextMng.getSidoName (junk fuel : Nat) (mng : TextMng) (sidoIdx : Nat) :=
  TextMng.getName .u8 0 junk fuel mng mng.sidoOfs (sidoIdx % 2 ^ 8)

/-- `getSigunguName`, whose parameter has 16 bits. -/
def TextMng.getSigunguName (junk fuel : Nat) (mng : TextMng) (sigunguCode : Nat) :=
  TextMng.getName .u16 1 junk fuel mng mng.sigunguOfs (sigunguCode % 2 ^ 16)

/-- `getDongName`. -/
def TextMng.getDongName (junk fuel : Nat) (mng : TextMng) (dongCode : Nat) :=
  TextMng.getName .u32 2 junk fuel mng mng.dongOfs dongCode

/-- `getRoadName`. -/
def TextMng.getRoadName (junk fuel : Nat) (mng : TextMng) (roadCode : Nat) :=
  TextMng.getName .u32 3 junk fuel mng mng.roadOfs roadCode

end AndroidApps.Gildroia
