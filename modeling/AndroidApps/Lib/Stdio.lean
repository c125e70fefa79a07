import AndroidApps.Lib.Bytes

/-! Binary files read through the C library with a 32-bit `long` file position. -/

namespace AndroidApps

/-- An open file: its contents, which every position inside can address, and its position. -/
structure File where
  data : List UInt8
  pos : Nat
  addressable : data.length < 2 ^ 31
  deriving DecidableEq

namespace File

/-- The same file at another position. -/
def moveTo (file : File) (position : Nat) : File := { file with pos := position }

@[simp] theorem moveTo_data (file : File) (position : Nat) :
    (file.moveTo position).data = file.data := rfl

@[simp] theorem moveTo_pos (file : File) (position : Nat) :
    (file.moveTo position).pos = position := rfl

@[simp] theorem moveTo_moveTo (file : File) (first second : Nat) :
    (file.moveTo first).moveTo second = file.moveTo second := rfl

/-- Two open files with the same contents differ only by their positions. -/
theorem moveTo_eq_of_data {file other : File} (same : file.data = other.data) (position : Nat) :
    file.moveTo position = other.moveTo position := by
  cases file
  cases other
  cases same
  rfl

/-- Seek to an unsigned 32-bit offset from the start. -/
def fseek (file : File) (offset : Nat) : File :=
  -- Converted to `long`, the other offsets are negative: the call fails and moves nothing.
  if offset < 2 ^ 31 then file.moveTo offset else file

/-- Seek backwards from the end. -/
def fseekEnd (file : File) (back : Nat) : File :=
  -- A position before the start is refused in the same way.
  if back ≤ file.data.length then file.moveTo (file.data.length - back) else file

/-- Seek by a signed distance from the current position. -/
def fseekCur (file : File) (distance : Int) : File :=
  -- A position that is negative or does not fit a `long` is refused, too.
  if 0 ≤ file.pos + distance ∧ file.pos + distance < 2 ^ 31 then
    file.moveTo (file.pos + distance).toNat
  else file

/--
What a variable holds after a read that the end of the file cuts off.

The bytes that are there are copied over the first ones of the variable, and where there are none
it stays as it was.
-/
def cut {α : Type} [InMemory α] (file : File) (decode : List UInt8 → α) (width : Nat) (old : α) :
    α :=
  let count := file.data.length - file.pos
  if count = 0 then old
  else decode (bytesAt file.data file.pos count ++
    bytesAt (InMemory.bytes old) count (width - count))

/-- Read one element into a variable. -/
def fread {α : Type} [InMemory α] (file : File) (decode : List UInt8 → α) (width : Nat) (old : α) :
    α × File :=
  if file.pos + width ≤ file.data.length then
    (decode (bytesAt file.data file.pos width), file.moveTo (file.pos + width))
  else (file.cut decode width old, file.moveTo (max file.pos file.data.length))

/-- Read one little-endian word into a variable. -/
def freadWord (file : File) (width old : Nat) : Nat × File := file.fread leWord width old

/-- The word that a variable holds after a read at a position. -/
def wordOver (file : File) (position width old : Nat) : Nat :=
  ((file.moveTo position).freadWord width old).1

/-- Read an element again and again into one variable, collecting what it holds each time. -/
def freadList {α : Type} [InMemory α] (decode : List UInt8 → α) (width : Nat) :
    Nat → α → File → List α × File
  | 0, _, file => ([], file)
  | count + 1, old, file =>
    let (value, file) := file.fread decode width old
    let (rest, file) := freadList decode width count value file
    (value :: rest, file)

/-- Read elements into consecutive slots, each of which keeps its old value behind the end of
the file. -/
def freadArray {α : Type} [InMemory α] (decode : List UInt8 → α) (width : Nat) :
    List α → File → List α × File
  | [], file => ([], file)
  | old :: olds, file =>
    let (value, file) := file.fread decode width old
    let (rest, file) := freadArray decode width olds file
    (value :: rest, file)

/-- How many whole elements a read of several of them gets. -/
def freadCount (file : File) (width count : Nat) : Nat :=
  min count ((file.data.length - file.pos) / width)

theorem fseek_of_lt {file : File} {offset : Nat} (low : offset < 2 ^ 31) :
    file.fseek offset = file.moveTo offset := if_pos low

@[simp] theorem fseek_data (file : File) (offset : Nat) : (file.fseek offset).data = file.data := by
  unfold fseek
  split <;> rfl

@[simp] theorem fseekEnd_data (file : File) (back : Nat) :
    (file.fseekEnd back).data = file.data := by
  unfold fseekEnd
  split <;> rfl

@[simp] theorem fseekCur_data (file : File) (distance : Int) :
    (file.fseekCur distance).data = file.data := by
  unfold fseekCur
  split <;> rfl

section Elements

variable {α : Type} {decode : List UInt8 → α} {width : Nat}

/-- The elements standing one behind the other from a position on. -/
def elementsAt (decode : List UInt8 → α) (width : Nat) (data : List UInt8) (position count : Nat) :
    List α :=
  (List.range count).map fun i => decode (bytesAt data (position + i * width) width)

@[simp] theorem elementsAt_length (data : List UInt8) (position count : Nat) :
    (elementsAt decode width data position count).length = count := by
  simp [elementsAt]

/-- The first element stands at the position itself, the others one width behind it. -/
theorem elementsAt_succ (data : List UInt8) (position count : Nat) :
    elementsAt decode width data position (count + 1) =
      decode (bytesAt data position width) ::
        elementsAt decode width data (position + width) count := by
  -- Shifting every index by one moves the whole run by one width.
  have shift : ∀ i, position + (i + 1) * width = position + width + i * width := by
    intro i
    ring
  simp only [elementsAt, List.range_succ_eq_map, List.map_cons, List.map_map, Function.comp_def,
    Nat.succ_eq_add_one, Nat.zero_mul, Nat.add_zero, shift]

end Elements

section Reading

variable {α : Type} [InMemory α] {decode : List UInt8 → α} {width : Nat}

@[simp] theorem fread_data (file : File) (old : α) :
    (file.fread decode width old).2.data = file.data := by
  unfold fread
  split <;> rfl

/-- An element inside the file is decoded from its bytes, and the position moves behind it. -/
theorem fread_inside {file : File} {old : α} (inside : file.pos + width ≤ file.data.length) :
    file.fread decode width old =
      (decode (bytesAt file.data file.pos width), file.moveTo (file.pos + width)) := if_pos inside

/-- An element that does not fit is cut off. -/
theorem fread_outside {file : File} {old : α} (outside : file.data.length < file.pos + width) :
    file.fread decode width old =
      (file.cut decode width old, file.moveTo (max file.pos file.data.length)) :=
  if_neg (Nat.not_le.mpr outside)

/-- At the end of the file there is nothing to copy. -/
theorem cut_end {file : File} {old : α} (ended : file.data.length ≤ file.pos) :
    file.cut decode width old = old :=
  if_pos (Nat.sub_eq_zero_of_le ended)

/-- An element behind the end of the file leaves the variable unchanged. -/
theorem fread_end {file : File} {old : α} (positive : 0 < width)
    (ended : file.data.length ≤ file.pos) : file.fread decode width old = (old, file) := by
  rw [fread_outside (by omega), cut_end ended, Nat.max_eq_left ended]
  rfl

/-- An offset inside the file is one that a `long` can hold. -/
theorem offset_lt {file : File} {offset : Nat} (inside : offset + width ≤ file.data.length) :
    offset < 2 ^ 31 := by
  have := file.addressable
  omega

/-- Seeking to an element inside the file and reading it. -/
theorem fread_fseek {file : File} {offset : Nat} {old : α}
    (inside : offset + width ≤ file.data.length) :
    (file.fseek offset).fread decode width old =
      (decode (bytesAt file.data offset width), file.moveTo (offset + width)) := by
  rw [fseek_of_lt (offset_lt inside), fread_inside (by simpa using inside)]
  simp

/-- Reading a word inside the file. -/
theorem freadWord_inside {file : File} {old : Nat} (inside : file.pos + width ≤ file.data.length) :
    file.freadWord width old =
      (wordAt file.data file.pos width, file.moveTo (file.pos + width)) :=
  fread_inside inside

/-- Seeking to a word inside the file and reading it. -/
theorem freadWord_fseek {file : File} {offset old : Nat}
    (inside : offset + width ≤ file.data.length) :
    (file.fseek offset).freadWord width old =
      (wordAt file.data offset width, file.moveTo (offset + width)) :=
  fread_fseek inside

/-- Reading a word at a position inside the file. -/
theorem freadWord_moveTo {file : File} {position old : Nat}
    (inside : position + width ≤ file.data.length) :
    (file.moveTo position).freadWord width old =
      (wordAt file.data position width, file.moveTo (position + width)) :=
  freadWord_inside inside

@[simp] theorem freadWord_data (file : File) (old : Nat) :
    (file.freadWord width old).2.data = file.data :=
  fread_data file old

@[simp] theorem freadList_data (count : Nat) (old : α) (file : File) :
    (freadList decode width count old file).2.data = file.data := by
  induction count generalizing old file with
  | zero => rfl
  | succ count ih => simp [freadList, ih]

@[simp] theorem freadArray_data (olds : List α) (file : File) :
    (freadArray decode width olds file).2.data = file.data := by
  induction olds generalizing file with
  | nil => rfl
  | cons old olds ih => simp [freadArray, ih]

@[simp] theorem freadArray_length (olds : List α) (file : File) :
    (freadArray decode width olds file).1.length = olds.length := by
  induction olds generalizing file with
  | nil => rfl
  | cons old olds ih => simp [freadArray, ih]

/-- Elements inside the file are all read, whatever the variable held before. -/
theorem freadList_inside {count : Nat} {old : α} {file : File}
    (inside : file.pos + count * width ≤ file.data.length) :
    freadList decode width count old file =
      (elementsAt decode width file.data file.pos count,
        file.moveTo (file.pos + count * width)) := by
  induction count generalizing old file with
  | zero => simp [freadList, elementsAt, moveTo]
  | succ count ih =>
    -- The first element fits, and the rest is the same reading one width later.
    have split : (count + 1) * width = width + count * width := by ring
    rw [split] at inside
    rw [freadList, fread_inside (by omega)]
    simp only
    rw [ih (by simp only [moveTo_pos, moveTo_data]; omega), elementsAt_succ, split]
    simp [Nat.add_assoc]

/-- A slot of an array holds its element when that is inside the file. -/
theorem freadArray_getElem? (olds : List α) {i : Nat} (listed : i < olds.length) :
    ∀ {file : File}, file.pos + (i + 1) * width ≤ file.data.length →
      (freadArray decode width olds file).1[i]? =
        some (decode (bytesAt file.data (file.pos + i * width) width)) := by
  induction olds generalizing i with
  | nil => exact absurd listed (Nat.not_lt_zero i)
  | cons old olds ih =>
    intro file inside
    -- The element in front of one that is inside is inside, too.
    have wide : width ≤ (i + 1) * width := Nat.le_mul_of_pos_left width (Nat.succ_pos i)
    rw [freadArray, fread_inside (by omega)]
    cases i with
    | zero => simp
    | succ i =>
      have place : (i + 1 + 1) * width = width + (i + 1) * width := by ring
      have start : file.pos + (i + 1) * width = file.pos + width + i * width := by ring
      rw [List.getElem?_cons_succ, ih (by simpa using listed)]
      · rw [moveTo_data, moveTo_pos, start]
      · rw [moveTo_data, moveTo_pos]
        omega

/-- An array read inside the file overwrites every slot. -/
theorem freadArray_inside {olds : List α} {file : File}
    (inside : file.pos + olds.length * width ≤ file.data.length) :
    freadArray decode width olds file =
      (elementsAt decode width file.data file.pos olds.length,
        file.moveTo (file.pos + olds.length * width)) := by
  -- The first element is read where the file stands, and the others where that leaves it.
  induction olds generalizing file with
  | nil => simp [freadArray, elementsAt, moveTo]
  | cons old olds ih =>
    have split : (olds.length + 1) * width = width + olds.length * width := by ring
    rw [List.length_cons, split] at inside
    rw [freadArray, fread_inside (by omega)]
    simp only
    rw [ih (by simp only [moveTo_pos, moveTo_data]; omega), List.length_cons, elementsAt_succ,
      split]
    simp [Nat.add_assoc]

end Reading

end File

end AndroidApps
