import Mathlib.Data.Nat.Digits.Defs
import Mathlib.Tactic.Ring

/-! Little-endian machine words in byte lists, and the unsigned 32-bit arithmetic on them. -/

namespace AndroidApps

/-- The value an unsigned 32-bit variable holds after being assigned this number. -/
def u32 (value : Nat) : Nat := value % 2 ^ 32

/-- A number below the modulus is stored unchanged. -/
theorem u32_of_lt {value : Nat} (small : value < 2 ^ 32) : u32 value = value :=
  Nat.mod_eq_of_lt small

theorem u32_lt (value : Nat) : u32 value < 2 ^ 32 :=
  Nat.mod_lt value (by decide)

/-- The difference of two unsigned 32-bit numbers. -/
def u32Sub (value less : Nat) : Nat := (((value : Int) - less) % 2 ^ 32).toNat

/-- The value an `int` holds after being assigned an unsigned 32-bit number. -/
def toInt (value : Nat) : Int := if value < 2 ^ 31 then value else value - 2 ^ 32

theorem toInt_of_lt {value : Nat} (small : value < 2 ^ 31) : toInt value = value := if_pos small

/-- The number whose little-endian bytes these are. -/
def leWord (bytes : List UInt8) : Nat :=
  Nat.ofDigits 256 (bytes.map UInt8.toNat)

/-- The little-endian bytes of a number, cut off at the given width. -/
def leBytes : Nat → Nat → List UInt8
  | 0, _ => []
  | width + 1, value => UInt8.ofNat value :: leBytes width (value / 256)

@[simp] theorem leBytes_length (width value : Nat) : (leBytes width value).length = width := by
  induction width generalizing value with
  | zero => rfl
  | succ width ih => simp [leBytes, ih]

@[simp] theorem leWord_nil : leWord [] = 0 := rfl

@[simp] theorem leWord_cons (byte : UInt8) (rest : List UInt8) :
    leWord (byte :: rest) = byte.toNat + 256 * leWord rest := by
  simp [leWord, Nat.ofDigits_cons]

/-- Reading back the bytes of a number recovers what the width can hold of it. -/
theorem leWord_leBytes (width value : Nat) :
    leWord (leBytes width value) = value % 256 ^ width := by
  induction width generalizing value with
  | zero => simp [leBytes, Nat.mod_one]
  | succ width ih =>
    -- The low byte is the remainder, and the other bytes are those of the quotient.
    have low : (UInt8.ofNat value).toNat = value % 256 := by simp
    rw [leBytes, leWord_cons, ih, low, Nat.pow_succ, Nat.mul_comm (256 ^ width),
      Nat.mod_mul]

/-- A number that fits the width is recovered exactly. -/
theorem leWord_leBytes_of_lt {width value : Nat} (fits : value < 256 ^ width) :
    leWord (leBytes width value) = value := by
  rw [leWord_leBytes, Nat.mod_eq_of_lt fits]

/-- A word is bounded by the number of its bytes. -/
theorem leWord_lt (bytes : List UInt8) : leWord bytes < 256 ^ bytes.length := by
  -- The lowest byte counts once, and the others 256 times.
  induction bytes with
  | nil => simp
  | cons byte rest ih =>
    have head : byte.toNat < 256 := byte.toNat_lt
    rw [leWord_cons, List.length_cons, Nat.pow_succ]
    omega

/-- Bytes behind others count by the power of their place. -/
theorem leWord_append (low high : List UInt8) :
    leWord (low ++ high) = leWord low + 256 ^ low.length * leWord high := by
  rw [leWord, List.map_append, Nat.ofDigits_append, List.length_map]
  rfl

/-- The bytes standing at a position of a byte list. -/
def bytesAt (data : List UInt8) (position width : Nat) : List UInt8 :=
  (data.drop position).take width

/-- The word standing at a position of a byte list. -/
def wordAt (data : List UInt8) (position width : Nat) : Nat :=
  leWord (bytesAt data position width)

/-- A word read anywhere fits its width. -/
theorem wordAt_lt (data : List UInt8) (position width : Nat) :
    wordAt data position width < 256 ^ width := by
  -- At most `width` bytes are taken, fewer near the end of the list.
  have short : (bytesAt data position width).length ≤ width := by
    simp only [bytesAt, List.length_take]
    omega
  exact Nat.lt_of_lt_of_le (leWord_lt _) (Nat.pow_le_pow_right (by decide) short)

/-- Bytes written behind a prefix are found at the end of that prefix. -/
theorem bytesAt_append {before chunk after : List UInt8} {position width : Nat}
    (start : before.length = position) (extent : chunk.length = width) :
    bytesAt (before ++ (chunk ++ after)) position width = chunk := by
  simp [bytesAt, ← start, ← extent]

/-- Bytes of a prefix are found whatever is behind it. -/
theorem bytesAt_append_left {before : List UInt8} {position width : Nat}
    (inside : position + width ≤ before.length) (after : List UInt8) :
    bytesAt (before ++ after) position width = bytesAt before position width := by
  rw [bytesAt, bytesAt, List.drop_append_of_le_length (by omega),
    List.take_append_of_le_length (by rw [List.length_drop]; omega)]

/-- Bytes behind a prefix are found as far behind its end. -/
theorem bytesAt_append_right (before after : List UInt8) (position width : Nat) :
    bytesAt (before ++ after) (before.length + position) width = bytesAt after position width := by
  rw [bytesAt, bytesAt, List.drop_append, List.drop_of_length_le (Nat.le_add_right _ _),
    List.nil_append, Nat.add_sub_cancel_left]

/-- A narrower reading inside bytes already read is a reading of those bytes. -/
theorem bytesAt_bytesAt {data : List UInt8} {position width inner narrow : Nat}
    (inside : inner + narrow ≤ width) :
    bytesAt (bytesAt data position width) inner narrow =
      bytesAt data (position + inner) narrow := by
  simp only [bytesAt, List.drop_take, List.take_take, List.drop_drop]
  congr 1
  omega

/-- Words written one behind the other are found at the multiples of their width. -/
theorem bytesAt_words (width : Nat) {words : List Nat} {index : Nat}
    (listed : index < words.length) :
    bytesAt (words.flatMap (leBytes width)) (index * width) width = leBytes width words[index] := by
  induction words generalizing index with
  | nil => exact absurd listed (Nat.not_lt_zero index)
  | cons word rest ih =>
    cases index with
    | zero => simp [bytesAt]
    | succ index =>
      -- Dropping the first word leaves the same situation one index lower.
      have skip : (index + 1) * width = (leBytes width word).length + index * width := by
        rw [leBytes_length]
        ring
      have later := ih (Nat.lt_of_succ_lt_succ listed)
      unfold bytesAt at later ⊢
      rw [List.flatMap_cons, skip, List.drop_append, List.drop_of_length_le (by omega),
        List.nil_append, Nat.add_sub_cancel_left, later]
      rfl

/-- A word that fits its width is read back from among others. -/
theorem wordAt_words {width : Nat} {words : List Nat} {index : Nat} (listed : index < words.length)
    (fits : words[index] < 256 ^ width) :
    wordAt (words.flatMap (leBytes width)) (index * width) width = words[index] := by
  rw [wordAt, bytesAt_words width listed, leWord_leBytes_of_lt fits]

@[simp] theorem length_words (width : Nat) (words : List Nat) :
    (words.flatMap (leBytes width)).length = words.length * width := by
  induction words with
  | nil => simp
  | cons word rest ih =>
    rw [List.flatMap_cons, List.length_append, ih, leBytes_length, List.length_cons]
    ring

/-- Values that a read can overwrite in part, as they stand in memory byte for byte. -/
class InMemory (α : Type) where
  bytes : α → List UInt8

/-- A word, with as many bytes as the widest reads have. -/
instance : InMemory Nat := ⟨leBytes 8⟩

/-- A character. -/
instance : InMemory UInt16 := ⟨fun char => leBytes 2 char.toNat⟩

end AndroidApps
