import AndroidApps.CommonLib.SecureStorageLaws

/-! The hexadecimal digits of bytes with a sign, written and read back. -/

namespace AndroidApps.CommonLib.SimpleCrypto

section Signed

/-- `appendHex` of a byte with a sign, which is extended before the shift and the masks. -/
def appendSignedHex (b : Int8) : JString :=
  let extended := b.toInt32
  [hex.getD ((extended >>> 4) &&& 0x0F).toNatClampNeg 0,
    hex.getD (extended &&& 0x0F).toNatClampNeg 0]

/-- `toHex` of bytes with signs. -/
def signedToHex (buf : List Int8) : JString := buf.flatMap appendSignedHex

/-- `toByte`, with the numbers of two characters cut down to bytes with signs. -/
def signedToByte (platform : Platform) (hexString : JString) : Option (List Int8) :=
  (List.range (hexString.length / 2)).mapM fun (i : Nat) =>
    (hexString.substring (2 * i : Nat) (2 * i + 2 : Nat)).bind fun pair =>
      (JString.parseRadix 16 platform.hexDigit pair).map Int8.ofInt

end Signed

section Bytes

variable (platform : Platform)

/-- The masks keep the two halves of a byte, whatever its sign has put in front of them. -/
theorem appendSignedHex_toInt8 (byte : UInt8) : appendSignedHex byte.toInt8 = appendHex byte := by
  -- There are 256 bytes.
  have all : ∀ value < 256,
      appendSignedHex (UInt8.ofNat value).toInt8 = appendHex (UInt8.ofNat value) := by
    decide +kernel
  have own := all byte.toNat byte.toNat_lt
  rwa [UInt8.ofNat_toNat] at own

/-- Bytes with signs are written like those without. -/
theorem signedToHex_map (buf : List UInt8) :
    signedToHex (buf.map UInt8.toInt8) = toHex buf := by
  rw [signedToHex, toHex, List.flatMap_map]
  congr 1
  funext byte
  exact appendSignedHex_toInt8 byte

/-- A number cut down to a byte with a sign is the byte without the sign. -/
theorem ofInt_byteValue (value : Int) : Int8.ofInt value = (byteValue value).toInt8 := by
  apply Int8.toBitVec_inj.mp
  apply BitVec.eq_of_toNat_eq
  -- Both are what is left of the number when it is divided by 256.
  rw [Int8.toBitVec_ofInt, BitVec.toNat_ofInt, UInt8.toBitVec_toInt8, byteValue]
  have small : (value % 256).toNat < 256 := by omega
  simp [Nat.mod_eq_of_lt small]

/-- The two characters in front are those of the first turn, and the others are one turn ahead. -/
theorem signedToByte_cons (high low : UInt16) (rest : JString) :
    signedToByte platform (high :: low :: rest) = do
      let value ← JString.parseRadix 16 platform.hexDigit [high, low]
      let result ← signedToByte platform rest
      return Int8.ofInt value :: result := by
  have turns : (high :: low :: rest).length / 2 = rest.length / 2 + 1 := by
    simp only [List.length_cons]
    omega
  have whole : high :: low :: rest = [] ++ ([high, low] ++ rest) := rfl
  have first : JString.substring (high :: low :: rest) (2 * 0 : Nat) (2 * 0 + 2 : Nat) =
      some [high, low] := JString.substring_middle whole rfl rfl
  have later : ∀ i : Nat, JString.substring (high :: low :: rest)
      (2 * i.succ : Nat) (2 * i.succ + 2 : Nat) =
        JString.substring rest (2 * i : Nat) (2 * i + 2 : Nat) := by
    intro i
    -- Each of the two characters moves the places by one.
    have one := JString.substring_cons high (low :: rest) (2 * i + 1) (2 * i + 3)
    exact one.trans (JString.substring_cons low rest (2 * i) (2 * i + 2))
  rw [signedToByte, turns, List.range_succ_eq_map, List.mapM_cons, List.mapM_map, first,
    Option.bind_some]
  simp only [Function.comp_def, later]
  cases JString.parseRadix 16 platform.hexDigit [high, low] with
  | none => rfl
  | some value =>
    rw [signedToByte]
    rfl

/-- Bytes are read with their signs. -/
theorem signedToByte_eq : ∀ hexString : JString,
    signedToByte platform hexString = (toByte platform hexString).map (List.map UInt8.toInt8)
  | [] => rfl
  -- The last character of an odd number is not read.
  | [unit] => by simp [signedToByte, toByte]
  | high :: low :: rest => by
    rw [signedToByte_cons, toByte, signedToByte_eq rest]
    cases JString.parseRadix 16 platform.hexDigit [high, low] with
    | none => rfl
    | some value =>
      cases toByte platform rest with
      | none => rfl
      | some result =>
        simp [ofInt_byteValue]

end Bytes

section RoundTrip

variable (platform : Platform)

/-- A digit stands for a number below sixteen. -/
theorem mem_hex {unit : UInt16} (member : unit ∈ hex) :
    ∃ value, value < 16 ∧ hex.getD value 0 = unit := by
  obtain ⟨value, within, rfl⟩ := List.mem_iff_getElem.mp member
  exact ⟨value, within, by simp [within]⟩

/-- An even number of digits is what is written of some bytes. -/
theorem exists_toHex : ∀ {text : JString}, text.length % 2 = 0 → (∀ unit ∈ text, unit ∈ hex) →
    ∃ buf, toHex buf = text
  | [], _, _ => ⟨[], rfl⟩
  | [_], odd, _ => by simp at odd
  | high :: low :: rest, even, digits => by
    rw [List.forall_mem_cons, List.forall_mem_cons] at digits
    obtain ⟨upper, small, rfl⟩ := mem_hex digits.1
    obtain ⟨lower, smaller, rfl⟩ := mem_hex digits.2.1
    have shorter : rest.length % 2 = 0 := by
      simp only [List.length_cons] at even
      omega
    obtain ⟨buf, written⟩ := exists_toHex shorter digits.2.2
    -- The byte has the two numbers as its halves.
    have bound : upper * 16 + lower < 256 := by omega
    have value : (UInt8.ofNat (upper * 16 + lower)).toNat = upper * 16 + lower := by
      rw [UInt8.toNat_ofNat', Nat.mod_eq_of_lt bound]
    have top : (upper * 16 + lower) / 16 = upper := by omega
    have bottom : (upper * 16 + lower) % 16 = lower := by omega
    refine ⟨UInt8.ofNat (upper * 16 + lower) :: buf, ?_⟩
    rw [toHex, List.flatMap_cons, ← toHex, written, appendHex, value, top, bottom]
    rfl

/--
Bytes are recovered from their digits, and digits from their bytes.

The digits are the sixteen of `HEX`, in an even number.
-/
theorem signedHex_roundTrip :
    (∀ b : List Int8, signedToByte platform (signedToHex b) = some b) ∧
    ∀ s : JString, s.length % 2 = 0 → (∀ unit ∈ s, unit ∈ hex) →
      (signedToByte platform s).map signedToHex = some s := by
  constructor
  · intro b
    -- Without their signs they are recovered as well.
    have unsigned : (b.map Int8.toUInt8).map UInt8.toInt8 = b := by
      rw [List.map_map]
      exact List.map_id'' (fun byte => Int8.toInt8_toUInt8 byte) b
    rw [← unsigned, signedToHex_map, signedToByte_eq, toByte_toHex]
    rfl
  · intro s even digits
    obtain ⟨buf, rfl⟩ := exists_toHex even digits
    rw [signedToByte_eq, toByte_toHex, Option.map_some, Option.map_some, signedToHex_map]

end RoundTrip

end AndroidApps.CommonLib.SimpleCrypto
