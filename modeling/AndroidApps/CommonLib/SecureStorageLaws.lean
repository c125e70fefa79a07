import AndroidApps.CommonLib.SecureStorage
import AndroidApps.Lib.JavaTextLaws

/-! When the encrypted storage answers like the plain one over a whole run of calls. -/

namespace AndroidApps.CommonLib

section Hex

variable (platform : Platform)

/-- The sixteen digits have their values, and none of them is a sign. -/
theorem SimpleCrypto.hex_digit {value : Nat} (small : value < 16) :
    platform.hexDigit (hex.getD value 0) = some value ∧ hex.getD value 0 ≠ 0x2D ∧
      hex.getD value 0 ≠ 0x2B := by
  have all : ∀ value < 16, hex.getD value 0 < 0x80 ∧
      JString.asciiHexDigit (hex.getD value 0) = some value ∧ hex.getD value 0 ≠ 0x2D ∧
      hex.getD value 0 ≠ 0x2B := by decide +kernel
  obtain ⟨ascii, digit, signs⟩ := all value small
  exact ⟨by rw [platform.hexDigit_small _ ascii, digit], signs⟩

/-- The two digits of a byte are read as its value. -/
theorem SimpleCrypto.parseRadix_appendHex (byte : UInt8) :
    JString.parseRadix 16 platform.hexDigit (appendHex byte) = some (byte.toNat : Int) := by
  have bound := byte.toNat_lt
  obtain ⟨high, minus, plus⟩ := hex_digit platform (show byte.toNat / 16 < 16 by omega)
  obtain ⟨low, _⟩ := hex_digit platform (show byte.toNat % 16 < 16 by omega)
  have number : JString.magnitudeIn 16 platform.hexDigit (appendHex byte) = some byte.toNat := by
    have whole : Nat.ofDigits 16 [byte.toNat / 16, byte.toNat % 16].reverse = byte.toNat := by
      simp only [List.reverse_cons, List.reverse_nil, List.nil_append, List.cons_append,
        Nat.ofDigits_cons, Nat.ofDigits_nil]
      omega
    rw [JString.magnitudeIn, if_neg (by simp [appendHex]), appendHex, List.mapM_cons,
      List.mapM_cons, high, low]
    exact congrArg some whole
  -- A hexadecimal digit is no sign.
  have unsigned : JString.parseRadix 16 platform.hexDigit (appendHex byte) =
      (JString.magnitudeIn 16 platform.hexDigit (appendHex byte)).bind fun value =>
        JString.checked value :=
    JString.parseRadix_unsigned 16 platform.hexDigit
      (fun rest same => minus (List.cons.inj same).1) fun rest same => plus (List.cons.inj same).1
  rw [unsigned, number, Option.bind_some, JString.checked]
  exact if_pos (by omega)

/-- What is written as hexadecimal digits is read back. -/
theorem SimpleCrypto.toByte_toHex (buf : List UInt8) : toByte platform (toHex buf) = some buf := by
  -- The induction is on the bytes. Each one is written with two digits, so the digits are read back
  -- in pairs.
  induction buf with
  | nil => rfl
  | cons byte buf ih =>
    have digits := parseRadix_appendHex platform byte
    have value : byteValue (byte.toNat : Int) = byte := by
      have bound := byte.toNat_lt
      have same : ((byte.toNat : Int) % 256).toNat = byte.toNat := by omega
      rw [byteValue, same, UInt8.ofNat_toNat]
    rw [appendHex] at digits
    rw [toHex, List.flatMap_cons, appendHex, List.cons_append, List.cons_append, List.nil_append,
      toByte, digits, ← toHex, ih]
    simp only [Option.bind_eq_bind, Option.bind_some, Option.pure_def, value]

end Hex

section Crypto

variable (platform : Platform) (seed : JString)

/-- A raw key has 16 bytes, however long the digest is. -/
theorem SimpleCrypto.getRawKey_length (bytes : List UInt8) :
    (getRawKey platform bytes).length = 16 := by
  -- A long digest is cut off and a short one is filled up.
  unfold getRawKey
  simp only
  split
  · rename_i enough
    rw [List.length_take, Nat.min_eq_left enough]
  · rename_i short
    rw [List.length_append, List.length_map, List.length_range']
    omega

/-- What is encrypted is decrypted. -/
theorem SimpleCrypto.decrypt_encrypt (cleartext : JString) :
    decrypt platform seed (encrypt platform seed cleartext) = some cleartext := by
  unfold decrypt encrypt
  rw [toByte_toHex]
  simp only [Option.bind_eq_bind, Option.bind_some, Option.pure_def]
  rw [platform.decrypt_encrypt _ _ (getRawKey_length platform _), Option.bind_some,
    platform.newString_getBytes]

/-- Different texts are encrypted differently. -/
theorem SimpleCrypto.encrypt_inj {first second : JString}
    (same : encrypt platform seed first = encrypt platform seed second) : first = second := by
  have one := decrypt_encrypt platform seed first
  rw [same, decrypt_encrypt] at one
  exact (Option.some.inj one).symm

/-- No encrypted text is taken for a key that is not there. -/
theorem SimpleCrypto.encrypt_ne_notFoundKey (cleartext : JString) :
    encrypt platform seed cleartext ≠ LocalSecureStorage.notFoundKey := by
  intro same
  -- The first letter is no hexadecimal digit.
  have letter : (0x6E : UInt16) ∈ encrypt platform seed cleartext := by
    rw [same]
    decide
  obtain ⟨byte, _, digit⟩ := List.mem_flatMap.mp letter
  have bound := byte.toNat_lt
  have none : ∀ value < 16, hex.getD value 0 ≠ 0x6E := by decide +kernel
  simp only [appendHex, List.mem_cons, List.not_mem_nil, or_false] at digit
  rcases digit with high | low
  · exact none _ (by omega) high.symm
  · exact none _ (by omega) low.symm

end Crypto

section Runs

variable (platform : Platform) (androidId : JString)

/-- Whether a call sets or removes a key. -/
def Call.writes (wanted : JString) : Call → Bool
  | .setValue key _ => key = wanted
  | .getValue _ _ => false
  | .removeValue key => key = wanted

/-- The last value that was set and not removed. -/
def lastValue (history : List Call) (key : JString) : Option JString :=
  match history.reverse.find? (Call.writes key) with
  | some (.setValue _ value) => some value
  | _ => none

/-- What a call has to return behind some others. -/
def answerTo (history : List Call) : Call → Option JString
  | .getValue key defValue => (lastValue history key).or defValue
  | _ => none

/-- What calls have to return one after the other. -/
def answersTo : List Call → List Call → List (Option JString)
  | _, [] => []
  | history, call :: calls => answerTo history call :: answersTo (history ++ [call]) calls

/-- A plain storage holds the last values of all keys. -/
theorem LocalStorage.call_lastValue (history : List Call) (call : Call) :
    LocalStorage.call (lastValue history) call =
      some (answerTo history call, lastValue (history ++ [call])) := by
  -- The last value behind one more call is that of the call if it writes the key, and otherwise the
  -- one before.
  have last (key : JString) : lastValue (history ++ [call]) key =
      if call.writes key then lastValue [call] key else lastValue history key := by
    unfold lastValue
    rw [List.reverse_append, List.reverse_singleton, List.singleton_append, List.find?_cons,
      List.find?_cons]
    cases call.writes key with
    | true => rfl
    | false => rfl
  cases call with
  | setValue key value =>
    have same : LocalStorage.setValue (lastValue history) key value =
        lastValue (history ++ [.setValue key value]) := by
      funext wanted
      rw [last, LocalStorage.setValue, Function.update_apply]
      by_cases own : wanted = key
      · simp [own, lastValue, Call.writes]
      · simp [own, Ne.symm own, Call.writes]
    rw [LocalStorage.call, same]
    rfl
  | getValue key defValue =>
    have same : lastValue (history ++ [.getValue key defValue]) = lastValue history := by
      funext wanted
      rw [last]
      rfl
    rw [LocalStorage.call, same]
    rfl
  | removeValue key =>
    have same : LocalStorage.removeValue (lastValue history) key =
        lastValue (history ++ [.removeValue key]) := by
      funext wanted
      rw [last, LocalStorage.removeValue, Function.update_apply]
      by_cases own : wanted = key
      · simp [own, lastValue, Call.writes]
      · simp [own, Ne.symm own, Call.writes]
    rw [LocalStorage.call, same]
    rfl

/-- A plain storage answers every call with the last value that was set and not removed. -/
theorem LocalStorage.run_lastValue (calls : List Call) : ∀ history : List Call,
    Machine.run LocalStorage.call (lastValue history) calls =
      some (answersTo history calls, lastValue (history ++ calls)) := by
  -- The history of the calls is what the storage stands for, and each call adds itself to it.
  induction calls with
  | nil =>
    intro history
    rw [List.append_nil]
    rfl
  | cons call calls ih =>
    intro history
    rw [Machine.run_cons (LocalStorage.call_lastValue history call), ih, List.append_assoc]
    rfl

/--
A call that the encrypted storage can follow.

A value is asked for that is there, or no default is given for it; and what is removed is neither a
key that is there nor what such a key is encrypted to.
-/
def Follows (pref : Preferences) : Call → Prop
  | .setValue _ _ => True
  | .getValue key defValue => pref key ≠ none ∨ defValue = none
  | .removeValue key =>
    pref key = none ∧ ∀ stored, pref stored ≠ none →
      SimpleCrypto.encrypt platform androidId stored ≠ key

/-- An encrypted storage that holds what a plain one holds. -/
def Encrypted (secure pref : Preferences) : Prop :=
  ∀ key, secure (SimpleCrypto.encrypt platform androidId key) =
    (pref key).map (SimpleCrypto.encrypt platform androidId)

variable {platform androidId}

/-- A value that is set is set encrypted. -/
theorem Encrypted.setValue {secure pref : Preferences}
    (same : Encrypted platform androidId secure pref)
    (key value : JString) :
    Encrypted platform androidId (LocalSecureStorage.setValue platform androidId secure key value)
      (LocalStorage.setValue pref key value) := by
  -- Encryption of keys is injective, so no other key is overwritten.
  intro wanted
  rw [LocalSecureStorage.setValue, LocalStorage.setValue, LocalStorage.setValue,
    Function.update_apply, Function.update_apply]
  by_cases own : wanted = key
  · rw [if_pos (by rw [own]), if_pos own, Option.map_some]
  · rw [if_neg (fun equal => own (SimpleCrypto.encrypt_inj platform androidId equal)), if_neg own,
      same wanted]

/-- A value that is there is decrypted. -/
theorem Encrypted.getValue {secure pref : Preferences}
    (same : Encrypted platform androidId secure pref)
    {key : JString} {defValue : Option JString} (follows : pref key ≠ none ∨ defValue = none) :
    LocalSecureStorage.getValue platform androidId secure key defValue =
      LocalStorage.getValue pref key defValue := by
  unfold LocalSecureStorage.getValue LocalStorage.getValue
  rw [same key]
  cases held : pref key with
  | none =>
    -- The default of the encrypted storage stands for a key that is not there.
    have null : defValue = none := follows.resolve_left (fun there => there held)
    rw [null]
    rfl
  | some value =>
    rw [Option.map_some, Option.some_or, Option.some_or]
    simp only
    rw [if_neg (SimpleCrypto.encrypt_ne_notFoundKey platform androidId value),
      SimpleCrypto.decrypt_encrypt]

/-- Removing a key that neither storage holds changes nothing. -/
theorem Encrypted.removeValue {secure pref : Preferences}
    (same : Encrypted platform androidId secure pref) {key : JString} (absent : pref key = none)
    (unlike : ∀ stored, pref stored ≠ none → SimpleCrypto.encrypt platform androidId stored ≠ key) :
    Encrypted platform androidId (LocalStorage.removeValue secure key)
      (LocalStorage.removeValue pref key) := by
  intro wanted
  have kept : LocalStorage.removeValue pref key = pref := by
    rw [LocalStorage.removeValue, ← absent, Function.update_eq_self]
  rw [kept, LocalStorage.removeValue, Function.update_apply]
  split
  · rename_i equal
    -- Such a key is not there either.
    cases held : pref wanted with
    | none => rfl
    | some value => exact absurd equal (unlike wanted (by simp [held]))
  · exact same wanted

/-- A call that can be followed is answered alike, and leaves the storages alike. -/
theorem Encrypted.call (secure pref : Preferences) (call : Call)
    (same : Encrypted platform androidId secure pref)
    (follows : Follows platform androidId pref call) :
    ∃ answer next after,
      LocalSecureStorage.call platform androidId secure call = some (answer, next) ∧
      LocalStorage.call pref call = some (answer, after) ∧
      Encrypted platform androidId next after := by
  -- Only a value that is read back goes through the cipher, and the other calls answer nothing.
  cases call with
  | setValue key value => exact ⟨_, _, _, rfl, rfl, same.setValue key value⟩
  | getValue key defValue =>
    refine ⟨_, _, _, rfl, ?_, same⟩
    rw [same.getValue follows]
    rfl
  | removeValue key => exact ⟨_, _, _, rfl, rfl, same.removeValue follows.1 follows.2⟩

/-- The encrypted storage follows the plain one over every run whose calls it can follow. -/
theorem secureStorage_refines (platform : Platform) (androidId : JString) (calls : List Call)
    (met : Machine.Along LocalStorage.call (Follows platform androidId) noPreferences calls) :
    ∃ secure pref,
      Machine.run (LocalSecureStorage.call platform androidId) noPreferences calls =
        some (answersTo [] calls, secure) ∧
      Machine.run LocalStorage.call noPreferences calls = some (answersTo [] calls, pref) := by
  -- The simulation gives the same answers as the plain storage, and these are the last values.
  obtain ⟨answers, secure, pref, ran, plain, _⟩ := Machine.run_refines
    (Encrypted platform androidId) (Follows platform androidId)
    (@Encrypted.call platform androidId) calls noPreferences noPreferences
    (fun key => rfl) met
  have expected := LocalStorage.run_lastValue calls []
  have empty : lastValue [] = noPreferences := rfl
  rw [empty, plain] at expected
  have same := congrArg Prod.fst (Option.some.inj expected)
  simp only at same
  subst same
  exact ⟨secure, pref, ran, plain⟩

end Runs

section Device

/-- Two bytes for each unit of a text. -/
def wide (text : JString) : List UInt8 :=
  text.flatMap fun unit => [UInt8.ofNat (unit.toNat / 256), UInt8.ofNat (unit.toNat % 256)]

/-- The units of which two bytes each are given. -/
def narrow : List UInt8 → JString
  | high :: low :: rest => UInt16.ofNat (high.toNat * 256 + low.toNat) :: narrow rest
  | _ => []

theorem narrow_wide (text : JString) : narrow (wide text) = text := by
  -- A unit is its high byte and its low byte.
  induction text with
  | nil => rfl
  | cons unit text ih =>
    have bound := unit.toNat_lt
    have high : (UInt8.ofNat (unit.toNat / 256)).toNat = unit.toNat / 256 :=
      UInt8.toNat_ofNat_of_lt' (show unit.toNat / 256 < 256 by omega)
    have low : (UInt8.ofNat (unit.toNat % 256)).toNat = unit.toNat % 256 :=
      UInt8.toNat_ofNat_of_lt' (show unit.toNat % 256 < 256 by omega)
    have whole : unit.toNat / 256 * 256 + unit.toNat % 256 = unit.toNat := by omega
    rw [wide, List.flatMap_cons, ← wide, List.cons_append, List.cons_append, List.nil_append,
      narrow, high, low, whole, UInt16.ofNat_toNat, ih]

/-- A charset that has the ASCII characters in one byte each, and marks all other texts. -/
def plainBytes (text : JString) : List UInt8 :=
  if JString.IsAscii text then JString.ascii text else 0xFF :: wide text

/-- The text of such bytes. -/
def plainString : List UInt8 → JString
  | 0xFF :: rest => narrow rest
  | bytes => bytes.map UInt8.toUInt16

theorem plainString_plainBytes (text : JString) : plainString (plainBytes text) = text := by
  unfold plainBytes
  split
  · rename_i plain
    have back : (JString.ascii text).map UInt8.toUInt16 = text := by
      rw [JString.ascii, List.map_map]
      refine (List.map_congr_left fun unit member => ?_).trans (List.map_id text)
      exact JString.toUInt16_toUInt8 (plain unit member)
    unfold plainString
    split
    · -- The mark is no ASCII character.
      rename_i rest marked
      have listed : 0xFF ∈ JString.ascii text := by
        rw [marked]
        exact List.mem_cons_self
      obtain ⟨unit, member, same⟩ := List.mem_map.mp listed
      have small := JString.toUInt8_lt (plain unit member)
      rw [same] at small
      exact absurd small (by decide)
    · exact back
  · exact narrow_wide text

/-- The identification of a device. -/
def androidId : JString :=
  JString.ofChars ['9', '7', '7', '4', 'd', '5', '6', 'd', '6', '8', '2', 'e', '5', '4', '9', 'c']

/-- The MD5 digest of the identification. -/
def deviceKey : List UInt8 :=
  [0xCF, 0x95, 0xDC, 0x53, 0xF3, 0x83, 0xF9, 0xA8, 0x36, 0xFD, 0x74, 0x9F, 0x3E, 0xF4, 0x39, 0xCD]

/-- What AES makes of `k` under this key. -/
def cipherK : List UInt8 :=
  [0xB4, 0xCD, 0x2E, 0xAD, 0x4D, 0x81, 0xFB, 0x7D, 0x9F, 0xEE, 0xA2, 0xFE, 0x40, 0x85, 0x7D, 0x97]

/-- What AES makes of `v` under this key. -/
def cipherV : List UInt8 :=
  [0xA8, 0x3F, 0x2A, 0x0B, 0xA9, 0x2F, 0x0F, 0x5F, 0xE0, 0x20, 0xDF, 0x80, 0xB5, 0x3D, 0x6C, 0x01]

/-- AES on the texts `k` and `v` under the key of the device; other texts are marked. -/
def deviceEncrypt (raw clear : List UInt8) : List UInt8 :=
  if raw = deviceKey ∧ clear = [0x6B] then cipherK
  else if raw = deviceKey ∧ clear = [0x76] then cipherV
  else List.replicate 17 0 ++ clear

/-- Its inverse. -/
def deviceDecrypt (raw encrypted : List UInt8) : Option (List UInt8) :=
  if raw = deviceKey ∧ encrypted = cipherK then some [0x6B]
  else if raw = deviceKey ∧ encrypted = cipherV then some [0x76]
  else if 17 ≤ encrypted.length then some (encrypted.drop 17)
  else none

theorem deviceDecrypt_deviceEncrypt (raw clear : List UInt8) :
    deviceDecrypt raw (deviceEncrypt raw clear) = some clear := by
  unfold deviceEncrypt
  split
  · rename_i own
    rw [deviceDecrypt, if_pos ⟨own.1, rfl⟩, own.2]
  · split
    · rename_i own
      rw [deviceDecrypt, if_neg (fun same => absurd same.2 (by decide)), if_pos ⟨own.1, rfl⟩, own.2]
    · -- A marked text is longer than the others.
      have long {cipher : List UInt8} (size : cipher.length = 16) :
          ¬ (raw = deviceKey ∧ List.replicate 17 0 ++ clear = cipher) := by
        rintro ⟨_, same⟩
        have length := congrArg List.length same
        rw [List.length_append, List.length_replicate, size] at length
        omega
      rw [deviceDecrypt, if_neg (long rfl), if_neg (long rfl), if_pos (by simp)]
      rfl

/-- A device, as far as the examples need it. -/
def device : Platform where
  getBytes := plainBytes
  newString := plainString
  md5 seed := if seed = JString.ascii androidId then deviceKey else List.replicate 16 0
  encrypt := deviceEncrypt
  decrypt := deviceDecrypt
  hexDigit := JString.asciiHexDigit
  newString_getBytes := plainString_plainBytes
  decrypt_encrypt := fun raw clear _ => deviceDecrypt_deviceEncrypt raw clear
  hexDigit_small := JString.CharacterHexDigit.ascii.small

/-- A value is set and asked for, and a key that was never set is asked for and removed. -/
def followedCalls : List Call :=
  [.setValue [0x6B] [0x76], .getValue [0x6B] (some [0x6B]), .getValue [0x76] none,
    .removeValue [0x76]]

/-- These calls can be followed. -/
theorem secureStorage_refines_followed :
    answersTo [] followedCalls = [none, some [0x76], none, none] ∧ ∃ secure pref,
      Machine.run (LocalSecureStorage.call device androidId) noPreferences followedCalls =
        some (answersTo [] followedCalls, secure) ∧
      Machine.run LocalStorage.call noPreferences followedCalls =
        some (answersTo [] followedCalls, pref) := by
  -- When the second key is removed, the first one is the only one that holds a value.
  refine ⟨by decide +kernel, secureStorage_refines device androidId followedCalls ?_⟩
  refine Machine.along_cons trivial rfl (Machine.along_cons (.inl ?_) rfl
    (Machine.along_cons (.inr rfl) rfl (Machine.along_cons ⟨?_, ?_⟩ rfl trivial)))
  · decide +kernel
  · decide +kernel
  · intro stored there
    by_cases own : stored = [0x6B]
    · subst own
      decide +kernel
    · exact absurd (Function.update_of_ne own _ _) there

/-- A value is removed and asked for, and a key that was never set is asked for with a default. -/
def strayCalls : List Call :=
  [.setValue [0x6B] [0x76], .removeValue [0x6B], .getValue [0x6B] none,
    .getValue [0x76] (some [0x6B])]

/-- The removed value is still there, and the default is not given. -/
theorem secureStorage_stray :
    (Machine.run (LocalSecureStorage.call device androidId) noPreferences strayCalls).map Prod.fst ≠
      (Machine.run LocalStorage.call noPreferences strayCalls).map Prod.fst := by
  decide +kernel

end Device

end AndroidApps.CommonLib
