import AndroidApps.Lib.Refinement
import AndroidApps.Lib.Utf8
import Mathlib.Logic.Function.Basic

/-! The local storage of an application, and the one that keeps its keys and values encrypted. -/

namespace AndroidApps.CommonLib

section SimpleCrypto

/--
What the classes of the platform do for `SimpleCrypto`.

Strings survive the conversion to bytes, and what AES encrypts under a key of 16 bytes it decrypts.
-/
structure Platform where
  getBytes : JString → List UInt8
  newString : List UInt8 → JString
  md5 : List UInt8 → List UInt8
  encrypt : List UInt8 → List UInt8 → List UInt8
  decrypt : List UInt8 → List UInt8 → Option (List UInt8)
  hexDigit : UInt16 → Option Nat
  newString_getBytes : ∀ text, newString (getBytes text) = text
  decrypt_encrypt : ∀ raw clear, raw.length = 16 → decrypt raw (encrypt raw clear) = some clear
  hexDigit_small : ∀ unit, unit < 0x80 → hexDigit unit = JString.asciiHexDigit unit

namespace SimpleCrypto

/-- `HEX`. -/
def hex : JString :=
  JString.ofChars ['0', '1', '2', '3', '4', '5', '6', '7', '8', '9', 'A', 'B', 'C', 'D', 'E', 'F']

/-- `appendHex`. -/
def appendHex (byte : UInt8) : JString :=
  [hex.getD (byte.toNat / 16) 0, hex.getD (byte.toNat % 16) 0]

/-- `toHex`. -/
def toHex (buf : List UInt8) : JString := buf.flatMap appendHex

/-- `byteValue`. -/
def byteValue (value : Int) : UInt8 := UInt8.ofNat (value % 256).toNat

variable (platform : Platform)

/-- `toByte`, two characters at a time; the last one of an odd number is not read. -/
def toByte : JString → Option (List UInt8)
  | high :: low :: rest => do
    let value ← JString.parseRadix 16 platform.hexDigit [high, low]
    let result ← toByte rest
    return byteValue value :: result
  | _ => some []

/-- `getRawKey`: 16 bytes of the digest, with the numbers of those that are missing. -/
def getRawKey (seed : List UInt8) : List UInt8 :=
  let digest := platform.md5 seed
  if 16 ≤ digest.length then digest.take 16
  else digest ++ (List.range' digest.length (16 - digest.length)).map UInt8.ofNat

/-- `encrypt`. -/
def encrypt (seed cleartext : JString) : JString :=
  toHex (platform.encrypt (getRawKey platform (platform.getBytes seed))
    (platform.getBytes cleartext))

/-- `decrypt`, unless an exception ends it. -/
def decrypt (seed encrypted : JString) : Option JString := do
  let enc ← toByte platform encrypted
  let result ← platform.decrypt (getRawKey platform (platform.getBytes seed)) enc
  return platform.newString result

end SimpleCrypto

end SimpleCrypto

section Storage

/-- The `SharedPreferences` of a storage. -/
abbrev Preferences := JString → Option JString

/-- The state of a storage before its first call. -/
def noPreferences : Preferences := fun _ => none

namespace LocalStorage

/-- `setValue`. -/
def setValue (pref : Preferences) (key value : JString) : Preferences :=
  Function.update pref key (some value)

/-- `getValue`, where `none` stands for null. -/
def getValue (pref : Preferences) (key : JString) (defValue : Option JString) : Option JString :=
  (pref key).or defValue

/-- `removeValue`. -/
def removeValue (pref : Preferences) (key : JString) : Preferences := Function.update pref key none

end LocalStorage

namespace LocalSecureStorage

/-- The default with which a key that is not there is told. -/
def notFoundKey : JString :=
  JString.ofChars ['n', 'o', 't', ' ', 'f', 'o', 'u', 'n', 'd', ' ', 'k', 'e', 'y']

variable (platform : Platform) (androidId : JString)

/-- `setValue`. -/
def setValue (pref : Preferences) (key value : JString) : Preferences :=
  LocalStorage.setValue pref (SimpleCrypto.encrypt platform androidId key)
    (SimpleCrypto.encrypt platform androidId value)

/-- `getValue`, which does not look at its default. -/
def getValue (pref : Preferences) (key : JString) (_defValue : Option JString) : Option JString :=
  match LocalStorage.getValue pref (SimpleCrypto.encrypt platform androidId key)
      (some notFoundKey) with
  | none => none
  | some eValue =>
    if eValue = notFoundKey then none else SimpleCrypto.decrypt platform androidId eValue

end LocalSecureStorage

/-- The calls on a storage, with keys and values that are not null. -/
inductive Call where
  | setValue (key value : JString)
  | getValue (key : JString) (defValue : Option JString)
  | removeValue (key : JString)
  deriving DecidableEq

/-- A call on a `LocalStorage`, with what it returns. -/
def LocalStorage.call (pref : Preferences) : Call → Option (Option JString × Preferences)
  | .setValue key value => some (none, setValue pref key value)
  | .getValue key defValue => some (getValue pref key defValue, pref)
  | .removeValue key => some (none, removeValue pref key)

/-- A call on a `LocalSecureStorage`, which inherits `removeValue`. -/
def LocalSecureStorage.call (platform : Platform) (androidId : JString) (pref : Preferences) :
    Call → Option (Option JString × Preferences)
  | .setValue key value => some (none, setValue platform androidId pref key value)
  | .getValue key defValue => some (getValue platform androidId pref key defValue, pref)
  | .removeValue key => some (none, LocalStorage.removeValue pref key)

end Storage

end AndroidApps.CommonLib
