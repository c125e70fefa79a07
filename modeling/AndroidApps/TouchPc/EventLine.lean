import AndroidApps.TouchPc.TouchEventHistory

/-! Which lines of `getevent` are recorded: the numbers of an event in the radix 16. -/

namespace AndroidApps.TouchPc

section Model

/-- The line that is printed for an event of a device. -/
def eventLine (path : JString) (type code : UInt16) (value : Int32) : JString :=
  path ++ [0x3A] ++ 0x20 :: (JString.hexText 4 type.toNat ++ 0x20 ::
    (JString.hexText 4 code.toNat ++ 0x20 :: JString.hexText 8 value.toUInt32.toNat))

/-- What is recorded of the path of a device. -/
def devName (path : JString) : JString := JString.trim (path.filter (· != 0x3A))

variable (digits : JString.CharacterHexDigit)

/-- The line of an event adds one entry to a recording, with its numbers. -/
def Records (history : TouchEventHistory) (now : Int) (path : JString) (type code : UInt16)
    (value : Int32) : Prop :=
  (history.line digits.digit (eventLine path type code value) now).historyDatas =
    history.historyDatas ++ [⟨eventText (devName path) type.toNat code.toNat value.toInt, now⟩]

end Model

section Names

/-- The name of a device does not depend on blanks in front of its path. -/
theorem devName_dropWhile (path : JString) :
    JString.trim ((path.dropWhile JString.isBlank ++ [0x3A]).filter (· != 0x3A)) =
      devName path := by
  -- The colon goes, and what is left begins with the same blanks or with none.
  have whole : path.filter (· != 0x3A) =
      (path.takeWhile JString.isBlank).filter (· != 0x3A) ++
        (path.dropWhile JString.isBlank).filter (· != 0x3A) := by
    rw [← List.filter_append, List.takeWhile_append_dropWhile]
  rw [devName, whole, JString.trim_blanks, List.filter_append]
  · simp
  · intro unit member
    exact List.mem_takeWhile_imp (List.mem_filter.mp member).1

/-- The path of a device without colons and blanks is recorded as it is. -/
theorem devName_plain {path : JString} (colons : 0x3A ∉ path)
    (blanks : ∀ unit ∈ path, JString.isBlank unit = false) : devName path = path := by
  have kept : path.filter (· != 0x3A) = path := by
    refine List.filter_eq_self.mpr fun unit member => ?_
    simpa using fun same : unit = 0x3A => colons (same ▸ member)
  rw [devName, kept]
  cases path with
  | nil => rfl
  | cons first rest =>
    -- Neither the first unit nor the last one is a blank.
    have last := blanks _ (List.getLast_mem (List.cons_ne_nil first rest))
    rw [JString.trim_of_visible (blanks first List.mem_cons_self), List.rdropWhile_eq_self_iff]
    simp [last]

end Names

section Reading

variable (digits : JString.CharacterHexDigit)

/-- The value of an event is read unless it is below -1. -/
theorem eventValue_hexText (value : Int32) :
    eventValue digits.digit (JString.hexText 8 value.toUInt32.toNat) =
      if -1 ≤ value.toInt then some value.toInt else none := by
  have signed : value.toInt = if 2 * value.toUInt32.toNat < 2 ^ 32 then
      (value.toUInt32.toNat : Int) else (value.toUInt32.toNat : Int) - 2 ^ 32 :=
    BitVec.toInt_eq_toNat_cond value.toBitVec
  have bound : value.toUInt32.toNat < 16 ^ 8 := value.toUInt32.toNat_lt
  have allOnes : JString.ofString "ffffffff" = JString.hexText 8 (2 ^ 32 - 1) := by
    rw [JString.ofString_ofList]
    decide
  have parsed : JString.parseRadix 16 digits.digit (JString.hexText 8 value.toUInt32.toNat) =
      JString.checked (value.toUInt32.toNat : Int) := by
    rw [JString.parseRadix_hexText digits (by decide), Nat.mod_eq_of_lt bound]
  have ones : JString.hexText 8 value.toUInt32.toNat = JString.hexText 8 (2 ^ 32 - 1) ↔
      value.toUInt32.toNat = 2 ^ 32 - 1 := by
    constructor
    · intro same
      have equal := JString.hexText_inj same
      omega
    · intro same
      rw [same]
  rw [eventValue, allOnes, parsed, if_congr ones rfl rfl, JString.checked]
  generalize value.toUInt32.toNat = bits at signed bound
  -- The bits stand for a number from 0 on, for -1, or for what is too large to be read.
  by_cases all : bits = 2 ^ 32 - 1
  · have minusOne : value.toInt = -1 := by
      rw [signed, if_neg (by omega)]
      omega
    rw [if_pos all, minusOne, if_pos (by decide)]
  · rw [if_neg all]
    by_cases small : 2 * bits < 2 ^ 32
    · rw [if_pos small] at signed
      rw [signed, if_pos (by omega), if_pos (by omega)]
    · rw [if_neg small] at signed
      rw [if_neg (by omega), if_neg (by omega)]

/-- Numbers of 16 bits are read as they are. -/
theorem parseRadix_word (word : UInt16) :
    JString.parseRadix 16 digits.digit (JString.hexText 4 word.toNat) =
      some (word.toNat : Int) := by
  have bound : word.toNat < 16 ^ 4 := word.toNat_lt
  rw [JString.parseRadix_hexText digits (by decide), Nat.mod_eq_of_lt bound, JString.checked,
    if_pos (by omega)]

/-- A line is cut into the device and the three numbers. -/
theorem split_eventLine {path : JString} (plain : 0x20 ∉ path) (type code : UInt16)
    (value : Int32) :
    JString.split 0x20 (eventLine path type code value) =
      [path ++ [0x3A], JString.hexText 4 type.toNat, JString.hexText 4 code.toNat,
        JString.hexText 8 value.toUInt32.toNat] := by
  -- No part holds a space, and the last one is not empty.
  have digitsPlain (width number : Nat) : 0x20 ∉ JString.hexText width number := by
    intro member
    obtain ⟨digit, same⟩ := JString.mem_hexText member
    have above := (JString.hexUnit_small digit).2.1
    rw [← same] at above
    contradiction
  have joined : eventLine path type code value = [0x20].intercalate
      ([path ++ [0x3A], JString.hexText 4 type.toNat, JString.hexText 4 code.toNat] ++
        [JString.hexText 8 value.toUInt32.toNat]) := by
    simp [eventLine, List.intercalate]
  have filled : JString.hexText 8 value.toUInt32.toNat ≠ [] := by
    intro empty
    simpa [empty] using JString.hexText_length 8 value.toUInt32.toNat
  rw [joined]
  refine JString.split_intercalate (List.cons_ne_nil _ _) ?_ filled
  simp [digitsPlain, plain]

/-- Only blanks in front of the path are trimmed off a line. -/
theorem trim_eventLine (path : JString) (type code : UInt16) (value : Int32) :
    JString.trim (eventLine path type code value) =
      eventLine (path.dropWhile JString.isBlank) type code value := by
  have visible := (JString.hexUnit_small
    ⟨value.toUInt32.toNat % 16, Nat.mod_lt _ (by decide)⟩).2.2.1
  -- The last digit is taken off the value, so that the line ends with it.
  have ends (front : JString) : eventLine front type code value =
      front ++ 0x3A :: (0x20 :: (JString.hexText 4 type.toNat ++ 0x20 ::
        (JString.hexText 4 code.toNat ++ 0x20 ::
          JString.hexText 7 (value.toUInt32.toNat / 16))) ++
        [JString.hexUnit (value.toUInt32.toNat % 16)]) := by
    simp [eventLine, JString.hexText]
  rw [ends, ends, JString.trim_visible _ _ (by decide) visible]

/-- A line is recorded with its numbers unless its value is below -1. -/
theorem readCallback_eventLine {path : JString} (plain : 0x20 ∉ path) (type code : UInt16)
    (value : Int32) :
    readCallback digits.digit (eventLine path type code value) =
      if -1 ≤ value.toInt then some (eventText (devName path) type.toNat code.toNat value.toInt)
      else none := by
  -- Three numbers are read, of which only the value can be refused.
  have less : 0x20 ∉ path.dropWhile JString.isBlank :=
    fun member => plain ((List.dropWhile_suffix _).subset member)
  have long : ¬ (eventLine (path.dropWhile JString.isBlank) type code value).length < 1 := by
    simp [eventLine]
  simp only [readCallback, trim_eventLine, if_neg long, split_eventLine less, parseRadix_word,
    eventValue_hexText, devName_dropWhile]
  split
  · rfl
  · rfl

/-- An event is recorded as it is exactly if its value is not below -1. -/
theorem readCallback_records_iff {path : JString} (history : TouchEventHistory) (now : Int)
    (plain : 0x20 ∉ path) (type code : UInt16) (value : Int32) :
    Records digits history now path type code value ↔ -1 ≤ value.toInt := by
  rw [Records, TouchEventHistory.line, readCallback_eventLine digits plain]
  by_cases read : -1 ≤ value.toInt
  · rw [if_pos read]
    exact iff_of_true rfl read
  · -- Nothing is added to the recording.
    rw [if_neg read]
    exact iff_of_false (fun same => by simpa using congrArg List.length same) read

/-- The path of a device. -/
def eventPath : JString := JString.ofString "/dev/input/event0"

theorem eventPath_plain : 0x20 ∉ eventPath := by
  rw [eventPath, JString.ofString_ofList]
  decide

/-- A position of 512 on a screen. -/
theorem readCallback_records_position :
    Records .ascii .new 0 eventPath 3 0x35 512 ↔ -1 ≤ (512 : Int32).toInt :=
  readCallback_records_iff .ascii .new 0 eventPath_plain 3 0x35 512

/-- A value of -2 is printed as fffffffe, and the line is dropped. -/
theorem readCallback_minusTwo : ¬ Records .ascii .new 0 eventPath 3 0x35 (-2) := by
  rw [Records, TouchEventHistory.line, readCallback_eventLine .ascii eventPath_plain]
  decide

end Reading

end AndroidApps.TouchPc
