import AndroidApps.Lib.JavaTextLaws
import AndroidApps.TouchClient.SocketClient

/-! Touch commands in a stream: they are told apart only when every read is one of them. -/

namespace AndroidApps.TouchClient

open JString (CharacterDigit ofBytes ofChars utf8 ascii IsAscii)

variable {digits : CharacterDigit}

section Receiving

/-- An element of an array is a number when it is there and can be read. -/
theorem intAt_eq_ok {value : List JString} {index : Nat} {number : Int} :
    intAt digits value index = .ok number ↔
      ∃ text, value[index]? = some text ∧ JString.parseInt digits.digit text = some number := by
  -- An element that is missing and one that cannot be read end in an error each.
  unfold intAt
  cases value[index]? with
  | none => simp
  | some text =>
    cases read : JString.parseInt digits.digit text with
    | none => simp [read]
    | some other => simp [read]

/-- What a message makes the thread do when it does not end it. -/
theorem receive_cases {message : JString} {calls : List Call}
    (received : receive digits message = .ok calls) :
    calls = [] ∨
      (∃ name, deviceNameWord <+: message ∧ (JString.split 0x3A message)[1]? = some name ∧
        calls = [.setTouchEventDeviceName (JString.trim name)]) ∨
      ∃ position first second x y, positionWord <+: message ∧
        (JString.split 0x3A message)[1]? = some position ∧
        (JString.split 0x2C position)[0]? = some first ∧
        (JString.split 0x2C position)[1]? = some second ∧
        JString.parseInt digits.digit first = some x ∧
        JString.parseInt digits.digit second = some y ∧ calls = [.touchDOWN x y, .touchUP] := by
  -- The keywords are tried in the order of the source. A message with neither does nothing, and one
  -- whose argument is missing or no number ends the thread.
  unfold receive at received
  simp only at received
  split at received
  · rename_i word
    cases token : (JString.split 0x3A message)[1]? with
    | none =>
      rw [token] at received
      cases received
    | some name =>
      rw [token] at received
      cases received
      exact .inr (.inl ⟨name, List.isPrefixOf_iff_prefix.mp word, rfl, rfl⟩)
  · split at received
    · rename_i word
      cases token : (JString.split 0x3A message)[1]? with
      | none =>
        rw [token] at received
        cases received
        exact .inl rfl
      | some position =>
        rw [token] at received
        cases left : intAt digits (JString.split 0x2C position) 0 with
        | error failure => simp [left, bind, Except.bind] at received
        | ok x =>
          cases right : intAt digits (JString.split 0x2C position) 1 with
          | error failure => simp [left, right, bind, Except.bind] at received
          | ok y =>
            simp only [left, right, bind, Except.bind, pure, Except.pure, Except.ok.injEq]
              at received
            obtain ⟨first, listed, read⟩ := intAt_eq_ok.mp left
            obtain ⟨second, listedSecond, readSecond⟩ := intAt_eq_ok.mp right
            exact .inr (.inr ⟨position, first, second, x, y, List.isPrefixOf_iff_prefix.mp word,
              rfl, listed, listedSecond, read, readSecond, received.symm⟩)
    · cases received
      exact .inl rfl

/-- The calls for one read. -/
def received (digits : CharacterDigit) (buffer : List UInt8) : List Call :=
  match receive digits (ofBytes buffer) with
  | .error _ => []
  | .ok calls => calls

/-- The first call for a command. -/
def Call.begins : Call → Bool
  | .touchUP => false
  | _ => true

/-- The calls for one command: a name is set, or a touch goes down and up. -/
def Paired (calls : List Call) : Prop :=
  (∃ name, calls = [.setTouchEventDeviceName name]) ∨ ∃ x y, calls = [.touchDOWN x y, .touchUP]

/-- The calls for one command begin it once. -/
theorem Paired.count {calls : List Call} (paired : Paired calls) :
    calls.countP Call.begins = 1 := by
  rcases paired with ⟨name, rfl⟩ | ⟨x, y, rfl⟩
  · rfl
  · rfl

/-- The calls for one command are told from those for the next. -/
theorem Paired.append_inj {calls others rest later : List Call} (paired : Paired calls)
    (pairedOthers : Paired others) (same : calls ++ rest = others ++ later) :
    calls = others ∧ rest = later := by
  -- The first call tells the two kinds of commands apart, and each kind makes a fixed number of
  -- calls.
  rcases paired with ⟨name, rfl⟩ | ⟨x, y, rfl⟩
  · rcases pairedOthers with ⟨other, rfl⟩ | ⟨x, y, rfl⟩
    · simpa using same
    · simp at same
  · rcases pairedOthers with ⟨other, rfl⟩ | ⟨x, y, rfl⟩
    · simp at same
    · simpa [and_assoc] using same

/-- A read that makes the thread do something begins with a keyword and has a colon. -/
theorem received_begins {buffer : List UInt8} (acts : received digits buffer ≠ []) :
    (ascii deviceNameWord <+: buffer ∨ ascii positionWord <+: buffer) ∧ 0x3A ∈ buffer ∧
      Paired (received digits buffer) := by
  unfold received at acts ⊢
  -- A text without a colon has one piece only.
  have colon {piece : JString} (second : (JString.split 0x3A (ofBytes buffer))[1]? = some piece) :
      0x3A ∈ buffer := by
    by_cases present : 0x3A ∈ ofBytes buffer
    · exact JString.mem_ofBytes (by decide) present
    · rw [JString.split_of_not_mem present] at second
      cases second
  cases outcome : receive digits (ofBytes buffer) with
  | error failure => simp [outcome] at acts
  | ok calls =>
    rcases receive_cases outcome with rfl | ⟨name, word, token, rfl⟩ |
      ⟨position, first, second, x, y, word, token, _, _, _, _, rfl⟩
    · simp [outcome] at acts
    · exact ⟨.inl ((JString.prefix_ofBytes (by decide)).mp word), colon token, .inl ⟨_, rfl⟩⟩
    · exact ⟨.inr ((JString.prefix_ofBytes (by decide)).mp word), colon token, .inr ⟨x, y, rfl⟩⟩

variable (digits) in
/-- A read begins no more commands than it has colons. -/
theorem received_count (buffer : List UInt8) :
    (received digits buffer).countP Call.begins ≤ buffer.count 0x3A := by
  -- A read that does something has its keyword in front of a colon, and makes the calls of one
  -- command.
  by_cases acts : received digits buffer = []
  · rw [acts]
    exact Nat.zero_le _
  · obtain ⟨_, colon, paired⟩ := received_begins acts
    rw [paired.count]
    exact List.count_pos_iff.mpr colon

variable (digits) in
/-- Reads begin no more commands than they have colons. -/
theorem flatMap_received_count (reads : List (List UInt8)) :
    (reads.flatMap (received digits)).countP Call.begins ≤ reads.flatten.count 0x3A := by
  induction reads with
  | nil => exact Nat.le_refl _
  | cons buffer reads ih =>
    rw [List.flatMap_cons, List.countP_append, List.flatten_cons, List.count_append]
    exact Nat.add_le_add (received_count digits buffer) ih

end Receiving

section Commands

/-- A device name: without colons, not ending in a blank, and without the replacement character. -/
structure DeviceName where
  chars : List Char
  noColon : ':' ∉ chars
  known : Char.ofNat 0xFFFD ∉ chars
  ends : ∃ front last, chars = front ++ [last] ∧ 0x20 < last.toNat

/-- A coordinate, as an `int`. -/
abbrev Coordinate := { value : Int // -2 ^ 31 ≤ value ∧ value < 2 ^ 31 }

/-- A well-formed command. -/
inductive Command where
  | deviceName (name : DeviceName)
  | position (x y : Coordinate)

namespace Command

/-- The text of a position: two numbers around a comma. -/
def positionText (x y : Int) : JString := JString.decimal x ++ 0x2C :: JString.decimal y

/-- The keyword of a command. -/
def word : Command → JString
  | deviceName _ => deviceNameWord
  | position _ _ => positionWord

/-- What a command has behind its colon. -/
def argument : Command → List UInt8
  | deviceName name => utf8 name.chars
  | position x y => ascii (positionText x y)

/-- The bytes of a command. -/
def bytes (command : Command) : List UInt8 := ascii command.word ++ 0x3A :: command.argument

/-- What a command asks for. -/
def calls : Command → List Call
  | deviceName name => [.setTouchEventDeviceName (JString.trim (ofChars name.chars))]
  | position x y => [.touchDOWN x y, .touchUP]

theorem word_ascii (command : Command) : IsAscii command.word := by
  cases command with
  | deviceName name => exact (by decide : IsAscii deviceNameWord)
  | position x y => exact (by decide : IsAscii positionWord)

theorem word_plain (command : Command) : 0x3A ∉ command.word := by
  cases command with
  | deviceName name => exact (by decide : 0x3A ∉ deviceNameWord)
  | position x y => exact (by decide : 0x3A ∉ positionWord)

/-- No keyword begins inside a keyword. -/
theorem word_drop (command : Command) {word : JString}
    (keyword : word = deviceNameWord ∨ word = positionWord) {j : Nat} (behind : 0 < j) :
    ¬ word <+: command.word.drop j := by
  have inside : ∀ word ∈ [deviceNameWord, positionWord], ∀ other ∈ [deviceNameWord, positionWord],
      ∀ j < 22, 0 < j → ¬ word <+: other.drop j := by decide +kernel
  have sizes : ∀ word ∈ [deviceNameWord, positionWord], word ≠ [] ∧ word.length < 22 := by decide
  have listed : word ∈ [deviceNameWord, positionWord] := by simpa using keyword
  have own : command.word ∈ [deviceNameWord, positionWord] := by
    cases command with
    | deviceName name => exact List.mem_cons_self
    | position x y => exact List.mem_cons_of_mem _ List.mem_cons_self
  rcases Nat.lt_or_ge j 22 with early | late
  · exact inside word listed _ own j early behind
  · -- Behind a keyword there is nothing left of it.
    rw [List.drop_eq_nil_of_le (Nat.le_trans (sizes _ own).2.le late), List.prefix_nil]
    exact (sizes word listed).1

/-- A text without colons at the start of another one ends before its first colon. -/
theorem prefix_of_colon {word text rest : JString} (plain : 0x3A ∉ word)
    (starts : word <+: text ++ 0x3A :: rest) : word <+: text := by
  -- Either the word ends within the text, or the colon is one of its units.
  rcases List.prefix_or_prefix_of_prefix starts (List.prefix_append text _) with
    inside | ⟨more, rfl⟩
  · exact inside
  · rw [List.prefix_append_right_inj] at starts
    cases more with
    | nil => simp
    | cons unit more =>
      obtain ⟨rfl, _⟩ := List.cons_prefix_cons.mp starts
      exact absurd (List.mem_append_right text List.mem_cons_self) plain

/-- The string of a text, a colon and what follows. -/
theorem ofBytes_colon {text : JString} (plain : IsAscii text) (rest : List UInt8) :
    ofBytes (ascii text ++ 0x3A :: rest) = text ++ 0x3A :: ofBytes rest := by
  have colon : ofBytes (0x3A :: rest) = 0x3A :: ofBytes rest :=
    JString.ofBytes_unit (show (0x3A : UInt16) < 0x80 by decide) [] rest
  rw [JString.ofBytes_ascii plain, colon]

/-- A text without colons has no byte of a colon. -/
theorem colon_of_ascii {text : JString} (plain : IsAscii text) (member : 0x3A ∈ ascii text) :
    0x3A ∈ text := by
  obtain ⟨unit, listed, same⟩ := List.mem_map.mp member
  have back := JString.toUInt16_toUInt8 (plain unit listed)
  have own : (0x3A : UInt8).toUInt16 = 0x3A := rfl
  rw [same, own] at back
  rwa [back]

/-- The units of a decimal text are below the colon and none of them is a comma. -/
theorem decimal_unit {value : Int} {unit : UInt16} (member : unit ∈ JString.decimal value) :
    unit < 0x3A ∧ unit ≠ 0x2C := by
  -- A unit is the sign or a digit.
  rcases JString.mem_decimal member with rfl | ⟨low, high⟩
  · decide
  · refine ⟨?_, ?_⟩
    · rw [UInt16.lt_iff_toNat_lt]
      exact Nat.lt_succ_of_le high
    · rintro rfl
      exact absurd low (by decide)

/-- The units of a position are below the colon. -/
theorem positionText_unit {x y : Int} {unit : UInt16} (member : unit ∈ positionText x y) :
    unit < 0x3A := by
  rw [positionText, List.mem_append, List.mem_cons] at member
  rcases member with first | rfl | second
  · exact (decimal_unit first).1
  · decide
  · exact (decimal_unit second).1

theorem positionText_ascii (x y : Int) : IsAscii (positionText x y) := by
  intro unit member
  exact UInt16.lt_trans (positionText_unit member) (by decide)

theorem positionText_plain (x y : Int) : 0x3A ∉ positionText x y :=
  fun member => absurd (positionText_unit member) (by decide)

theorem utf8_plain (name : DeviceName) : 0x3A ∉ utf8 name.chars := by
  intro member
  obtain ⟨ch, listed, byte⟩ := List.mem_flatMap.mp member
  have same := JString.utf8EncodeChar_mem (by decide) byte
  have colon : ch = ':' := Char.toNat_inj.mp same.symm
  exact name.noColon (colon ▸ listed)

theorem argument_plain (command : Command) : 0x3A ∉ command.argument := by
  cases command with
  | deviceName name => exact utf8_plain name
  | position x y =>
    exact fun member => positionText_plain x y (colon_of_ascii (positionText_ascii x y) member)

/-- The string of a name. -/
theorem ofBytes_name (name : DeviceName) : ofBytes (utf8 name.chars) = ofChars name.chars := by
  have whole := JString.ofBytes_utf8 name.chars []
  rw [List.append_nil] at whole
  rw [whole]
  exact List.append_nil _

/-- The last unit of a character that is not blank is not blank. -/
theorem utf16_last {value : Nat} (visible : 0x20 < value) :
    ∃ front last, JString.utf16 value = front ++ [last] ∧ JString.isBlank last = false := by
  unfold JString.utf16
  split
  · rename_i narrow
    refine ⟨[], _, rfl, ?_⟩
    rw [JString.isBlank, decide_eq_false_iff_not, UInt16.le_iff_toNat_le,
      UInt16.toNat_ofNat_of_lt' narrow]
    exact Nat.not_le.mpr visible
  · -- The second unit of a surrogate pair is a large one.
    refine ⟨[_], _, rfl, ?_⟩
    rw [JString.isBlank, decide_eq_false_iff_not, UInt16.le_iff_toNat_le,
      UInt16.toNat_ofNat_of_lt' (by simp only [UInt16.size]; omega), Nat.not_le]
    exact Nat.lt_of_lt_of_le (by decide) (Nat.le_add_right 0xDC00 _)

/-- The last unit of a name is not blank. -/
theorem name_last (name : DeviceName) :
    ∃ front last, ofChars name.chars = front ++ [last] ∧ JString.isBlank last = false := by
  obtain ⟨front, last, chars, visible⟩ := name.ends
  obtain ⟨units, unit, split, shown⟩ := utf16_last visible
  refine ⟨ofChars front ++ units, unit, ?_, shown⟩
  rw [chars, ofChars, List.flatMap_append, List.flatMap_singleton, split, ← List.append_assoc]
  rfl

/-- A name has no colon as a text either. -/
theorem ofChars_plain (name : DeviceName) : 0x3A ∉ ofChars name.chars := by
  rw [← ofBytes_name]
  exact fun member => utf8_plain name (JString.mem_ofBytes (by decide) member)

/-- A message for a name. -/
theorem receive_deviceName {text : JString} (plain : 0x3A ∉ text) (filled : text ≠ []) :
    receive digits (deviceNameWord ++ 0x3A :: text) =
      .ok [.setTouchEventDeviceName (JString.trim text)] := by
  have word : deviceNameWord.isPrefixOf (deviceNameWord ++ 0x3A :: text) = true :=
    List.isPrefixOf_iff_prefix.mpr (List.prefix_append _ _)
  simp only [receive, word, if_true,
    JString.split_two (show 0x3A ∉ deviceNameWord by decide) plain filled]
  rfl

/-- A message for a position. -/
theorem receive_position (x y : Coordinate) :
    receive digits (positionWord ++ 0x3A :: positionText x y) = .ok [.touchDOWN x y, .touchUP] := by
  -- The keyword is that of a position and not that of a name. The two numbers hold neither colons
  -- nor commas, so both splits give back what was put together.
  have word : positionWord.isPrefixOf (positionWord ++ 0x3A :: positionText x y) = true :=
    List.isPrefixOf_iff_prefix.mpr (List.prefix_append _ _)
  have other : deviceNameWord.isPrefixOf (positionWord ++ 0x3A :: positionText x y) = false := by
    rw [← Bool.not_eq_true, List.isPrefixOf_iff_prefix]
    intro starts
    exact absurd (prefix_of_colon (by decide) starts) (by decide)
  have filled : positionText x y ≠ [] := by simp [positionText]
  have values : JString.split 0x2C (positionText x y) = [JString.decimal x, JString.decimal y] :=
    JString.split_two (fun member => (decimal_unit member).2 rfl)
      (fun member => (decimal_unit member).2 rfl) (JString.decimal_ne_nil y)
  have left : intAt digits [JString.decimal x, JString.decimal y] 0 = .ok x.1 :=
    intAt_eq_ok.mpr ⟨_, rfl, JString.parseInt_decimal x.2⟩
  have right : intAt digits [JString.decimal x, JString.decimal y] 1 = .ok y.1 :=
    intAt_eq_ok.mpr ⟨_, rfl, JString.parseInt_decimal y.2⟩
  simp only [receive, word, other, if_true, Bool.false_eq_true, if_false,
    JString.split_two (show 0x3A ∉ positionWord by decide) (positionText_plain x y) filled,
    List.getElem?_cons_succ, List.getElem?_cons_zero, values, left, right]
  rfl

/-- A command in a read of its own does what it asks for. -/
theorem receive_bytes (command : Command) :
    receive digits (ofBytes command.bytes) = .ok command.calls := by
  -- The word in front of the colon decides the command, and the rest of the read is its argument.
  rw [bytes, ofBytes_colon command.word_ascii]
  cases command with
  | deviceName name =>
    obtain ⟨front, last, text, _⟩ := name_last name
    rw [argument, ofBytes_name]
    exact receive_deviceName (ofChars_plain name) (by simp [text])
  | position x y =>
    have string := JString.ofBytes_ascii (positionText_ascii x y) []
    rw [List.append_nil] at string
    rw [argument, string, show ofBytes [] = [] from rfl, List.append_nil]
    exact receive_position x y

/-- A text that has some units has a last one. -/
theorem ofChars_ne_nil {chars : List Char} (some : chars ≠ []) : ofChars chars ≠ [] := by
  obtain ⟨ch, others, rfl⟩ := List.exists_cons_of_ne_nil some
  rw [ofChars, List.flatMap_cons, JString.utf16]
  split
  · simp
  · simp

/-- What was read of a command, when its argument was cut or something follows it. -/
def Near (argument read : List UInt8) : Prop :=
  read <+: argument ∨ ∃ rest, read = argument ++ 0x54 :: rest

/-- A string without colons is its own second piece behind a keyword. -/
theorem piece_eq {word text piece : JString} (plainWord : 0x3A ∉ word) (plain : 0x3A ∉ text)
    (second : (JString.split 0x3A (word ++ 0x3A :: text))[1]? = some piece) : piece = text := by
  rw [JString.split_second plainWord second, List.takeWhile_eq_self_iff]
  intro unit member
  rw [bne_iff_ne]
  rintro rfl
  exact plain member

/-- Only all bytes of a name set it. -/
theorem name_exact (name : DeviceName) {read : List UInt8} (plain : 0x3A ∉ ofBytes read)
    (near : Near (utf8 name.chars) read)
    (same : receive digits (deviceNameWord ++ 0x3A :: ofBytes read) =
      .ok [.setTouchEventDeviceName (JString.trim (ofChars name.chars))]) :
    read = utf8 name.chars := by
  have trimmed : JString.trim (ofBytes read) = JString.trim (ofChars name.chars) := by
    rcases receive_cases same with
      none | ⟨piece, _, token, calls⟩ | ⟨_, _, _, _, _, _, _, _, _, _, _, calls⟩
    · cases none
    · rw [piece_eq (by decide) plain token] at calls
      injection calls with call
      injection call with names
      exact names.symm
    · cases calls
  obtain ⟨front, last, text, visible⟩ := name_last name
  rcases near with cut | ⟨rest, rfl⟩
  · obtain ⟨kept, lost, chars, ⟨bytes, string⟩ | string⟩ := JString.ofBytes_utf8_cut _ cut
    · -- Whole characters are missing: the last of them would not have been trimmed.
      by_cases nothing : lost = []
      · rw [nothing, List.append_nil] at chars
        rw [bytes, chars]
      · rcases List.eq_nil_or_concat (ofChars lost) with none | ⟨middle, unit, split⟩
        · exact absurd none (ofChars_ne_nil nothing)
        · have whole : ofChars name.chars = ofChars kept ++ middle ++ [unit] := by
            rw [chars, ofChars, List.flatMap_append, ← ofChars, ← ofChars, split,
              List.concat_eq_append, List.append_assoc]
          have own : unit = last := by
            rw [whole] at text
            exact (List.append_singleton_inj.mp text).2
          rw [string, whole, own] at trimmed
          exact absurd trimmed (JString.trim_ne_of_longer (ofChars kept) middle [] visible)
    · -- A character that is cut off is read as one that no name has.
      have replaced : JString.replacement ∈ ofBytes read := by
        rw [string]
        exact List.mem_append_right _ List.mem_cons_self
      have inside := JString.mem_trim replaced (by decide)
      rw [trimmed] at inside
      obtain ⟨ch, listed, unit⟩ := List.mem_flatMap.mp (JString.trim_subset _ inside)
      have unknown : ch = Char.ofNat 0xFFFD := Char.toNat_inj.mp (JString.replacement_mem unit)
      exact absurd (unknown ▸ listed) name.known
  · -- What follows the name would not have been trimmed either.
    have string : ofBytes (utf8 name.chars ++ 0x54 :: rest) =
        ofChars name.chars ++ [] ++ 0x54 :: ofBytes rest := by
      rw [List.append_nil, ← ofBytes_name]
      exact JString.ofBytes_unit (show (0x54 : UInt16) < 0x80 by decide) _ rest
    rw [string] at trimmed
    exact absurd trimmed.symm
      (JString.trim_ne_of_longer (ofChars name.chars) [] (ofBytes rest) (by decide))

/-- A position that is cut behind its comma is cut in its second number. -/
theorem positionText_cut {x y : Int} {text : JString} (comma : 0x2C ∈ text)
    (cut : text <+: positionText x y) :
    ∃ second, text = JString.decimal x ++ 0x2C :: second ∧ second <+: JString.decimal y := by
  -- The first number has no comma, so the cut is behind the one between the numbers.
  have plain : 0x2C ∉ JString.decimal x := fun member => (decimal_unit member).2 rfl
  rcases List.prefix_or_prefix_of_prefix cut (List.prefix_append _ _) with inside | ⟨more, rfl⟩
  · exact absurd (inside.subset comma) plain
  · rw [positionText, List.prefix_append_right_inj] at cut
    cases more with
    | nil => exact absurd (List.append_nil (JString.decimal x) ▸ comma) plain
    | cons unit second =>
      obtain ⟨rfl, shorter⟩ := List.cons_prefix_cons.mp cut
      exact ⟨second, rfl, shorter⟩

/-- Only all bytes of a position are a touch there. -/
theorem position_exact (x y : Coordinate) {read : List UInt8} (plain : 0x3A ∉ ofBytes read)
    (near : Near (ascii (positionText x y)) read)
    (same : receive digits (positionWord ++ 0x3A :: ofBytes read) =
      .ok [.touchDOWN x y, .touchUP]) : read = ascii (positionText x y) := by
  -- The second number is what stands behind the comma.
  obtain ⟨second, comma, listed, number⟩ : ∃ second, 0x2C ∈ ofBytes read ∧
      (JString.split 0x2C (ofBytes read))[1]? = some second ∧
      JString.parseInt digits.digit second = some y.1 := by
    rcases receive_cases same with none | ⟨_, _, _, calls⟩ |
      ⟨piece, first, second, x', y', _, token, _, listed, _, number, calls⟩
    · cases none
    · cases calls
    · rw [piece_eq (by decide) plain token] at listed
      injection calls with call
      injection call with _ own
      refine ⟨second, ?_, listed, own ▸ number⟩
      by_contra absent
      rw [JString.split_of_not_mem absent] at listed
      cases listed
  have plainFirst : 0x2C ∉ JString.decimal x.1 := fun member => (decimal_unit member).2 rfl
  rcases near with cut | ⟨rest, rfl⟩
  · obtain ⟨text, shorter, rfl⟩ := List.prefix_map_iff.mp cut
    have string := JString.ofBytes_ascii
      (fun unit member => positionText_ascii x y unit (shorter.subset member)) []
    rw [List.append_nil, show ofBytes [] = [] from rfl, List.append_nil, ascii] at string
    rw [string] at comma listed
    obtain ⟨behind, rfl, cutSecond⟩ := positionText_cut comma shorter
    have all : second = behind := by
      rw [JString.split_second plainFirst listed, List.takeWhile_eq_self_iff]
      intro unit member
      rw [bne_iff_ne]
      rintro rfl
      exact (decimal_unit (cutSecond.subset member)).2 rfl
    rw [all] at number
    rw [JString.parseInt_decimal_cut cutSecond number]
    rfl
  · -- A number with a letter behind it is none.
    have letter : digits.digit 0x54 = none := digits.small 0x54 (by decide)
    have string : ofBytes (ascii (positionText x y) ++ 0x54 :: rest) =
        JString.decimal x ++ 0x2C :: (JString.decimal y ++ 0x54 :: ofBytes rest) := by
      have head : ofBytes (0x54 :: rest) = 0x54 :: ofBytes rest :=
        JString.ofBytes_unit (show (0x54 : UInt16) < 0x80 by decide) [] rest
      rw [JString.ofBytes_ascii (positionText_ascii x y), head, positionText, List.append_assoc,
        List.cons_append]
    rw [string] at listed
    have goes : second = JString.decimal y ++ 0x54 :: (ofBytes rest).takeWhile (· != 0x2C) := by
      rw [JString.split_second plainFirst listed, List.takeWhile_append_of_pos]
      · rfl
      · intro unit member
        exact bne_iff_ne.mpr (decimal_unit member).2
    rw [goes, JString.parseInt_decimal_letter y.1 letter] at number
    cases number

/-- Only all bytes of an argument do what the command asks for. -/
theorem argument_exact (command : Command) {read : List UInt8} (plain : 0x3A ∉ read)
    (near : Near command.argument read)
    (same : receive digits (ofBytes (ascii command.word ++ 0x3A :: read)) = .ok command.calls) :
    read = command.argument := by
  have plainText : 0x3A ∉ ofBytes read := fun member =>
    plain (JString.mem_ofBytes (by decide) member)
  rw [ofBytes_colon command.word_ascii] at same
  cases command with
  | deviceName name => exact name_exact name plainText near same
  | position x y => exact position_exact x y plainText near same

end Command

end Commands

section Streams

/-- A command begins with the first letter of its keyword. -/
theorem Command.bytes_head (command : Command) : ∃ rest, command.bytes = 0x54 :: rest := by
  cases command with
  | deviceName name => exact ⟨_, rfl⟩
  | position x y => exact ⟨_, rfl⟩

theorem Command.calls_paired (command : Command) : Paired command.calls := by
  cases command with
  | deviceName name => exact .inl ⟨_, rfl⟩
  | position x y => exact .inr ⟨x, y, rfl⟩

theorem Command.bytes_count (command : Command) : command.bytes.count 0x3A = 1 := by
  have word : (ascii command.word).count 0x3A = 0 :=
    List.count_eq_zero.mpr fun member =>
      command.word_plain (colon_of_ascii command.word_ascii member)
  have argument : command.argument.count 0x3A = 0 := List.count_eq_zero.mpr command.argument_plain
  rw [bytes, List.count_append, List.count_cons_self, word, argument]

/-- Commands ask for as many beginnings as there are commands. -/
theorem flatMap_calls_count (commands : List Command) :
    (commands.flatMap Command.calls).countP Call.begins = commands.length := by
  induction commands with
  | nil => rfl
  | cons command commands ih =>
    rw [List.flatMap_cons, List.countP_append, command.calls_paired.count, ih, List.length_cons,
      Nat.add_comm]

/-- A stream of commands has as many colons as there are commands. -/
theorem flatMap_bytes_count (commands : List Command) :
    (commands.flatMap Command.bytes).count 0x3A = commands.length := by
  induction commands with
  | nil => rfl
  | cons command commands ih =>
    rw [List.flatMap_cons, List.count_append, command.bytes_count, ih, List.length_cons,
      Nat.add_comm]

/-- What is read behind a colon is cut off, or goes on with the next command. -/
theorem near_of_append {command : Command} {commands : List Command} {read rest : List UInt8}
    (whole : read ++ rest = command.argument ++ commands.flatMap Command.bytes) :
    Command.Near command.argument read := by
  rcases List.append_eq_append_iff.mp whole with ⟨lost, cut, _⟩ | ⟨more, longer, follows⟩
  · exact .inl ⟨lost, cut.symm⟩
  · cases more with
    | nil => exact .inl ⟨[], by rw [longer]; simp⟩
    | cons byte more =>
      -- The next command begins with its keyword.
      cases commands with
      | nil => cases follows
      | cons next commands =>
        obtain ⟨tail, head⟩ := next.bytes_head
        rw [List.flatMap_cons, head, List.cons_append, List.cons_append] at follows
        exact .inr ⟨more, by rw [longer, (List.cons.inj follows).1]⟩

/-- A read that begins inside a keyword does nothing. -/
theorem received_late (command : Command) {j : Nat} (behind : 0 < j) (rest : List UInt8) :
    received digits (ascii (command.word.drop j) ++ 0x3A :: rest) = [] := by
  by_contra acts
  have plain : IsAscii (command.word.drop j) :=
    fun unit member => command.word_ascii unit ((List.drop_sublist j _).mem member)
  -- The keyword would have to begin inside another one, and end before the colon.
  rcases (received_begins acts).1 with first | second
  · rw [← JString.prefix_ofBytes (by decide), Command.ofBytes_colon plain] at first
    exact command.word_drop (.inl rfl) behind (Command.prefix_of_colon (by decide) first)
  · rw [← JString.prefix_ofBytes (by decide), Command.ofBytes_colon plain] at second
    exact command.word_drop (.inr rfl) behind (Command.prefix_of_colon (by decide) second)

/-- A read inside a keyword has no colon, and leaves less of the keyword. -/
theorem cut_keyword (command : Command) {j : Nat} {buffer lost : List UInt8}
    (cut : ascii (command.word.drop j) = buffer ++ lost) :
    buffer.count 0x3A = 0 ∧ lost = ascii (command.word.drop (j + buffer.length)) := by
  -- A keyword has no colon, and what is cut off it is its end.
  constructor
  · refine List.count_eq_zero.mpr fun member => ?_
    have listed : 0x3A ∈ ascii command.word := by
      have shorter := (List.drop_sublist j command.word).map UInt16.toUInt8
      exact shorter.mem (by rw [← ascii, cut]; exact List.mem_append_left lost member)
    exact command.word_plain (Command.colon_of_ascii command.word_ascii listed)
  · rw [← List.drop_drop, ascii, List.map_drop, ← ascii, cut, List.drop_left]

variable (digits) in
/-- Once a keyword is cut off, the reads begin no more commands than there are behind it. -/
theorem late_count (command : Command) (rest : List UInt8) :
    ∀ (reads : List (List UInt8)) {j : Nat},
    0 < j → reads.flatten = ascii (command.word.drop j) ++ 0x3A :: rest →
      (reads.flatMap (received digits)).countP Call.begins ≤ rest.count 0x3A := by
  -- The induction is on the reads. While they are inside the keyword they have no colon and do
  -- nothing. The read with the colon has lost the start of the keyword and does nothing either, so
  -- only the colons behind it are left.
  intro reads
  induction reads with
  | nil =>
    intro j behind whole
    simp at whole
  | cons buffer reads ih =>
    intro j behind whole
    rw [List.flatten_cons] at whole
    rw [List.flatMap_cons, List.countP_append]
    have inside {lost : List UInt8} (cut : ascii (command.word.drop j) = buffer ++ lost)
        (later : reads.flatten = lost ++ 0x3A :: rest) :
        (received digits buffer).countP Call.begins +
          (reads.flatMap (received digits)).countP Call.begins ≤ rest.count 0x3A := by
      obtain ⟨plain, left⟩ := cut_keyword command cut
      have none := received_count digits buffer
      have others := ih (Nat.add_pos_left behind buffer.length) (left ▸ later)
      omega
    rcases List.append_eq_append_iff.mp whole with ⟨lost, cut, later⟩ | ⟨more, longer, later⟩
    · exact inside cut later
    · cases more with
      | nil =>
        rw [List.append_nil] at longer
        exact inside (show _ = buffer ++ [] by rw [longer, List.append_nil]) later.symm
      | cons byte more =>
        rw [List.cons_append, List.cons.injEq] at later
        obtain ⟨rfl, split⟩ := later
        have others := flatMap_received_count digits reads
        rw [longer, received_late command behind, split, List.count_append]
        simp only [List.countP_nil]
        omega

/-- Reads of a stream that do what its commands ask for are its commands. -/
theorem reads_eq : ∀ (commands : List Command) (reads : List (List UInt8)),
    (∀ buffer ∈ reads, buffer ≠ []) → reads.flatten = commands.flatMap Command.bytes →
      (∀ buffer ∈ reads, ∃ calls, receive digits (ofBytes buffer) = .ok calls) →
      reads.flatMap (received digits) = commands.flatMap Command.calls →
      reads = commands.map Command.bytes := by
  intro commands
  induction commands with
  | nil =>
    intro reads filled whole _ _
    cases reads with
    | nil => rfl
    | cons buffer reads =>
      have empty := List.append_eq_nil_iff.mp whole
      exact absurd empty.1 (filled buffer List.mem_cons_self)
  | cons command commands ih =>
    intro reads filled whole accepted same
    have total := congrArg (List.countP Call.begins) same
    rw [flatMap_calls_count, List.length_cons] at total
    have behind : (command.argument ++ commands.flatMap Command.bytes).count 0x3A =
        commands.length := by
      rw [List.count_append, List.count_eq_zero.mpr command.argument_plain, flatMap_bytes_count,
        Nat.zero_add]
    cases reads with
    | nil => simp at total
    | cons buffer reads =>
      rw [List.flatMap_cons, Command.bytes, List.append_assoc, List.cons_append] at whole
      rw [List.flatMap_cons, List.countP_append] at total
      have own := received_count digits buffer
      -- A first read that ends inside the keyword loses the command.
      have cutOff {lost : List UInt8} (cut : ascii (command.word.drop 0) = buffer ++ lost)
          (later : reads.flatten = lost ++
            0x3A :: (command.argument ++ commands.flatMap Command.bytes)) : False := by
        obtain ⟨plain, left⟩ := cut_keyword command cut
        have some := List.length_pos_iff.mpr (filled buffer List.mem_cons_self)
        have others := late_count digits command _ reads (Nat.add_pos_right 0 some)
          (left ▸ later)
        omega
      rcases List.append_eq_append_iff.mp whole with ⟨lost, cut, later⟩ | ⟨more, longer, later⟩
      · exact (cutOff cut later).elim
      cases more with
      | nil =>
        rw [List.append_nil] at longer
        exact (cutOff (show _ = buffer ++ [] by rw [longer, List.append_nil]; rfl) later.symm).elim
      | cons byte read =>
        rw [List.cons_append, List.cons.injEq] at later
        obtain ⟨rfl, split⟩ := later
        have others := flatMap_received_count digits reads
        rw [split, List.count_append] at behind
        -- The first read has to begin a command, and may not take the colon of another one.
        have acts : received digits buffer ≠ [] := by
          intro nothing
          rw [nothing, List.countP_nil] at total
          omega
        have paired := (received_begins acts).2.2
        rw [paired.count] at total
        have plain : 0x3A ∉ read := List.count_eq_zero.mp (by omega)
        rw [List.flatMap_cons, List.flatMap_cons] at same
        obtain ⟨first, later⟩ := paired.append_inj command.calls_paired same
        obtain ⟨calls, answer⟩ := accepted buffer List.mem_cons_self
        have asked : receive digits (ofBytes buffer) = .ok command.calls := by
          rw [← first, received, answer]
        have all : read = command.argument :=
          command.argument_exact plain (near_of_append split.symm) (longer ▸ asked)
        rw [all, List.append_cancel_left_eq] at split
        rw [List.map_cons, longer, all, ← Command.bytes,
          ih reads (fun other member => filled other (List.mem_cons_of_mem buffer member))
            split.symm
            (fun other member => accepted other (List.mem_cons_of_mem buffer member)) later]

end Streams

section Segmentation

/-- A way in which a stream of commands is delivered in reads. -/
structure Delivery (commands : List Command) where
  reads : List (List UInt8)
  sized : ∀ buffer ∈ reads, 1 ≤ buffer.length ∧ buffer.length ≤ 1024
  whole : reads.flatten = commands.flatMap Command.bytes

/-- The thread does what it does when every command is a read, and no exception ends it. -/
def Survives (digits : CharacterDigit) (result : List JString) {commands : List Command}
    (delivery : Delivery commands) : Prop :=
  (run digits result delivery.reads).calls =
    (run digits result (commands.map Command.bytes)).calls ∧
    (run digits result delivery.reads).failure = none

/-- A thread whose messages are all accepted makes the calls for all of them. -/
theorem serve_of_accepted : ∀ (reads : List (List UInt8)) (touchEvent : TouchEvent),
    (∀ buffer ∈ reads, ∃ calls, receive digits (ofBytes buffer) = .ok calls) →
      (serve digits touchEvent reads).calls = reads.flatMap (received digits) ∧
        (serve digits touchEvent reads).failure = none := by
  -- The induction is on the reads. The calls do not depend on what the earlier ones have done to
  -- the touch event.
  intro reads
  induction reads with
  | nil =>
    intro touchEvent _
    exact ⟨rfl, rfl⟩
  | cons buffer reads ih =>
    intro touchEvent accepted
    obtain ⟨⟨calls, answer⟩, later⟩ := List.forall_mem_cons.mp accepted
    obtain ⟨same, none⟩ := ih (touchEvent.performAll calls).2 later
    simp only [serve, answer]
    refine ⟨?_, none⟩
    rw [same, List.flatMap_cons, received, answer]

/-- A thread that no exception ends has accepted all messages. -/
theorem accepted_of_serve : ∀ (reads : List (List UInt8)) (touchEvent : TouchEvent),
    (serve digits touchEvent reads).failure = none →
      ∀ buffer ∈ reads, ∃ calls, receive digits (ofBytes buffer) = .ok calls := by
  -- The induction is on the reads: the first message that is not accepted would end the thread.
  intro reads
  induction reads with
  | nil =>
    intro touchEvent _ buffer member
    cases member
  | cons buffer reads ih =>
    intro touchEvent ended
    cases answer : receive digits (ofBytes buffer) with
    | error failure => simp [serve, answer] at ended
    | ok calls =>
      simp only [serve, answer] at ended
      exact List.forall_mem_cons.mpr ⟨⟨calls, answer⟩, ih _ ended⟩

/-- Commands in reads of their own are all accepted. -/
theorem accepted_bytes (commands : List Command) :
    ∀ buffer ∈ commands.map Command.bytes,
      ∃ calls, receive digits (ofBytes buffer) = .ok calls := by
  intro buffer member
  obtain ⟨command, _, rfl⟩ := List.mem_map.mp member
  exact ⟨command.calls, command.receive_bytes⟩

/-- Commands in reads of their own do what they ask for. -/
theorem flatMap_received_bytes (commands : List Command) :
    (commands.map Command.bytes).flatMap (received digits) = commands.flatMap Command.calls := by
  rw [List.flatMap_map]
  refine List.flatMap_congr fun command _ => ?_
  rw [received, command.receive_bytes]

/-- Commands survive segmentation only when the thread is idle or every read is a command. -/
theorem survives_iff (digits : CharacterDigit) (result : List JString) {commands : List Command}
    (delivery : Delivery commands) :
    Survives digits result delivery ↔
      TouchEvent.isEnable result = false ∨ delivery.reads = commands.map Command.bytes := by
  -- A thread that no exception ends makes the calls of its reads one by one, so the calls of the
  -- commands are what the reads have to add up to.
  unfold Survives run
  cases enabled : TouchEvent.isEnable result with
  | false => simp
  | true =>
    simp only [if_true, Bool.true_eq_false, false_or]
    have acceptedAlone : ∀ buffer ∈ commands.map Command.bytes, ∃ calls,
        receive digits (ofBytes buffer) = .ok calls := accepted_bytes commands
    obtain ⟨alone, ended⟩ := serve_of_accepted _ ⟨none, true⟩ acceptedAlone
    rw [flatMap_received_bytes] at alone
    constructor
    · rintro ⟨same, ended⟩
      have accepted := accepted_of_serve _ _ ended
      rw [(serve_of_accepted _ _ accepted).1, alone] at same
      refine reads_eq commands delivery.reads (fun buffer member empty => ?_)
        delivery.whole accepted
        same
      have some := (delivery.sized buffer member).1
      rw [empty] at some
      cases some
    · intro own
      rw [own]
      exact ⟨rfl, ended⟩

/-- `Character.digit` as far as these examples need it. -/
def plainDigits : CharacterDigit := ⟨JString.asciiDigit, CharacterDigit.ascii.small⟩

/-- A name and a position. -/
def twoCommands : List Command :=
  [.deviceName ⟨['/', 'd', 'e', 'v'], by decide, by decide, ['/', 'd', 'e'], 'v', rfl, by decide⟩,
    .position ⟨100, by decide⟩ ⟨200, by decide⟩]

/-- The two commands, each in a read of its own. -/
def ownReads : Delivery twoCommands :=
  ⟨twoCommands.map Command.bytes, by decide +kernel, by decide +kernel⟩

/-- Two commands in two reads survive. -/
theorem survives_ownReads : Survives plainDigits [TouchEvent.usage] ownReads :=
  (survives_iff plainDigits [TouchEvent.usage] ownReads).mpr (.inr rfl)

/-- A position of which the last digit comes later. -/
def cutReads : Delivery [.position ⟨1, by decide⟩ ⟨20, by decide⟩] :=
  ⟨[ascii (positionWord ++ 0x3A :: [0x31, 0x2C, 0x32]), [0x30]], by decide +kernel,
    by decide +kernel⟩

/-- The touch then goes down at another place. -/
theorem survives_cutReads : ¬ Survives plainDigits [TouchEvent.usage] cutReads := by
  intro survives
  exact absurd survives.1 (by decide +kernel)

end Segmentation

end AndroidApps.TouchClient
