import AndroidApps.Lib.JavaText

/-! The bytes of a string in UTF-8, and the string that is read from any bytes. -/

namespace AndroidApps.JString

section Decoding

/-- The units of a character. -/
def utf16 (value : Nat) : JString :=
  if value < 0x10000 then [UInt16.ofNat value]
  else [UInt16.ofNat (0xD800 + (value - 0x10000) / 0x400 % 0x400),
    UInt16.ofNat (0xDC00 + (value - 0x10000) % 0x400)]

/-- The unit that stands for bytes which are no character. -/
def replacement : UInt16 := 0xFFFD

/--
The first bytes of a character: how many more than one are missing, and between which bounds the
next one has to be.

No character below 0x80 is written in more than one byte.
-/
structure Pending where
  missing : Nat
  value : Nat
  low : Nat
  high : Nat
  further : 0x80 ≤ low
  large : 0x80 ≤ (value * 64 + (low - 0x80)) * 64 ^ missing

/-- The first byte of a character of several bytes. -/
def lead (byte : Nat) : Option Pending :=
  if two : 0xC2 ≤ byte ∧ byte ≤ 0xDF then
    some ⟨0, byte - 0xC0, 0x80, 0xBF, by decide, by omega⟩
  else if byte = 0xE0 then some ⟨1, 0, 0xA0, 0xBF, by decide, by decide⟩
  else if byte = 0xED then some ⟨1, 0xD, 0x80, 0x9F, by decide, by decide⟩
  else if three : 0xE1 ≤ byte ∧ byte ≤ 0xEF then
    some ⟨1, byte - 0xE0, 0x80, 0xBF, by decide, by omega⟩
  else if byte = 0xF0 then some ⟨2, 0, 0x90, 0xBF, by decide, by decide⟩
  else if four : 0xF1 ≤ byte ∧ byte ≤ 0xF3 then
    some ⟨2, byte - 0xF0, 0x80, 0xBF, by decide, by omega⟩
  else if byte = 0xF4 then some ⟨2, 4, 0x80, 0x8F, by decide, by decide⟩
  else none

/-- A byte with which no character is under way. -/
def start (byte : UInt8) : JString × Option Pending :=
  if byte < 0x80 then ([byte.toUInt16], none)
  else match lead byte.toNat with
    | some pending => ([], some pending)
    | none => ([replacement], none)

/-- A character under way that is long enough stays so with its next byte. -/
theorem Pending.large_next (pending : Pending) {byte missing : Nat} (inside : pending.low ≤ byte)
    (count : pending.missing = missing + 1) :
    0x80 ≤ ((pending.value * 64 + (byte - 0x80)) * 64 + (0x80 - 0x80)) * 64 ^ missing := by
  -- The next byte can only raise the value, and its place moves up by six bits.
  have large := pending.large
  rw [count, Nat.pow_succ'] at large
  have grown : pending.value * 64 + (pending.low - 0x80) ≤ pending.value * 64 + (byte - 0x80) := by
    omega
  calc 0x80 ≤ (pending.value * 64 + (pending.low - 0x80)) * (64 * 64 ^ missing) := large
    _ ≤ (pending.value * 64 + (byte - 0x80)) * (64 * 64 ^ missing) := Nat.mul_le_mul_right _ grown
    _ = ((pending.value * 64 + (byte - 0x80)) * 64 + (0x80 - 0x80)) * 64 ^ missing := by
      rw [Nat.sub_self, Nat.add_zero, Nat.mul_assoc]

/-- The next byte: what it completes, and the character that is under way behind it. -/
def feed : Option Pending → UInt8 → JString × Option Pending
  | none, byte => start byte
  | some pending, byte =>
    if inside : pending.low ≤ byte.toNat ∧ byte.toNat ≤ pending.high then
      let value := pending.value * 64 + (byte.toNat - 0x80)
      match count : pending.missing with
      | 0 => (utf16 value, none)
      | missing + 1 =>
        ([], some ⟨missing, value, 0x80, 0xBF, by decide, pending.large_next inside.1 count⟩)
    else
      -- The bytes so far are replaced together, and the next one begins anew.
      (replacement :: (start byte).1, (start byte).2)

/-- The string of the bytes behind those of a character under way. -/
def decodeFrom : Option Pending → List UInt8 → JString
  | none, [] => []
  | some _, [] => [replacement]
  | state, byte :: rest => (feed state byte).1 ++ decodeFrom (feed state byte).2 rest

/-- `new String` on bytes in UTF-8. -/
def ofBytes (bytes : List UInt8) : JString := decodeFrom none bytes

end Decoding

section Ascii

/-- The bytes of a text whose units are all below 0x80. -/
def ascii (text : JString) : List UInt8 := text.map UInt16.toUInt8

/-- Whether a text has one byte for each unit. -/
def IsAscii (text : JString) : Prop := ∀ unit ∈ text, unit < 0x80

instance (text : JString) : Decidable (IsAscii text) :=
  -- Only the units of the text are looked at, not all there are.
  List.decidableBAll (fun unit : UInt16 => unit < 0x80) text

theorem toUInt16_toUInt8 {unit : UInt16} (small : unit < 0x80) : unit.toUInt8.toUInt16 = unit := by
  have bound := UInt16.lt_iff_toNat_lt.mp small
  rw [← UInt16.toNat_inj, UInt8.toNat_toUInt16, UInt16.toNat_toUInt8]
  exact Nat.mod_eq_of_lt (Nat.lt_trans bound (by decide))

theorem toUInt8_lt {unit : UInt16} (small : unit < 0x80) : unit.toUInt8 < 0x80 := by
  have bound := UInt16.lt_iff_toNat_lt.mp small
  rw [UInt8.lt_iff_toNat_lt, UInt16.toNat_toUInt8]
  exact Nat.lt_of_le_of_lt (Nat.mod_le _ _) bound

/-- A large character has no unit below 0x80. -/
theorem utf16_large {value : Nat} (large : 0x80 ≤ value) {unit : UInt16}
    (member : unit ∈ utf16 value) : ¬ unit < 0x80 := by
  intro small
  have bound : unit.toNat < 0x80 := UInt16.lt_iff_toNat_lt.mp small
  unfold utf16 at member
  split at member
  · rename_i narrow
    rw [List.mem_singleton.mp member, UInt16.toNat_ofNat_of_lt' narrow] at bound
    omega
  · -- The units of a surrogate pair are between 0xD800 and 0xDFFF.
    simp only [List.mem_cons, List.not_mem_nil, or_false] at member
    rcases member with rfl | rfl
    · rw [UInt16.toNat_ofNat_of_lt' (by simp only [UInt16.size]; omega)] at bound
      omega
    · rw [UInt16.toNat_ofNat_of_lt' (by simp only [UInt16.size]; omega)] at bound
      omega

/-- What a byte begins. -/
theorem start_cases (byte : UInt8) :
    (byte < 0x80 ∧ start byte = ([byte.toUInt16], none)) ∨
      (¬ byte < 0x80 ∧ ((∃ pending, start byte = ([], some pending)) ∨
        start byte = ([replacement], none))) := by
  -- A byte from 0x80 on begins a character of several bytes, or is replaced.
  unfold start
  split
  · rename_i small
    exact .inl ⟨small, rfl⟩
  · rename_i large
    split
    · rename_i pending _
      exact .inr ⟨large, .inl ⟨pending, rfl⟩⟩
    · exact .inr ⟨large, .inr rfl⟩

/-- What a byte does to a character under way. -/
theorem feed_cases (pending : Pending) (byte : UInt8) :
    (∃ value, 0x80 ≤ value ∧ feed (some pending) byte = (utf16 value, none)) ∨
      (∃ next, feed (some pending) byte = ([], some next)) ∨
      feed (some pending) byte = (replacement :: (start byte).1, (start byte).2) := by
  simp only [feed]
  split
  · rename_i inside
    split
    · rename_i count
      -- The bytes so far vouch for a large character.
      have large := pending.large
      rw [count, Nat.pow_zero, Nat.mul_one] at large
      exact .inl ⟨_, by omega, rfl⟩
    · exact .inr (.inl ⟨_, rfl⟩)
  · exact .inr (.inr rfl)

/-- A byte below 0x80 ends what is under way, and stands for itself. -/
theorem feed_small (state : Option Pending) {byte : UInt8} (small : byte < 0x80) :
    feed state byte = (decodeFrom state [] ++ [byte.toUInt16], none) := by
  -- No byte below 0x80 continues a character, so that one under way is replaced first.
  have begins : start byte = ([byte.toUInt16], none) := by rw [start, if_pos small]
  cases state with
  | none => simp only [feed, decodeFrom, begins, List.nil_append]
  | some pending =>
    have further := pending.further
    have bound : byte.toNat < 0x80 := UInt8.lt_iff_toNat_lt.mp small
    simp only [feed, decodeFrom, begins]
    rw [dif_neg (by omega)]
    rfl

/-- A byte below 0x80 splits the string of the bytes around it. -/
theorem decodeFrom_small {byte : UInt8} (small : byte < 0x80) (after : List UInt8) :
    ∀ (before : List UInt8) (state : Option Pending), decodeFrom state (before ++ byte :: after) =
      decodeFrom state before ++ byte.toUInt16 :: decodeFrom none after := by
  -- Whatever state the bytes before lead to, this byte ends it.
  intro before
  induction before with
  | nil =>
    intro state
    rw [List.nil_append, decodeFrom, feed_small state small, List.append_assoc]
    rfl
  | cons first rest ih =>
    intro state
    rw [List.cons_append, decodeFrom, decodeFrom, ih, List.append_assoc]

/-- The string of a character under way begins with a unit that is not below 0x80. -/
theorem decodeFrom_pending (bytes : List UInt8) : ∀ pending : Pending,
    ∃ unit rest, decodeFrom (some pending) bytes = unit :: rest ∧ ¬ unit < 0x80 := by
  -- The induction follows the bytes that go on with the character, up to the one that ends it.
  induction bytes with
  | nil =>
    intro pending
    exact ⟨replacement, [], rfl, by decide⟩
  | cons byte bytes ih =>
    intro pending
    rw [decodeFrom]
    rcases feed_cases pending byte with ⟨value, large, fed⟩ | ⟨next, fed⟩ | fed
    · rw [fed]
      have first : ∃ unit rest, utf16 value = unit :: rest := by
        unfold utf16
        split
        · exact ⟨_, _, rfl⟩
        · exact ⟨_, _, rfl⟩
      obtain ⟨unit, rest, units⟩ := first
      refine ⟨unit, rest ++ _, by rw [units]; rfl, utf16_large large ?_⟩
      rw [units]
      exact List.mem_cons_self
    · rw [fed]
      exact ih next
    · rw [fed]
      exact ⟨replacement, _, rfl, by decide⟩

/-- A unit below 0x80 that a byte begins with is this byte. -/
theorem start_mem {byte : UInt8} {unit : UInt16} (member : unit ∈ (start byte).1)
    (small : unit < 0x80) : unit.toUInt8 = byte := by
  -- Only a byte below 0x80 gives a unit below 0x80 at once.
  rcases start_cases byte with ⟨_, begun⟩ | ⟨_, ⟨pending, begun⟩ | begun⟩
  · rw [begun, List.mem_singleton] at member
    rw [member, UInt8.toUInt8_toUInt16]
  · rw [begun] at member
    cases member
  · rw [begun, List.mem_singleton] at member
    exact absurd (member ▸ small) (by decide)

/-- A unit below 0x80 that a byte completes is this byte. -/
theorem feed_mem {state : Option Pending} {byte : UInt8} {unit : UInt16}
    (member : unit ∈ (feed state byte).1) (small : unit < 0x80) : unit.toUInt8 = byte := by
  -- A completed character is not below 0x80, and neither is the replacement.
  cases state with
  | none => exact start_mem member small
  | some pending =>
    rcases feed_cases pending byte with ⟨value, large, fed⟩ | ⟨next, fed⟩ | fed
    · rw [fed] at member
      exact absurd small (utf16_large large member)
    · rw [fed] at member
      cases member
    · rw [fed, List.mem_cons] at member
      rcases member with rfl | later
      · exact absurd small (by decide)
      · exact start_mem later small

/-- A unit below 0x80 of a string is one of its bytes. -/
theorem decodeFrom_mem {unit : UInt16} (small : unit < 0x80) (bytes : List UInt8) :
    ∀ state, unit ∈ decodeFrom state bytes → unit.toUInt8 ∈ bytes := by
  -- Each unit comes out while one byte is fed, and a small one is this byte.
  induction bytes with
  | nil =>
    intro state member
    cases state with
    | none => cases member
    | some pending =>
      rw [List.mem_singleton.mp member] at small
      exact absurd small (by decide)
  | cons byte bytes ih =>
    intro state member
    rw [decodeFrom, List.mem_append] at member
    rcases member with here | later
    · rw [feed_mem here small]
      exact List.mem_cons_self
    · exact List.mem_cons_of_mem byte (ih _ later)

/-- A unit below 0x80 of a string is one of its bytes. -/
theorem mem_ofBytes {unit : UInt16} (small : unit < 0x80) {bytes : List UInt8}
    (member : unit ∈ ofBytes bytes) : unit.toUInt8 ∈ bytes :=
  decodeFrom_mem small bytes none member

/-- The byte of a unit below 0x80 splits the string of the bytes around it. -/
theorem ofBytes_unit {unit : UInt16} (small : unit < 0x80) (before after : List UInt8) :
    ofBytes (before ++ unit.toUInt8 :: after) = ofBytes before ++ unit :: ofBytes after := by
  rw [ofBytes, decodeFrom_small (toUInt8_lt small), toUInt16_toUInt8 small]
  rfl

/-- Bytes below 0x80 stand for themselves at the start of a string. -/
theorem ofBytes_ascii {text : JString} (plain : IsAscii text) (rest : List UInt8) :
    ofBytes (ascii text ++ rest) = text ++ ofBytes rest := by
  -- One unit at a time, since such a byte leaves nothing under way.
  induction text with
  | nil => rfl
  | cons unit text ih =>
    have head := ofBytes_unit (plain unit List.mem_cons_self) [] (ascii text ++ rest)
    have tail := ih fun other member => plain other (List.mem_cons_of_mem unit member)
    rw [tail] at head
    exact head

/-- A string begins with a text of units below 0x80 when its bytes do. -/
theorem prefix_ofBytes {text : JString} (plain : IsAscii text) :
    ∀ {bytes : List UInt8}, text <+: ofBytes bytes ↔ ascii text <+: bytes := by
  induction text with
  | nil => simp [ascii]
  | cons unit text ih =>
    intro bytes
    obtain ⟨small, others⟩ := List.forall_mem_cons.mp plain
    cases bytes with
    | nil => simp [ofBytes, decodeFrom, ascii]
    | cons byte bytes =>
      by_cases single : byte < 0x80
      · -- The first byte is the first unit.
        have head : ofBytes (byte :: bytes) = byte.toUInt16 :: ofBytes bytes := by
          rw [ofBytes, decodeFrom, feed_small none single]
          rfl
        rw [head, ascii, List.map_cons, List.cons_prefix_cons, List.cons_prefix_cons, ih others,
          ascii]
        refine and_congr_left fun _ => ⟨?_, ?_⟩
        · intro same
          rw [same, UInt8.toUInt8_toUInt16]
        · intro same
          rw [← same, toUInt16_toUInt8 small]
      · -- Neither can begin with a unit below 0x80.
        have head : ∃ first rest, ofBytes (byte :: bytes) = first :: rest ∧ ¬ first < 0x80 := by
          rw [ofBytes, decodeFrom, feed]
          rcases start_cases byte with ⟨below, _⟩ | ⟨_, ⟨pending, begun⟩ | begun⟩
          · exact absurd below single
          · rw [begun]
            exact decodeFrom_pending bytes pending
          · rw [begun]
            exact ⟨replacement, _, rfl, by decide⟩
        obtain ⟨first, rest, string, large⟩ := head
        rw [string, ascii, List.map_cons, List.cons_prefix_cons, List.cons_prefix_cons]
        constructor
        · rintro ⟨rfl, _⟩
          exact absurd small large
        · rintro ⟨rfl, _⟩
          exact absurd (toUInt8_lt small) single

end Ascii

section Characters

/-- The units of a text. -/
def ofChars (chars : List Char) : JString := chars.flatMap fun ch => utf16 ch.toNat

/-- The units of a literal. -/
def ofString (text : String) : JString := ofChars text.toList

/-- A literal is the list of its characters, which need not be decoded. -/
theorem ofString_ofList (chars : List Char) : ofString (String.ofList chars) = ofChars chars := by
  rw [ofString, String.toList_ofList]

/-- The bytes of a text. -/
def utf8 (chars : List Char) : List UInt8 := chars.flatMap String.utf8EncodeChar

/-- Bytes that complete a character under way. -/
def Fits (pending : Pending) : List UInt8 → Prop
  | [] => False
  | byte :: rest => (pending.low ≤ byte.toNat ∧ byte.toNat ≤ pending.high) ∧
      rest.length = pending.missing ∧ ∀ other ∈ rest, 0x80 ≤ other.toNat ∧ other.toNat ≤ 0xBF

/-- The character that some bytes complete. -/
def completed (pending : Pending) (bytes : List UInt8) : Nat :=
  bytes.foldl (fun value byte => value * 64 + (byte.toNat - 0x80)) pending.value

/-- The last byte of a character completes it. -/
theorem feed_last {pending : Pending} {byte : UInt8} (fits : Fits pending [byte]) :
    feed (some pending) byte = (utf16 (completed pending [byte]), none) := by
  -- Nothing is missing behind this byte, so that the character comes out.
  obtain ⟨inside, count, _⟩ := fits
  simp only [feed]
  rw [dif_pos inside]
  split
  · rfl
  · rename_i missing more
    simp [more] at count

/-- Another byte of a character leaves those behind it to complete the character. -/
theorem feed_another {pending : Pending} {byte other : UInt8} {rest : List UInt8}
    (fits : Fits pending (byte :: other :: rest)) :
    ∃ next, feed (some pending) byte = ([], some next) ∧ Fits next (other :: rest) ∧
      completed next (other :: rest) = completed pending (byte :: other :: rest) := by
  -- The value takes in six more bits, and one byte less is missing.
  obtain ⟨inside, count, further⟩ := fits
  obtain ⟨first, others⟩ := List.forall_mem_cons.mp further
  simp only [feed]
  rw [dif_pos inside]
  split
  · rename_i none
    simp [none] at count
  · rename_i missing more
    refine ⟨_, rfl, ⟨first, ?_, others⟩, ?_⟩
    · simpa [more] using count
    · simp only [completed, List.foldl_cons]

/-- The bytes that complete a character stand for it. -/
theorem decodeFrom_fits (rest : List UInt8) : ∀ (bytes : List UInt8) {pending : Pending},
    Fits pending bytes → decodeFrom (some pending) (bytes ++ rest) =
      utf16 (completed pending bytes) ++ decodeFrom none rest := by
  -- All bytes but the last one go on with the character, and the last one completes it.
  intro bytes
  induction bytes with
  | nil =>
    intro pending fits
    cases fits
  | cons byte bytes ih =>
    intro pending fits
    rw [List.cons_append, decodeFrom]
    cases bytes with
    | nil =>
      rw [feed_last fits, List.nil_append]
    | cons other bytes =>
      obtain ⟨next, fed, fitsNext, same⟩ := feed_another fits
      rw [fed, ih fitsNext, same, List.nil_append]

/-- Less bytes than complete a character are replaced. -/
theorem decodeFrom_cut : ∀ (bytes cut : List UInt8) {pending : Pending}, Fits pending bytes →
    cut <+: bytes → cut ≠ bytes → decodeFrom (some pending) cut = [replacement] := by
  -- The bytes that are there go on with the character, and its end is missing.
  intro bytes
  induction bytes with
  | nil =>
    intro cut pending fits
    cases fits
  | cons byte bytes ih =>
    intro cut pending fits shorter less
    cases cut with
    | nil => rfl
    | cons first cut =>
      obtain ⟨rfl, tail⟩ := List.cons_prefix_cons.mp shorter
      rw [decodeFrom]
      cases bytes with
      | nil =>
        rw [List.prefix_nil.mp tail] at less
        exact absurd rfl less
      | cons other bytes =>
        obtain ⟨next, fed, fitsNext, _⟩ := feed_another fits
        rw [fed, ih cut fitsNext tail (fun same => less (by rw [same])), List.nil_append]

/-- What the first byte of a character says of the others. -/
def Begins (byte missing value next : Nat) : Prop :=
  ∃ pending, lead byte = some pending ∧ pending.missing = missing ∧ pending.value = value ∧
    pending.low ≤ next ∧ next ≤ pending.high

/-- The first of two bytes. -/
theorem begins_two {value : Nat} (large : 0x80 ≤ value) (small : value ≤ 0x7FF) :
    Begins (value / 64 % 32 + 0xC0) 0 (value / 64) (value % 64 + 0x80) := by
  unfold Begins lead
  rw [dif_pos (by omega)]
  exact ⟨_, rfl, rfl, by simp only; omega, by simp only; omega, by simp only; omega⟩

/-- The first of three bytes, of which some leave less room to the second. -/
theorem begins_three {value : Nat} (large : 0x800 ≤ value) (small : value ≤ 0xFFFF)
    (valid : value < 0xD800 ∨ 0xDFFF < value) :
    Begins (value / 4096 % 16 + 0xE0) 1 (value / 4096) (value / 64 % 64 + 0x80) := by
  -- The two first bytes with less room are those that would allow short forms and surrogates.
  unfold Begins lead
  rw [dif_neg (by omega)]
  split
  · exact ⟨_, rfl, rfl, by simp only; omega, by simp only; omega, by simp only; omega⟩
  split
  · exact ⟨_, rfl, rfl, by simp only; omega, by simp only; omega, by simp only; omega⟩
  rw [dif_pos (by omega)]
  exact ⟨_, rfl, rfl, by simp only; omega, by simp only; omega, by simp only; omega⟩

/-- The first of four bytes, of which some leave less room to the second. -/
theorem begins_four {value : Nat} (large : 0x10000 ≤ value) (small : value < 0x110000) :
    Begins (value / 262144 % 8 + 0xF0) 2 (value / 262144) (value / 4096 % 64 + 0x80) := by
  -- The two first bytes with less room are those at the ends of the range.
  unfold Begins lead
  rw [dif_neg (by omega), if_neg (by omega), if_neg (by omega), dif_neg (by omega)]
  split
  · exact ⟨_, rfl, rfl, by simp only; omega, by simp only; omega, by simp only; omega⟩
  split
  · exact ⟨_, rfl, rfl, by simp only; omega, by simp only; omega, by simp only; omega⟩
  rw [if_pos (by omega)]
  exact ⟨_, rfl, rfl, by simp only; omega, by simp only; omega, by simp only; omega⟩

/-- The bytes of a character of several bytes: the first one begins what the others complete. -/
structure Several (bytes : List UInt8) (value : Nat) (byte : UInt8) (rest : List UInt8)
    (pending : Pending) : Prop where
  split : bytes = byte :: rest
  high : ¬ byte < 0x80
  begins : lead byte.toNat = some pending
  fits : Fits pending rest
  value : completed pending rest = value

/-- A first byte and as many others as it says are the bytes of a character. -/
theorem Begins.several {byte missing value next : Nat} (begins : Begins byte missing value next)
    (high : 0x80 ≤ byte ∧ byte < 256) (small : next < 256) {others : List Nat}
    (count : others.length = missing) (further : ∀ other ∈ others, 0x80 ≤ other ∧ other ≤ 0xBF) :
    ∃ first rest pending, Several (UInt8.ofNat byte :: UInt8.ofNat next :: others.map UInt8.ofNat)
      (others.foldl (fun value other => value * 64 + (other - 0x80)) (value * 64 + (next - 0x80)))
      first rest pending := by
  obtain ⟨pending, begun, enough, value', low, up⟩ := begins
  have number {number : Nat} (small : number < 256) : (UInt8.ofNat number).toNat = number :=
    UInt8.toNat_ofNat_of_lt' small
  refine ⟨_, _, pending, rfl, ?_, ?_, ⟨⟨?_, ?_⟩, ?_, ?_⟩, ?_⟩
  · rw [UInt8.lt_iff_toNat_lt, number high.2]
    exact Nat.not_lt.mpr high.1
  · rw [number high.2, begun]
  · rwa [number small]
  · rwa [number small]
  · rw [List.length_map, count, enough]
  · intro other member
    obtain ⟨value, listed, rfl⟩ := List.mem_map.mp member
    obtain ⟨above, below⟩ := further value listed
    rw [number (by omega)]
    exact ⟨above, below⟩
  · -- The others keep their values as bytes.
    have kept : ∀ {others : List Nat} {value : Nat},
      (∀ other ∈ others, 0x80 ≤ other ∧ other ≤ 0xBF) →
        (others.map UInt8.ofNat).foldl (fun value byte => value * 64 + (byte.toNat - 0x80)) value =
          others.foldl (fun value other => value * 64 + (other - 0x80)) value := by
      intro others
      induction others with
      | nil => intros; rfl
      | cons other others ih =>
        intro value further
        obtain ⟨first, later⟩ := List.forall_mem_cons.mp further
        rw [List.map_cons, List.foldl_cons, List.foldl_cons, number (by omega), ih later]
    rw [completed, List.foldl_cons, kept further, value', number small]

/-- A character is one byte below 0x80, or several bytes. -/
theorem utf8EncodeChar_cases (ch : Char) :
    (ch.toNat < 0x80 ∧ String.utf8EncodeChar ch = [UInt8.ofNat ch.toNat]) ∨
      ∃ byte rest pending, Several (String.utf8EncodeChar ch) ch.toNat byte rest pending := by
  -- The four widths of the encoding are looked at one by one.
  have valid : ch.toNat < 0xD800 ∨ 0xDFFF < ch.toNat ∧ ch.toNat < 0x110000 := ch.valid
  have same : ch.val.toNat = ch.toNat := rfl
  unfold String.utf8EncodeChar
  simp only [same]
  generalize ch.toNat = value at valid
  split
  · exact .inl ⟨by omega, rfl⟩
  split
  · have bytes := (begins_two (by omega) ‹value ≤ 0x7FF›).several (by omega) (by omega)
      (show [].length = 0 from rfl) (by simp)
    have whole : value / 64 * 64 + (value % 64 + 0x80 - 0x80) = value := by omega
    rw [List.foldl_nil, whole] at bytes
    exact .inr bytes
  split
  · have bytes := (begins_three (by omega) ‹value ≤ 0xFFFF› (by omega)).several (by omega)
      (by omega)
      (show [value % 64 + 0x80].length = 1 from rfl) (by simp; omega)
    have whole : (value / 4096 * 64 + (value / 64 % 64 + 0x80 - 0x80)) * 64 +
        (value % 64 + 0x80 - 0x80) = value := by omega
    rw [List.foldl_cons, List.foldl_nil, whole] at bytes
    exact .inr bytes
  · have bytes := (begins_four (show 0x10000 ≤ value by omega) (by omega)).several (by omega)
      (by omega)
      (show [value / 64 % 64 + 0x80, value % 64 + 0x80].length = 2 from rfl) (by simp; omega)
    have whole : ((value / 262144 * 64 + (value / 4096 % 64 + 0x80 - 0x80)) * 64 +
        (value / 64 % 64 + 0x80 - 0x80)) * 64 + (value % 64 + 0x80 - 0x80) = value := by omega
    rw [List.foldl_cons, List.foldl_cons, List.foldl_nil, whole] at bytes
    exact .inr bytes

/-- The bytes of a character stand for it, whatever is behind them. -/
theorem ofBytes_char (ch : Char) (rest : List UInt8) :
    ofBytes (String.utf8EncodeChar ch ++ rest) = utf16 ch.toNat ++ ofBytes rest := by
  -- A single byte stands for itself, and several ones complete what the first of them begins.
  rcases utf8EncodeChar_cases ch with ⟨small, bytes⟩ | ⟨byte, others, pending, several⟩
  · have single : UInt8.ofNat ch.toNat < 0x80 := by
      rw [UInt8.lt_iff_toNat_lt, UInt8.toNat_ofNat_of_lt' (Nat.lt_trans small (by decide))]
      exact small
    have unit : (UInt8.ofNat ch.toNat).toUInt16 = UInt16.ofNat ch.toNat := by
      rw [← UInt16.toNat_inj, UInt8.toNat_toUInt16,
        UInt8.toNat_ofNat_of_lt' (Nat.lt_trans small (by decide)),
        UInt16.toNat_ofNat_of_lt' (Nat.lt_trans small (by decide))]
    rw [bytes, utf16, if_pos (Nat.lt_trans small (by decide)), ofBytes, List.cons_append,
      decodeFrom, feed_small none single, unit]
    rfl
  · have begun : start byte = ([], some pending) := by
      rw [start, if_neg several.high, several.begins]
    rw [several.split, ofBytes, List.cons_append, decodeFrom, feed, begun, List.nil_append,
      decodeFrom_fits rest others several.fits, several.value]
    rfl

/-- A character that is cut off is replaced. -/
theorem ofBytes_char_cut {ch : Char} {cut : List UInt8} (shorter : cut <+: String.utf8EncodeChar ch)
    (some : cut ≠ []) (less : cut ≠ String.utf8EncodeChar ch) : ofBytes cut = [replacement] := by
  -- A single byte cannot be cut, and of several ones the first begins what is then not completed.
  obtain ⟨first, cut, rfl⟩ := List.exists_cons_of_ne_nil some
  rcases utf8EncodeChar_cases ch with ⟨_, bytes⟩ | ⟨byte, others, pending, several⟩
  · rw [bytes] at shorter less
    obtain ⟨rfl, tail⟩ := List.cons_prefix_cons.mp shorter
    rw [List.prefix_nil.mp tail] at less
    exact absurd rfl less
  · rw [several.split] at shorter less
    obtain ⟨rfl, tail⟩ := List.cons_prefix_cons.mp shorter
    have begun : start first = ([], Option.some pending) := by
      rw [start, if_neg several.high, several.begins]
    rw [ofBytes, decodeFrom, feed, begun, List.nil_append,
      decodeFrom_cut others cut several.fits tail (fun same => less (by rw [same]))]

/-- The bytes of a text stand for it, whatever is behind them. -/
theorem ofBytes_utf8 (chars : List Char) (rest : List UInt8) :
    ofBytes (utf8 chars ++ rest) = ofChars chars ++ ofBytes rest := by
  induction chars with
  | nil => rfl
  | cons ch chars ih =>
    rw [utf8, List.flatMap_cons, List.append_assoc, ofBytes_char, ← utf8, ih, ofChars, ofChars,
      List.flatMap_cons, List.append_assoc]

/-- The first bytes of a text stand for its first characters, and for one that is cut off. -/
theorem ofBytes_utf8_cut (chars : List Char) : ∀ {bytes : List UInt8}, bytes <+: utf8 chars →
    ∃ front back, chars = front ++ back ∧
      ((bytes = utf8 front ∧ ofBytes bytes = ofChars front) ∨
        ofBytes bytes = ofChars front ++ [replacement]) := by
  induction chars with
  | nil =>
    intro bytes shorter
    rw [List.prefix_nil.mp shorter]
    exact ⟨[], [], rfl, .inl ⟨rfl, rfl⟩⟩
  | cons ch chars ih =>
    intro bytes shorter
    rw [utf8, List.flatMap_cons] at shorter
    rcases List.prefix_or_prefix_of_prefix shorter (List.prefix_append _ _) with inside | beyond
    · by_cases whole : bytes = String.utf8EncodeChar ch
      · refine ⟨[ch], chars, rfl, .inl ⟨by rw [whole, utf8, List.flatMap_singleton], ?_⟩⟩
        have string := ofBytes_char ch []
        rw [List.append_nil, ← whole] at string
        rw [string, ofChars, List.flatMap_singleton]
        exact List.append_nil _
      · by_cases some : bytes = []
        · subst some
          exact ⟨[], ch :: chars, rfl, .inl ⟨rfl, rfl⟩⟩
        · exact ⟨[], ch :: chars, rfl, .inr (ofBytes_char_cut inside some whole)⟩
    · -- The first character is whole, and the others are cut.
      obtain ⟨later, rfl⟩ := beyond
      rw [List.prefix_append_right_inj] at shorter
      obtain ⟨front, back, split, read⟩ := ih shorter
      refine ⟨ch :: front, back, by rw [split]; rfl, ?_⟩
      rw [ofBytes_char, utf8, ofChars, List.flatMap_cons, List.flatMap_cons, ← utf8, ← ofChars,
        List.append_assoc]
      rcases read with ⟨bytes, string⟩ | string
      · rw [string, bytes]
        exact .inl ⟨rfl, rfl⟩
      · rw [string]
        exact .inr rfl

/-- A byte below 0x80 of a character is the character. -/
theorem utf8EncodeChar_mem {ch : Char} {byte : UInt8} (small : byte < 0x80)
    (member : byte ∈ String.utf8EncodeChar ch) : byte.toNat = ch.toNat := by
  rcases utf8EncodeChar_cases ch with ⟨narrow, bytes⟩ | ⟨first, others, pending, several⟩
  · rw [bytes, List.mem_singleton] at member
    rw [member, UInt8.toNat_ofNat_of_lt' (Nat.lt_trans narrow (by decide))]
  · have bound : byte.toNat < 0x80 := UInt8.lt_iff_toNat_lt.mp small
    have fits := several.fits
    rw [several.split] at member
    rcases List.mem_cons.mp member with rfl | later
    · exact absurd small several.high
    · -- Every byte behind the first one has its upper bit set.
      cases others with
      | nil => cases later
      | cons second others =>
        obtain ⟨inside, _, further⟩ := fits
        have low := pending.further
        rcases List.mem_cons.mp later with rfl | last
        · omega
        · have := (further byte last).1
          omega

/-- Only the replacement character has its unit. -/
theorem replacement_mem {ch : Char} (member : replacement ∈ utf16 ch.toNat) :
    ch.toNat = 0xFFFD := by
  -- The halves of a surrogate pair lie below the replacement character.
  unfold utf16 at member
  split at member
  · rename_i narrow
    have value := congrArg UInt16.toNat (List.mem_singleton.mp member)
    rw [UInt16.toNat_ofNat_of_lt' narrow] at value
    exact value.symm
  · simp only [List.mem_cons, List.not_mem_nil, or_false] at member
    rcases member with high | low
    · have value := congrArg UInt16.toNat high
      rw [UInt16.toNat_ofNat_of_lt' (by simp only [UInt16.size]; omega)] at value
      have own : replacement.toNat = 0xFFFD := rfl
      omega
    · have value := congrArg UInt16.toNat low
      rw [UInt16.toNat_ofNat_of_lt' (by simp only [UInt16.size]; omega)] at value
      have own : replacement.toNat = 0xFFFD := rfl
      omega

end Characters

end AndroidApps.JString
