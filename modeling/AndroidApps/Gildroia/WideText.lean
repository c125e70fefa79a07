import AndroidApps.Gildroia.TextStore
import AndroidApps.Lib.Ends

/-! Strings of 16-bit units in memory: the loops over their pointers, and what `Trim` does. -/

namespace AndroidApps.Gildroia

section Pointers

/-- A pointer moved on to the first unit that stops a loop, if one stands in the buffer. -/
def advance (stop : UInt16 → Bool) (buffer : List UInt16) (pointer : Nat) : Option Nat :=
  ((buffer.drop pointer).findIdx? stop).map (pointer + ·)

/-- A unit written through a pointer into the buffer. -/
def poke (buffer : List UInt16) (pointer : Nat) (unit : UInt16) : Option (List UInt16) :=
  if pointer < buffer.length then some (buffer.set pointer unit) else none

/-- `u16len`, of the text at the start of a buffer. -/
def u16len (text : List UInt16) : Option Nat := text.findIdx? (· == 0)

/-- `u16chr`. -/
def u16chr (buffer : List UInt16) (src : Nat) (ch : UInt16) : Option Nat :=
  advance (fun unit => unit == 0 || unit == ch) buffer src

/-- `Trim_Left`. -/
def trimLeftAt (buffer : List UInt16) (str : Nat) : Option Nat := advance (· != 0x20) buffer str

/-- The loop of `Trim_Right`: the number of units it keeps. -/
def trimRightFrom (buffer : List UInt16) : Nat → Option Nat
  -- The index is -1, and the unit in front of the string is read.
  | 0 => none
  | nLen + 1 =>
    match buffer[nLen]? with
    | none => none
    | some unit => if isBlankEnd unit then trimRightFrom buffer nLen else some (nLen + 1)

/-- `Trim_Right`, of the string at the start of a buffer. -/
def trimRightAt (buffer : List UInt16) : Option (List UInt16) :=
  (u16len buffer).bind fun nLen =>
    (trimRightFrom buffer nLen).bind fun kept => poke buffer kept 0

/-- `Trim`: the pointer it returns, and the buffer it leaves. -/
def trimAt (buffer : List UInt16) : Option (Nat × List UInt16) :=
  (trimRightAt buffer).bind fun buffer => (trimLeftAt buffer 0).map fun ret => (ret, buffer)

end Pointers

section Scanning

variable {stop : UInt16 → Bool} {front text rest : List UInt16}

/-- A loop over a pointer passes the units that do not stop it. -/
theorem findIdx?_passes {unit : UInt16} (passed : ∀ other ∈ text, stop other = false)
    (stops : stop unit = true) : (text ++ unit :: rest).findIdx? stop = some text.length := by
  -- The loop makes one step for each unit of the text.
  induction text with
  | nil => simp [List.findIdx?_cons, stops]
  | cons other text ih =>
    have here : stop other = false := passed other List.mem_cons_self
    have behind := ih fun unit member => passed unit (List.mem_cons_of_mem other member)
    simp [List.findIdx?_cons, here, behind]

/-- A pointer comes to the first unit that stops it. -/
theorem advance_passes {unit : UInt16} (passed : ∀ other ∈ text, stop other = false)
    (stops : stop unit = true) :
    advance stop (front ++ (text ++ unit :: rest)) front.length =
      some (front.length + text.length) := by
  rw [advance, List.drop_left, findIdx?_passes passed stops, Option.map_some]

/-- The length of a terminated text. -/
theorem u16len_terminated (plain : 0 ∉ text) : u16len (text ++ 0 :: rest) = some text.length := by
  refine findIdx?_passes (fun unit member => ?_) rfl
  simpa using fun zero : unit = 0 => plain (zero ▸ member)

/-- Writing at the end of the front part of a buffer. -/
theorem poke_append (front : List UInt16) (old unit : UInt16) (rest : List UInt16) :
    poke (front ++ old :: rest) front.length unit = some (front ++ unit :: rest) := by
  simp [poke]

end Scanning

section Trimming

variable {units text rest : List UInt16}

/-- No space begins the text, and no space, carriage return or line feed ends it. -/
structure Trimmed (text : List UInt16) : Prop where
  left : ∀ unit, text.head? = some unit → unit ≠ 0x20
  right : ∀ unit, text.getLast? = some unit → isBlankEnd unit = false

/-- The longest trimmed part of a string. -/
structure LongestTrimmed (units text : List UInt16) : Prop where
  part : text <:+: units
  trimmed : Trimmed text
  longest : ∀ other, other <:+: units → Trimmed other → other.length ≤ text.length

/-- `Trim` of a string in a buffer: what it gives, and what it leaves alone. -/
structure TrimsTo (units rest : List UInt16) (ret : Nat) (buffer : List UInt16) : Prop where
  call : trimAt (units ++ 0 :: rest) = some (ret, buffer)
  behind : buffer.drop (units.length + 1) = rest
  text : LongestTrimmed units (cString (buffer.drop ret))
  again : trimAt (buffer.drop ret) = some (0, buffer.drop ret)

/-- `Trim` stays inside the buffer of a string, and does to the string what trimming means. -/
def Trims (units rest : List UInt16) : Prop := ∃ ret buffer, TrimsTo units rest ret buffer

/-- Every trimmed part of a string is inside the trimmed string. -/
theorem infix_trim (part : text <:+: units) (trimmed : Trimmed text) : text <:+: trim units := by
  have right : text <:+: trimRight units := Ends.infix_rdropWhile part trimmed.right
  refine Ends.infix_dropWhile right fun unit first => ?_
  simpa using trimmed.left unit first

/-- The trimmed string is trimmed. -/
theorem trim_trimmed (units : List UInt16) : Trimmed (trim units) where
  left unit first := by
    have kept := List.head?_dropWhile_not (fun unit => unit == 0x20) (trimRight units)
    rw [trim, trimLeft] at first
    rw [first] at kept
    simpa using kept
  right unit last := by
    -- Dropping spaces at the front leaves the last unit where it is.
    obtain ⟨spaces, split⟩ : trim units <:+ trimRight units := List.dropWhile_suffix _
    have filled : trim units ≠ [] := fun empty => by simp [empty] at last
    have ends : (trimRight units).getLast? = some unit := by
      rw [← split, List.getLast?_append_of_ne_nil _ filled, last]
    have kept := List.head?_dropWhile_not isBlankEnd units.reverse
    rw [trimRight, List.getLast?_reverse] at ends
    rwa [ends] at kept

/-- The trimmed string is the longest trimmed part. -/
theorem trim_longest (units : List UInt16) : LongestTrimmed units (trim units) where
  part := (List.dropWhile_suffix _).isInfix.trans (List.rdropWhile_prefix isBlankEnd _).isInfix
  trimmed := trim_trimmed units
  longest _ part trimmed := (infix_trim part trimmed).length_le

/-- Something is left of a string when one of its units is no blank. -/
theorem trimRight_ne_nil_iff : trimRight units ≠ [] ↔ ∃ unit ∈ units, isBlankEnd unit = false := by
  have empty : trimRight units = [] ↔ ∀ unit ∈ units, isBlankEnd unit = true :=
    List.rdropWhile_eq_nil_iff
  simp [empty]

/-- The loop of `Trim_Right` keeps what trimming keeps, and finds no end in front of the string. -/
theorem trimRightFrom_text (units rest : List UInt16) :
    trimRightFrom (units ++ rest) units.length =
      if trimRight units = [] then none else some (trimRight units).length := by
  -- The loop looks at the last unit first.
  induction units using List.reverseRecOn generalizing rest with
  | nil => rfl
  | append_singleton units unit ih =>
    have last : (units ++ [unit] ++ rest)[units.length]? = some unit := by simp
    rw [List.length_append, List.length_singleton, trimRightFrom, last]
    cases blank : isBlankEnd unit with
    | true =>
      have dropped : trimRight (units ++ [unit]) = trimRight units :=
        List.rdropWhile_concat_pos _ _ _ blank
      rw [dropped, List.append_assoc]
      simpa [blank] using ih ([unit] ++ rest)
    | false =>
      have kept : trimRight (units ++ [unit]) = units ++ [unit] :=
        List.rdropWhile_concat_neg _ _ _ (by simp [blank])
      simp [kept, blank]

/-- `Trim_Right` cuts a string behind the last unit that is no blank. -/
theorem trimRightAt_text (rest : List UInt16) (plain : 0 ∉ units) (filled : trimRight units ≠ []) :
    ∃ removed, units = trimRight units ++ removed ∧
      trimRightAt (units ++ 0 :: rest) =
        some (trimRight units ++ 0 :: (removed ++ 0 :: rest).tail) := by
  obtain ⟨removed, split⟩ : trimRight units <+: units :=
    List.rdropWhile_prefix isBlankEnd units
  refine ⟨removed, split.symm, ?_⟩
  rw [trimRightAt, u16len_terminated plain, Option.bind_some, trimRightFrom_text, if_neg filled,
    Option.bind_some]
  -- The unit written is the first blank, or the terminator itself.
  obtain ⟨old, others, first⟩ : ∃ old others, removed ++ 0 :: rest = old :: others := by
    cases removed with
    | nil => exact ⟨0, rest, rfl⟩
    | cons old others => exact ⟨old, others ++ 0 :: rest, rfl⟩
  have whole : units ++ 0 :: rest = trimRight units ++ old :: others := by
    rw [← first, ← List.append_assoc, split]
  rw [whole, poke_append, first, List.tail_cons]

/-- `Trim_Left` passes the spaces in front of a terminated text. -/
theorem trimLeftAt_text (done text rest : List UInt16) :
    ∃ spaces, text = spaces ++ trimLeft text ∧
      trimLeftAt (done ++ (text ++ 0 :: rest)) done.length =
        some (done ++ spaces).length := by
  have parts := List.takeWhile_append_dropWhile (p := fun unit => unit == 0x20) (l := text)
  refine ⟨text.takeWhile fun unit => unit == 0x20, parts.symm, ?_⟩
  -- The unit behind the spaces is the first one of the rest, or the terminator.
  obtain ⟨unit, others, first, stops⟩ : ∃ unit others,
      trimLeft text ++ 0 :: rest = unit :: others ∧ (unit != 0x20) = true := by
    cases left : trimLeft text with
    | nil => exact ⟨0, _, rfl, rfl⟩
    | cons unit others =>
      have kept := List.head?_dropWhile_not (fun unit => unit == 0x20) text
      rw [trimLeft] at left
      rw [left] at kept
      exact ⟨unit, _, rfl, by simpa using kept⟩
  have whole : text ++ 0 :: rest =
      (text.takeWhile fun unit => unit == 0x20) ++ unit :: others := by
    rw [← first, ← List.append_assoc, trimLeft, parts]
  rw [whole, List.length_append]
  refine advance_passes (fun other passed => ?_) stops
  simpa using List.mem_takeWhile_imp passed

/-- `Trim` of a string in which something is left. -/
theorem trimAt_text (rest : List UInt16) (plain : 0 ∉ units) (filled : trimRight units ≠ []) :
    ∃ removed spaces, units = trimRight units ++ removed ∧ trimRight units = spaces ++ trim units ∧
      trimAt (units ++ 0 :: rest) =
        some (spaces.length, trimRight units ++ 0 :: (removed ++ 0 :: rest).tail) := by
  -- The right end is cut first, then the pointer is moved.
  obtain ⟨removed, split, cut⟩ := trimRightAt_text rest plain filled
  obtain ⟨spaces, parts, passes⟩ :=
    trimLeftAt_text [] (trimRight units) (removed ++ 0 :: rest).tail
  refine ⟨removed, spaces, split, parts, ?_⟩
  rw [trimAt, cut, Option.bind_some]
  simpa using passes

/-- A trimmed string is trimmed to itself. -/
theorem trimAt_trimmed (plain : 0 ∉ text) (filled : text ≠ []) (trimmed : Trimmed text) :
    trimAt (text ++ 0 :: rest) = some (0, text ++ 0 :: rest) := by
  have right : trimRight text = text := by
    refine List.rdropWhile_eq_self_iff.mpr fun filled => ?_
    simpa using trimmed.right _ (List.getLast?_eq_some_getLast filled)
  have left : trim text = text := by
    have whole := infix_trim (List.infix_refl text) trimmed
    exact (whole.eq_of_length_le (trim_longest text).part.length_le).symm
  obtain ⟨removed, spaces, cut, skipped, trims⟩ :=
    trimAt_text rest plain (right.symm ▸ filled)
  -- Nothing is removed at either end.
  rw [right] at cut skipped trims
  rw [left] at skipped
  have behind : removed = [] := by simpa using cut
  have front : spaces = [] := by simpa using skipped
  rw [trims, behind, front]
  rfl

/-- A unit that is no blank is left by trimming. -/
theorem trim_ne_nil (filled : trimRight units ≠ []) : trim units ≠ [] := by
  -- A kept unit alone is a trimmed part of the text.
  obtain ⟨unit, member, kept⟩ := trimRight_ne_nil_iff.mp filled
  have alone : Trimmed [unit] := by
    constructor
    · intro first same space
      obtain rfl : unit = first := by simpa using same
      rw [space] at kept
      contradiction
    · intro last same
      obtain rfl : unit = last := by simpa using same
      exact kept
  obtain ⟨front, back, split⟩ := List.append_of_mem member
  have part : [unit] <:+: units := ⟨front, back, by simp [split]⟩
  intro empty
  simpa [empty] using infix_trim part alone

/-- The string behind the pointer that `Trim` returns is the trimmed string, still terminated. -/
theorem trimAt_string (rest : List UInt16) (plain : 0 ∉ units) (filled : trimRight units ≠ []) :
    ∃ ret buffer more, trimAt (units ++ 0 :: rest) = some (ret, buffer) ∧
      buffer.drop ret = trim units ++ 0 :: more ∧ buffer.drop (units.length + 1) = rest := by
  -- Only the pointer and the terminator move, the units stay where they are.
  obtain ⟨removed, spaces, cut, skipped, call⟩ := trimAt_text rest plain filled
  refine ⟨_, _, (removed ++ 0 :: rest).tail, call, ?_, ?_⟩
  · rw [skipped, List.append_assoc, List.drop_left]
  · have length : units.length + 1 = (trimRight units).length + (removed.length + 1) := by
      rw [cut, List.length_append, ← cut, Nat.add_assoc]
    rw [length, List.drop_length_add_append, List.drop_succ_cons, List.drop_tail]
    simp

/-- The trimmed string has no terminator inside. -/
theorem trim_plain (plain : 0 ∉ units) : 0 ∉ trim units :=
  fun member => plain ((trim_longest units).part.subset member)

/-- `addText` stores the string behind the pointer that `Trim` returns. -/
theorem InputText.text_eq_trimAt (input : InputText) (rest : List UInt16) :
    (trimAt (input.units ++ 0 :: rest)).map (fun (ret, buffer) => cString (buffer.drop ret)) =
      some input.text := by
  have filled := trimRight_ne_nil_iff.mpr input.nonBlank
  obtain ⟨ret, buffer, more, call, string, -⟩ := trimAt_string rest input.plain filled
  simp only [call, Option.map_some, string, cString_terminated (trim_plain input.plain),
    InputText.text]

/-- `Trim` is right exactly for the strings in which it leaves something. -/
theorem trim_correct_iff {units : List UInt16} (rest : List UInt16) (plain : 0 ∉ units) :
    Trims units rest ↔ ∃ unit ∈ units, isBlankEnd unit = false := by
  rw [← trimRight_ne_nil_iff]
  constructor
  · -- With nothing left, the backward loop reads the unit in front of the string.
    rintro ⟨ret, buffer, trims⟩ empty
    have call := trims.call
    rw [trimAt, trimRightAt, u16len_terminated plain, Option.bind_some, trimRightFrom_text,
      if_pos empty] at call
    contradiction
  · intro filled
    obtain ⟨ret, buffer, more, call, string, behind⟩ := trimAt_string rest plain filled
    have text : cString (buffer.drop ret) = trim units := by
      rw [string, cString_terminated (trim_plain plain)]
    refine ⟨ret, buffer, call, behind, ?_, ?_⟩
    · exact text.symm ▸ trim_longest units
    · rw [string]
      exact trimAt_trimmed (trim_plain plain) (trim_ne_nil filled) (trim_trimmed units)

/-- The string " a", followed by nothing. -/
theorem trim_correct_a : Trims [0x20, 0x61] [] ↔ ∃ unit ∈ [0x20, 0x61], isBlankEnd unit = false :=
  trim_correct_iff [] (by decide)

/-- The empty string is not trimmed: the unit in front of it is read. -/
theorem trim_empty : ¬ Trims [] [] := by
  rintro ⟨ret, buffer, trims⟩
  have call : (none : Option (Nat × List UInt16)) = some (ret, buffer) := trims.call
  contradiction

end Trimming

end AndroidApps.Gildroia
