import AndroidApps.TouchClient.Framing

/-! Messages that are no commands: which of them the thread passes over. -/

namespace AndroidApps.TouchClient

open JString (CharacterDigit ofBytes)

section Model

variable (digits : CharacterDigit)

/-- A message that is a command: a device with its name, or a position with two numbers. -/
def WellFormed (message : JString) : Prop :=
  (∃ name, message = deviceNameWord ++ 0x3A :: name ∧ 0x3A ∉ name ∧ JString.trim name ≠ []) ∨
    ∃ first second x y, message = positionWord ++ 0x3A :: (first ++ 0x2C :: second) ∧
      JString.parseInt digits.digit first = some x ∧ JString.parseInt digits.digit second = some y

/-- A read that changes nothing: the thread goes on as if it had not been. -/
def Harmless (buffer : List UInt8) : Prop :=
  ∀ touchEvent reads, serve digits touchEvent (buffer :: reads) = serve digits touchEvent reads

/-- What a read that is no command should do. -/
def MalformedHarmless (buffer : List UInt8) : Prop :=
  ¬ WellFormed digits (ofBytes buffer) → Harmless digits buffer

/-- A message without a keyword, or with that of a position and only colons behind the first one. -/
def Unread (message : JString) : Prop :=
  ¬ deviceNameWord <+: message ∧ (positionWord <+: message →
    ∃ word count, message = word ++ List.replicate count 0x3A ∧ 0x3A ∉ word)

end Model

section Pieces

variable {separator : UInt16}

/-- All pieces of a text are empty if it is made of separators. -/
theorem splitOn_empty_iff (text : JString) :
    (∀ piece ∈ text.splitOn separator, piece = []) ↔ ∀ unit ∈ text, unit = separator := by
  induction text with
  | nil => simp
  | cons unit text ih =>
    rw [List.splitOn_cons_eq_if_modifyHead]
    by_cases same : unit = separator
    · simp [same, ih]
    · -- The first piece begins with the unit.
      cases pieces : text.splitOn separator with
      | nil => exact absurd pieces (List.splitOn_ne_nil separator text)
      | cons piece others => simp [same]

/-- A text has no second piece when only separators stand behind its first one. -/
theorem split_second_none (text : JString) :
    (JString.split separator text)[1]? = none ↔
      ∃ word count, text = word ++ List.replicate count separator ∧ separator ∉ word := by
  by_cases present : separator ∈ text
  · obtain ⟨word, later, rfl, plain⟩ := List.eq_append_cons_of_mem present
    rw [JString.split, if_pos present, JString.splitOn_first plain, Ends.rdropWhile_second]
    simp only [List.isEmpty_iff, splitOn_empty_iff]
    constructor
    · intro all
      refine ⟨word, later.length + 1, ?_, plain⟩
      rw [List.replicate_succ, ← List.eq_replicate_of_mem all]
    · rintro ⟨other, count, same, without⟩ unit member
      -- The other text ends in front of the first separator.
      rcases List.append_eq_append_iff.mp same with ⟨more, whole, behind⟩ | ⟨more, whole, behind⟩
      · cases more with
        | nil =>
          rw [List.nil_append] at behind
          exact List.eq_of_mem_replicate (behind ▸ List.mem_cons_of_mem separator member)
        | cons first more =>
          obtain ⟨rfl, -⟩ := List.cons.inj behind
          exact absurd (by simp [whole]) without
      · exact List.eq_of_mem_replicate
          (behind ▸ List.mem_append_right more (List.mem_cons_of_mem separator member))
  · rw [JString.split_of_not_mem present]
    exact iff_of_true rfl ⟨text, 0, by simp, present⟩

end Pieces

section Harm

variable {digits : CharacterDigit}

/-- A message for which no call is made, and no exception thrown. -/
theorem receive_nil_iff (message : JString) :
    receive digits message = .ok [] ↔ Unread message := by
  simp only [receive, Unread, ← List.isPrefixOf_iff_prefix, ← split_second_none]
  cases deviceNameWord.isPrefixOf message with
  | true =>
    -- The device is given some name, or the thread ends because there is none.
    refine iff_of_false ?_ (by simp)
    rw [if_pos rfl]
    split
    · intro same
      cases same
    · intro same
      cases same
  | false =>
    cases positionWord.isPrefixOf message with
    | false => simp
    | true =>
      cases (JString.split 0x3A message)[1]? with
      | none => simp
      | some position =>
        -- With two numbers there is a touch, and without them an exception.
        refine iff_of_false ?_ (by simp)
        cases left : intAt digits (JString.split 0x2C position) 0 with
        | error failure => simp [left, bind, Except.bind]
        | ok x =>
          cases right : intAt digits (JString.split 0x2C position) 1 with
          | error failure => simp [left, right, bind, Except.bind]
          | ok y => simp [left, right, bind, Except.bind, pure, Except.pure]

/-- A read is harmless if no call is made for it, and no exception thrown. -/
theorem harmless_iff (buffer : List UInt8) :
    Harmless digits buffer ↔ receive digits (ofBytes buffer) = .ok [] := by
  constructor
  · intro harmless
    -- The read alone shows what it does to a thread that ends behind it.
    have alone := harmless ⟨none, true⟩ []
    cases outcome : receive digits (ofBytes buffer) with
    | error failure => simp [serve, outcome] at alone
    | ok calls =>
      have none : calls = [] := by
        have same := congrArg ThreadRun.calls alone
        simpa [serve, outcome] using same
      rw [none]
  · intro passed touchEvent reads
    simp [serve, passed, TouchEvent.performAll]

/-- A read that is no command is passed over exactly if it is without a keyword or an argument. -/
theorem serve_malformedHarmless_iff (digits : CharacterDigit) (buffer : List UInt8) :
    MalformedHarmless digits buffer ↔
      WellFormed digits (ofBytes buffer) ∨ Unread (ofBytes buffer) := by
  rw [MalformedHarmless, harmless_iff, receive_nil_iff, ← or_iff_not_imp_left]

/-- The keyword of a device without a name. -/
theorem serve_deviceName_alone : ¬ MalformedHarmless .ascii (JString.ascii deviceNameWord) := by
  -- The keyword is split into no second piece, which the client then asks for.
  have message : ofBytes (JString.ascii deviceNameWord) = deviceNameWord := by
    have whole := JString.ofBytes_ascii (by decide : JString.IsAscii deviceNameWord) []
    rw [List.append_nil] at whole
    rw [whole]
    exact List.append_nil _
  have malformed : ¬ WellFormed .ascii (ofBytes (JString.ascii deviceNameWord)) := by
    rw [message]
    rintro (⟨name, same, -⟩ | ⟨first, second, x, y, same, -⟩)
    · simpa using congrArg List.length same
    · have word : positionWord <+: deviceNameWord := same ▸ List.prefix_append _ _
      exact absurd word (by decide)
  intro passes
  have unread := (receive_nil_iff _).mp ((harmless_iff _).mp (passes malformed))
  rw [message] at unread
  exact unread.1 (List.prefix_refl _)

end Harm

end AndroidApps.TouchClient
