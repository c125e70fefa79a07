import AndroidApps.TouchPc.DeviceConnector

/-! When the lines of the shell reach the callbacks of the commands that have produced them. -/

namespace AndroidApps.TouchPc.DeviceConnector

variable {γ σ : Type}

section Properties

/-- Every line handed on went to the callback of its own command. -/
def Right (state : DeviceConnector γ σ) : Prop :=
  ∀ entry ∈ state.passed, state.issued[entry.1.command]?.map Command.callback = some entry.2

/-- The line that an event hands on. -/
def handsOn (state : DeviceConnector γ σ) : ConnectorEvent γ → Option Line
  | .test =>
    match state.reader, state.readCallback with
    | .holding line, none => some line
    | _, _ => none
  | .call =>
    match state.reader with
    | .tested line => some line
    | _ => none
  | _ => none

/-- A line is handed on while the last command has the same callback as the one that produced it. -/
def LastIsOwn (state : DeviceConnector γ σ) (event : ConnectorEvent γ) : Prop :=
  ∀ line, handsOn state event = some line →
    state.issued.getLast?.map Command.callback = state.issued[line.command]?.map Command.callback

/-- What a callback, or none, does with a line. -/
def apply (invoke : γ → JString → σ → σ) (app : σ) (entry : Line × Option γ) : σ :=
  match entry.2 with
  | some callback => invoke callback entry.1.text app
  | none => app

/-- The callback is the one set last, and no line comes from a command that was not issued. -/
structure Wired (state : DeviceConnector γ σ) : Prop where
  callback : state.readCallback = state.issued.getLast?.bind Command.callback
  writing : state.caller = .writing → state.issued ≠ []
  sent : ∀ number ∈ state.sent, number < state.issued.length
  pipe : ∀ line ∈ state.pipe, line.command < state.issued.length
  held : ∀ line, state.reader = .holding line ∨ state.reader = .tested line →
    line.command < state.issued.length

end Properties

section Steps

variable {invoke : γ → JString → σ → σ} {state next : DeviceConnector γ σ}
  {event : ConnectorEvent γ}

theorem connected_wired (app : σ) : Wired (connected app : DeviceConnector γ σ) where
  callback := rfl
  writing := nofun
  sent := nofun
  pipe := nofun
  held line held := by
    rcases held with holding | tested
    · cases holding
    · cases tested

/-- Setting a callback adds a command. -/
theorem Wired.command (wired : Wired state) {command : Command γ}
    (taken : state.command command = some next) : Wired next := by
  unfold DeviceConnector.command at taken
  split at taken
  · cases taken
  · split at taken
    · cases taken
      -- The numbers of the earlier commands stay below the number of commands.
      have longer : state.issued.length ≤ (state.issued ++ [command]).length := by simp
      refine ⟨?_, fun _ => ?_, fun number member => ?_, fun line member => ?_, fun line held => ?_⟩
      · simp
      · exact List.append_ne_nil_of_right_ne_nil _ (List.cons_ne_nil _ _)
      · exact Nat.lt_of_lt_of_le (wired.sent number member) longer
      · exact Nat.lt_of_lt_of_le (wired.pipe line member) longer
      · exact Nat.lt_of_lt_of_le (wired.held line held) longer
    · cases taken
      exact wired

/-- Writing a command sends the last one. -/
theorem Wired.write (wired : Wired state) {succeeds : Bool}
    (taken : state.write succeeds = some next) : Wired next := by
  -- The command that is written is the last one issued, so that there is one.
  unfold DeviceConnector.write at taken
  split at taken
  · cases taken
  · rename_i writing
    split at taken
    · cases taken
      refine ⟨wired.callback, nofun, ?_, wired.pipe, wired.held⟩
      intro number member
      rcases List.mem_append.mp member with before | last
      · exact wired.sent number before
      · have positive := List.length_pos_iff.mpr (wired.writing writing)
        rw [List.mem_singleton.mp last]
        show state.issued.length - 1 < state.issued.length
        omega
    · cases taken
      exact ⟨wired.callback, nofun, wired.sent, wired.pipe, wired.held⟩

/-- The shell only answers commands that were sent. -/
theorem Wired.output (wired : Wired state) {line : Line}
    (taken : state.output line = some next) : Wired next := by
  -- A line carries the number of a command that the shell was sent.
  unfold DeviceConnector.output at taken
  split at taken
  · rename_i allowed
    cases taken
    refine ⟨wired.callback, wired.writing, wired.sent, ?_, wired.held⟩
    intro other member
    rcases List.mem_append.mp member with before | last
    · exact wired.pipe other before
    · rw [List.mem_singleton.mp last]
      exact wired.sent line.command allowed.1
  · cases taken

/-- The reader takes a line of the shell. -/
theorem Wired.readLine (wired : Wired state) (taken : state.readLine = some next) : Wired next := by
  -- The line leaves the pipe and is held; its number was fine in the pipe.
  unfold DeviceConnector.readLine at taken
  split at taken
  · rename_i line rest waiting lines
    cases taken
    have listed : ∀ other ∈ line :: rest, other.command < state.issued.length :=
      lines ▸ wired.pipe
    refine ⟨wired.callback, wired.writing, wired.sent, ?_, ?_⟩
    · exact fun other member => listed other (List.mem_cons_of_mem _ member)
    · rintro other (holding | tested)
      · cases holding
        exact listed line List.mem_cons_self
      · cases tested
  · cases taken

/-- A test keeps the line, or drops it. -/
theorem Wired.test (wired : Wired state) (taken : state.test = some next) : Wired next := by
  -- Without a callback the line is dropped, otherwise it is held on for the call.
  unfold DeviceConnector.test at taken
  split at taken
  · cases taken
    refine ⟨wired.callback, wired.writing, wired.sent, wired.pipe, ?_⟩
    rintro other (holding | tested)
    · cases holding
    · cases tested
  · rename_i line callback holding there
    cases taken
    refine ⟨wired.callback, wired.writing, wired.sent, wired.pipe, ?_⟩
    rintro other (holds | tested)
    · cases holds
    · cases tested
      exact wired.held line (.inl holding)
  · cases taken

/-- A call is done with the line. -/
theorem Wired.call (wired : Wired state) (taken : state.call invoke = some next) : Wired next := by
  -- Whether or not there is still a callback, the reader waits for the next line.
  unfold DeviceConnector.call at taken
  split at taken
  · cases taken
    refine ⟨wired.callback, wired.writing, wired.sent, wired.pipe, ?_⟩
    rintro other (holding | tested)
    · cases holding
    · cases tested
  · cases taken
    refine ⟨wired.callback, wired.writing, wired.sent, wired.pipe, ?_⟩
    rintro other (holding | tested)
    · cases holding
    · cases tested
  · cases taken

/-- Every step keeps the wiring, one event at a time. -/
theorem Wired.step (wired : Wired state) (taken : state.step invoke event = some next) :
    Wired next := by
  cases event with
  | command command => exact wired.command taken
  | write succeeds => exact wired.write taken
  | output line => exact wired.output taken
  | readLine => exact wired.readLine taken
  | test => exact wired.test taken
  | call => exact wired.call taken

/-- What a step leaves alone that hands no line on. -/
structure HandsNone (state next : DeviceConnector γ σ) (event : ConnectorEvent γ) : Prop where
  nothing : handsOn state event = none
  passed : next.passed = state.passed
  app : next.app = state.app
  issued : state.issued <+: next.issued

/-- What a step does that hands a line to the callback that is set. -/
structure Hands (invoke : γ → JString → σ → σ) (state next : DeviceConnector γ σ)
    (event : ConnectorEvent γ) (line : Line) : Prop where
  handed : handsOn state event = some line
  held : state.reader = .holding line ∨ state.reader = .tested line
  passed : next.passed = state.passed ++ [(line, state.readCallback)]
  app : next.app = apply invoke state.app (line, state.readCallback)
  issued : next.issued = state.issued

/-- A step hands a line to the callback that is set, or hands none on. -/
theorem step_cases (taken : state.step invoke event = some next) :
    HandsNone state next event ∨ ∃ line, Hands invoke state next event line := by
  -- Only a test that finds no callback and a call are done with a line.
  cases event with
  | command command =>
    left
    simp only [DeviceConnector.step, DeviceConnector.command] at taken
    split at taken
    · cases taken
    · split at taken
      · cases taken
        exact ⟨rfl, rfl, rfl, List.prefix_append _ _⟩
      · cases taken
        exact ⟨rfl, rfl, rfl, List.prefix_refl _⟩
  | write succeeds =>
    left
    simp only [DeviceConnector.step, DeviceConnector.write] at taken
    split at taken
    · cases taken
    · split at taken
      · cases taken
        exact ⟨rfl, rfl, rfl, List.prefix_refl _⟩
      · cases taken
        exact ⟨rfl, rfl, rfl, List.prefix_refl _⟩
  | output line =>
    left
    simp only [DeviceConnector.step, DeviceConnector.output] at taken
    split at taken
    · cases taken
      exact ⟨rfl, rfl, rfl, List.prefix_refl _⟩
    · cases taken
  | readLine =>
    left
    simp only [DeviceConnector.step, DeviceConnector.readLine] at taken
    split at taken
    · cases taken
      exact ⟨rfl, rfl, rfl, List.prefix_refl _⟩
    · cases taken
  | test =>
    simp only [DeviceConnector.step, DeviceConnector.test] at taken
    split at taken
    · rename_i line holding absent
      cases taken
      refine .inr ⟨line, ?_, .inl holding, by rw [absent], by rw [absent]; rfl, rfl⟩
      simp only [handsOn, holding, absent]
    · rename_i line callback holding there
      cases taken
      refine .inl ⟨?_, rfl, rfl, List.prefix_refl _⟩
      simp only [handsOn, holding, there]
    · cases taken
  | call =>
    simp only [DeviceConnector.step, DeviceConnector.call] at taken
    split at taken
    · rename_i line callback tested there
      cases taken
      refine .inr ⟨line, ?_, .inr tested, by rw [there], by rw [there]; rfl, rfl⟩
      simp only [handsOn, tested]
    · rename_i line tested absent
      cases taken
      refine .inr ⟨line, ?_, .inr tested, by rw [absent], by rw [absent]; rfl, rfl⟩
      simp only [handsOn, tested]
    · cases taken

/-- The callback that is set is the one of a line's command exactly when that of the last one is. -/
theorem Wired.own_iff (wired : Wired state) {line : Line}
    (held : state.reader = .holding line ∨ state.reader = .tested line) :
    state.issued[line.command]?.map Command.callback = some state.readCallback ↔
      state.issued.getLast?.map Command.callback =
        state.issued[line.command]?.map Command.callback := by
  -- The line comes from a command, so there is a last one, and its callback is set.
  have filled : state.issued ≠ [] :=
    List.length_pos_iff.mp (Nat.zero_lt_of_lt (wired.held line held))
  rw [wired.callback, List.getLast?_eq_some_getLast filled, Option.bind_some, Option.map_some,
    eq_comm]

/-- A line that has reached a callback comes from a command that was issued. -/
theorem Right.issued (right : Right state) {entry : Line × Option γ}
    (member : entry ∈ state.passed) : entry.1.command < state.issued.length := by
  -- A callback is recorded for its command, so that the command exists.
  have known := right entry member
  by_contra outside
  rw [List.getElem?_eq_none_iff.mpr (Nat.le_of_not_lt outside)] at known
  cases known

/--
All lines reach their callbacks exactly when each is handed on in time.

It is late once a command with another callback was issued behind its own, and none with the same.
-/
theorem lines_reach_callbacks_iff (invoke : γ → JString → σ → σ) (app : σ)
    (events : List (ConnectorEvent γ)) :
    Events.Always (DeviceConnector.step invoke) Right (connected app) events ↔
      Events.Along (DeviceConnector.step invoke) LastIsOwn (connected app) events := by
  -- A line that is handed on goes to the callback set last, so that only this step can go wrong.
  refine Events.always_iff_along Wired (fun _ _ _ wired _ taken => wired.step taken) ?_
    (connected_wired app) nofun
  intro state event next wired right taken
  rcases step_cases taken with ⟨nothing, passed, _, longer⟩ |
    ⟨line, handed, held, passed, _, issued⟩
  · -- No line is handed on, and the callbacks of the commands so far do not change.
    refine iff_of_true ?_ fun line handed => absurd (nothing.symm.trans handed) nofun
    intro entry member
    rw [passed] at member
    obtain ⟨rest, whole⟩ := longer
    rw [← whole, List.getElem?_append_left (right.issued member)]
    exact right entry member
  · have own := wired.own_iff held
    constructor
    · intro after other again
      cases handed.symm.trans again
      refine own.mp ?_
      rw [← issued]
      exact after (line, state.readCallback) (passed ▸ List.mem_append_right _ List.mem_cons_self)
    · intro last entry member
      rw [passed] at member
      rw [issued]
      rcases List.mem_append.mp member with before | new
      · exact right entry before
      · rw [List.mem_singleton.mp new]
        exact own.mpr (last line handed)

end Steps

section Effects

variable {invoke : γ → JString → σ → σ}

/-- The object is what the callbacks have made of the lines handed to them. -/
theorem app_of_passed (app : σ) {events : List (ConnectorEvent γ)} {state : DeviceConnector γ σ}
    (ran : Events.run (DeviceConnector.step invoke) (connected app) events = some state) :
    state.app = state.passed.foldl (apply invoke) app := by
  -- The object changes only where a line is handed on.
  refine Events.run_invariant (fun state => state.app = state.passed.foldl (apply invoke) app) ?_
    rfl ran
  intro state event next same taken
  -- Only handing a line on changes the object, and by the callback that is recorded with it.
  rcases step_cases taken with ⟨_, passed, kept, _⟩ | ⟨line, _, _, passed, changed, _⟩
  · rw [passed, kept, same]
  · rw [passed, changed, same, List.foldl_append]
    rfl

end Effects

section Init

/-- Lines that reach their callbacks are not mixed up between the two commands of `init`. -/
theorem init_apart {state : DeviceConnector TouchCallback σ} (right : Right state)
    (issued : state.issued <+: TouchEvent.init) : ∀ entry ∈ state.passed,
      (entry.1.command = 0 → entry.2 ≠ some .getTouchEventDevice) ∧
        (entry.1.command = 1 → entry.2 ≠ some .checkIsEnable) := by
  -- The two commands of `init` have different callbacks, and each line knows its command.
  intro entry member
  obtain ⟨rest, whole⟩ := issued
  have named : TouchEvent.init[entry.1.command]?.map Command.callback = some entry.2 := by
    rw [← whole, List.getElem?_append_left (right.issued member)]
    exact right entry member
  constructor
  · intro first crossed
    rw [first, crossed] at named
    exact absurd named (by decide)
  · intro second crossed
    rw [second, crossed] at named
    exact absurd named (by decide)

/-- The answer to `sendevent`. -/
def usageLine : Line := ⟨0, JString.ofString "use: sendevent [device] [type] [code] [value]"⟩

/-- The answer comes after both commands of `init` were issued. -/
def lateUsage : List (ConnectorEvent TouchCallback) := [
  .command ⟨JString.ofString "sendevent", some .checkIsEnable⟩, .write true,
  .command ⟨JString.ofString "getevent -p", some .getTouchEventDevice⟩, .write true,
  .output usageLine, .readLine, .test, .call]

/-- The usage of `sendevent` goes to the callback that looks for the device. -/
theorem lines_reach_callbacks_lateUsage :
    ¬ Events.Always (DeviceConnector.step TouchEvent.invoke) Right (connected .new) lateUsage := by
  intro always
  have right := Events.always_iff.mp always lateUsage (List.prefix_refl _)
    ⟨true, some .getTouchEventDevice, .idle, TouchEvent.init, [0, 1], 0, [], .waiting,
      [(usageLine, some .getTouchEventDevice)], .new⟩ (by decide +kernel)
  exact absurd (right _ List.mem_cons_self) (by decide)

end Init

end AndroidApps.TouchPc.DeviceConnector
