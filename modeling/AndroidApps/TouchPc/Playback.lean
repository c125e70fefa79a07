import AndroidApps.TouchPc.TouchEventHistory
import AndroidApps.Lib.Events

/-! The threads that play a recording back, and the calls that start, stop and disturb them. -/

namespace AndroidApps.TouchPc

section Source

/-- Where a thread stands in `playThread`, with its variables. -/
inductive PlayerPhase where
  /-- At the condition of the outer loop. -/
  | entering
  /-- At the first half of the condition of the inner loop. -/
  | counting (i : Nat)
  /-- At the second half of it. -/
  | testing (i : Nat)
  | gettingFirst (i : Nat)
  | gettingSecond (i : Nat) (a1 : TouchEventData)
  /-- At the call of `command`. -/
  | calling (i : Nat) (a1 a2 : TouchEventData)
  /-- In `command`, which sleeps before it writes. -/
  | sleeping (i : Nat) (a1 a2 : TouchEventData) (sent : Sent)
  /-- At the assignment to `waitMillis`. -/
  | storing (i : Nat) (a1 a2 : TouchEventData)
  | ended
  /-- An exception has ended the thread. -/
  | threw
  deriving DecidableEq

/-- Where the thread of the window stands in `close`, `connection` or `start`. -/
inductive WindowPhase where
  | idle
  /-- A `start` has added the empty event of `stop`, and has not cleared the recording yet. -/
  | clearing
  /-- A `close` has set `enable` back, and has not closed the writer. -/
  | closing (reconnects : Bool)
  /-- It has closed the writer, and has not set it to null. -/
  | dropping (reconnects : Bool)
  /-- A `connection` has closed the old connection, and starts the process of the new one. -/
  | connecting
  /-- It has made the new writer, and has not set `enable`. -/
  | enabling
  deriving DecidableEq

/-- The field `writer` of the connector. -/
inductive Writer where
  | null
  | opened
  | closed
  deriving DecidableEq

/--
The recording and its players, the connection to the device, and what was written to it.

Each command that was written stands beside the player that has written it.
-/
structure Playback where
  history : TouchEventHistory := .new
  /-- What `System.currentTimeMillis` returns. -/
  clock : Int := 0
  window : WindowPhase := .idle
  playFlag : Bool := false
  waitMillis : Int := 0
  /-- `TouchEvent.init` was called, so that there is a connector to hand on. -/
  initialised : Bool := false
  /-- The connector of the recording is not null. -/
  deviceConnector : Bool := false
  enable : Bool := false
  writer : Writer := .null
  players : List PlayerPhase := []
  sent : List (Nat × Sent) := []

/-- What the window calls, and `playStop`. -/
inductive WindowCall where
  | connection
  | close
  | touchHistoryStart
  | touchHistoryStop
  | touchHistoryPlay
  | playStop
  deriving DecidableEq

/-- One step of the clock, of the window, of the reader of the recording or of a player. -/
inductive PlaybackEvent where
  | passes (millis : Int)
  | call (window : WindowCall)
  /-- The window goes on in its call; a process that it starts is there, or fails to start. -/
  | continues (succeeds : Bool)
  /-- A line of the process is read. -/
  | line (data : JString)
  /-- A player takes a step; what it writes is accepted, or there is an `IOException`. -/
  | goes (player : Nat) (accepted : Bool)
  deriving DecidableEq

/-- What a step of a player changes. -/
structure Turn where
  phase : PlayerPhase
  sent : Option Sent := none
  waitMillis : Int

namespace Playback

/-- The next step of a player. -/
def turn (state : Playback) (accepted : Bool) : PlayerPhase → Option Turn
  | .entering =>
    some { phase := if state.playFlag then .counting 0 else .ended, waitMillis := state.waitMillis }
  | .counting i =>
    some {
      phase := if i + 1 < state.history.historyDatas.length then .testing i else .entering
      waitMillis := state.waitMillis }
  | .testing i =>
    some {
      phase := if state.playFlag then .gettingFirst i else .entering
      waitMillis := state.waitMillis }
  -- `get` is called for each of the two entries, and throws behind the end of the list.
  | .gettingFirst i =>
    some {
      phase := match state.history.historyDatas[i]? with
        | none => .threw
        | some a1 => .gettingSecond i a1
      waitMillis := state.waitMillis }
  | .gettingSecond i a1 =>
    some {
      phase := match state.history.historyDatas[i + 1]? with
        | none => .threw
        | some a2 => .calling i a1 a2
      waitMillis := state.waitMillis }
  | .calling i a1 a2 =>
    some {
      phase :=
        if state.deviceConnector then
          -- `command` returns at once when the connector is not enabled.
          if state.enable then
            -- A negative time to sleep is an `IllegalArgumentException`.
            if state.waitMillis < 0 then .threw
            else .sleeping i a1 a2 ⟨sendCommand a1, state.waitMillis⟩
          else .storing i a1 a2
        else .threw
      waitMillis := state.waitMillis }
  | .sleeping i a1 a2 sent =>
    some (
      -- The writer may have been set to null while the player was asleep.
      if state.writer = .null then { phase := .threw, waitMillis := state.waitMillis }
      else
        { phase := .storing i a1 a2
          sent := if accepted = true ∧ state.writer = .opened then some sent else none
          waitMillis := state.waitMillis })
  -- The time to wait before the next entry is kept in a field that all players share.
  | .storing i a1 a2 => some { phase := .counting (i + 1), waitMillis := a2.time - a1.time }
  | .ended | .threw => none

/-- A player has taken a step. -/
def take (state : Playback) (player : Nat) (turn : Turn) : Playback :=
  { state with
    waitMillis := turn.waitMillis
    players := state.players.set player turn.phase
    sent := state.sent ++ (turn.sent.map fun sent => (player, sent)).toList }

/-- What a call does, up to the first step that other threads can come between. -/
def call (state : Playback) : WindowCall → Playback
  | .connection => { state with enable := false, window := .closing true }
  | .close => { state with enable := false, window := .closing false }
  | .touchHistoryStart =>
    { state with history := state.history.stop state.clock, window := .clearing }
  | .touchHistoryStop => { state with history := state.history.stop state.clock }
  | .touchHistoryPlay =>
    { state with
      playFlag := true
      deviceConnector := state.initialised
      players := state.players ++ [.entering] }
  | .playStop => { state with playFlag := false }

/-- The next step of the window in its call. -/
def continues (state : Playback) (succeeds : Bool) : Option Playback :=
  match state.window with
  | .idle => none
  -- `start` empties the list, and remembers whether `getevent` could be started.
  | .clearing => some { state with history := ⟨[], succeeds⟩, window := .idle }
  | .closing reconnects =>
    some { state with
      writer := if state.writer = .null then .null else .closed
      window := .dropping reconnects }
  | .dropping reconnects =>
    some { state with writer := .null, window := if reconnects then .connecting else .idle }
  -- A process that does not start leaves the connector as `close` has left it.
  | .connecting =>
    some (if succeeds then { state with writer := .opened, window := .enabling }
      else { state with window := .idle })
  -- The window hands the connector to `TouchEvent.init`, since `connection` returns true.
  | .enabling => some { state with enable := true, initialised := true, window := .idle }

/-- One step, unless it is not the turn of the one that takes it. -/
def step (hexDigit : UInt16 → Option Nat) (state : Playback) : PlaybackEvent → Option Playback
  | .passes millis => some { state with clock := state.clock + millis }
  -- The window calls one thing after the other.
  | .call window => if state.window = .idle then some (state.call window) else none
  | .continues succeeds => state.continues succeeds
  | .line data => some { state with history := state.history.line hexDigit data state.clock }
  | .goes player accepted =>
    (state.players[player]?.bind (state.turn accepted)).map (state.take player)

/-- What a player has written. -/
def sentBy (state : Playback) (player : Nat) : List Sent :=
  (state.sent.filter fun entry => entry.1 == player).map Prod.snd

end Playback

end Source

section Ends

/-- The window asks for one more player. -/
def PlaybackEvent.plays : PlaybackEvent → Bool
  | .call .touchHistoryPlay => true
  | _ => false

/-- The event is a step of a player. -/
def PlaybackEvent.isOf (player : Nat) : PlaybackEvent → Bool
  | .goes other _ => other == player
  | _ => false

/-- A player that has tested the size of the recording, and has not read both entries yet. -/
def PlayerPhase.reads : PlayerPhase → Bool
  | .testing _ | .gettingFirst _ | .gettingSecond _ _ => true
  | _ => false

/-- A player that is about to write. -/
def PlayerPhase.sleeps : PlayerPhase → Bool
  | .sleeping _ _ _ _ => true
  | _ => false

/-- The window has begun to close the connection, and has not opened another one. -/
def WindowPhase.disconnected : WindowPhase → Bool
  | .closing _ | .dropping _ | .connecting | .enabling => true
  | .idle | .clearing => false

/-- An event that takes nothing away from a player that is about to use it. -/
def Playback.Leaves (state : Playback) : PlaybackEvent → Prop
  | .passes millis => 0 ≤ millis
  | .continues _ =>
    match state.window with
    | .clearing => ∀ phase ∈ state.players, phase.reads = false
    | .dropping _ => ∀ phase ∈ state.players, phase.sleeps = false
    | _ => True
  | .call .touchHistoryPlay => state.initialised = true
  | _ => True

/-- The clock does not go back. -/
def PlaybackEvent.forward : PlaybackEvent → Bool
  | .passes millis => 0 ≤ millis
  | _ => true

/-- The times that a player has read do not go back. -/
def PlayerPhase.Timed (datas : List TouchEventData) (clock : Int) : PlayerPhase → Prop
  | .gettingSecond i a1 => a1.time ≤ clock ∧ ∀ a2, datas[i + 1]? = some a2 → a1.time ≤ a2.time
  | .calling _ a1 a2 | .storing _ a1 a2 | .sleeping _ a1 a2 _ => a1.time ≤ a2.time
  | _ => True

/-- A player finds what it is about to use. -/
def PlayerPhase.Sound (datas : List TouchEventData) (writer : Writer) : PlayerPhase → Prop
  | .testing i | .gettingFirst i | .gettingSecond i _ => i + 1 < datas.length
  | .sleeping _ _ _ _ => writer ≠ .null
  | .threw => False
  | _ => True

namespace Playback

/-- None of the times to wait is negative, or will be. -/
structure Timed (state : Playback) : Prop where
  wait : 0 ≤ state.waitMillis
  sorted : state.history.historyDatas.Pairwise fun first second => first.time ≤ second.time
  clock : ∀ data ∈ state.history.historyDatas, data.time ≤ state.clock
  players : ∀ phase ∈ state.players, phase.Timed state.history.historyDatas state.clock

/-- An enabled connector has a writer, and none is enabled while it is connected again. -/
structure Wired (state : Playback) : Prop where
  initialised : state.enable = true → state.initialised = true
  writer : state.enable = true ∨ state.window = .enabling → state.writer = .opened
  disabled : state.window.disconnected = true → state.enable = false

/-- No player is at an exception, and all of them have what they are about to use. -/
structure Sound (state : Playback) : Prop where
  timed : state.Timed
  wired : state.Wired
  connector : state.players ≠ [] → state.deviceConnector = true
  players : ∀ phase ∈ state.players, phase.Sound state.history.historyDatas state.writer

variable {hexDigit : UInt16 → Option Nat} {state next : Playback} {event : PlaybackEvent}

/-- A player reads two entries of a recording whose times do not go back. -/
theorem Timed.ordered (timed : state.Timed) {i : Nat} {a1 a2 : TouchEventData}
    (first : state.history.historyDatas[i]? = some a1)
    (second : state.history.historyDatas[i + 1]? = some a2) : a1.time ≤ a2.time := by
  obtain ⟨bound, rfl⟩ := List.getElem?_eq_some_iff.mp first
  obtain ⟨bound', rfl⟩ := List.getElem?_eq_some_iff.mp second
  exact List.pairwise_iff_getElem.mp timed.sorted i (i + 1) bound bound' (Nat.lt_succ_self i)

/-- A call of the window waits until the one before it has returned. -/
theorem call_some {window : WindowCall} (taken : state.step hexDigit (.call window) = some next) :
    state.window = .idle ∧ next = state.call window := by
  unfold Playback.step at taken
  dsimp only at taken
  split at taken
  · rename_i idle
    cases taken
    exact ⟨idle, rfl⟩
  · cases taken

/-- A step of a player is one that its place allows. -/
theorem goes_some {player : Nat} {accepted : Bool}
    (taken : state.step hexDigit (.goes player accepted) = some next) :
    ∃ phase turn, state.players[player]? = some phase ∧
      state.turn accepted phase = some turn ∧ next = state.take player turn := by
  -- The player is one of the list, and its place has a next step.
  obtain ⟨turn, found, rfl⟩ := Option.map_eq_some_iff.mp taken
  obtain ⟨phase, there, turned⟩ := Option.bind_eq_some_iff.mp found
  exact ⟨phase, turn, there, turned, rfl⟩

/-- The steps in which the window goes on. -/
inductive Continued (state : Playback) : Playback → Prop
  | cleared (process : Bool) (clearing : state.window = .clearing) :
    Continued state { state with history := ⟨[], process⟩, window := .idle }
  | closed (reconnects : Bool) (closing : state.window = .closing reconnects) :
    Continued state { state with
      writer := if state.writer = .null then .null else .closed
      window := .dropping reconnects }
  | dropped (reconnects : Bool) (dropping : state.window = .dropping reconnects) :
    Continued state { state with
      writer := .null, window := if reconnects then .connecting else .idle }
  | opened (connecting : state.window = .connecting) :
    Continued state { state with writer := .opened, window := .enabling }
  | failed (connecting : state.window = .connecting) :
    Continued state { state with window := .idle }
  | enabled (enabling : state.window = .enabling) :
    Continued state { state with enable := true, initialised := true, window := .idle }

/-- The window goes on in one of these ways. -/
theorem continues_some {succeeds : Bool}
    (taken : state.step hexDigit (.continues succeeds) = some next) : Continued state next := by
  replace taken : state.continues succeeds = some next := taken
  unfold Playback.continues at taken
  split at taken
  · cases taken
  · cases taken
    exact .cleared succeeds ‹_›
  · cases taken
    exact .closed _ ‹_›
  · cases taken
    exact .dropped _ ‹_›
  · rename_i connecting
    -- With a process there is a new writer, and without one the call is over.
    cases succeeds with
    | true =>
      cases taken
      exact .opened connecting
    | false =>
      cases taken
      exact .failed connecting
  · cases taken
    exact .enabled ‹_›

/-- Every step of the connector leaves it as it has to be. -/
theorem Wired.step (wired : state.Wired) (taken : state.step hexDigit event = some next) :
    next.Wired := by
  obtain ⟨initialised, writer, disabled⟩ := wired
  cases event with
  | passes millis =>
    cases taken
    exact ⟨initialised, writer, disabled⟩
  | call window =>
    obtain ⟨idle, rfl⟩ := call_some taken
    -- Only the calls that close the connection and the one that clears leave the window busy.
    cases window with
    | connection => exact ⟨nofun, fun either => by simp [call] at either, fun _ => rfl⟩
    | close => exact ⟨nofun, fun either => by simp [call] at either, fun _ => rfl⟩
    | touchHistoryStart =>
      exact ⟨initialised, fun either => writer (.inl (either.resolve_right nofun)), nofun⟩
    | _ => exact ⟨initialised, writer, disabled⟩
  -- What has been set back by `close` is set again by the last step of `connection` only.
  | continues succeeds =>
    cases continues_some taken with
    | cleared process clearing =>
      exact ⟨initialised, fun either => writer (.inl (either.resolve_right nofun)), nofun⟩
    -- From the closing on, the connector is not enabled.
    | closed reconnects closing =>
      have off : state.enable = false := disabled (by rw [closing]; rfl)
      refine ⟨initialised, fun either => ?_, fun _ => off⟩
      exact either.elim (fun on => by simp [off] at on) nofun
    | dropped reconnects dropping =>
      have off : state.enable = false := disabled (by rw [dropping]; rfl)
      refine ⟨initialised, fun either => ?_, fun _ => off⟩
      exact either.elim (fun on => by simp [off] at on) fun now => by
        cases reconnects <;> simp at now
    -- The writer is there before the connector is enabled.
    | opened connecting =>
      exact ⟨initialised, fun _ => rfl, fun _ => disabled (by rw [connecting]; rfl)⟩
    | failed connecting =>
      exact ⟨initialised, fun either => writer (.inl (either.resolve_right nofun)), nofun⟩
    | enabled enabling => exact ⟨fun _ => rfl, fun _ => writer (.inr enabling), nofun⟩
  | line data =>
    cases taken
    exact ⟨initialised, writer, disabled⟩
  | goes player accepted =>
    obtain ⟨_, _, _, _, rfl⟩ := goes_some taken
    exact ⟨initialised, writer, disabled⟩

/-- A connector that was never connected is as it has to be. -/
theorem Wired.new : Wired {} := ⟨nofun, fun either => by simp at either, nofun⟩

/-- What a player is about to wait is not negative, nor what it stores. -/
theorem Timed.turn (timed : state.Timed) {phase : PlayerPhase} (here : phase ∈ state.players)
    {accepted : Bool} {turn : Turn} (taken : state.turn accepted phase = some turn) :
    turn.phase.Timed state.history.historyDatas state.clock ∧ 0 ≤ turn.waitMillis := by
  have ready := timed.players phase here
  have wait := timed.wait
  cases phase with
  -- What it has read was written before now, and what follows is not earlier.
  | gettingFirst i =>
    cases taken
    cases first : state.history.historyDatas[i]? with
    | none => exact ⟨trivial, wait⟩
    | some a1 =>
      exact ⟨⟨timed.clock a1 (List.mem_of_getElem? first), fun a2 => timed.ordered first⟩, wait⟩
  | gettingSecond i a1 =>
    cases taken
    cases second : state.history.historyDatas[i + 1]? with
    | none => exact ⟨trivial, wait⟩
    | some a2 => exact ⟨ready.2 a2 second, wait⟩
  | calling i a1 a2 =>
    -- In each case it keeps both entries, or it is at an exception.
    have ordered : a1.time ≤ a2.time := ready
    cases taken
    refine ⟨?_, wait⟩
    dsimp only
    split
    · split
      · split
        · trivial
        · exact ordered
      · exact ordered
    · trivial
  -- A player that is asleep, and one that has woken up, still has both entries.
  | sleeping i a1 a2 sent =>
    have ordered : a1.time ≤ a2.time := ready
    cases taken
    split
    · exact ⟨trivial, wait⟩
    · exact ⟨ordered, wait⟩
  -- The difference of two times in order is stored.
  | storing i a1 a2 =>
    have ordered : a1.time ≤ a2.time := ready
    cases taken
    exact ⟨trivial, Int.sub_nonneg.mpr ordered⟩
  | ended => cases taken
  | threw => cases taken
  -- The others have read nothing yet.
  | _ =>
    cases taken
    refine ⟨?_, wait⟩
    dsimp only
    split <;> trivial

/-- A player of a recording that gets longer has still read times that do not go back. -/
theorem PlayerPhase.Timed.longer {datas : List TouchEventData} {clock : Int} {phase : PlayerPhase}
    (ready : phase.Timed datas clock) (strEvent : JString) :
    phase.Timed (datas ++ [⟨strEvent, clock⟩]) clock := by
  cases phase with
  | gettingSecond i a1 =>
    obtain ⟨before, ordered⟩ := ready
    refine ⟨before, fun a2 second => ?_⟩
    -- The next entry is one that there was, or the new one.
    rcases List.mem_append.mp (List.mem_of_getElem? second) with old | new
    · by_cases inside : i + 1 < datas.length
      · rw [List.getElem?_append_left inside] at second
        exact ordered a2 second
      · rw [List.getElem?_append_right (Nat.le_of_not_lt inside)] at second
        rw [List.mem_singleton.mp (List.mem_of_getElem? second)]
        exact before
    · rw [List.mem_singleton.mp new]
      exact before
  | _ => exact ready

/-- An entry that is made now goes behind the others. -/
theorem Timed.record (timed : state.Timed) (strEvent : JString) (process : Bool)
    (window : WindowPhase) :
    Timed { state with
      history := ⟨state.history.historyDatas ++ [⟨strEvent, state.clock⟩], process⟩
      window := window } where
  wait := timed.wait
  sorted := by
    refine List.pairwise_append.mpr ⟨timed.sorted, List.pairwise_singleton _ _, ?_⟩
    intro first before second last
    rw [List.mem_singleton.mp last]
    exact timed.clock first before
  clock := by
    intro data member
    rcases List.mem_append.mp member with before | last
    · exact timed.clock data before
    · rw [List.mem_singleton.mp last]
  players phase member := PlayerPhase.Timed.longer (timed.players phase member) strEvent

/-- As long as the clock does not go back, no time to wait is negative. -/
theorem Timed.step (timed : state.Timed) (forward : event.forward = true)
    (taken : state.step hexDigit event = some next) : next.Timed := by
  cases event with
  -- All times stay behind a clock that goes forward.
  | passes millis =>
    have later : 0 ≤ millis := by simpa [PlaybackEvent.forward] using forward
    have after : state.clock ≤ state.clock + millis := Int.le_add_of_nonneg_right later
    cases taken
    refine ⟨timed.wait, timed.sorted, fun data member => ?_, fun phase member => ?_⟩
    · exact Int.le_trans (timed.clock data member) after
    · have ready := timed.players phase member
      cases phase with
      | gettingSecond i a1 => exact ⟨Int.le_trans ready.1 after, ready.2⟩
      | _ => exact ready
  | call window =>
    obtain ⟨_, rfl⟩ := call_some taken
    cases window with
    | touchHistoryStart => exact timed.record [] false .clearing
    | touchHistoryStop => exact timed.record [] false state.window
    -- A new player has read nothing.
    | touchHistoryPlay =>
      refine ⟨timed.wait, timed.sorted, timed.clock, fun phase member => ?_⟩
      rcases List.mem_append.mp member with before | last
      · exact timed.players phase before
      · rw [List.mem_singleton.mp last]
        trivial
    | _ => exact ⟨timed.wait, timed.sorted, timed.clock, timed.players⟩
  | continues succeeds =>
    cases continues_some taken with
    | cleared process clearing =>
      -- What is recorded from now on is later than everything that was read.
      refine ⟨timed.wait, .nil, fun _ member => (by cases member), fun phase member => ?_⟩
      have ready := timed.players phase member
      cases phase with
      | gettingSecond i a1 => exact ⟨ready.1, nofun⟩
      | _ => exact ready
    | _ => exact ⟨timed.wait, timed.sorted, timed.clock, timed.players⟩
  | line data =>
    cases taken
    unfold TouchEventHistory.line
    cases readCallback hexDigit data with
    | none => exact timed
    | some strEvent => exact timed.record strEvent state.history.process state.window
  -- Only the place of the one player, and the field that it stores to, are new.
  | goes player accepted =>
    obtain ⟨phase, turn, there, turned, rfl⟩ := goes_some taken
    obtain ⟨ready, wait⟩ := timed.turn (List.mem_of_getElem? there) turned
    refine ⟨wait, timed.sorted, timed.clock, fun other member => ?_⟩
    rcases List.mem_or_eq_of_mem_set member with before | rfl
    · exact timed.players other before
    · exact ready

/-- Where nothing was done, no time is negative. -/
theorem Timed.new : Timed {} :=
  ⟨Int.le_refl 0, .nil, fun _ member => (by cases member), fun _ member => (by cases member)⟩

/-- A player that finds what it uses is not at an exception behind its next step. -/
theorem Sound.turn (sound : state.Sound) {phase : PlayerPhase} (here : phase ∈ state.players)
    {accepted : Bool} {turn : Turn} (taken : state.turn accepted phase = some turn) :
    turn.phase.Sound state.history.historyDatas state.writer := by
  have ready := sound.players phase here
  cases phase with
  -- In front of the test of the size nothing is about to be used.
  | entering =>
    cases taken
    dsimp only
    split <;> trivial
  | counting i =>
    cases taken
    dsimp only
    -- The size was tested, and the entries of these two indices are there.
    split
    · assumption
    · trivial
  | testing i =>
    cases taken
    dsimp only
    split
    · exact ready
    · trivial
  -- So neither of the two reads throws.
  | gettingFirst i =>
    have bound : i + 1 < state.history.historyDatas.length := ready
    cases taken
    rw [List.getElem?_eq_getElem (Nat.lt_of_succ_lt bound)]
    exact bound
  | gettingSecond i a1 =>
    have bound : i + 1 < state.history.historyDatas.length := ready
    cases taken
    rw [List.getElem?_eq_getElem bound]
    trivial
  | calling i a1 a2 =>
    cases taken
    dsimp only
    rw [if_pos (sound.connector (List.ne_nil_of_mem here))]
    split
    · -- A connector that is enabled has a writer.
      rename_i enabled
      rw [if_neg (Int.not_lt.mpr sound.timed.wait)]
      show state.writer ≠ .null
      rw [sound.wired.writer (.inl enabled)]
      nofun
    · trivial
  -- The writer is still there when it wakes up.
  | sleeping i a1 a2 sent =>
    have written : state.writer ≠ .null := ready
    cases taken
    rw [if_neg written]
    trivial
  | storing i a1 a2 =>
    cases taken
    trivial
  | ended => cases taken
  | threw => cases taken

/-- A player whose recording gets longer finds as much as before. -/
theorem PlayerPhase.Sound.longer {datas more : List TouchEventData} {writer : Writer}
    {phase : PlayerPhase} (ready : phase.Sound datas writer) :
    phase.Sound (datas ++ more) writer := by
  have more' : ∀ {i : Nat}, i + 1 < datas.length → i + 1 < (datas ++ more).length :=
    fun bound => Nat.lt_of_lt_of_le bound (by simp)
  cases phase with
  | testing i => exact more' ready
  | gettingFirst i => exact more' ready
  | gettingSecond i a1 => exact more' ready
  | _ => exact ready

/-- A call of the window leaves the players what they are about to use. -/
theorem Sound.call (sound : state.Sound) {window : WindowCall}
    (leaves : state.Leaves (.call window))
    (timed : (state.call window).Timed) (wired : (state.call window).Wired) :
    (state.call window).Sound := by
  cases window with
  -- Both add the empty event of `stop`, and take no entry away.
  | touchHistoryStart =>
    exact ⟨timed, wired, sound.connector, fun phase member =>
      PlayerPhase.Sound.longer (sound.players phase member)⟩
  | touchHistoryStop =>
    exact ⟨timed, wired, sound.connector, fun phase member =>
      PlayerPhase.Sound.longer (sound.players phase member)⟩
  -- The connector is handed to the players, and it is there by the condition.
  | touchHistoryPlay =>
    refine ⟨timed, wired, fun _ => leaves, fun phase member => ?_⟩
    rcases List.mem_append.mp member with before | last
    · exact sound.players phase before
    · rw [List.mem_singleton.mp last]
      trivial
  | _ => exact ⟨timed, wired, sound.connector, sound.players⟩

/-- The window goes on, and leaves the players what they are about to use. -/
theorem Sound.continues (sound : state.Sound) {succeeds : Bool}
    (leaves : state.Leaves (.continues succeeds)) (timed : next.Timed) (wired : next.Wired)
    (went : Continued state next) : next.Sound := by
  unfold Leaves at leaves
  cases went with
  | cleared process clearing =>
    rw [clearing] at leaves
    refine ⟨timed, wired, sound.connector, fun phase member => ?_⟩
    have ready := sound.players phase member
    have apart := leaves phase member
    -- No player is between its test of the size and its reads.
    cases phase with
    | testing i => cases apart
    | gettingFirst i => cases apart
    | gettingSecond i a1 => cases apart
    | _ => exact ready
  -- A writer that is closed is no null: what is written to it gets lost.
  | closed reconnects closing =>
    refine ⟨timed, wired, sound.connector, fun phase member => ?_⟩
    have ready := sound.players phase member
    cases phase with
    | sleeping i a1 a2 sent =>
      have written : state.writer ≠ .null := ready
      show (if state.writer = .null then Writer.null else .closed) ≠ .null
      rw [if_neg written]
      nofun
    | _ => exact ready
  | dropped reconnects dropping =>
    rw [dropping] at leaves
    refine ⟨timed, wired, sound.connector, fun phase member => ?_⟩
    have ready := sound.players phase member
    have awake := leaves phase member
    -- No player is asleep.
    cases phase with
    | sleeping i a1 a2 sent => cases awake
    | _ => exact ready
  -- The writer of the new process is no null, either.
  | opened connecting =>
    refine ⟨timed, wired, sound.connector, fun phase member => ?_⟩
    have ready := sound.players phase member
    cases phase with
    | sleeping i a1 a2 sent => exact nofun
    | _ => exact ready
  | failed connecting => exact ⟨timed, wired, sound.connector, sound.players⟩
  | enabled enabling => exact ⟨timed, wired, sound.connector, sound.players⟩

/-- An event that takes nothing away does not set the clock back. -/
theorem Leaves.forward (leaves : state.Leaves event) : event.forward = true := by
  cases event with
  | passes millis =>
    have later : 0 ≤ millis := leaves
    simpa [PlaybackEvent.forward] using later
  | _ => rfl

/-- Every event that takes nothing away keeps the players from exceptions. -/
theorem Sound.step (sound : state.Sound) (leaves : state.Leaves event)
    (taken : state.step hexDigit event = some next) : next.Sound := by
  have timed := sound.timed.step leaves.forward taken
  have wired := sound.wired.step taken
  cases event with
  | passes millis =>
    cases taken
    exact ⟨timed, wired, sound.connector, sound.players⟩
  | call window =>
    obtain ⟨_, rfl⟩ := call_some taken
    exact sound.call leaves timed wired
  | continues succeeds => exact sound.continues leaves timed wired (continues_some taken)
  | line data =>
    cases taken
    refine ⟨timed, wired, sound.connector, fun phase member => ?_⟩
    have ready := sound.players phase member
    unfold TouchEventHistory.line
    -- A line is ignored, or it is one more entry.
    cases readCallback hexDigit data with
    | none => exact ready
    | some strEvent => exact PlayerPhase.Sound.longer ready
  -- The others keep what they had, since a player changes no list and no writer.
  | goes player accepted =>
    obtain ⟨phase, turn, there, turned, rfl⟩ := goes_some taken
    have here := List.mem_of_getElem? there
    refine ⟨timed, wired, fun _ => sound.connector (List.ne_nil_of_mem here),
      fun other member => ?_⟩
    rcases List.mem_or_eq_of_mem_set member with before | rfl
    · exact sound.players other before
    · exact sound.turn here turned

/-- Where nothing was done, no player is at an exception. -/
theorem Sound.new : Sound {} :=
  ⟨.new, .new, fun filled => absurd rfl filled, fun _ member => (by cases member)⟩

/-- Every call for a player makes one, and nothing else does. -/
theorem step_players (taken : state.step hexDigit event = some next) :
    next.players.length = state.players.length + if event.plays then 1 else 0 := by
  cases event with
  | passes millis =>
    cases taken
    rfl
  | call window =>
    obtain ⟨_, rfl⟩ := call_some taken
    cases window with
    -- The only call that makes a thread.
    | touchHistoryPlay => simp [Playback.call, PlaybackEvent.plays]
    | _ => rfl
  | continues succeeds => cases continues_some taken <;> rfl
  | line data =>
    cases taken
    rfl
  | goes player accepted =>
    -- A player that ends stays in the list.
    obtain ⟨phase, turn, _, _, rfl⟩ := goes_some taken
    simp [Playback.take, PlaybackEvent.plays]

/-- There are as many players as calls for one. -/
theorem run_players {events : List PlaybackEvent} :
    ∀ {state final : Playback}, Events.run (step hexDigit) state events = some final →
      final.players.length = state.players.length + events.countP PlaybackEvent.plays := by
  induction events with
  | nil =>
    intro state final ran
    cases ran
    rfl
  | cons event rest ih =>
    intro state final ran
    obtain ⟨next, taken, later⟩ := Events.run_cons.mp ran
    rw [ih later, step_players taken, List.countP_cons]
    omega

/-- As long as nothing has set the flag back, no player leaves its loops. -/
structure Endless (state : Playback) : Prop where
  flag : state.players ≠ [] → state.playFlag = true
  going : PlayerPhase.ended ∉ state.players

/-- A player that finds the flag set does not end. -/
theorem turn_going {phase : PlayerPhase} {accepted : Bool} {turn : Turn}
    (flag : state.playFlag = true) (taken : state.turn accepted phase = some turn) :
    turn.phase ≠ .ended := by
  cases phase with
  -- The outer loop is left only behind the flag.
  | entering =>
    cases taken
    rw [flag]
    simp
  | ended => cases taken
  | threw => cases taken
  -- An exception is no end of the loops.
  | calling i a1 a2 =>
    cases taken
    dsimp only
    split
    · split
      · split <;> simp
      · simp
    · simp
  | sleeping i a1 a2 sent =>
    cases taken
    split <;> simp
  | storing i a1 a2 =>
    cases taken
    simp
  | _ =>
    cases taken
    dsimp only
    split <;> simp

/-- Only `playStop` sets the flag back. -/
theorem Endless.step (endless : state.Endless) (other : event ≠ .call .playStop)
    (taken : state.step hexDigit event = some next) : next.Endless := by
  cases event with
  | passes millis =>
    cases taken
    exact ⟨endless.flag, endless.going⟩
  | call window =>
    obtain ⟨_, rfl⟩ := call_some taken
    cases window with
    -- It sets the flag before it starts the thread.
    | touchHistoryPlay =>
      refine ⟨fun _ => rfl, fun member => ?_⟩
      rcases List.mem_append.mp member with before | last
      · exact endless.going before
      · cases List.mem_singleton.mp last
    | playStop => exact absurd rfl other
    | _ => exact ⟨endless.flag, endless.going⟩
  | continues succeeds =>
    -- The window leaves the players and the flag.
    cases continues_some taken <;> exact ⟨endless.flag, endless.going⟩
  | line data =>
    cases taken
    exact ⟨endless.flag, endless.going⟩
  | goes player accepted =>
    obtain ⟨phase, turn, there, turned, rfl⟩ := goes_some taken
    have flag := endless.flag (List.ne_nil_of_mem (List.mem_of_getElem? there))
    refine ⟨fun _ => flag, fun member => ?_⟩
    rcases List.mem_or_eq_of_mem_set member with before | same
    · exact endless.going before
    · exact turn_going flag turned same.symm

/-- Two events are recorded. -/
def recording : List PlaybackEvent :=
  [.call .connection, .continues true, .continues true, .continues true, .continues true,
    .call .touchHistoryStart, .continues true,
    .line (JString.ofString "/dev/input/event2: 0003 0035 00000064"), .passes 10,
    .line (JString.ofString "/dev/input/event2: 0000 0000 00000000"), .passes 30,
    .call .touchHistoryStop]

/-- The recording is played by two players. -/
def playedTwice : List PlaybackEvent :=
  recording ++ [.call .touchHistoryPlay, .goes 0 true, .goes 0 true, .call .touchHistoryPlay] ++
    List.replicate 8 (.goes 1 true) ++ List.replicate 8 (.goes 0 true)

end Playback

end Ends

section Stopping

/-- How many steps a player can still take when the flag is not set. -/
def PlayerPhase.left : PlayerPhase → Nat
  | .gettingFirst _ => 8
  | .gettingSecond _ _ => 7
  | .calling _ _ _ => 6
  | .sleeping _ _ _ _ => 5
  | .storing _ _ _ => 4
  | .counting _ => 3
  | .testing _ => 2
  | .entering => 1
  | .ended | .threw => 0

/-- A player that does not look at the flag before it writes once more. -/
def PlayerPhase.unstopped : PlayerPhase → Bool
  | .gettingFirst _ | .gettingSecond _ _ | .calling _ _ _ | .sleeping _ _ _ _ => true
  | _ => false

namespace Playback

variable {hexDigit : UInt16 → Option Nat} {state next : Playback} {event : PlaybackEvent}

/-- A player that finds the flag set back comes nearer to its end, and writes once at most. -/
theorem turn_left {phase : PlayerPhase} {accepted : Bool} {turn : Turn}
    (stopped : state.playFlag = false) (taken : state.turn accepted phase = some turn) :
    turn.phase.left < phase.left ∧
      turn.sent.toList.length + turn.phase.unstopped.toNat ≤ phase.unstopped.toNat := by
  cases phase with
  -- The loops are left at the next test of the flag.
  | entering =>
    cases taken
    simp [stopped, PlayerPhase.left, PlayerPhase.unstopped]
  | counting i =>
    cases taken
    dsimp only
    split <;> simp [PlayerPhase.left, PlayerPhase.unstopped]
  | testing i =>
    cases taken
    simp [stopped, PlayerPhase.left, PlayerPhase.unstopped]
  -- Behind the last test there is one command to write.
  | gettingFirst i =>
    cases taken
    dsimp only
    split <;> simp [PlayerPhase.left, PlayerPhase.unstopped]
  | gettingSecond i a1 =>
    cases taken
    dsimp only
    split <;> simp [PlayerPhase.left, PlayerPhase.unstopped]
  -- In each of the four cases it has not written yet.
  | calling i a1 a2 =>
    cases taken
    dsimp only
    split
    · split
      · split <;> simp [PlayerPhase.left, PlayerPhase.unstopped]
      · simp [PlayerPhase.left, PlayerPhase.unstopped]
    · simp [PlayerPhase.left, PlayerPhase.unstopped]
  | sleeping i a1 a2 sent =>
    cases taken
    split
    · simp [PlayerPhase.left, PlayerPhase.unstopped]
    · -- It has woken up, and writes now if it ever does.
      dsimp only
      split <;> simp [PlayerPhase.left, PlayerPhase.unstopped]
  | storing i a1 a2 =>
    cases taken
    simp [PlayerPhase.left, PlayerPhase.unstopped]
  | ended => cases taken
  | threw => cases taken

/-- What a player has written behind a step of its own. -/
theorem sentBy_take_self {player : Nat} (turn : Turn) :
    (state.take player turn).sentBy player = state.sentBy player ++ turn.sent.toList := by
  unfold sentBy take
  cases turn.sent <;> simp

/-- What a player has written behind a step of another one. -/
theorem sentBy_take_other {player other : Nat} (different : other ≠ player) (turn : Turn) :
    (state.take other turn).sentBy player = state.sentBy player := by
  unfold sentBy take
  cases turn.sent <;> simp [different]

/-- Only players write. -/
theorem step_sent (taken : state.step hexDigit event = some next)
    (apart : ∀ player, event.isOf player = false) : next.sent = state.sent := by
  cases event with
  | passes millis =>
    cases taken
    rfl
  | call window =>
    obtain ⟨_, rfl⟩ := call_some taken
    cases window <;> rfl
  | continues succeeds => cases continues_some taken <;> rfl
  | line data =>
    cases taken
    rfl
  | goes player accepted => simpa [PlaybackEvent.isOf] using apart player

/-- An event that is no step of a player, and asks for none, leaves the players. -/
theorem step_other (taken : state.step hexDigit event = some next) (quiet : event.plays = false)
    (apart : ∀ player, event.isOf player = false) :
    next.players = state.players ∧ (state.playFlag = false → next.playFlag = false) := by
  cases event with
  | passes millis =>
    cases taken
    exact ⟨rfl, id⟩
  | call window =>
    obtain ⟨_, rfl⟩ := call_some taken
    cases window with
    | touchHistoryPlay => cases quiet
    -- The flag is set by no call but the one for a new player.
    | playStop => exact ⟨rfl, fun _ => rfl⟩
    | _ => exact ⟨rfl, id⟩
  | continues succeeds => cases continues_some taken <;> exact ⟨rfl, id⟩
  | line data =>
    cases taken
    exact ⟨rfl, id⟩
  | goes player accepted => simpa [PlaybackEvent.isOf] using apart player

/-- A player that takes no step any more. -/
theorem left_zero {phase : PlayerPhase} (none' : phase.left = 0) :
    phase = .ended ∨ phase = .threw := by
  cases phase with
  | ended => exact .inl rfl
  | threw => exact .inr rfl
  | _ => cases none'

/-- The steps of a player in a run without the flag are bounded by its place, and so is its text. -/
theorem run_left {player : Nat} {later : List PlaybackEvent}
    (quiet : ∀ event ∈ later, event.plays = false) :
    ∀ {state final : Playback}, state.playFlag = false →
      Events.run (step hexDigit) state later = some final →
      ∀ {phase : PlayerPhase}, state.players[player]? = some phase →
        ∃ last, final.players[player]? = some last ∧
          later.countP (PlaybackEvent.isOf player) + last.left ≤ phase.left ∧
          (final.sentBy player).length + last.unstopped.toNat ≤
            (state.sentBy player).length + phase.unstopped.toNat := by
  induction later with
  | nil =>
    intro state final _ ran phase there
    cases ran
    exact ⟨phase, there, by simp, Nat.le_refl _⟩
  | cons event rest ih =>
    intro state final stopped ran phase there
    obtain ⟨next, taken, behind⟩ := Events.run_cons.mp ran
    obtain ⟨quietNow, quietLater⟩ := List.forall_mem_cons.mp quiet
    -- An event that no player takes, a step of this player, or one of another.
    by_cases apart : ∀ other, event.isOf other = false
    · obtain ⟨players, flag⟩ := step_other taken quietNow apart
      have sent := step_sent taken apart
      rw [← players] at there
      obtain ⟨last, held, steps, text⟩ := ih quietLater (flag stopped) behind there
      refine ⟨last, held, ?_, ?_⟩
      · rw [List.countP_cons, apart player]
        simpa using steps
      · rwa [show next.sentBy player = state.sentBy player by rw [sentBy, sentBy, sent]] at text
    · cases event with
      | goes other accepted =>
        obtain ⟨here, turn, found, turned, rfl⟩ := goes_some taken
        by_cases own : other = player
        · -- The player itself takes the step.
          subst own
          obtain rfl : here = phase := Option.some.inj (found.symm.trans there)
          have bound := (List.getElem?_eq_some_iff.mp there).1
          obtain ⟨nearer, once⟩ := turn_left stopped turned
          have flag : (state.take other turn).playFlag = false := stopped
          obtain ⟨last, held, steps, text⟩ := ih quietLater flag behind
            (List.getElem?_set_self bound)
          refine ⟨last, held, ?_, ?_⟩
          · simp only [List.countP_cons, PlaybackEvent.isOf, beq_self_eq_true, if_true] at steps ⊢
            omega
          · rw [sentBy_take_self, List.length_append] at text
            omega
        -- Another player leaves the place of this one, and its text.
        · have still : (state.take other turn).players[player]? = some phase := by
            rw [← there]
            exact List.getElem?_set_ne own
          have flag : (state.take other turn).playFlag = false := stopped
          obtain ⟨last, held, steps, text⟩ := ih quietLater flag behind still
          refine ⟨last, held, ?_, ?_⟩
          · simpa [List.countP_cons, PlaybackEvent.isOf, own] using steps
          · rwa [sentBy_take_other own] at text
      | _ => exact absurd (fun _ => rfl) apart

/-- A player that is not there takes no step, and has written nothing more. -/
theorem run_absent {player : Nat} {later : List PlaybackEvent}
    (quiet : ∀ event ∈ later, event.plays = false) :
    ∀ {state final : Playback}, Events.run (step hexDigit) state later = some final →
      state.players[player]? = none → later.countP (PlaybackEvent.isOf player) = 0 ∧
        final.sentBy player = state.sentBy player := by
  induction later with
  | nil =>
    intro state final ran _
    cases ran
    exact ⟨rfl, rfl⟩
  | cons event rest ih =>
    intro state final ran absent
    obtain ⟨next, taken, behind⟩ := Events.run_cons.mp ran
    obtain ⟨quietNow, quietLater⟩ := List.forall_mem_cons.mp quiet
    -- No player is added, so that its index stays behind the end.
    have size := step_players taken
    rw [quietNow] at size
    have still : next.players[player]? = none := by
      rw [List.getElem?_eq_none_iff] at absent ⊢
      simpa [size] using absent
    obtain ⟨none', same⟩ := ih quietLater behind still
    by_cases apart : ∀ other, event.isOf other = false
    · refine ⟨?_, same.trans (by rw [sentBy, sentBy, step_sent taken apart])⟩
      rw [List.countP_cons, apart player, none']
      rfl
    · cases event with
      | goes other accepted =>
        obtain ⟨here, turn, found, _, rfl⟩ := goes_some taken
        have different : other ≠ player := by
          intro own
          rw [own, absent] at found
          cases found
        refine ⟨?_, same.trans (sentBy_take_other different turn)⟩
        simpa [List.countP_cons, PlaybackEvent.isOf, different] using none'
      | _ => exact absurd (fun _ => rfl) apart

/--
Behind a `playStop`, until a player is asked for again, every player comes to its end.

It takes at most eight steps more, and what it was about to write is the last that it writes.
-/
theorem players_stop {later : List PlaybackEvent} (stopped : state.playFlag = false)
    (quiet : ∀ event ∈ later, event.plays = false) {final : Playback}
    (ran : Events.run (step hexDigit) state later = some final) (player : Nat) :
    later.countP (PlaybackEvent.isOf player) ≤ 8 ∧
      (final.sentBy player).length ≤ (state.sentBy player).length + 1 ∧
      (later.countP (PlaybackEvent.isOf player) = 8 →
        ∀ phase, final.players[player]? = some phase → phase = .ended ∨ phase = .threw) := by
  cases there : state.players[player]? with
  | none =>
    obtain ⟨none', same⟩ := run_absent quiet ran there
    refine ⟨by omega, by rw [same]; omega, fun eight => by omega⟩
  | some phase =>
    -- The bounds of the run are those of the place where the stop finds the player.
    have most : phase.left ≤ 8 := by cases phase <;> simp [PlayerPhase.left]
    have once : phase.unstopped.toNat ≤ 1 := Bool.toNat_le _
    obtain ⟨last, held, steps, text⟩ := run_left quiet stopped ran there
    refine ⟨by omega, by omega, fun eight other found => ?_⟩
    obtain rfl : last = other := Option.some.inj (held.symm.trans found)
    exact left_zero (by omega)

/-- A third player has just looked at the flag: it writes the first event, and ends. -/
theorem players_stop_late :
    ∃ state final, Events.run (step JString.asciiHexDigit) {} (playedTwice ++
        [.call .touchHistoryPlay, .goes 2 true, .goes 2 true, .goes 2 true, .call .playStop]) =
          some state ∧
      Events.run (step JString.asciiHexDigit) state (List.replicate 8 (.goes 2 true)) = some final ∧
      (final.sentBy 2).length = 1 ∧
      (final.players[2]? = some .ended ∨ final.players[2]? = some .threw) := by
  have ends : ((Events.run (step JString.asciiHexDigit) {} (playedTwice ++
      [.call .touchHistoryPlay, .goes 2 true, .goes 2 true, .goes 2 true, .call .playStop])).bind
        fun state =>
          if state.playFlag then none
          else (Events.run (step JString.asciiHexDigit) state
            (List.replicate 8 (.goes 2 true))).map fun final =>
              ((final.sentBy 2).length, final.players[2]?.isSome)) = some (1, true) := by
    decide +kernel
  obtain ⟨state, ran, ends⟩ := Option.bind_eq_some_iff.mp ends
  split at ends
  · cases ends
  · rename_i stopped
    obtain ⟨final, ran', outcome⟩ := Option.map_eq_some_iff.mp ends
    rw [Prod.mk.injEq] at outcome
    obtain ⟨phase, there⟩ := Option.isSome_iff_exists.mp outcome.2
    have last := (players_stop (Bool.eq_false_iff.mpr stopped) (by decide) ran' 2).2.2
      (by decide) phase there
    refine ⟨state, final, ran, ran', outcome.1, ?_⟩
    rw [there]
    exact last.imp (congrArg some) (congrArg some)

end Playback

end Stopping

end AndroidApps.TouchPc
