import AndroidApps.TouchPc.Playback

/-! What the players of a finished recording write, whatever the others do. -/

namespace AndroidApps.TouchPc

section Rounds

variable (datas : List TouchEventData)

/-- The entry that is sent after a number of commands, when the recording is played in rounds. -/
def entryAt (count : Nat) : Option TouchEventData := datas[count % (datas.length - 1)]?

/-- What is waited for before it: what was left, and then the difference of the entries before. -/
def waitAt (waitMillis : Int) : Nat → Option Int
  | 0 => some waitMillis
  | count + 1 => do
    let a1 ← entryAt datas count
    let a2 ← datas[count % (datas.length - 1) + 1]?
    return a2.time - a1.time

/-- Where a player stands when it has sent a number of commands. -/
def PlayerPhase.Place (count : Nat) : PlayerPhase → Prop
  | .entering => count % (datas.length - 1) = 0
  | .counting i => i ≤ datas.length - 1 ∧ count % (datas.length - 1) = i % (datas.length - 1)
  | .testing i | .gettingFirst i => i + 1 < datas.length ∧ count % (datas.length - 1) = i
  | .gettingSecond i a1 =>
    i + 1 < datas.length ∧ count % (datas.length - 1) = i ∧ datas[i]? = some a1
  | .calling i a1 a2 =>
    i + 1 < datas.length ∧ count % (datas.length - 1) = i ∧ datas[i]? = some a1 ∧
      datas[i + 1]? = some a2
  | .sleeping i a1 a2 sent =>
    i + 1 < datas.length ∧ count % (datas.length - 1) = i ∧ datas[i]? = some a1 ∧
      datas[i + 1]? = some a2 ∧ sent.cmd = sendCommand a1
  | .storing i a1 a2 =>
    i + 1 < datas.length ∧ ∃ before, count = before + 1 ∧ before % (datas.length - 1) = i ∧
      datas[i]? = some a1 ∧ datas[i + 1]? = some a2
  | .ended | .threw => False

/-- The steps of a player since it has written, or since it was made, are at most these. -/
def PlayerPhase.since : PlayerPhase → Nat
  | .storing _ _ _ => 0
  | .counting 0 => 3
  | .counting (_ + 1) => 1
  | .entering => 2
  | .testing _ => 4
  | .gettingFirst _ => 5
  | .gettingSecond _ _ => 6
  | .calling _ _ _ => 7
  | .sleeping _ _ _ _ => 8
  | .ended | .threw => 0

/-- A player has sent the entries of the recording round and round, and is at its place in them. -/
structure PlayerPhase.Rounds (cmds : List Sent) (steps : Nat) (phase : PlayerPhase) : Prop where
  written : ∀ turn < cmds.length,
    (cmds[turn]?).map Sent.cmd = (entryAt datas turn).map sendCommand
  steps : steps ≤ 9 * cmds.length + phase.since
  place : phase.Place datas cmds.length

variable {datas}

/-- Behind the last entry of a round the first one is sent again. -/
theorem succ_mod {count i : Nat} (place : count % (datas.length - 1) = i) :
    (count + 1) % (datas.length - 1) = (i + 1) % (datas.length - 1) := by
  rw [← place, Nat.mod_add_mod]

/-- The steps of a player that finds its recording, its connector and its flag as they were. -/
inductive ReplayTurn (datas : List TouchEventData) (waitMillis : Int) : PlayerPhase → Turn → Prop
  | entering : ReplayTurn datas waitMillis .entering { phase := .counting 0, waitMillis }
  | more (i : Nat) (more : i + 1 < datas.length) :
    ReplayTurn datas waitMillis (.counting i) { phase := .testing i, waitMillis }
  | around (i : Nat) (last : ¬ i + 1 < datas.length) :
    ReplayTurn datas waitMillis (.counting i) { phase := .entering, waitMillis }
  | testing (i : Nat) :
    ReplayTurn datas waitMillis (.testing i) { phase := .gettingFirst i, waitMillis }
  | first (i : Nat) (a1 : TouchEventData) (there : datas[i]? = some a1) :
    ReplayTurn datas waitMillis (.gettingFirst i) { phase := .gettingSecond i a1, waitMillis }
  | second (i : Nat) (a1 a2 : TouchEventData) (there : datas[i + 1]? = some a2) :
    ReplayTurn datas waitMillis (.gettingSecond i a1) { phase := .calling i a1 a2, waitMillis }
  | calling (i : Nat) (a1 a2 : TouchEventData) :
    ReplayTurn datas waitMillis (.calling i a1 a2)
      { phase := .sleeping i a1 a2 ⟨sendCommand a1, waitMillis⟩, waitMillis }
  | sleeping (i : Nat) (a1 a2 : TouchEventData) (sent : Sent) :
    ReplayTurn datas waitMillis (.sleeping i a1 a2 sent)
      { phase := .storing i a1 a2, sent := some sent, waitMillis }
  | storing (i : Nat) (a1 a2 : TouchEventData) :
    ReplayTurn datas waitMillis (.storing i a1 a2)
      { phase := .counting (i + 1), waitMillis := a2.time - a1.time }

namespace PlayerPhase

variable {phase : PlayerPhase} {cmds : List Sent} {steps : Nat} {waitMillis : Int}

/-- A player that has taken a step and written nothing is only at another place. -/
theorem Rounds.silent (rounds : phase.Rounds datas cmds steps) {next : PlayerPhase}
    (later : phase.since < next.since) (there : next.Place datas cmds.length) :
    next.Rounds datas (cmds ++ []) (steps + 1) := by
  -- One step more is allowed for by the place it is at.
  have := rounds.steps
  rw [List.append_nil]
  exact ⟨rounds.written, by omega, there⟩

/-- A player that wakes up writes the entry it is at. -/
theorem Rounds.writes {i : Nat} {a1 a2 : TouchEventData} {sent : Sent}
    (rounds : (PlayerPhase.sleeping i a1 a2 sent).Rounds datas cmds steps) :
    (PlayerPhase.storing i a1 a2).Rounds datas (cmds ++ [sent]) (steps + 1) := by
  obtain ⟨written, bound, inside, here, first, second, command⟩ := rounds
  refine ⟨?_, ?_, ?_⟩
  · intro turn below
    have within : turn < cmds.length + 1 := by simpa using below
    -- The command is one that was written before, or the one that is written now.
    rcases Nat.lt_succ_iff_lt_or_eq.mp within with before | rfl
    · rw [List.getElem?_append_left before]
      exact written turn before
    · simp [entryAt, here, first, command]
  -- The nine steps of one more command are allowed for.
  · simp only [since, List.length_append, List.length_singleton] at bound ⊢
    omega
  · exact ⟨inside, cmds.length, by simp, here, first, second⟩

/-- A step of a player goes on with its round, and writes the entry it is at. -/
theorem Rounds.turn (two : 2 ≤ datas.length) (rounds : phase.Rounds datas cmds steps)
    {turn : Turn} (turned : ReplayTurn datas waitMillis phase turn) :
    turn.phase.Rounds datas (cmds ++ turn.sent.toList) (steps + 1) := by
  have place := rounds.place
  cases turned with
  -- The outer loop begins a round with the first entry.
  | entering =>
    refine rounds.silent (by simp [since]) ⟨Nat.zero_le _, ?_⟩
    rw [Nat.zero_mod]
    exact place
  -- There is one more pair of entries in this round.
  | more i more =>
    obtain ⟨inside, here⟩ := place
    refine rounds.silent ?_ ⟨more, ?_⟩
    · cases i <;> simp [since]
    · rw [here, Nat.mod_eq_of_lt (by omega)]
  | around i last =>
    -- All entries of the round were sent.
    obtain ⟨inside, here⟩ := place
    have behind : i = datas.length - 1 := by omega
    refine rounds.silent ?_ ?_
    · cases i with
      | zero => omega
      | succ i => simp [since]
    · show cmds.length % (datas.length - 1) = 0
      rw [here, behind, Nat.mod_self]
  -- Up to the writing it only reads the two entries of its index.
  | testing i => exact rounds.silent (by simp [since]) place
  | first i a1 there =>
    obtain ⟨inside, here⟩ := place
    exact rounds.silent (by simp [since]) ⟨inside, here, there⟩
  | second i a1 a2 there =>
    obtain ⟨inside, here, first⟩ := place
    exact rounds.silent (by simp [since]) ⟨inside, here, first, there⟩
  | calling i a1 a2 =>
    obtain ⟨inside, here, first, second⟩ := place
    exact rounds.silent (by simp [since]) ⟨inside, here, first, second, rfl⟩
  | sleeping i a1 a2 sent => exact rounds.writes
  | storing i a1 a2 =>
    -- Behind the entry that was written stands the next one, or the round is over.
    obtain ⟨inside, before, size, here, _⟩ := place
    refine rounds.silent (by simp [since]) ⟨by omega, ?_⟩
    rw [size]
    exact succ_mod here

end PlayerPhase

end Rounds

section Runs

/-- An event that leaves the recording and the connection, and in which all writing succeeds. -/
def PlaybackEvent.replays : PlaybackEvent → Bool
  | .passes millis => 0 ≤ millis
  | .call .touchHistoryPlay => true
  | .goes _ accepted => accepted
  | _ => false

namespace Playback

variable {hexDigit : UInt16 → Option Nat} {datas : List TouchEventData} {made : Nat}
  {state next : Playback} {event : PlaybackEvent} {steps : Nat → Nat}

/-- All players that were made lately are in their rounds. -/
structure Replaying (datas : List TouchEventData) (made : Nat) (steps : Nat → Nat)
    (state : Playback) : Prop where
  timed : state.Timed
  wired : state.Wired
  enabled : state.enable = true
  recorded : state.history.historyDatas = datas
  flag : made < state.players.length → state.playFlag = true
  connector : made < state.players.length → state.deviceConnector = true
  absent : ∀ player, state.players[player]? = none → steps player = 0 ∧ state.sentBy player = []
  rounds : ∀ player phase, made ≤ player → state.players[player]? = some phase →
    phase.Rounds datas (state.sentBy player) (steps player)

/-- Whatever replays does not set the clock back. -/
theorem forward_of_replays (replays : event.replays = true) : event.forward = true := by
  cases event with
  | passes millis => exact replays
  | _ => rfl

/-- A player that was made lately finds everything as it was. -/
theorem Replaying.turn (replaying : Replaying datas made steps state) {player : Nat}
    (late : made ≤ player) {phase : PlayerPhase} (there : state.players[player]? = some phase)
    {turn : Turn} (taken : state.turn true phase = some turn) :
    ReplayTurn datas state.waitMillis phase turn := by
  have place := (replaying.rounds player phase late there).place
  have among : made < state.players.length :=
    Nat.lt_of_le_of_lt late (List.getElem?_eq_some_iff.mp there).1
  have recorded := replaying.recorded
  cases phase with
  -- The flag is set, since the player was started by a press of Play.
  | entering =>
    cases taken
    rw [replaying.flag among]
    exact .entering
  | counting i =>
    cases taken
    rw [recorded]
    -- The inner loop goes on, or it has reached the last entry.
    split
    · rename_i more
      exact .more i more
    · rename_i last
      exact .around i last
  | testing i =>
    cases taken
    rw [replaying.flag among]
    exact .testing i
  -- Both entries are there, as the recording is as long as it was at the test.
  | gettingFirst i =>
    have found := List.getElem?_eq_getElem (Nat.lt_of_succ_lt place.1)
    cases taken
    rw [recorded, found]
    exact .first i _ found
  | gettingSecond i a1 =>
    have found := List.getElem?_eq_getElem place.1
    cases taken
    rw [recorded, found]
    exact .second i a1 _ found
  -- The connector is there and enabled, and the time to wait is not negative.
  | calling i a1 a2 =>
    cases taken
    rw [replaying.connector among, replaying.enabled, if_pos rfl, if_pos rfl,
      if_neg (Int.not_lt.mpr replaying.timed.wait)]
    exact .calling i a1 a2
  | sleeping i a1 a2 sent =>
    -- A connector that is enabled has a writer, which accepts the command.
    have written := replaying.wired.writer (.inl replaying.enabled)
    cases taken
    rw [written, if_neg nofun, if_pos ⟨rfl, rfl⟩]
    exact .sleeping i a1 a2 sent
  | storing i a1 a2 =>
    cases taken
    exact .storing i a1 a2
  | ended => cases taken
  | threw => cases taken

/-- A player that takes a step goes on in its round, and the others stay in theirs. -/
theorem Replaying.goes (two : 2 ≤ datas.length) (replaying : Replaying datas made steps state)
    {player : Nat} (taken : state.step hexDigit (.goes player true) = some next) :
    Replaying datas made (fun other => steps other + if other = player then 1 else 0) next := by
  have timed := replaying.timed.step rfl taken
  have wired := replaying.wired.step taken
  obtain ⟨phase, turn, there, turned, rfl⟩ := goes_some taken
  have bound := (List.getElem?_eq_some_iff.mp there).1
  have size : (state.take player turn).players.length = state.players.length := by simp [take]
  refine ⟨timed, wired, replaying.enabled, replaying.recorded,
    fun later => replaying.flag (size ▸ later), fun later => replaying.connector (size ▸ later),
    fun other none' => ?_, fun other here late held => ?_⟩
  -- A player that is not there is another one, and none of its own steps is counted.
  · have absent : state.players[other]? = none := by simpa [take] using none'
    have different : player ≠ other := by
      intro same
      rw [← same, there] at absent
      cases absent
    obtain ⟨zero, empty⟩ := replaying.absent other absent
    rw [sentBy_take_other different, if_neg (Ne.symm different)]
    exact ⟨zero, empty⟩
  · by_cases own : player = other
    · subst own
      rw [take, List.getElem?_set_self bound] at held
      obtain rfl : turn.phase = here := Option.some.inj held
      rw [sentBy_take_self, if_pos rfl]
      exact (replaying.rounds player phase late there).turn two
        (replaying.turn late there turned)
    -- The step is one of another player, which leaves this one where it is.
    · have same : state.players[other]? = some here := by
        rw [← held]
        exact (List.getElem?_set_ne own).symm
      rw [sentBy_take_other own, if_neg (Ne.symm own)]
      exact replaying.rounds other here late same

/-- A player that is not there behind a press of Play was not there before. -/
theorem play_absent {player : Nat}
    (none' : (state.call .touchHistoryPlay).players[player]? = none) :
    state.players[player]? = none := by
  rw [List.getElem?_eq_none_iff] at none' ⊢
  exact Nat.le_trans (by simp [Playback.call]) none'

/-- A player that is there behind a press of Play was there before, or enters its loops. -/
theorem play_cases {player : Nat} {phase : PlayerPhase}
    (there : (state.call .touchHistoryPlay).players[player]? = some phase) :
    state.players[player]? = some phase ∨
      state.players[player]? = none ∧ phase = .entering := by
  rcases Nat.lt_or_ge player state.players.length with before | behind
  -- The new player is at the end of the list.
  · rw [Playback.call, List.getElem?_append_left before] at there
    exact .inl there
  · rw [Playback.call, List.getElem?_append_right behind, List.getElem?_singleton] at there
    split_ifs at there
    cases there
    exact .inr ⟨List.getElem?_eq_none behind, rfl⟩

/-- Whatever replays keeps the players in their rounds. -/
theorem Replaying.step (two : 2 ≤ datas.length) (replaying : Replaying datas made steps state)
    (replays : event.replays = true) (taken : state.step hexDigit event = some next) :
    Replaying datas made (fun player => steps player + if event.isOf player then 1 else 0)
      next := by
  have timed := replaying.timed.step (forward_of_replays replays) taken
  have wired := replaying.wired.step taken
  cases event with
  | passes millis =>
    cases taken
    exact ⟨timed, wired, replaying.enabled, replaying.recorded, replaying.flag,
      replaying.connector, replaying.absent, replaying.rounds⟩
  | call window =>
    cases window with
    | touchHistoryPlay =>
      obtain ⟨_, rfl⟩ := call_some taken
      -- An enabled connector was handed to `init`, so that it is handed to the player.
      refine ⟨timed, wired, replaying.enabled, replaying.recorded, fun _ => rfl,
        fun _ => replaying.wired.initialised replaying.enabled,
        fun player none' => replaying.absent player (play_absent none'),
        fun player phase late there => ?_⟩
      rcases play_cases there with before | ⟨none', rfl⟩
      · exact replaying.rounds player phase late before
      · -- The player that is new has written nothing.
        obtain ⟨zero, empty⟩ := replaying.absent player none'
        have none' : (state.call .touchHistoryPlay).sentBy player = [] := empty
        rw [none']
        refine ⟨fun _ below => (by cases below), ?_, Nat.zero_mod _⟩
        simp [zero, PlaybackEvent.isOf]
    -- The other calls change the recording, the connection or the flag.
    | _ => cases replays
  | continues succeeds => cases replays
  | line data => cases replays
  | goes player accepted =>
    cases replays
    have going := replaying.goes two taken
    -- Both ways to count the step of the player are the same.
    have same : (fun other => steps other +
        if PlaybackEvent.isOf other (.goes player true) then 1 else 0) =
        fun other => steps other + if other = player then 1 else 0 := by
      funext other
      by_cases own : player = other
      · simp [PlaybackEvent.isOf, own]
      · rw [if_neg (Ne.symm own)]
        simp [PlaybackEvent.isOf, own]
    rwa [same]

/-- In every run that replays the players stay in their rounds. -/
theorem Replaying.run (two : 2 ≤ datas.length) {later : List PlaybackEvent}
    (replays : ∀ event ∈ later, event.replays = true) :
    ∀ {state final : Playback} {steps : Nat → Nat}, Replaying datas made steps state →
      Events.run (Playback.step hexDigit) state later = some final →
        Replaying datas made (fun player => steps player +
          later.countP (PlaybackEvent.isOf player)) final := by
  -- The induction is on the events that are left, with one step taken first.
  induction later with
  | nil =>
    intro state final steps replaying ran
    cases ran
    exact replaying
  | cons event rest ih =>
    intro state final steps replaying ran
    obtain ⟨next, taken, behind⟩ := Events.run_cons.mp ran
    obtain ⟨now, after⟩ := List.forall_mem_cons.mp replays
    have going := ih after (replaying.step two now taken) behind
    have same : (fun player => steps player + (event :: rest).countP (PlaybackEvent.isOf player)) =
        fun player => steps player + (if event.isOf player then 1 else 0) +
          rest.countP (PlaybackEvent.isOf player) := by
      funext player
      rw [List.countP_cons]
      omega
    rwa [same]

/-- What was written was written by players that were made. -/
theorem run_sent {events : List PlaybackEvent}
    (ran : Events.run (Playback.step hexDigit) {} events = some state) :
    ∀ entry ∈ state.sent, entry.1 < state.players.length := by
  refine Events.run_invariant (fun state => ∀ entry ∈ state.sent, entry.1 < state.players.length)
    (fun before event after made taken => ?_) (fun _ member => by cases member) ran
  have size := step_players taken
  by_cases apart : ∀ player, event.isOf player = false
  · rw [step_sent taken apart]
    exact fun entry member => Nat.lt_of_lt_of_le (made entry member) (by omega)
  · cases event with
    | goes player accepted =>
      obtain ⟨phase, turn, there, _, rfl⟩ := goes_some taken
      have bound := (List.getElem?_eq_some_iff.mp there).1
      intro entry member
      rcases List.mem_append.mp member with old | new
      · simpa [take] using made entry old
      -- The entry that is new is one of the player that took the step.
      · cases written : turn.sent with
        | none => simp [written] at new
        | some sent =>
          obtain rfl : entry = (player, sent) := by simpa [written] using new
          simpa [take] using bound
    | _ => exact absurd (fun _ => rfl) apart

end Playback

end Runs

section Waits

/-- What a player that is alone waits for, and what it has waited for. -/
structure PlayerPhase.Waits (datas : List TouchEventData) (first : Int) (cmds : List Sent)
    (waitMillis : Int) (phase : PlayerPhase) : Prop where
  written : ∀ turn < cmds.length, (cmds[turn]?).map Sent.waitMillis = waitAt datas first turn
  wait : match phase with
    | .sleeping _ _ _ sent => waitAt datas first cmds.length = some sent.waitMillis
    | .storing _ _ _ => True
    | _ => waitAt datas first cmds.length = some waitMillis

namespace Playback

variable {hexDigit : UInt16 → Option Nat} {datas : List TouchEventData} {made : Nat}
  {state next : Playback} {event : PlaybackEvent} {first : Int} {player : Nat}

/-- What was stored behind a command is what the next one waits for. -/
theorem turn_waits {phase : PlayerPhase} {cmds : List Sent} {waitMillis : Int}
    (place : phase.Place datas cmds.length) (waits : phase.Waits datas first cmds waitMillis)
    {turn : Turn} (turned : ReplayTurn datas waitMillis phase turn) :
    turn.phase.Waits datas first (cmds ++ turn.sent.toList) turn.waitMillis := by
  obtain ⟨written, due⟩ := waits
  cases turned with
  -- The command is written behind the time that it was about to wait.
  | sleeping i a1 a2 sent =>
    refine ⟨fun turn below => ?_, trivial⟩
    have within : turn < cmds.length + 1 := by simpa using below
    rcases Nat.lt_succ_iff_lt_or_eq.mp within with before | rfl
    · show ((cmds ++ [sent])[turn]?).map Sent.waitMillis = _
      rw [List.getElem?_append_left before]
      exact written turn before
    · simpa using due.symm
  | storing i a1 a2 =>
    -- The difference of the two entries is what the next command waits for.
    obtain ⟨_, before, size, here, one, other⟩ := place
    refine ⟨by simpa using written, ?_⟩
    simp [size, waitAt, entryAt, here, one, other]
  -- Everywhere else nothing is written, and what is waited for stays.
  | _ => exact ⟨by simpa using written, by simpa using due⟩

/-- Only this player sets the time to wait. -/
structure Alone (datas : List TouchEventData) (first : Int) (player : Nat) (state : Playback) :
    Prop where
  absent : state.players[player]? = none → state.waitMillis = first
  waits : ∀ phase, state.players[player]? = some phase →
    phase.Waits datas first (state.sentBy player) state.waitMillis

/-- As long as no other player takes a step, it goes on waiting for what it has stored. -/
theorem Alone.step {steps : Nat → Nat} (replaying : Replaying datas made steps state)
    (late : made ≤ player) (alone : Alone datas first player state)
    (replays : event.replays = true)
    (own : ∀ other accepted, event = .goes other accepted → other = player)
    (taken : state.step hexDigit event = some next) : Alone datas first player next := by
  cases event with
  | passes millis =>
    cases taken
    exact ⟨alone.absent, alone.waits⟩
  | call window =>
    cases window with
    | touchHistoryPlay =>
      obtain ⟨_, rfl⟩ := call_some taken
      refine ⟨fun none' => alone.absent (play_absent none'), fun phase there => ?_⟩
      rcases play_cases there with before | ⟨none', rfl⟩
      · exact alone.waits phase before
      · -- A player that is new waits for what it finds.
        have empty : (state.call .touchHistoryPlay).sentBy player = [] :=
          (replaying.absent player none').2
        rw [empty]
        refine ⟨fun _ below => (by cases below), ?_⟩
        exact congrArg some (alone.absent none').symm
    | _ => cases replays
  | continues succeeds => cases replays
  | line data => cases replays
  -- The step is one of this player, and so is what is stored by it.
  | goes other accepted =>
    obtain rfl := own other accepted rfl
    cases replays
    obtain ⟨phase, turn, there, turned, rfl⟩ := goes_some taken
    have bound := (List.getElem?_eq_some_iff.mp there).1
    refine ⟨fun none' => ?_, fun here held => ?_⟩
    · rw [take, List.getElem?_set_self bound] at none'
      cases none'
    · rw [take, List.getElem?_set_self bound] at held
      obtain rfl : turn.phase = here := Option.some.inj held
      rw [sentBy_take_self]
      exact turn_waits (replaying.rounds other phase late there).place (alone.waits phase there)
        (replaying.turn late there turned)

/-- Two players, whose steps alternate. -/
def alternating : List PlaybackEvent :=
  [.call .touchHistoryPlay, .call .touchHistoryPlay] ++
    (List.replicate 16 [.goes 0 true, .goes 1 true]).flatten

end Playback

end Waits

end AndroidApps.TouchPc
