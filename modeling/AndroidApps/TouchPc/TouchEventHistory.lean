import AndroidApps.Lib.JavaTextLaws
import AndroidApps.Lib.Utf8
import Mathlib.Data.List.Chain

/-! The recording of touch events, and the pass that plays it back. -/

namespace AndroidApps.TouchPc

section Model

-- `Character.digit` in the radix 16 belongs to the library of the platform.
variable (hexDigit : UInt16 → Option Nat)

/-- `TouchEventData`, with the time at which it was made. -/
structure TouchEventData where
  strEvent : JString
  time : Int
  deriving DecidableEq

/-- The value of an event, in which all bits set stand for -1. -/
def eventValue (token : JString) : Option Int :=
  if token = JString.ofString "ffffffff" then some (-1) else JString.parseRadix 16 hexDigit token

/-- The text of an event, as it is handed to `sendevent`. -/
def eventText (devNm : JString) (type code value : Int) : JString :=
  devNm ++ [0x20] ++ JString.decimal type ++ [0x20] ++ JString.decimal code ++ [0x20] ++
    JString.decimal value

/-- `readCallback`: the event of a line, unless it is empty or an exception is thrown and caught. -/
def readCallback (data : JString) : Option JString :=
  let data := data.trim
  if data.length < 1 then none
  else
    match JString.split 0x20 data with
    | name :: type :: code :: value :: _ => do
      let devNm := JString.trim (name.filter (· != 0x3A))
      let type ← JString.parseRadix 16 hexDigit type
      let code ← JString.parseRadix 16 hexDigit code
      let value ← eventValue hexDigit value
      return eventText devNm type code value
    | _ => none

/-- The recording, and whether a process is running for it. -/
structure TouchEventHistory where
  historyDatas : List TouchEventData
  process : Bool

/-- What is done with a recording, each at some time. -/
inductive HistoryOp where
  | start (succeeds : Bool) (now : Int)
  | line (data : JString) (now : Int)
  | stop (now : Int)

namespace TouchEventHistory

/-- A new recording. -/
def new : TouchEventHistory := ⟨[], false⟩

/-- `stop`, which adds an empty event at the end. -/
def stop (history : TouchEventHistory) (now : Int) : TouchEventHistory :=
  ⟨history.historyDatas ++ [⟨[], now⟩], false⟩

/-- `start`, which clears the recording before the process is started. -/
def start (history : TouchEventHistory) (succeeds : Bool) (now : Int) : TouchEventHistory :=
  { history.stop now with historyDatas := [], process := succeeds }

/-- A line of the process. -/
def line (history : TouchEventHistory) (data : JString) (now : Int) : TouchEventHistory :=
  match readCallback hexDigit data with
  | none => history
  | some strEvent => { history with historyDatas := history.historyDatas ++ [⟨strEvent, now⟩] }

/-- What an operation does. -/
def perform (history : TouchEventHistory) : HistoryOp → TouchEventHistory
  | .start succeeds now => history.start succeeds now
  | .line data now => history.line hexDigit data now
  | .stop now => history.stop now

end TouchEventHistory

/-- A call of `deviceConnector.command`. -/
structure Sent where
  cmd : JString
  waitMillis : Int
  deriving DecidableEq

/-- What a pass has sent, and whether it was ended by an exception of `Thread.sleep`. -/
structure Pass where
  sent : List Sent
  threw : Bool
  deriving DecidableEq

/-- The command that is sent for an entry of the recording. -/
def sendCommand (data : TouchEventData) : JString := JString.ofString "sendevent " ++ data.strEvent

/-- A pass of `playThread` over the recording, beginning with the value left in `waitMillis`. -/
def playPass : Int → List TouchEventData → Pass
  | waitMillis, a1 :: a2 :: rest =>
    -- A negative time to sleep is an `IllegalArgumentException`, which ends the thread.
    if waitMillis < 0 then ⟨[], true⟩
    else
      let later := playPass (a2.time - a1.time) (a2 :: rest)
      ⟨⟨sendCommand a1, waitMillis⟩ :: later.sent, later.threw⟩
  | _, _ => ⟨[], false⟩

end Model

section Playing

/-- The entries that are sent wait for times that have not gone back. -/
def Steady (waitMillis : Int) (datas : List TouchEventData) : Prop :=
  datas = [] ∨ (0 ≤ waitMillis ∧ datas.IsChain fun first second => first.time ≤ second.time)

/-- A pass over two entries at least. -/
theorem playPass_cons (waitMillis : Int) (a1 a2 : TouchEventData) (rest : List TouchEventData) :
    playPass waitMillis (a1 :: a2 :: rest) =
      if waitMillis < 0 then ⟨[], true⟩
      else ⟨⟨sendCommand a1, waitMillis⟩ :: (playPass (a2.time - a1.time) (a2 :: rest)).sent,
        (playPass (a2.time - a1.time) (a2 :: rest)).threw⟩ := rfl

/-- A pass comes to its end when no time to wait is negative. -/
theorem playPass_ends (datas : List TouchEventData) : ∀ waitMillis : Int,
    (playPass waitMillis datas).threw = false ↔ Steady waitMillis datas.dropLast := by
  -- The last entry is never sent, so that the time to it is never slept.
  induction datas with
  | nil =>
    intro waitMillis
    exact iff_of_true rfl (.inl rfl)
  | cons a1 rest ih =>
    intro waitMillis
    cases rest with
    | nil => exact iff_of_true rfl (.inl rfl)
    | cons a2 rest =>
      rw [playPass_cons, List.dropLast_cons_cons]
      by_cases negative : waitMillis < 0
      · rw [if_pos negative]
        refine iff_of_false (by simp) ?_
        rintro (none | ⟨positive, _⟩)
        · cases none
        · omega
      · -- What the next entry waits for is the difference to this one.
        rw [if_neg negative, ih, Steady, Steady]
        cases rest with
        | nil => simpa using negative
        | cons a3 rest =>
          simp only [List.dropLast_cons_cons, List.cons_ne_nil, false_or, List.isChain_cons_cons]
          constructor
          · rintro ⟨positive, chain⟩
            exact ⟨by omega, by omega, chain⟩
          · rintro ⟨_, positive, chain⟩
            exact ⟨by omega, chain⟩

/-- A pass that comes to its end sends all entries but the last one. -/
theorem playPass_sent (datas : List TouchEventData) : ∀ waitMillis : Int,
    (playPass waitMillis datas).threw = false →
      (playPass waitMillis datas).sent.map Sent.cmd = datas.dropLast.map sendCommand := by
  -- Each round of the loop sends the first of two entries and goes on with the second.
  induction datas with
  | nil => exact fun _ _ => rfl
  | cons a1 rest ih =>
    intro waitMillis ends
    cases rest with
    | nil => rfl
    | cons a2 rest =>
      rw [playPass_cons] at ends ⊢
      split at ends
      · cases ends
      · rename_i positive
        rw [if_neg positive, List.dropLast_cons_cons, List.map_cons, List.map_cons, ih _ ends]

/-- The first entry waits for what was left of the pass before. -/
theorem playPass_first (waitMillis : Int) (datas : List TouchEventData) {sent : Sent}
    (first : (playPass waitMillis datas).sent[0]? = some sent) : sent.waitMillis = waitMillis := by
  -- A pass over fewer than two entries sends nothing.
  match datas with
  | [] => cases first
  | [_] => cases first
  | a1 :: a2 :: rest =>
    rw [playPass_cons] at first
    split at first
    · cases first
    · cases first
      rfl

/-- Every other entry waits for the difference to the one before. -/
theorem playPass_waits (datas : List TouchEventData) : ∀ (waitMillis : Int) (index : Nat)
    (first second : TouchEventData) (sent : Sent), datas[index]? = some first →
      datas[index + 1]? = some second → (playPass waitMillis datas).sent[index + 1]? = some sent →
      sent.waitMillis = second.time - first.time := by
  -- What an entry waits for was computed in the round before it.
  induction datas with
  | nil => exact fun _ _ _ _ _ there _ _ => by cases there
  | cons a1 rest ih =>
    intro waitMillis index first second sent one other listed
    cases rest with
    | nil => cases other
    | cons a2 rest =>
      rw [playPass_cons] at listed
      split at listed
      · cases listed
      · rw [List.getElem?_cons_succ] at listed
        cases index with
        | zero =>
          cases one
          cases other
          exact playPass_first _ _ listed
        | succ index => exact ih _ index first second sent one other listed

end Playing

section Recording

variable (hexDigit : UInt16 → Option Nat)

/-- The events recorded since the last start. -/
def recordedSince (ops : List HistoryOp) : List TouchEventData :=
  ops.foldl (fun events op => match op with
    | .start _ _ => []
    | .line data now =>
      events ++ ((readCallback hexDigit data).map fun strEvent => ⟨strEvent, now⟩).toList
    | .stop _ => events) []

/-- What was done since the last start: true for a recorded event, false for a stop. -/
def marksSince (ops : List HistoryOp) : List Bool :=
  ops.foldl (fun marks op => match op with
    | .start _ _ => []
    | .line data _ => marks ++ ((readCallback hexDigit data).map fun _ => true).toList
    | .stop _ => marks ++ [false]) []

/-- The recording behind some operations. -/
def historyAfter (ops : List HistoryOp) : List TouchEventData :=
  (ops.foldl (TouchEventHistory.perform hexDigit) .new).historyDatas

/--
A pass replays some events.

It comes to its end, having sent each of them once and in order, and nothing else.
-/
structure Replays (events : List TouchEventData) (pass : Pass) : Prop where
  ends : pass.threw = false
  commands : pass.sent.map Sent.cmd = events.map sendCommand
  waits : ∀ index first second sent, events[index]? = some first →
    events[index + 1]? = some second → pass.sent[index + 1]? = some sent →
    sent.waitMillis = second.time - first.time

/-- Nothing was done since the last start, or there was one stop behind all recorded events. -/
def StoppedOnce (marks : List Bool) : Prop :=
  marks = [] ∨ ∃ count, marks = List.replicate count true ++ [false]

/-- The text of an event is not empty. -/
theorem readCallback_ne_nil {data strEvent : JString}
    (recorded : readCallback hexDigit data = some strEvent) : strEvent ≠ [] := by
  -- The text has blanks between its parts, whatever the numbers are.
  unfold readCallback at recorded
  simp only at recorded
  split at recorded
  · cases recorded
  · split at recorded
    · simp only [Option.bind_eq_bind, Option.bind_eq_some_iff, Option.pure_def,
        Option.some.injEq] at recorded
      obtain ⟨type, _, code, _, value, _, rfl⟩ := recorded
      simp [eventText]
    · cases recorded

/-- The recording, its events and its marks belong together. -/
structure Marked (marked : List (Bool × TouchEventData)) (datas events : List TouchEventData)
    (marks : List Bool) : Prop where
  datas : datas = marked.map Prod.snd
  events : events = (marked.filter Prod.fst).map Prod.snd
  marks : marks = marked.map Prod.fst
  event : ∀ entry ∈ marked, entry.1 = true → entry.2.strEvent ≠ []
  stop : ∀ entry ∈ marked, entry.1 = false → entry.2.strEvent = []

/-- An entry added to the recording is an event or a stop. -/
theorem Marked.append {marked : List (Bool × TouchEventData)} {datas events : List TouchEventData}
    {marks : List Bool} (belongs : Marked marked datas events marks) (mark : Bool)
    (data : TouchEventData) (event : mark = true → data.strEvent ≠ [])
    (stop : mark = false → data.strEvent = []) :
    Marked (marked ++ [(mark, data)]) (datas ++ [data])
      (events ++ if mark then [data] else []) (marks ++ [mark]) := by
  -- Each of the five facts is one about the entries so far and one about the new entry.
  obtain ⟨datas, events, marks, isEvent, isStop⟩ := belongs
  refine ⟨?_, ?_, ?_, ?_, ?_⟩
  · rw [datas, List.map_append, List.map_singleton]
  · rw [events, List.filter_append, List.map_append]
    cases mark with
    | true => rfl
    | false => rfl
  · rw [marks, List.map_append, List.map_singleton]
  · intro entry member
    rcases List.mem_append.mp member with before | last
    · exact isEvent entry before
    · rw [List.mem_singleton.mp last]
      exact event
  · intro entry member
    rcases List.mem_append.mp member with before | last
    · exact isStop entry before
    · rw [List.mem_singleton.mp last]
      exact stop

/-- The entries of a recording are its events and its stops. -/
theorem exists_marked (ops : List HistoryOp) :
    ∃ marked, Marked marked (historyAfter hexDigit ops) (recordedSince hexDigit ops)
      (marksSince hexDigit ops) := by
  -- Each operation clears the entries, adds one or leaves them.
  induction ops using List.reverseRecOn with
  | nil => exact ⟨[], rfl, rfl, rfl, nofun, nofun⟩
  | append_singleton ops op ih =>
    obtain ⟨marked, belongs⟩ := ih
    rw [historyAfter, recordedSince, marksSince, List.foldl_append, List.foldl_append,
      List.foldl_append, List.foldl_cons, List.foldl_cons, List.foldl_cons]
    cases op with
    | start succeeds now => exact ⟨[], rfl, rfl, rfl, nofun, nofun⟩
    | stop now =>
      have added := belongs.append false ⟨[], now⟩ nofun fun _ => rfl
      rw [if_neg Bool.false_ne_true, List.append_nil] at added
      exact ⟨_, added⟩
    | line data now =>
      cases recorded : readCallback hexDigit data with
      | none =>
        refine ⟨marked, ?_⟩
        simp only [List.foldl_nil, TouchEventHistory.perform, TouchEventHistory.line, recorded,
          Option.map_none, Option.toList_none, List.append_nil]
        exact belongs
      | some strEvent =>
        simp only [List.foldl_nil, TouchEventHistory.perform, TouchEventHistory.line, recorded,
          Option.map_some, Option.toList_some]
        exact ⟨_, belongs.append true ⟨strEvent, now⟩ (fun _ =>
          readCallback_ne_nil hexDigit recorded) nofun⟩

/-- A recording that was stopped once, behind its events, has one entry more than these. -/
theorem Marked.dropLast_eq {marked : List (Bool × TouchEventData)}
    {datas events : List TouchEventData} {marks : List Bool}
    (belongs : Marked marked datas events marks) (stopped : StoppedOnce marks) :
    datas.dropLast = events := by
  -- The one stop is the last entry, and the entries before it are the events.
  obtain ⟨datas, events, marks, _, _⟩ := belongs
  rw [datas, events]
  rcases stopped with nothing | ⟨count, once⟩
  · rw [nothing] at marks
    rw [List.map_eq_nil_iff.mp marks.symm]
    rfl
  · rw [once] at marks
    obtain ⟨before, last, rfl, trues, falses⟩ := List.map_eq_append_iff.mp marks.symm
    obtain ⟨entry, rfl, unmarked⟩ := List.map_eq_singleton_iff.mp falses
    have all : before.filter Prod.fst = before := by
      refine List.filter_eq_self.mpr fun entry member => ?_
      have mark : entry.1 ∈ List.replicate count true := trues ▸ List.mem_map_of_mem member
      exact List.eq_of_mem_replicate mark
    rw [List.map_append, List.map_singleton, List.dropLast_concat, List.filter_append, all]
    simp [unmarked]

/-- Sending all entries but the last one sends the events only if there is one stop, at the end. -/
theorem Marked.stoppedOnce {marked : List (Bool × TouchEventData)}
    {datas events : List TouchEventData} {marks : List Bool}
    (belongs : Marked marked datas events marks)
    (same : datas.dropLast.map sendCommand = events.map sendCommand) : StoppedOnce marks := by
  -- If a stop stood among the entries sent, its empty text would be sent.
  obtain ⟨datas, events, marks, isEvent, isStop⟩ := belongs
  rcases List.eq_nil_or_concat marked with rfl | ⟨before, last, rfl⟩
  · exact .inl marks
  · rw [List.concat_eq_append] at datas events marks isEvent isStop
    rw [datas, events, List.map_append, List.map_singleton, List.dropLast_concat] at same
    -- What is sent is the text of an event, so that no stop is sent.
    have trues : ∀ entry ∈ before, entry.1 = true := by
      intro entry member
      have sent : sendCommand entry.2 ∈ (before.map Prod.snd).map sendCommand :=
        List.mem_map_of_mem (List.mem_map_of_mem member)
      rw [same, List.mem_map] at sent
      obtain ⟨data, event, command⟩ := sent
      obtain ⟨other, listed, rfl⟩ := List.mem_map.mp event
      obtain ⟨there, mark⟩ := List.mem_filter.mp listed
      have text := List.append_cancel_left command
      by_contra stop
      refine isEvent other there mark (text.trans (isStop entry ?_ (Bool.not_eq_true _ ▸ stop)))
      exact List.mem_append_left _ member
    have all : before.filter Prod.fst = before := List.filter_eq_self.mpr trues
    have lengths := congrArg List.length same
    rw [List.filter_append, all] at lengths
    refine .inr ⟨before.length, ?_⟩
    rw [marks, List.map_append, List.map_singleton]
    congr 1
    · exact List.eq_replicate_iff.mpr ⟨List.length_map _, fun mark member => by
        obtain ⟨entry, listed, rfl⟩ := List.mem_map.mp member
        exact trues entry listed⟩
    · -- Were the last entry an event, there would be one more to send.
      cases mark : last.1 with
      | false => rfl
      | true => simp [mark] at lengths

/-- A pass replays the recording exactly when it was stopped once and time has not gone back. -/
theorem replays_iff (ops : List HistoryOp) (waitMillis : Int) :
    Replays (recordedSince hexDigit ops) (playPass waitMillis (historyAfter hexDigit ops)) ↔
      StoppedOnce (marksSince hexDigit ops) ∧ Steady waitMillis (recordedSince hexDigit ops) := by
  -- A pass sends all entries but the last one, so that the last one has to be the only stop.
  obtain ⟨marked, belongs⟩ := exists_marked hexDigit ops
  constructor
  · rintro ⟨ends, commands, _⟩
    have stopped := belongs.stoppedOnce ((playPass_sent _ _ ends).symm.trans commands)
    refine ⟨stopped, ?_⟩
    rw [← belongs.dropLast_eq stopped]
    exact (playPass_ends _ _).mp ends
  · rintro ⟨stopped, steady⟩
    have same := belongs.dropLast_eq stopped
    have ends : (playPass waitMillis (historyAfter hexDigit ops)).threw = false :=
      (playPass_ends _ _).mpr (same ▸ steady)
    refine ⟨ends, (playPass_sent _ _ ends).trans (congrArg (List.map sendCommand) same), ?_⟩
    intro index first second sent one other listed
    -- The events are the first entries of the recording.
    have entry {place : Nat} {data : TouchEventData}
        (event : (recordedSince hexDigit ops)[place]? = some data) :
        (historyAfter hexDigit ops)[place]? = some data := by
      rw [← same] at event
      obtain ⟨inside, value⟩ := List.getElem?_eq_some_iff.mp event
      rw [List.getElem_dropLast] at value
      exact List.getElem?_eq_some_iff.mpr ⟨_, value⟩
    exact playPass_waits _ _ index first second sent (entry one) (entry other) listed

/-- An event is recorded, and the recording is stopped twice. -/
def stoppedTwice : List HistoryOp := [
  .start true 0, .line (JString.ofString "/dev/input/event2: 0003 0035 00000064") 10, .stop 20,
  .stop 30]

/-- The empty event of the first stop is sent too. -/
theorem replays_stoppedTwice :
    ¬ Replays (recordedSince JString.asciiHexDigit stoppedTwice)
      (playPass 0 (historyAfter JString.asciiHexDigit stoppedTwice)) := by
  intro replays
  exact absurd replays.commands (by decide +kernel)

end Recording

end AndroidApps.TouchPc
