import AndroidApps.CommonLib.HdmiRules
import AndroidApps.Lib.Events

/-! How the changes of the connection, seen by two threads, reach the listener. -/

namespace AndroidApps.CommonLib

section Model

/-- What a `watchDogHdmiConnection` compares the lines of the log with. -/
structure HdmiWatch where
  tables : WdhcTables
  logLength : Nat
  toLowerCase : JString → JString

/-- A broadcast, with the number of its extras if it has any. -/
structure Intent where
  action : JString
  extras : Option Nat

/-- `ACTION_EXTDISP_DISPLAY`. -/
def actionExtdispDisplay : List JString := [
  JString.ofString "com.motorola.intent.action.EXTDISP_STATUS_CONNECTION",
  JString.ofString "com.motorola.intent.action.EXTDISP_STATUS_DISPLAY",
  JString.ofString "android.intent.action.HDMI_PLUGGED"]

/-- Actions are the same as their comparison says. -/
local instance lawfulBEq_action : LawfulBEq (List UInt16) := inferInstance

/-- The connection that `onReceive` reads from a broadcast. -/
def Intent.connection (intent : Intent) (connection : Bool) : Bool :=
  if intent.action ∈ actionExtdispDisplay then
    match intent.extras with
    -- Without extras an exception is thrown and caught.
    | none => connection
    | some keys => 1 < keys
  else connection

/-- Where the thread that reads the log stands in `OnLogcatData`. -/
inductive LogcatThread where
  | idle
  | entered (data : JString) (connected : Bool)
  | tested (data : JString) (connected isHdmiConnected : Bool)
  | compared (connected : Bool)
  | posting
  | ended
  deriving DecidableEq

/-- Where the main thread stands in `onReceive`. -/
inductive MainThread where
  | idle
  | received (connection : Bool)
  | changing (connection : Bool)
  | posting
  deriving DecidableEq

/-- Both threads, with the values that the flag was changed to and those the listener was told. -/
structure HdmiState where
  isHdmiConnected : Bool
  connectionListener : Bool
  posts : Nat
  logcat : LogcatThread
  main : MainThread
  changes : List Bool
  delivered : List Bool
  deriving DecidableEq

/-- What happens next: a line or a broadcast arrives, a thread goes on, or a post is delivered. -/
inductive HdmiEvent where
  | line (data : JString)
  | logcat
  | broadcast (intent : Intent)
  | main
  | deliver

namespace HdmiState

/-- A new object whose listener is set. -/
def new : HdmiState := ⟨false, true, 0, .idle, .idle, [], []⟩

/-- An assignment to `isHdmiConnected`. -/
def setConnected (state : HdmiState) (value : Bool) : HdmiState :=
  { state with
    isHdmiConnected := value
    changes := if value = state.isHdmiConnected then state.changes else state.changes ++ [value] }

/-- `sendNotification`. -/
def sendNotification (state : HdmiState) : HdmiState := { state with posts := state.posts + 1 }

/-- The start of `OnLogcatData`, up to where the flag is read for the first time. -/
def onLogcatData (watch : HdmiWatch) (state : HdmiState) (data : JString) : HdmiState :=
  let data := watch.toLowerCase data
  if !data.contains (JString.ofString "hdmi") &&
    !data.contains (JString.ofString "tvout") then state
  else { state with logcat := .entered data state.isHdmiConnected }

/-- The next statement of `OnLogcatData`. -/
def stepLogcat (watch : HdmiWatch) (state : HdmiState) : Option HdmiState :=
  match state.logcat with
  | .idle => none
  | .entered data connected =>
    some { state with logcat := .tested data connected state.isHdmiConnected }
  | .tested data connected true =>
    match watch.tables.compareTo watch.logLength watch.tables.logDisconnections data with
    | none => some { state with logcat := .ended }
    | some true => some ({ state with logcat := .compared connected }.setConnected false)
    | some false => some { state with logcat := .compared connected }
  | .tested data connected false =>
    match watch.tables.compareTo watch.logLength watch.tables.logConnections data with
    | none => some { state with logcat := .ended }
    | some true => some ({ state with logcat := .compared connected }.setConnected true)
    | some false => some { state with logcat := .compared connected }
  | .compared connected =>
    if connected ≠ state.isHdmiConnected then some { state with logcat := .posting }
    else some { state with logcat := .idle }
  | .posting => some { state with logcat := .idle }.sendNotification
  | .ended => none

/-- The next statement of `onReceive`. -/
def stepMain (state : HdmiState) : Option HdmiState :=
  match state.main with
  | .idle => none
  | .received connection =>
    if state.isHdmiConnected ≠ connection then some { state with main := .changing connection }
    else some { state with main := .idle }
  | .changing connection => some ({ state with main := .posting }.setConnected connection)
  | .posting => some { state with main := .idle }.sendNotification

/-- `notification_runnable`, which reads the flag when it is run. -/
def deliver (state : HdmiState) : Option HdmiState :=
  match state.main, state.posts with
  | .idle, posts + 1 =>
    some { state with
      posts := posts
      delivered :=
        if state.connectionListener then state.delivered ++ [state.isHdmiConnected]
        else state.delivered }
  -- The main thread is in a broadcast, or nothing was posted.
  | _, _ => none

/-- What an event does, if it can happen. -/
def step (watch : HdmiWatch) (state : HdmiState) : HdmiEvent → Option HdmiState
  | .line data =>
    match state.logcat with
    | .idle => some (state.onLogcatData watch data)
    | _ => none
  | .logcat => state.stepLogcat watch
  | .broadcast intent =>
    match state.main with
    | .idle => some { state with main := .received (intent.connection state.isHdmiConnected) }
    | _ => none
  | .main => state.stepMain
  | .deliver => state.deliver

end HdmiState

end Model

section Laws

namespace HdmiState

/-- Values that alternate, the first of which is true. -/
def Alternating (values : List Bool) : Prop :=
  ∀ index value, values[index]? = some value → value = decide (index % 2 = 0)

/-- The listener was told the first values that the flag was changed to, and these alternate. -/
def Reported (state : HdmiState) : Prop :=
  state.delivered <+: state.changes ∧ Alternating state.changes

/-- A post is delivered while an odd number of changes has not been reported. -/
def Timely (state : HdmiState) : HdmiEvent → Prop
  | .deliver => (state.changes.length - state.delivered.length) % 2 = 1
  | _ => True

/-- The flag is as often changed as its changes say, and the listener stays set. -/
structure Counted (state : HdmiState) : Prop where
  listening : state.connectionListener = true
  alternating : Alternating state.changes
  flag : state.isHdmiConnected = decide (state.changes.length % 2 = 1)

/-- What a step leaves of the flag and of what is recorded about it. -/
structure Quiet (state next : HdmiState) : Prop where
  listener : next.connectionListener = state.connectionListener
  delivered : next.delivered = state.delivered
  change : (next.isHdmiConnected = state.isHdmiConnected ∧ next.changes = state.changes) ∨
    (next.isHdmiConnected = !state.isHdmiConnected ∧
      next.changes = state.changes ++ [!state.isHdmiConnected])

/-- Where a thread stands does not matter. -/
theorem Quiet.moved {state next other : HdmiState} (quiet : Quiet state next)
    (same : (other.connectionListener, other.delivered, other.isHdmiConnected, other.changes) =
      (next.connectionListener, next.delivered, next.isHdmiConnected, next.changes)) :
    Quiet state other := by
  -- Both records agree in the four fields that are spoken of.
  simp only [Prod.mk.injEq] at same
  obtain ⟨listener, delivered, flag, changes⟩ := same
  refine ⟨listener.trans quiet.listener, delivered.trans quiet.delivered, ?_⟩
  rw [flag, changes]
  exact quiet.change

/-- A step that only moves a thread on. -/
theorem quiet_rfl (state : HdmiState) : Quiet state state := ⟨rfl, rfl, .inl ⟨rfl, rfl⟩⟩

/-- An assignment changes the flag or leaves it. -/
theorem setConnected_quiet (state : HdmiState) (value : Bool) :
    Quiet state (state.setConnected value) := by
  -- A boolean that is assigned either is the old one or its negation.
  refine ⟨rfl, rfl, ?_⟩
  cases value <;> cases flag : state.isHdmiConnected <;> simp [setConnected, flag]

/-- A step of `OnLogcatData` changes the flag at most once. -/
theorem stepLogcat_quiet {watch : HdmiWatch} {state next : HdmiState}
    (taken : state.stepLogcat watch = some next) : Quiet state next := by
  -- Only the two comparisons assign the flag; all other statements move the thread on.
  unfold stepLogcat at taken
  split at taken
  · cases taken
  · cases taken
    exact (quiet_rfl state).moved rfl
  · split at taken
    · cases taken
      exact (quiet_rfl state).moved rfl
    · cases taken
      exact (setConnected_quiet state _).moved rfl
    · cases taken
      exact (quiet_rfl state).moved rfl
  · split at taken
    · cases taken
      exact (quiet_rfl state).moved rfl
    · cases taken
      exact (setConnected_quiet state _).moved rfl
    · cases taken
      exact (quiet_rfl state).moved rfl
  · split at taken
    · cases taken
      exact (quiet_rfl state).moved rfl
    · cases taken
      exact (quiet_rfl state).moved rfl
  · cases taken
    exact (quiet_rfl state).moved rfl
  · cases taken

/-- A step of `onReceive` changes the flag at most once. -/
theorem stepMain_quiet {state next : HdmiState} (taken : state.stepMain = some next) :
    Quiet state next := by
  -- Only the assignment of a changed connection touches the flag.
  unfold stepMain at taken
  split at taken
  · cases taken
  · split at taken
    · cases taken
      exact (quiet_rfl state).moved rfl
    · cases taken
      exact (quiet_rfl state).moved rfl
  · cases taken
    exact (setConnected_quiet state _).moved rfl
  · cases taken
    exact (quiet_rfl state).moved rfl

/-- Only a delivery tells the listener something, and it tells the flag as it is then. -/
theorem step_cases {watch : HdmiWatch} {state next : HdmiState} {event : HdmiEvent}
    (taken : state.step watch event = some next) :
    (event ≠ .deliver ∧ Quiet state next) ∨
      (event = .deliver ∧ next.connectionListener = state.connectionListener ∧
        next.isHdmiConnected = state.isHdmiConnected ∧ next.changes = state.changes ∧
        next.delivered = if state.connectionListener then
          state.delivered ++ [state.isHdmiConnected] else state.delivered) := by
  -- The first four kinds of events are steps of one thread; none of them runs the posted code.
  cases event with
  | line data =>
    refine .inl ⟨nofun, ?_⟩
    simp only [step] at taken
    split at taken
    · cases taken
      unfold onLogcatData
      simp only
      split
      · exact (quiet_rfl state).moved rfl
      · exact (quiet_rfl state).moved rfl
    · cases taken
  | logcat => exact .inl ⟨nofun, stepLogcat_quiet taken⟩
  | broadcast intent =>
    refine .inl ⟨nofun, ?_⟩
    simp only [step] at taken
    split at taken
    · cases taken
      exact (quiet_rfl state).moved rfl
    · cases taken
  | main => exact .inl ⟨nofun, stepMain_quiet taken⟩
  | deliver =>
    simp only [step, deliver] at taken
    split at taken
    · cases taken
      exact .inr ⟨rfl, rfl, rfl, rfl, rfl⟩
    · cases taken

/-- Values that alternate go on with the value that is due. -/
theorem Alternating.append {values : List Bool} (alternating : Alternating values) {value : Bool}
    (due : value = decide (values.length % 2 = 0)) : Alternating (values ++ [value]) := by
  -- The new value stands at the end, where the parity of the length says which one is due.
  intro index other listed
  rcases List.getElem?_eq_some_iff.mp listed with ⟨inside, _⟩
  rw [List.length_append, List.length_singleton] at inside
  by_cases earlier : index < values.length
  · rw [List.getElem?_append_left earlier] at listed
    exact alternating index other listed
  · obtain rfl : index = values.length := by omega
    rw [List.getElem?_concat_length] at listed
    exact (Option.some.inj listed) ▸ due

/-- Every step keeps the count of the changes. -/
theorem Counted.step {watch : HdmiWatch} {state next : HdmiState} {event : HdmiEvent}
    (counted : Counted state) (taken : state.step watch event = some next) : Counted next := by
  -- A change adds the value that is not there now, and so keeps the parity in step with the flag.
  rcases step_cases taken with ⟨_, listener, _, change⟩ | ⟨_, listener, flag, changes, _⟩
  · rcases change with ⟨flag, changes⟩ | ⟨flag, changes⟩
    · exact ⟨listener.trans counted.listening, changes ▸ counted.alternating,
        by rw [flag, changes, counted.flag]⟩
    · -- The new value is the other one, which is the value that is due.
      have due : (!state.isHdmiConnected) = decide (state.changes.length % 2 = 0) := by
        rw [counted.flag, ← decide_not, decide_eq_decide]
        omega
      refine ⟨listener.trans counted.listening, changes ▸ counted.alternating.append due, ?_⟩
      rw [flag, changes, due, List.length_append, List.length_singleton, decide_eq_decide]
      omega
  · exact ⟨listener.trans counted.listening, changes ▸ counted.alternating,
      by rw [flag, changes, counted.flag]⟩

/-- Telling the flag is right while an odd number of changes has not been reported. -/
theorem Counted.delivered_iff {state : HdmiState} (counted : Counted state)
    (reported : state.delivered <+: state.changes) :
    state.delivered ++ [state.isHdmiConnected] <+: state.changes ↔
      (state.changes.length - state.delivered.length) % 2 = 1 := by
  -- The next value due to the listener is fixed by its place, and the flag by the last change.
  obtain ⟨rest, whole⟩ := reported
  have size : state.changes.length = state.delivered.length + rest.length := by
    rw [← whole, List.length_append]
  cases rest with
  | nil =>
    rw [List.append_nil] at whole
    rw [whole]
    constructor
    · intro longer
      have lengths := longer.length_le
      rw [List.length_append, List.length_singleton] at lengths
      omega
    · intro odd
      omega
  | cons value rest =>
    have listed : state.changes[state.delivered.length]? = some value := by
      rw [← whole, List.getElem?_append_right le_rfl, Nat.sub_self]
      rfl
    have due := counted.alternating _ _ listed
    have told : state.delivered ++ [state.isHdmiConnected] <+: state.changes ↔
        state.isHdmiConnected = value := by
      rw [← whole, List.prefix_append_right_inj, List.cons_prefix_cons]
      exact and_iff_left List.nil_prefix
    rw [List.length_cons] at size
    rw [told, counted.flag, due, decide_eq_decide]
    omega

/--
The listener is told the changes one by one exactly when every post finds an odd number of them.

A post that finds an even number tells again what the listener was told last.
-/
theorem hdmi_reported_iff (watch : HdmiWatch) (events : List HdmiEvent) :
    Events.Always (HdmiState.step watch) Reported .new events ↔
      Events.Along (HdmiState.step watch) Timely .new events := by
  -- Only a delivery can break the report, and it does so when the flag is not the value due next.
  have start : Counted .new := ⟨rfl, nofun, rfl⟩
  refine Events.always_iff_along Counted (fun _ _ _ counted _ taken => counted.step taken) ?_ start
    ⟨List.nil_prefix, nofun⟩
  intro state event next counted reported taken
  have after := counted.step taken
  rcases step_cases taken with ⟨other, _, delivered, change⟩ | ⟨rfl, _, _, changes, delivered⟩
  · -- No other event tells the listener anything, and changes are only added.
    have longer : state.changes <+: next.changes := by
      rcases change with ⟨_, changes⟩ | ⟨_, changes⟩
      · rw [changes]
      · rw [changes]
        exact List.prefix_append _ _
    have timely : Timely state event := by
      cases event with
      | deliver => exact absurd rfl other
      | _ => trivial
    refine iff_of_true ⟨?_, after.alternating⟩ timely
    rw [delivered]
    exact reported.1.trans longer
  · rw [counted.listening, if_pos rfl] at delivered
    rw [Reported, delivered, changes, counted.delivered_iff reported.1]
    exact and_iff_left counted.alternating

/-- An object with the built-in rules alone, and letters that are lowered as in English. -/
def builtInWatch : HdmiWatch where
  tables := staticInfo.foldl WdhcTables.addWdhcInfos .empty
  logLength := 8
  toLowerCase text := text.map fun unit => if 0x41 ≤ unit ∧ unit ≤ 0x5A then unit + 0x20 else unit

/-- A display is plugged in and out before the main thread gets to the first post. -/
def lateDelivery : List HdmiEvent := [
  .line (JString.ofString "HDMI connected"), .logcat, .logcat, .logcat, .logcat,
  .line (JString.ofString "HDMI disconnected"), .logcat, .logcat, .logcat, .logcat,
  .deliver, .deliver]

/-- The listener is told twice that nothing is connected. -/
theorem hdmi_lateDelivery :
    ¬ Events.Always (HdmiState.step builtInWatch) Reported .new lateDelivery := by
  -- The changes to true and to false were posted, and both posts tell the value at the end.
  intro always
  have ran : Events.run (HdmiState.step builtInWatch) .new lateDelivery =
      some ⟨false, true, 0, .idle, .idle, [true, false], [false, false]⟩ := by
    unfold builtInWatch staticInfo lateDelivery
    repeat rw [JString.ofString_ofList]
    decide +kernel
  have reported := Events.always_iff.mp always lateDelivery (List.prefix_refl _) _ ran
  exact absurd reported.1 (by decide)

end HdmiState

end Laws

end AndroidApps.CommonLib
