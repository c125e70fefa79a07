import AndroidApps.Lib.Events
import AndroidApps.Lib.Utf8

/-! The life of a log reader: the calls on it, and what its thread does meanwhile. -/

namespace AndroidApps.CommonLib

section Model

/-- Where a running reader thread stands in `run`. -/
inductive ReaderPhase where
  | initializing
  | executing
  | reading
  | leaving
  | cleared
  deriving DecidableEq

/-- The state of a `Thread` object; a stillborn one was stopped before it was started. -/
inductive ThreadState where
  | new
  | stillborn
  | running (phase : ReaderPhase)
  | dead
  deriving DecidableEq

/-- The calls on a `logcatProcess`. -/
inductive LogcatCall where
  | init
  | start
  | stop
  | release
  deriving DecidableEq

/-- What `run` meets next. -/
inductive ReaderStep where
  | initFails
  | initDone (filters : List JString)
  | execFails
  | execDone
  | readFails
  | noticesStop
  | clearAlive
  | clearThread
  deriving DecidableEq

/-- A `logcatProcess`, with all `Thread` objects it has made and the calls on it, the last first. -/
structure LogcatProcess where
  thread : Option Nat
  alive : Bool
  filter : List JString
  threads : List ThreadState
  calls : List LogcatCall
  deriving DecidableEq

/-- How a call ends. -/
inductive CallResult where
  | returned (value : Bool)
  | threw
  deriving DecidableEq

namespace LogcatProcess

/-- A new object. -/
def new : LogcatProcess := ⟨none, false, [], [], []⟩

/-- A call is recorded. -/
def called (process : LogcatProcess) (call : LogcatCall) : LogcatProcess :=
  { process with calls := call :: process.calls }

/-- `init`. -/
def init (process : LogcatProcess) : LogcatProcess × CallResult :=
  let process := process.called .init
  match process.thread with
  | some _ => (process, .returned false)
  | none =>
    ({ process with
      thread := some process.threads.length
      threads := process.threads ++ [.new]
      filter := [JString.ofString "logcat"] }, .returned true)

/-- `start`. -/
def start (process : LogcatProcess) : LogcatProcess × CallResult :=
  let process := process.called .start
  if process.alive then (process, .returned true)
  else
    let process := { process with alive := true }
    match process.thread with
    | none => (process, .returned false)
    | some thread =>
      match process.threads[thread]? with
      | some .new =>
        ({ process with threads := process.threads.set thread (.running .initializing) },
          .returned true)
      -- A stillborn thread is started, and ends before it runs.
      | some .stillborn =>
        ({ process with threads := process.threads.set thread .dead }, .returned true)
      -- No thread is started twice.
      | _ => (process, .threw)

-- What `Thread.stop` does depends on the platform: it throws, or leaves the thread in some state.
variable (threadStop : ThreadState → Option ThreadState)

/-- `stop` without recording the call. -/
def stopThread (process : LogcatProcess) : LogcatProcess × CallResult :=
  let process := { process with alive := false }
  match process.thread with
  | none => (process, .returned true)
  | some thread =>
    match (process.threads[thread]?).bind threadStop with
    | some stopped =>
      ({ process with threads := process.threads.set thread stopped }, .returned true)
    | none => (process, .threw)

/-- `stop`. -/
def stop (process : LogcatProcess) : LogcatProcess × CallResult :=
  (process.called .stop).stopThread threadStop

/-- `release`. -/
def release (process : LogcatProcess) : LogcatProcess × CallResult :=
  match (process.called .release).stopThread threadStop with
  | (process, .returned value) => ({ process with thread := none }, .returned value)
  | thrown => thrown

/-- A call on the object. -/
def perform (process : LogcatProcess) : LogcatCall → LogcatProcess × CallResult
  | .init => process.init
  | .start => process.start
  | .stop => process.stop threadStop
  | .release => process.release threadStop

/-- The state of a reader thread behind a step, and what the step does to the object. -/
def readerStep (process : LogcatProcess) (phase : ReaderPhase) :
    ReaderStep → Option (ThreadState × LogcatProcess)
  | .initFails =>
    if phase = .initializing then some (.running .leaving, process) else none
  | .initDone filters =>
    if phase = .initializing then
      some (.running .executing, { process with filter := process.filter ++ filters })
    else none
  -- An exception of `exec` ends the thread, and both fields stay as they are.
  | .execFails => if phase = .executing then some (.dead, process) else none
  | .execDone => if phase = .executing then some (.running .reading, process) else none
  | .readFails => if phase = .reading then some (.running .leaving, process) else none
  | .noticesStop =>
    if phase = .reading ∧ process.alive = false then some (.running .leaving, process) else none
  | .clearAlive =>
    if phase = .leaving then some (.running .cleared, { process with alive := false }) else none
  | .clearThread =>
    if phase = .cleared then some (.dead, { process with thread := none }) else none

end LogcatProcess

/-- What happens next: a call, or a step of one of the reader threads. -/
inductive LogcatEvent where
  | call (call : LogcatCall)
  | reader (thread : Nat) (step : ReaderStep)
  deriving DecidableEq

/-- What an event does, if it can happen. -/
def LogcatProcess.step (threadStop : ThreadState → Option ThreadState) (process : LogcatProcess) :
    LogcatEvent → Option LogcatProcess
  | .call call => some (process.perform threadStop call).1
  | .reader thread step =>
    match process.threads[thread]? with
    | some (.running phase) =>
      (process.readerStep phase step).map fun (state, process) =>
        { process with threads := process.threads.set thread state }
    | _ => none

/-- `WDHC.getInstance`, which calls `init` only for a new object. -/
def getInstance (singleTon : Option LogcatProcess) : LogcatProcess :=
  match singleTon with
  | none => LogcatProcess.new.init.1
  | some process => process

end Model

end AndroidApps.CommonLib
