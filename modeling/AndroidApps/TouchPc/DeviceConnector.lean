import AndroidApps.Lib.Events
import AndroidApps.Lib.Utf8

/-! A shell on the device, whose output lines go to the callback that was set last. -/

namespace AndroidApps.TouchPc

section Model

/-- A line of output, with the number of the command that has produced it. -/
structure Line where
  command : Nat
  text : JString
  deriving DecidableEq

/-- A call of `command`, with a callback or null. -/
structure Command (γ : Type) where
  cmd : JString
  callback : Option γ
  deriving DecidableEq

/-- Where the caller of `command` stands; it writes the command behind setting the callback. -/
inductive Caller where
  | idle
  | writing
  deriving DecidableEq

/-- Where the reader thread stands in `run`. -/
inductive Reader where
  | waiting
  | holding (line : Line)
  | tested (line : Line)
  | ended
  deriving DecidableEq

/-- A `DeviceConnector` with its shell, and with the object that its callbacks change. -/
structure DeviceConnector (γ σ : Type) where
  enable : Bool
  readCallback : Option γ
  caller : Caller
  issued : List (Command γ)
  /-- The commands that have come to the shell, and the last one that has answered. -/
  sent : List Nat
  answering : Nat
  pipe : List Line
  reader : Reader
  /-- The lines handed on, with the callback that was called. -/
  passed : List (Line × Option γ)
  app : σ
  deriving DecidableEq

/-- What happens next at the connector or in its shell. -/
inductive ConnectorEvent (γ : Type) where
  | command (command : Command γ)
  | write (succeeds : Bool)
  | output (line : Line)
  | readLine
  | test
  | call

namespace DeviceConnector

variable {γ σ : Type}

/-- The state behind `connection`, when the shell was started. -/
def connected (app : σ) : DeviceConnector γ σ :=
  ⟨true, none, .idle, [], [], 0, [], .waiting, [], app⟩

/-- `command` behind the sleep, up to where the callback is set. -/
def command (state : DeviceConnector γ σ) (command : Command γ) : Option (DeviceConnector γ σ) :=
  match state.caller with
  | .writing => none
  | .idle =>
    if state.enable then
      some { state with
        readCallback := command.callback
        issued := state.issued ++ [command]
        caller := .writing }
    else some state

/-- `writer.write` and `writer.flush`, which may throw. -/
def write (state : DeviceConnector γ σ) (succeeds : Bool) : Option (DeviceConnector γ σ) :=
  match state.caller with
  | .idle => none
  | .writing =>
    if succeeds then
      some { state with caller := .idle, sent := state.sent ++ [state.issued.length - 1] }
    -- The exception is caught, and the callback stays.
    else some { state with caller := .idle }

/-- The shell answers its commands one after the other. -/
def output (state : DeviceConnector γ σ) (line : Line) : Option (DeviceConnector γ σ) :=
  if line.command ∈ state.sent ∧ state.answering ≤ line.command then
    some { state with answering := line.command, pipe := state.pipe ++ [line] }
  else none

/-- `reader.readLine`. -/
def readLine (state : DeviceConnector γ σ) : Option (DeviceConnector γ σ) :=
  match state.reader, state.pipe with
  | .waiting, line :: rest => some { state with reader := .holding line, pipe := rest }
  | _, _ => none

/-- The test whether there is a callback; without one the line is dropped. -/
def test (state : DeviceConnector γ σ) : Option (DeviceConnector γ σ) :=
  match state.reader, state.readCallback with
  | .holding line, none =>
    some { state with reader := .waiting, passed := state.passed ++ [(line, none)] }
  | .holding line, some _ => some { state with reader := .tested line }
  | _, _ => none

/-- The call of the callback, which is read anew; a callback that is gone ends the thread. -/
def call (invoke : γ → JString → σ → σ) (state : DeviceConnector γ σ) :
    Option (DeviceConnector γ σ) :=
  match state.reader, state.readCallback with
  | .tested line, some callback =>
    some { state with
      reader := .waiting
      passed := state.passed ++ [(line, some callback)]
      app := invoke callback line.text state.app }
  | .tested line, none =>
    some { state with reader := .ended, passed := state.passed ++ [(line, none)] }
  | _, _ => none

/-- What an event does, if it can happen. -/
def step (invoke : γ → JString → σ → σ) (state : DeviceConnector γ σ) :
    ConnectorEvent γ → Option (DeviceConnector γ σ)
  | .command command => state.command command
  | .write succeeds => state.write succeeds
  | .output line => state.output line
  | .readLine => state.readLine
  | .test => state.test
  | .call => state.call invoke

end DeviceConnector

/-- The fields of a `TouchEvent` and of its callback `getTouchEventDevice`. -/
structure TouchEvent where
  enable : Bool
  deviceName : Option JString
  findDeviceName : Option JString
  found : Bool
  deriving DecidableEq

/-- The callbacks of a `TouchEvent`. -/
inductive TouchCallback where
  | checkIsEnable
  | getTouchEventDevice
  | printCallback
  deriving DecidableEq

namespace TouchEvent

/-- A new object. -/
def new : TouchEvent := ⟨false, none, none, false⟩

/-- `checkIsEnable`. -/
def checkIsEnable (data : JString) (event : TouchEvent) : TouchEvent :=
  if (JString.ofString "use: sendevent").isPrefixOf data then { event with enable := true }
  else event

/-- `getTouchEventDevice`. -/
def getTouchEventDevice (data : JString) (event : TouchEvent) : TouchEvent :=
  if event.found then event
  else
    let strLine := data.trim
    if (JString.ofString "add device").isPrefixOf strLine then
      match JString.split 0x3A strLine with
      | [_, name] => { event with findDeviceName := some (JString.trim name) }
      | _ => event
    else if (JString.ofString "name:").isPrefixOf strLine then
      match JString.split 0x3A strLine with
      | [_, name] =>
        if JString.contains name (JString.ofString "touchscreen") ||
            JString.contains name (JString.ofString "touch_dev") then
          -- The device is the one of the last `add device` line.
          { event with deviceName := event.findDeviceName, found := true }
        else event
      | _ => event
    else event

/-- What a callback does with a line. -/
def invoke : TouchCallback → JString → TouchEvent → TouchEvent
  | .checkIsEnable => checkIsEnable
  | .getTouchEventDevice => getTouchEventDevice
  | .printCallback => fun _ event => event

/-- The commands of `init`. -/
def init : List (Command TouchCallback) := [
  ⟨JString.ofString "sendevent", some .checkIsEnable⟩,
  ⟨JString.ofString "getevent -p", some .getTouchEventDevice⟩]

end TouchEvent

end Model

end AndroidApps.TouchPc
