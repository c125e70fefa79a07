import AndroidApps.Lib.Utf8

/-! The thread that reads touch commands from a socket, and the events it sends to the device. -/

namespace AndroidApps.TouchClient

open JString (CharacterDigit)

section TouchEvent

/-- One run of the program `sendevent`. -/
structure SendEvent where
  deviceName : JString
  type : Nat
  code : Nat
  value : Int
  deriving DecidableEq

/-- The state of a `TouchEvent`. -/
structure TouchEvent where
  deviceName : Option JString
  enable : Bool

namespace TouchEvent

/-- What `sendevent` says about itself when it can be run. -/
def usage : JString :=
  JString.ofChars ['u', 's', 'e', ':', ' ', 's', 'e', 'n', 'd', 'e', 'v', 'e', 'n', 't']

/-- `isEnable`, with the lines that a run of `sendevent` without arguments gave. -/
def isEnable (result : List JString) : Bool :=
  match result with
  | [] => false
  | line :: _ => usage.isPrefixOf line

/-- The events of `touchDOWN` and `touchUP`, which need a device that is known and enabled. -/
def sendEvents (event : TouchEvent) (rows : List (Nat × Nat × Int)) : List SendEvent :=
  match event.deviceName with
  | none => []
  | some deviceName =>
    if event.enable then rows.map fun (type, code, value) => ⟨deviceName, type, code, value⟩ else []

/-- `touchDOWN`. -/
def touchDOWN (event : TouchEvent) (x y : Int) : List SendEvent :=
  event.sendEvents [(0x0003, 0x0039, 0), (0x0001, 0x014a, 1), (0x0003, 0x0035, x),
    (0x0003, 0x0036, y), (0x0003, 0x0030, 6), (0x0000, 0x0000, 0)]

/-- `touchUP`. -/
def touchUP (event : TouchEvent) : List SendEvent :=
  event.sendEvents [(0x0003, 0x0039, -1), (0x0001, 0x014a, 0), (0x0000, 0x0000, 0)]

end TouchEvent

/-- The calls that the thread makes on its `TouchEvent`. -/
inductive Call where
  | setTouchEventDeviceName (name : JString)
  | touchDOWN (x y : Int)
  | touchUP
  deriving DecidableEq

/-- A call, with the events it sends. -/
def TouchEvent.perform (event : TouchEvent) : Call → List SendEvent × TouchEvent
  | .setTouchEventDeviceName name => ([], { event with deviceName := some name })
  | .touchDOWN x y => (event.touchDOWN x y, event)
  | .touchUP => (event.touchUP, event)

/-- Calls one after the other. -/
def TouchEvent.performAll : TouchEvent → List Call → List SendEvent × TouchEvent
  | event, [] => ([], event)
  | event, call :: calls =>
    let (sent, event) := event.perform call
    let (more, event) := event.performAll calls
    (sent ++ more, event)

end TouchEvent

section Messages

/-- The exceptions that end the thread. -/
inductive Failure where
  | arrayIndexOutOfBounds
  | numberFormat
  deriving DecidableEq

/-- `TOUCHEVENT_DEVICENAME`. -/
def deviceNameWord : JString :=
  JString.ofChars ['T', 'O', 'U', 'C', 'H', 'E', 'V', 'E', 'N', 'T', '_', 'D', 'E', 'V', 'I', 'C',
    'E', 'N', 'A', 'M', 'E']

/-- `TOUCHEVENT_POSITION`. -/
def positionWord : JString :=
  JString.ofChars ['T', 'O', 'U', 'C', 'H', 'E', 'V', 'E', 'N', 'T', '_', 'P', 'O', 'S', 'I', 'T',
    'I', 'O', 'N']

-- `Character.digit` belongs to the library of the platform.
variable (digits : CharacterDigit)

/-- `Integer.valueOf` on an element of an array. -/
def intAt (value : List JString) (index : Nat) : Except Failure Int :=
  match value[index]? with
  | none => .error .arrayIndexOutOfBounds
  | some text =>
    match JString.parseInt digits.digit text with
    | none => .error .numberFormat
    | some number => .ok number

/-- The body of the loop of `run`: the calls for what one `read` gave. -/
def receive (reciveMsg : JString) : Except Failure (List Call) :=
  let token := JString.split 0x3A reciveMsg
  if deviceNameWord.isPrefixOf reciveMsg then
    match token[1]? with
    | none => .error .arrayIndexOutOfBounds
    | some name => .ok [.setTouchEventDeviceName (JString.trim name)]
  else if positionWord.isPrefixOf reciveMsg then
    match token[1]? with
    | none => .ok []
    | some position => do
      let value := JString.split 0x2C position
      let x ← intAt digits value 0
      let y ← intAt digits value 1
      return [.touchDOWN x y, .touchUP]
  else .ok []

end Messages

section Thread

variable (digits : CharacterDigit)

/-- What the thread has done when it ends, and the exception that ended it. -/
structure ThreadRun where
  calls : List Call
  sent : List SendEvent
  touchEvent : TouchEvent
  failure : Option Failure

/-- The loop of `run`, over what the calls of `read` give until the stream ends. -/
def serve : TouchEvent → List (List UInt8) → ThreadRun
  | touchEvent, [] => ⟨[], [], touchEvent, none⟩
  | touchEvent, buffer :: reads =>
    match receive digits (JString.ofBytes buffer) with
    | .error failure => ⟨[], [], touchEvent, some failure⟩
    | .ok calls =>
      let (sent, touchEvent) := touchEvent.performAll calls
      let later := serve touchEvent reads
      ⟨calls ++ later.calls, sent ++ later.sent, later.touchEvent, later.failure⟩

/-- `run`, with what the first run of `sendevent` gave. -/
def run (result : List JString) (reads : List (List UInt8)) : ThreadRun :=
  if TouchEvent.isEnable result then serve digits ⟨none, true⟩ reads
  else ⟨[], [], ⟨none, false⟩, none⟩

end Thread

end AndroidApps.TouchClient
