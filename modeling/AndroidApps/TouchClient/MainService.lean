import AndroidApps.Lib.Events
import AndroidApps.Lib.JavaText

/-! The service that starts and stops server threads, and which of them keeps the port. -/

namespace AndroidApps.TouchClient

open JString (CharacterDigit)

section Source

/-- `PropManager.getPortNumberFromFirstboot`, with the lines that a run of `getprop` gave. -/
def getPortNumberFromFirstboot (digits : CharacterDigit) (result : List JString)
    (defaultPort : Int) : Int :=
  match result with
  -- `getProp` throws where it gets no line, and so does `Integer.valueOf` at another text.
  | [] => defaultPort
  | line :: _ =>
    let val := JString.trim line
    let val := if 5 < val.length then val.take 5 else val
    (JString.parseInt digits.digit val).getD defaultPort

/-- The port that a server thread asks for. -/
def serverPort (digits : CharacterDigit) (result : List JString) : Int :=
  getPortNumberFromFirstboot digits result 12000

/-- Where a server thread stands in `run`. -/
inductive ServerPhase where
  | opening
  | assigning
  | accepting
  | terminated
  deriving DecidableEq

/-- A `SocketServerThread`: its place, its field `server`, its socket, and its clients. -/
structure SocketServerThread where
  phase : ServerPhase := .opening
  server : Bool := false
  listening : Bool := false
  clients : Nat := 0
  deriving DecidableEq

/-- The thread that a restart makes. -/
def SocketServerThread.new : SocketServerThread := {}

/-- `threadStop` closes the socket that the field refers to. -/
def SocketServerThread.threadStop (thread : SocketServerThread) : SocketServerThread :=
  if thread.server then { thread with listening := false } else thread

/-- The service, the restarts it has posted, and all server threads it has made. -/
structure MainService where
  socketServerThread : Option Nat := none
  posted : Nat := 0
  restarting : Bool := false
  threads : List SocketServerThread := []
  crashed : Bool := false

/-- One step of the main thread or of a server thread. -/
inductive ServiceEvent where
  /-- `onStartCommand` posts a restart. -/
  | onStartCommand
  /-- A posted restart begins, and stops the thread there is. -/
  | stopOld
  /-- A restart makes a thread and starts it. -/
  | startNew
  /-- `onUnbind` is called. -/
  | onUnbind
  /-- A thread makes its `ServerSocket`; the system may refuse it, as it does for a port in use. -/
  | opens (thread : Nat) (granted : Bool)
  /-- A thread assigns its `ServerSocket` to the field. -/
  | assigns (thread : Nat)
  /-- A thread accepts a client. -/
  | accepts (thread : Nat)
  /-- A thread comes back from `accept` with an exception, as its socket was closed. -/
  | leaves (thread : Nat)
  /-- A thread comes back from `accept` with an exception, and its socket is still open. -/
  | fails (thread : Nat)
  /-- The socket of a thread that has ended is closed when the thread is collected. -/
  | finalizes (thread : Nat)
  deriving DecidableEq

namespace MainService

/-- The main thread calls `threadStop` of the thread in the field. -/
def threadStop (service : MainService) : MainService :=
  match service.socketServerThread with
  | none => service
  | some current =>
    { service with threads := service.threads.modify current SocketServerThread.threadStop }

/-- `onUnbind` stops a thread that has not terminated. -/
def onUnbind (service : MainService) : MainService :=
  match service.socketServerThread with
  | none => service
  | some current =>
    if (service.threads[current]?.map (·.phase)) = some .terminated then service
    else service.threadStop

/-- A number that is no port, for which `ServerSocket` throws an `IllegalArgumentException`. -/
def OutOfRange (port : Int) : Prop := port < 0 ∨ 65535 < port

instance (port : Int) : Decidable (OutOfRange port) := inferInstanceAs (Decidable (_ ∨ _))

/-- A port that applications may ask for, and which only one of them has at a time. -/
def Bindable (port : Int) : Prop := 1024 ≤ port ∧ port ≤ 65535

instance (port : Int) : Decidable (Bindable port) := inferInstanceAs (Decidable (_ ∧ _))

/-- Whether a thread of the application can get a port that the system does not refuse. -/
def Available (service : MainService) (port : Int) : Prop :=
  -- Port 0 stands for any port that is free, and those below 1024 are not for applications.
  port = 0 ∨ Bindable port ∧ ∀ other ∈ service.threads, other.listening = false

instance (service : MainService) (port : Int) : Decidable (service.Available port) :=
  inferInstanceAs (Decidable (_ ∨ _))

/-- `new ServerSocket( port )`, of whose exceptions `run` catches those about sockets. -/
def opens (service : MainService) (port : Int) (thread : Nat) (granted : Bool) : MainService :=
  -- An exception that is not caught ends the application.
  if OutOfRange port then { service with crashed := true }
  -- The field is assigned by the next step, so that a stop in between finds no socket.
  else if granted = true ∧ service.Available port then
    { service with
      threads := service.threads.modify thread fun server =>
        { server with phase := .assigning, listening := true } }
  else
    { service with
      threads := service.threads.modify thread fun server =>
        { server with phase := .terminated } }

/-- One step, unless it is not the turn of the one that takes it or the application has ended. -/
def step (port : Int) (service : MainService) (event : ServiceEvent) : Option MainService :=
  if service.crashed then none
  else
    match event with
    -- The main thread makes one call after the other, and a restart is one of them.
    | .onStartCommand =>
      if service.restarting then none else some { service with posted := service.posted + 1 }
    | .stopOld =>
      if 0 < service.posted ∧ service.restarting = false then
        some { service.threadStop with posted := service.posted - 1, restarting := true }
      else none
    | .startNew =>
      if service.restarting then
        some { service with
          socketServerThread := some service.threads.length
          threads := service.threads ++ [.new]
          restarting := false }
      else none
    | .onUnbind => if service.restarting then none else some service.onUnbind
    | .opens thread granted =>
      if (service.threads[thread]?.map (·.phase)) = some .opening then
        some (service.opens port thread granted)
      else none
    | .assigns thread =>
      if (service.threads[thread]?.map (·.phase)) = some .assigning then
        some { service with
          threads := service.threads.modify thread fun server =>
            { server with phase := .accepting, server := true } }
      else none
    | .accepts thread =>
      if (service.threads[thread]?.map fun server => (server.phase, server.listening)) =
          some (.accepting, true) then
        some { service with
          threads := service.threads.modify thread fun server =>
            { server with clients := server.clients + 1 } }
      else none
    -- A socket that was closed throws in `accept`, and the thread ends.
    | .leaves thread =>
      if (service.threads[thread]?.map fun server => (server.phase, server.listening)) =
          some (.accepting, false) then
        some { service with
          threads := service.threads.modify thread fun server =>
            { server with phase := .terminated } }
      else none
    | .fails thread =>
      if (service.threads[thread]?.map fun server => (server.phase, server.listening)) =
          some (.accepting, true) then
        some { service with
          threads := service.threads.modify thread fun server =>
            { server with phase := .terminated } }
      else none
    | .finalizes thread =>
      -- A thread that runs is not collected, nor is one that the service refers to.
      if (service.threads[thread]?.map (·.phase)) = some .terminated ∧
          service.socketServerThread ≠ some thread then
        some { service with
          threads := service.threads.modify thread fun server =>
            { server with listening := false } }
      else none

end MainService

end Source

section Threads

/-- What the fields of a server thread are at each place of `run`. -/
def SocketServerThread.Sound (server : SocketServerThread) : Prop :=
  match server.phase with
  | .opening => server.server = false ∧ server.listening = false
  | .assigning => server.server = false ∧ server.listening = true
  | .accepting => server.server = true
  | .terminated => server.listening = true → server.server = true

namespace SocketServerThread

/-- A thread that has no socket yet. -/
theorem Sound.opening {server : SocketServerThread} (sound : server.Sound)
    (phase : server.phase = .opening) : server.server = false ∧ server.listening = false := by
  rwa [Sound, phase] at sound

/-- A thread that has a socket, and has not assigned it. -/
theorem Sound.assigning {server : SocketServerThread} (sound : server.Sound)
    (phase : server.phase = .assigning) : server.server = false ∧ server.listening = true := by
  rwa [Sound, phase] at sound

/-- A thread that accepts clients has assigned its socket. -/
theorem Sound.accepting {server : SocketServerThread} (sound : server.Sound)
    (phase : server.phase = .accepting) : server.server = true := by
  rwa [Sound, phase] at sound

/-- A thread that has ended with its socket open has assigned it before. -/
theorem Sound.terminated {server : SocketServerThread} (sound : server.Sound)
    (phase : server.phase = .terminated) (opened : server.listening = true) :
    server.server = true := by
  rw [Sound, phase] at sound
  exact sound opened

/-- A stop leaves a thread with the fields of its place. -/
theorem Sound.threadStop {server : SocketServerThread} (sound : server.Sound) :
    server.threadStop.Sound := by
  unfold SocketServerThread.threadStop
  split
  · rename_i assigned
    -- Only a thread that accepts clients has assigned its socket, or one that accepted them.
    unfold Sound at sound ⊢
    cases phase : server.phase with
    | opening => simp [phase, assigned] at sound
    | assigning => simp [phase, assigned] at sound
    | accepting => simpa [phase] using assigned
    | terminated => simp
  -- Without the field nothing is closed.
  · exact sound

/-- A stop opens no socket. -/
theorem listening_of_threadStop {server : SocketServerThread}
    (opened : server.threadStop.listening = true) : server.listening = true := by
  unfold SocketServerThread.threadStop at opened
  split at opened
  · cases opened
  · exact opened

end SocketServerThread

namespace MainService

variable {port : Int} {service next : MainService} {event : ServiceEvent} {thread : Nat}

/-- A thread has a socket that is open. -/
def Listens (service : MainService) (thread : Nat) : Prop :=
  ∃ server, service.threads[thread]? = some server ∧ server.listening = true

/-- A thread has an open socket, and the service does not know it any more. -/
def LeftBehind (service : MainService) (thread : Nat) : Prop :=
  service.Listens thread ∧ service.socketServerThread ≠ some thread

/-- The field refers to the last thread, and one thread at most has the port. -/
structure Kept (port : Int) (service : MainService) : Prop where
  running : service.crashed = true → OutOfRange port
  current : ∀ thread, service.socketServerThread = some thread ↔ thread + 1 = service.threads.length
  sound : ∀ (thread : Nat) (server : SocketServerThread), service.threads[thread]? = some server →
    server.Sound
  one : port ≠ 0 → ∀ first second, service.Listens first → service.Listens second → first = second

/-- What is left of the threads when one of them changes. -/
structure Changes (service next : MainService) (thread : Nat)
    (change : SocketServerThread → SocketServerThread) : Prop where
  threads : next.threads = service.threads.modify thread change
  field : next.socketServerThread = service.socketServerThread
  crashed : next.crashed = service.crashed

/-- The threads behind a change. -/
theorem Changes.there {change : SocketServerThread → SocketServerThread}
    (changes : Changes service next thread change) {other : Nat} {server : SocketServerThread}
    (there : next.threads[other]? = some server) :
    ∃ old, service.threads[other]? = some old ∧
      server = if thread = other then change old else old := by
  rw [changes.threads, List.getElem?_modify] at there
  obtain ⟨old, before, rfl⟩ := Option.map_eq_some_iff.mp there
  refine ⟨old, before, ?_⟩
  split
  · rfl
  · rfl

/-- A thread that does not get a socket by a change had it before. -/
theorem Changes.listens {change : SocketServerThread → SocketServerThread}
    (changes : Changes service next thread change)
    (gets : ∀ server, service.threads[thread]? = some server → (change server).listening = true →
      server.listening = true) {other : Nat} (listens : next.Listens other) :
    service.Listens other := by
  obtain ⟨server, there, opened⟩ := listens
  obtain ⟨old, before, rfl⟩ := changes.there there
  refine ⟨old, before, ?_⟩
  -- The thread is the one that has changed, or it is as it was.
  by_cases same : thread = other
  · subst same
    rw [if_pos rfl] at opened
    exact gets old before opened
  · rwa [if_neg same] at opened

/-- A thread that does not lose its socket by a change has it behind it. -/
theorem Changes.keeps {change : SocketServerThread → SocketServerThread}
    (changes : Changes service next thread change) {other : Nat} (listens : service.Listens other)
    (keeps : ∀ server, thread = other → service.threads[thread]? = some server →
      server.listening = true → (change server).listening = true) : next.Listens other := by
  obtain ⟨server, there, opened⟩ := listens
  -- The change does not move the threads in the list.
  refine ⟨if thread = other then change server else server, ?_, ?_⟩
  · rw [changes.threads, List.getElem?_modify, there]
    by_cases same : thread = other
    · simp [same]
    · simp [same]
  · by_cases same : thread = other
    · rw [if_pos same]
      exact keeps server same (same ▸ there) opened
    · rwa [if_neg same]

/-- A server thread goes on, and this is what it does to itself. -/
inductive ServerStep (port : Int) (service : MainService) (thread : Nat)
    (server : SocketServerThread) :
    ServiceEvent → (SocketServerThread → SocketServerThread) → Prop
  | opened (opening : server.phase = .opening)
    (alone : port ≠ 0 → ∀ other, ¬ service.Listens other) :
    ServerStep port service thread server (.opens thread true) fun server =>
      { server with phase := .assigning, listening := true }
  | refused (granted : Bool) (opening : server.phase = .opening)
    (held : granted = true → Bindable port → ∃ other, service.Listens other) :
    ServerStep port service thread server (.opens thread granted) fun server =>
      { server with phase := .terminated }
  | assigned (assigning : server.phase = .assigning) :
    ServerStep port service thread server (.assigns thread) fun server =>
      { server with phase := .accepting, server := true }
  | accepted (accepting : server.phase = .accepting) (listening : server.listening = true) :
    ServerStep port service thread server (.accepts thread) fun server =>
      { server with clients := server.clients + 1 }
  | left (accepting : server.phase = .accepting) (closed : server.listening = false) :
    ServerStep port service thread server (.leaves thread) fun server =>
      { server with phase := .terminated }
  | failed (accepting : server.phase = .accepting) (listening : server.listening = true) :
    ServerStep port service thread server (.fails thread) fun server =>
      { server with phase := .terminated }

/-- What an event does to the threads and to the application. -/
inductive Taken (port : Int) (service next : MainService) : ServiceEvent → Prop
  | nothing {event : ServiceEvent}
    (called : event = .onStartCommand ∨ event = .stopOld ∨ event = .onUnbind)
    (threads : next.threads = service.threads)
    (field : next.socketServerThread = service.socketServerThread)
    (crashed : next.crashed = service.crashed)
    (restarting : next.restarting = service.restarting ∨ event = .stopOld ∧
      service.socketServerThread = none) : Taken port service next event
  | stopped {event : ServiceEvent} (stops : event = .stopOld ∨ event = .onUnbind) (current : Nat)
    (field : service.socketServerThread = some current)
    (changes : Changes service next current SocketServerThread.threadStop)
    (restarting : next.restarting = true ↔ event = .stopOld) : Taken port service next event
  | started (restarting : service.restarting = true)
    (threads : next.threads = service.threads ++ [.new])
    (field : next.socketServerThread = some service.threads.length)
    (crashed : next.crashed = service.crashed) (idle : next.restarting = false) :
    Taken port service next .startNew
  | stepped {event : ServiceEvent} (thread : Nat) (server : SocketServerThread)
    (there : service.threads[thread]? = some server)
    {change : SocketServerThread → SocketServerThread}
    (step : ServerStep port service thread server event change)
    (changes : Changes service next thread change)
    (restarting : next.restarting = service.restarting) : Taken port service next event
  | collected (thread : Nat) (server : SocketServerThread)
    (there : service.threads[thread]? = some server) (ended : server.phase = .terminated)
    (unknown : service.socketServerThread ≠ some thread)
    (changes : Changes service next thread fun server => { server with listening := false })
    (restarting : next.restarting = service.restarting) :
    Taken port service next (.finalizes thread)
  | crashed (thread : Nat) (granted : Bool) (range : OutOfRange port)
    (same : next = { service with crashed := true }) :
    Taken port service next (.opens thread granted)

/-- A port for applications is a port. -/
theorem Bindable.inRange (bindable : Bindable port) : ¬ OutOfRange port := by
  obtain ⟨low, high⟩ := bindable
  unfold OutOfRange
  omega

/-- It does not stand for any port. -/
theorem Bindable.ne_zero (bindable : Bindable port) : port ≠ 0 := by
  have := bindable.1
  omega

/-- Nobody listens exactly when no thread has an open socket. -/
theorem silent_iff :
    (∀ other ∈ service.threads, other.listening = false) ↔ ∀ other, ¬ service.Listens other := by
  constructor
  · rintro silent other ⟨server, there, opened⟩
    rw [silent server (List.mem_of_getElem? there)] at opened
    cases opened
  · intro silent server member
    -- A thread of the list has an index.
    obtain ⟨other, there⟩ := List.mem_iff_getElem?.mp member
    refine Bool.eq_false_iff.mpr fun opened => ?_
    exact silent other ⟨server, there, opened⟩

/-- A service without a thread has nothing to stop. -/
theorem threadStop_none (field : service.socketServerThread = none) :
    service.threadStop = service := by
  simp [threadStop, field]

/-- A service with a thread stops this one. -/
theorem threadStop_some {current : Nat} (field : service.socketServerThread = some current) :
    Changes service service.threadStop current SocketServerThread.threadStop := by
  constructor
  · simp [threadStop, field]
  · simp [threadStop, field]
  · simp [threadStop, field]

/-- A stop is no restart. -/
theorem threadStop_restarting : service.threadStop.restarting = service.restarting := by
  unfold threadStop
  split
  · rfl
  · rfl

/-- The first step of a restart stops the thread in the field, if there is one. -/
theorem taken_stopOld : Taken port service
    { service.threadStop with posted := service.posted - 1, restarting := true } .stopOld := by
  -- The first restart finds no thread in the field.
  cases field : service.socketServerThread with
  | none =>
    rw [threadStop_none field]
    exact .nothing (Or.inr (Or.inl rfl)) rfl rfl rfl (Or.inr ⟨rfl, field⟩)
  | some current =>
    have changes := threadStop_some field
    exact .stopped (Or.inl rfl) current field
      ⟨changes.threads, changes.field, changes.crashed⟩ (iff_of_true rfl rfl)

/-- `onUnbind` stops the thread in the field, if there is one that has not ended. -/
theorem taken_onUnbind (idle : ¬ service.restarting = true) :
    Taken port service service.onUnbind .onUnbind := by
  unfold onUnbind
  cases field : service.socketServerThread with
  | none => exact .nothing (Or.inr (Or.inr rfl)) rfl rfl rfl (Or.inl rfl)
  | some current =>
    dsimp only
    -- A thread that has ended is left as it is.
    split
    · exact .nothing (Or.inr (Or.inr rfl)) rfl rfl rfl (Or.inl rfl)
    · refine .stopped (Or.inr rfl) current field (threadStop_some field) ?_
      rw [threadStop_restarting]
      exact iff_of_false idle nofun

/-- A thread that opens a socket gets the port or ends, and with a wrong number all do. -/
theorem taken_opens {server : SocketServerThread} (there : service.threads[thread]? = some server)
    (opening : server.phase = .opening) (granted : Bool) :
    Taken port service (service.opens port thread granted) (.opens thread granted) := by
  unfold opens
  split
  -- The number is no port.
  · rename_i range
    exact .crashed thread granted range rfl
  · split
    · -- The port was given, so that no thread has it unless it stands for any port.
      rename_i fits
      obtain ⟨rfl, available⟩ := fits
      refine .stepped thread server there (.opened opening fun real => ?_) ⟨rfl, rfl, rfl⟩ rfl
      exact silent_iff.mp (available.resolve_left real).2
    -- The thread ends: the system has refused it, or another thread has the port.
    · rename_i full
      refine .stepped thread server there (.refused granted opening ?_) ⟨rfl, rfl, rfl⟩ rfl
      intro isGranted bindable
      by_contra silent
      exact full ⟨isGranted, Or.inr ⟨bindable, silent_iff.mpr (not_exists.mp silent)⟩⟩

/-- A thread stands at a place if the source asks whether it does. -/
theorem stands_at {phase : ServerPhase}
    (stands : (service.threads[thread]?.map (·.phase)) = some phase) :
    ∃ server, service.threads[thread]? = some server ∧ server.phase = phase :=
  Option.map_eq_some_iff.mp stands

/-- So it is with a place and a socket. -/
theorem stands_with {phase : ServerPhase} {listening : Bool}
    (stands : (service.threads[thread]?.map fun server => (server.phase, server.listening)) =
      some (phase, listening)) :
    ∃ server, service.threads[thread]? = some server ∧ server.phase = phase ∧
      server.listening = listening := by
  obtain ⟨server, there, same⟩ := Option.map_eq_some_iff.mp stands
  obtain ⟨place, socket⟩ := Prod.mk.inj same
  exact ⟨server, there, place, socket⟩

/-- What is done only under a condition has met it. -/
theorem of_ite_some {condition : Prop} [Decidable condition] {done : MainService}
    (taken : (if condition then some done else none) = some next) : condition ∧ next = done := by
  split at taken
  · rename_i met
    exact ⟨met, (Option.some.inj taken).symm⟩
  · cases taken

/-- Nothing happens in an application that has ended. -/
theorem running_of_step (taken : step port service event = some next) :
    service.crashed = false := by
  cases ended : service.crashed with
  | false => rfl
  | true => simp [step, ended] at taken

/-- Each event does one of these things. -/
theorem step_cases (taken : step port service event = some next) :
    Taken port service next event := by
  have running := running_of_step taken
  unfold step at taken
  rw [if_neg (Bool.eq_false_iff.mp running)] at taken
  cases event with
  -- The main thread: posting, stopping, starting, unbinding.
  | onStartCommand =>
    dsimp only at taken
    split at taken
    · cases taken
    · cases taken
      exact .nothing (Or.inl rfl) rfl rfl rfl (Or.inl rfl)
  | stopOld =>
    obtain ⟨-, rfl⟩ := of_ite_some taken
    exact taken_stopOld
  | startNew =>
    obtain ⟨restarting, rfl⟩ := of_ite_some taken
    exact .started restarting rfl rfl rfl rfl
  | onUnbind =>
    dsimp only at taken
    split at taken
    · cases taken
    · rename_i idle
      cases taken
      exact taken_onUnbind idle
  -- The server threads: each step is taken at its own place.
  | opens thread granted =>
    obtain ⟨stands, rfl⟩ := of_ite_some taken
    obtain ⟨server, there, opening⟩ := stands_at stands
    exact taken_opens there opening granted
  | assigns thread =>
    obtain ⟨stands, rfl⟩ := of_ite_some taken
    obtain ⟨server, there, assigning⟩ := stands_at stands
    exact .stepped thread server there (.assigned assigning) ⟨rfl, rfl, rfl⟩ rfl
  | accepts thread =>
    obtain ⟨stands, rfl⟩ := of_ite_some taken
    obtain ⟨server, there, accepting, listening⟩ := stands_with stands
    exact .stepped thread server there (.accepted accepting listening) ⟨rfl, rfl, rfl⟩ rfl
  | leaves thread =>
    obtain ⟨stands, rfl⟩ := of_ite_some taken
    obtain ⟨server, there, accepting, closed⟩ := stands_with stands
    exact .stepped thread server there (.left accepting closed) ⟨rfl, rfl, rfl⟩ rfl
  | fails thread =>
    obtain ⟨stands, rfl⟩ := of_ite_some taken
    obtain ⟨server, there, accepting, listening⟩ := stands_with stands
    exact .stepped thread server there (.failed accepting listening) ⟨rfl, rfl, rfl⟩ rfl
  -- The collector: only of a thread that has ended, and that nobody refers to.
  | finalizes thread =>
    obtain ⟨⟨stands, unknown⟩, rfl⟩ := of_ite_some taken
    obtain ⟨server, there, ended⟩ := stands_at stands
    exact .collected thread server there ended unknown ⟨rfl, rfl, rfl⟩ rfl

/-- A step of a thread leaves it with the fields of its new place. -/
theorem ServerStep.sound {server : SocketServerThread}
    {change : SocketServerThread → SocketServerThread}
    (step : ServerStep port service thread server event change) (sound : server.Sound) :
    (change server).Sound := by
  unfold SocketServerThread.Sound at sound ⊢
  cases step with
  -- The socket is there, and the field is assigned by the next step.
  | opened opening alone =>
    rw [opening] at sound
    exact ⟨sound.1, rfl⟩
  -- A thread without a socket has ended.
  | refused granted opening held =>
    rw [opening] at sound
    intro opened
    rw [sound.2] at opened
    cases opened
  | assigned assigning => rfl
  | accepted accepting listening => simpa [accepting] using sound
  -- Behind `accept` the field refers to the socket still.
  | left accepting closed =>
    rw [accepting] at sound
    exact fun _ => sound
  | failed accepting listening =>
    rw [accepting] at sound
    exact fun _ => sound

/-- A step of a thread that gets a socket by it finds that no thread has the port. -/
theorem ServerStep.gets {server : SocketServerThread}
    {change : SocketServerThread → SocketServerThread}
    (step : ServerStep port service thread server event change) (real : port ≠ 0)
    (opened : (change server).listening = true) :
    server.listening = true ∨ ∀ other, ¬ service.Listens other := by
  -- Only the first of the steps opens a socket.
  cases step with
  | opened opening alone => exact Or.inr (alone real)
  | refused granted opening held => exact Or.inl opened
  | assigned assigning => exact Or.inl opened
  | accepted accepting listening => exact Or.inl opened
  | left accepting closed => exact Or.inl opened
  | failed accepting listening => exact Or.inl opened

/-- A step of a thread does not close its socket. -/
theorem ServerStep.keeps {server : SocketServerThread}
    {change : SocketServerThread → SocketServerThread}
    (step : ServerStep port service thread server event change)
    (opened : server.listening = true) : (change server).listening = true := by
  -- A socket is closed by the main thread and by the collector only.
  cases step with
  | opened opening alone => rfl
  | refused granted opening held => exact opened
  | assigned assigning => exact opened
  | accepted accepting listening => exact opened
  | left accepting closed => exact opened
  | failed accepting listening => exact opened

/-- A change keeps what holds of the threads, if it keeps the changed thread right. -/
theorem Kept.changes (kept : Kept port service) {change : SocketServerThread → SocketServerThread}
    (changes : Changes service next thread change)
    (sound : ∀ server : SocketServerThread, service.threads[thread]? = some server →
      (change server).Sound)
    (gets : port ≠ 0 → ∀ server, service.threads[thread]? = some server →
      (change server).listening = true →
        server.listening = true ∨ ∀ other, ¬ service.Listens other) : Kept port next where
  running ended := kept.running (changes.crashed ▸ ended)
  current other := by
    rw [changes.field, changes.threads, List.length_modify]
    exact kept.current other
  -- The other threads are as they were.
  sound other server there := by
    obtain ⟨old, before, rfl⟩ := changes.there there
    split
    · rename_i same
      subst same
      exact sound old before
    · exact kept.sound other old before
  one real first second listens listens' := by
    -- If the changed thread has got its socket just now, the others have none.
    by_cases silent : ∀ other, ¬ service.Listens other
    · have only : ∀ other, next.Listens other → other = thread := by
        rintro other ⟨server, there, opened⟩
        obtain ⟨old, before, rfl⟩ := changes.there there
        by_contra differs
        rw [if_neg (Ne.symm differs)] at opened
        exact silent other ⟨old, before, opened⟩
      rw [only first listens, only second listens']
    · have before : ∀ other, next.Listens other → service.Listens other := fun other =>
        changes.listens fun server there opened =>
          (gets real server there opened).resolve_right silent
      exact kept.one real first second (before first listens) (before second listens')

/-- The threads there were are found in front of a new one. -/
theorem listens_new (threads : next.threads = service.threads ++ [.new]) {other : Nat} :
    next.Listens other ↔ service.Listens other := by
  unfold Listens
  rw [threads]
  by_cases inside : other < service.threads.length
  -- Those that were there have kept their index.
  · rw [List.getElem?_append_left inside]
  · -- The new thread has no socket yet.
    have behind : service.threads[other]? = none := List.getElem?_eq_none (by omega)
    constructor
    · rintro ⟨server, there, opened⟩
      rw [List.getElem?_append_right (by omega)] at there
      obtain rfl : server = .new := List.mem_singleton.mp (List.mem_of_getElem? there)
      cases opened
    · rintro ⟨server, there, opened⟩
      rw [behind] at there
      cases there

/-- Every step keeps what holds of the threads. -/
theorem step_kept (kept : Kept port service) (taken : step port service event = some next) :
    Kept port next := by
  cases step_cases taken with
  | nothing called threads field crashed restarting =>
    constructor
    · rw [crashed]
      exact kept.running
    · rw [field, threads]
      exact kept.current
    · rw [threads]
      exact kept.sound
    · unfold Listens
      rw [threads]
      exact kept.one
  -- The thread in the field loses its socket, and none gets one.
  | stopped stops current field changes restarting =>
    refine kept.changes changes (fun server there => (kept.sound _ server there).threadStop) ?_
    exact fun _ server there opened => Or.inl (SocketServerThread.listening_of_threadStop opened)
  | started restarting threads field crashed idle =>
    constructor
    · rw [crashed]
      exact kept.running
    -- The field refers to the thread that was added at the end.
    · intro thread
      rw [field, threads, List.length_append, List.length_singleton]
      simp [eq_comm]
    · intro thread server there
      rw [threads] at there
      rcases List.mem_append.mp (List.mem_of_getElem? there) with before | last
      · obtain ⟨place, there⟩ := List.mem_iff_getElem?.mp before
        exact kept.sound place server there
      -- The new thread has neither a field nor a socket.
      · obtain rfl := List.mem_singleton.mp last
        exact ⟨rfl, rfl⟩
    · intro real first second listens listens'
      exact kept.one real first second ((listens_new threads).mp listens)
        ((listens_new threads).mp listens')
  -- A server thread has taken a step, and changed itself only.
  | stepped thread server there step changes restarting =>
    refine kept.changes changes ?_ ?_
    · intro other there'
      obtain rfl : server = other := Option.some.inj (there.symm.trans there')
      exact step.sound (kept.sound thread server there)
    · intro real other there' opened
      obtain rfl : server = other := Option.some.inj (there.symm.trans there')
      exact step.gets real opened
  | collected thread server there ended unknown changes restarting =>
    -- A socket is closed, which gives no thread another one.
    refine kept.changes changes ?_ fun _ _ _ opened => ?_
    · intro other there'
      obtain rfl : server = other := Option.some.inj (there.symm.trans there')
      rw [SocketServerThread.Sound]
      simp [ended]
    · cases opened
  -- The application has ended, and the threads are those it had.
  | crashed thread granted range same =>
    subst same
    exact ⟨fun _ => range, kept.current, kept.sound, kept.one⟩

end MainService

end Threads

end AndroidApps.TouchClient
