import AndroidApps.TouchClient.MainService

/-! Whether the service keeps control of its server threads, and whether there always is one. -/

namespace AndroidApps.TouchClient

open JString (CharacterDigit)

section Control

namespace SocketServerThread

/-- A thread that will not take any client, and has no open socket. -/
def Done (server : SocketServerThread) : Prop :=
  server.listening = false ∧ (server.phase = .accepting ∨ server.phase = .terminated)

/-- A thread that is done stays so when it is stopped. -/
theorem Done.threadStop {server : SocketServerThread} (done : server.Done) :
    server.threadStop.Done := by
  unfold SocketServerThread.threadStop
  split
  · exact ⟨rfl, done.2⟩
  · exact done

/-- A thread that has settled is done when it is stopped. -/
theorem Sound.done_threadStop {server : SocketServerThread} (sound : server.Sound)
    (settled : server.phase = .accepting ∨ server.phase = .terminated) :
    server.threadStop.Done := by
  unfold SocketServerThread.threadStop
  split
  · exact ⟨rfl, settled⟩
  · -- Without a socket in the field none is open.
    rename_i unassigned
    refine ⟨?_, settled⟩
    rcases settled with accepting | ended
    · exact absurd (sound.accepting accepting) unassigned
    · exact Bool.eq_false_iff.mpr fun opened => unassigned (sound.terminated ended opened)

end SocketServerThread

namespace MainService

variable {port : Int} {service next : MainService} {event : ServiceEvent} {thread : Nat}

/-- The thread in the field has assigned its socket, or could not make one. -/
def Settled (service : MainService) : Prop :=
  ∀ (current : Nat) (server : SocketServerThread), service.socketServerThread = some current →
    service.threads[current]? = some server →
    server.phase = .accepting ∨ server.phase = .terminated

/-- A restart does not come before the thread in the field has settled. -/
def Timely (service : MainService) (event : ServiceEvent) : Prop :=
  event = .stopOld → service.Settled

/-- Only the thread in the field may take clients, and in the middle of a restart none. -/
structure Controlled (service : MainService) : Prop where
  others : ∀ (thread : Nat) (server : SocketServerThread), service.threads[thread]? = some server →
    service.socketServerThread ≠ some thread → server.Done
  stopped : service.restarting = true → ∀ (thread : Nat) (server : SocketServerThread),
    service.threads[thread]? = some server → server.Done

/-- A thread goes on with an open socket, and the service does not know it any more. -/
def Lost (service : MainService) (thread : Nat) : Prop :=
  service.socketServerThread ≠ some thread ∧ ∃ server, service.threads[thread]? = some server ∧
    server.listening = true ∧ server.phase ≠ .terminated

/-- A thread that is lost is one that was left behind. -/
theorem Lost.leftBehind (lost : service.Lost thread) : service.LeftBehind thread := by
  obtain ⟨unknown, server, there, opened, -⟩ := lost
  exact ⟨⟨server, there, opened⟩, unknown⟩

/-- A service that has just been made has no threads. -/
theorem start_kept : Kept port {} where
  running ended := by cases ended
  current thread := by simp
  sound thread server there := by simp at there
  one _ first second listens listens' := by
    obtain ⟨server, there, -⟩ := listens
    simp at there

/-- A service that has just been made is in control. -/
theorem start_controlled : Controlled {} where
  others thread server there := by simp at there
  stopped _ thread server there := by simp at there

/-- The threads that a change is not about stay as they are. -/
theorem Changes.other {change : SocketServerThread → SocketServerThread} {other : Nat}
    (changes : Changes service next thread change) (differs : thread ≠ other) :
    next.threads[other]? = service.threads[other]? := by
  rw [changes.threads, List.getElem?_modify]
  -- The change is about another index.
  cases service.threads[other]? with
  | none => rfl
  | some server => simp [differs]

/-- The thread that a change is about. -/
theorem Changes.self {change : SocketServerThread → SocketServerThread}
    (changes : Changes service next thread change) {server : SocketServerThread}
    (there : service.threads[thread]? = some server) :
    next.threads[thread]? = some (change server) := by
  rw [changes.threads, List.getElem?_modify, there]
  simp

/-- A step of a thread with an open socket ends it only by an exception of `accept`. -/
theorem ServerStep.goesOn {server : SocketServerThread}
    {change : SocketServerThread → SocketServerThread}
    (step : ServerStep port service thread server event change) (sound : server.Sound)
    (works : event ≠ .fails thread) (opened : server.listening = true)
    (going : server.phase ≠ .terminated) : (change server).phase ≠ .terminated := by
  cases step with
  -- It goes on with the socket it has got just now.
  | opened opening alone => nofun
  -- A thread that is still opening has no socket.
  | refused granted opening held =>
    rw [(sound.opening opening).2] at opened
    cases opened
  | assigned assigning => nofun
  | accepted accepting listening => exact going
  -- It leaves only if its socket was closed.
  | left accepting closed =>
    rw [closed] at opened
    cases opened
  | failed accepting listening => exact absurd rfl works

/-- A thread that is lost cannot be closed any more, and keeps its socket as long as it goes on. -/
theorem step_lost (kept : Kept port service) (lost : service.Lost thread)
    (works : event ≠ .fails thread) (taken : step port service event = some next) :
    next.Lost thread := by
  obtain ⟨unknown, server, there, opened, going⟩ := lost
  cases step_cases taken with
  | nothing called threads field crashed restarting =>
    exact ⟨field ▸ unknown, server, threads ▸ there, opened, going⟩
  | stopped stops current field changes restarting =>
    -- The thread that is stopped is another one.
    have differs : current ≠ thread := fun same => unknown (same ▸ field)
    exact ⟨changes.field ▸ unknown, server, (changes.other differs).trans there, opened, going⟩
  -- The field refers to the new thread, and the lost one keeps its index.
  | started restarting threads field crashed idle =>
    have inside := (List.getElem?_eq_some_iff.mp there).1
    refine ⟨?_, server, ?_, opened, going⟩
    · rw [field]
      exact fun same => absurd (Option.some.inj same) (by omega)
    · rw [threads, List.getElem?_append_left inside]
      exact there
  | stepped other server' there' step changes restarting =>
    refine ⟨changes.field ▸ unknown, ?_⟩
    -- It takes the step itself, or another one does.
    by_cases same : other = thread
    · subst same
      obtain rfl : server = server' := Option.some.inj (there.symm.trans there')
      exact ⟨_, changes.self there, step.keeps opened,
        step.goesOn (kept.sound other server there) works opened going⟩
    · exact ⟨server, (changes.other same).trans there, opened, going⟩
  | collected other server' there' ended unknown' changes restarting =>
    -- Only threads that have ended are collected.
    have differs : other ≠ thread := by
      rintro rfl
      obtain rfl : server = server' := Option.some.inj (there.symm.trans there')
      exact going ended
    exact ⟨changes.field ▸ unknown, server, (changes.other differs).trans there, opened, going⟩
  -- The threads are those there were when the application has ended.
  | crashed other granted range same =>
    subst same
    exact ⟨unknown, server, there, opened, going⟩

/-- A thread that is done can only come to its end. -/
theorem ServerStep.done {server : SocketServerThread}
    {change : SocketServerThread → SocketServerThread}
    (step : ServerStep port service thread server event change) (done : server.Done) :
    (change server).Done := by
  obtain ⟨closed, settled⟩ := done
  cases step with
  -- A thread that is done is behind the opening.
  | opened opening alone => simp [opening] at settled
  | refused granted opening held => exact ⟨closed, Or.inr rfl⟩
  | assigned assigning => exact ⟨closed, Or.inl rfl⟩
  | accepted accepting listening => exact ⟨closed, settled⟩
  | left accepting closed' => exact ⟨closed, Or.inr rfl⟩
  | failed accepting listening => exact ⟨closed, Or.inr rfl⟩

/-- A change that leaves a thread done keeps the service in control. -/
theorem Controlled.changes (controlled : Controlled service)
    {change : SocketServerThread → SocketServerThread}
    (changes : Changes service next thread change)
    (restarting : next.restarting = service.restarting)
    (done : ∀ server : SocketServerThread, service.threads[thread]? = some server →
      server.Done → (change server).Done) : Controlled next := by
  have still : ∀ (other : Nat) (server : SocketServerThread), next.threads[other]? = some server →
      (∀ old : SocketServerThread, service.threads[other]? = some old → old.Done) →
        server.Done := by
    intro other new there before
    obtain ⟨old, was, rfl⟩ := changes.there there
    split
    · rename_i same
      subst same
      exact done old was (before old was)
    · exact before old was
  constructor
  -- The field is the same, and so is what it says of the other threads.
  · intro other new there unknown
    rw [changes.field] at unknown
    exact still other new there fun old was => controlled.others other old was unknown
  · intro now other new there
    rw [restarting] at now
    exact still other new there (controlled.stopped now other)

/-- A restart that is not early stops the last thread that could take clients. -/
theorem Controlled.stop (kept : Kept port service) (controlled : Controlled service)
    {current : Nat} (field : service.socketServerThread = some current)
    (changes : Changes service next current SocketServerThread.threadStop)
    (timely : next.restarting = true → service.Settled) : Controlled next := by
  -- Only the thread in the field is stopped, and the others were done.
  have others : ∀ (thread : Nat) (server : SocketServerThread),
      next.threads[thread]? = some server → current ≠ thread → server.Done := by
    intro thread server there differs
    obtain ⟨old, before, rfl⟩ := changes.there there
    rw [if_neg differs]
    exact controlled.others thread old before (by simpa [field] using differs)
  constructor
  · intro thread server there unknown
    exact others thread server there fun same => unknown (by rw [changes.field, field, same])
  -- In the middle of a restart the thread in the field has to be done as well.
  · intro now thread server there
    by_cases same : current = thread
    · subst same
      obtain ⟨old, before, rfl⟩ := changes.there there
      rw [if_pos rfl]
      exact (kept.sound current old before).done_threadStop
        (timely now current old field before)
    · exact others thread server there same

/-- The service stays in control as long as no restart comes too early. -/
theorem step_controlled (kept : Kept port service) (controlled : Controlled service)
    (timely : Timely service event) (taken : step port service event = some next) :
    Controlled next := by
  cases step_cases taken with
  | nothing called threads field crashed restarting =>
    constructor
    · rw [threads, field]
      exact controlled.others
    -- A restart that begins without a thread in the field has nothing to stop.
    · intro now thread server there
      rw [threads] at there
      rcases restarting with same | ⟨-, none⟩
      · exact controlled.stopped (same ▸ now) thread server there
      · exact controlled.others thread server there (by simp [none])
  | stopped stops current field changes restarting =>
    exact controlled.stop kept field changes fun now => timely (restarting.mp now)
  | started restarting threads field crashed idle =>
    constructor
    · intro thread server there unknown
      rw [threads] at there
      rw [field] at unknown
      have inside := (List.getElem?_eq_some_iff.mp there).1
      rw [List.length_append, List.length_singleton] at inside
      -- The new thread is the one in the field, and the others were stopped before.
      have other : thread < service.threads.length := by
        have differs : service.threads.length ≠ thread := fun same => unknown (same ▸ rfl)
        omega
      rw [List.getElem?_append_left other] at there
      exact controlled.stopped restarting thread server there
    · intro now
      rw [idle] at now
      cases now
  -- A thread that was done is done behind its step.
  | stepped thread server there step changes restarting =>
    refine controlled.changes changes restarting fun other there' done => ?_
    obtain rfl : server = other := Option.some.inj (there.symm.trans there')
    exact step.done done
  | collected thread server there ended unknown changes restarting =>
    exact controlled.changes changes restarting fun _ _ done => ⟨rfl, done.2⟩
  | crashed thread granted range same =>
    subst same
    exact ⟨controlled.others, controlled.stopped⟩

/-- What the first step of a restart does. -/
theorem stopOld_eq (taken : step port service .stopOld = some next) :
    next = { service.threadStop with posted := service.posted - 1, restarting := true } := by
  unfold step at taken
  split at taken
  · cases taken
  · simp only at taken
    split at taken
    · cases taken
      rfl
    · cases taken

/-- The second step of a restart can be taken at once. -/
theorem startNew_taken (running : service.crashed = false)
    (restarting : service.restarting = true) :
    step port service .startNew = some { service with
      socketServerThread := some service.threads.length
      threads := service.threads ++ [.new]
      restarting := false } := by
  simp [step, running, restarting]

/-- A thread that can still open its socket while nobody listens gets the port. -/
theorem opens_taken (bindable : Bindable port) (running : service.crashed = false)
    {server : SocketServerThread} (there : service.threads[thread]? = some server)
    (opening : server.phase = .opening) (alone : ∀ other, ¬ service.Listens other) :
    ∃ final, step port service (.opens thread true) = some final ∧ final.Listens thread ∧
      final.socketServerThread = service.socketServerThread := by
  -- The system does not refuse, and nobody has the port.
  refine ⟨_, by simp [step, running, there, opening]; rfl, ?_⟩
  have fits : true = true ∧ service.Available port :=
    ⟨rfl, Or.inr ⟨bindable, silent_iff.mpr alone⟩⟩
  unfold opens
  rw [if_neg bindable.inRange, if_pos fits]
  exact ⟨⟨{ server with phase := .assigning, listening := true }, by simp [there], rfl⟩, rfl⟩

/-- A thread that has its socket and has not assigned it is left behind by a new one. -/
theorem assigning_leftBehind (kept : Kept port service) (running : service.crashed = false)
    (restarting : service.restarting = true) {server : SocketServerThread}
    (there : service.threads[thread]? = some server) (assigning : server.phase = .assigning) :
    ∃ later final, Events.run (step port) service later = some final ∧
      final.LeftBehind thread := by
  -- The restart goes on, and puts a new thread into the field.
  have inside := (List.getElem?_eq_some_iff.mp there).1
  refine ⟨[.startNew], _, Events.run_cons.mpr ⟨_, startNew_taken running restarting, rfl⟩, ?_, ?_⟩
  · have opened : server.listening = true :=
      ((kept.sound thread server there).assigning assigning).2
    exact (listens_new rfl).mpr ⟨server, there, opened⟩
  · exact fun same => absurd (Option.some.inj same) (by omega)

/-- A thread that has no socket yet can get the port behind a new one, and is left behind too. -/
theorem opening_leftBehind (bindable : Bindable port) (running : service.crashed = false)
    (restarting : service.restarting = true) {server : SocketServerThread}
    (there : service.threads[thread]? = some server) (opening : server.phase = .opening)
    (alone : ∀ other, ¬ service.Listens other) :
    ∃ later final, Events.run (step port) service later = some final ∧
      final.LeftBehind thread := by
  have inside := (List.getElem?_eq_some_iff.mp there).1
  have there' : (service.threads ++ [.new])[thread]? = some server := by
    rw [List.getElem?_append_left inside]
    exact there
  let renewed : MainService := { service with
    socketServerThread := some service.threads.length
    threads := service.threads ++ [.new]
    restarting := false }
  -- Behind the restart the old thread is the first to open its socket.
  obtain ⟨final, opens, listens, field⟩ :=
    @opens_taken port renewed thread bindable running server there' opening
      fun other listens => alone other ((listens_new rfl).mp listens)
  refine ⟨[.startNew, .opens thread true], final,
    Events.run_cons.mpr ⟨_, startNew_taken running restarting,
      Events.run_cons.mpr ⟨_, opens, rfl⟩⟩, listens, ?_⟩
  rw [field]
  exact fun same => absurd (Option.some.inj same) (by omega)

/-- A restart that comes too early can leave the thread it stops behind. -/
theorem early_restart (bindable : Bindable port) (kept : Kept port service)
    (early : ¬ service.Settled) (taken : step port service .stopOld = some next) :
    ∃ later final thread, Events.run (step port) next later = some final ∧
      final.LeftBehind thread ∧
        (service.socketServerThread = some thread ∨ service.LeftBehind thread) := by
  have running := running_of_step taken
  have same := stopOld_eq taken
  obtain ⟨current, server, field, there, unsettled⟩ : ∃ (current : Nat)
      (server : SocketServerThread), service.socketServerThread = some current ∧
        service.threads[current]? = some server ∧
        ¬ (server.phase = .accepting ∨ server.phase = .terminated) := by
    simpa only [Settled, not_forall, exists_prop] using early
  have changes : Changes service next current SocketServerThread.threadStop := by
    have stop := threadStop_some field
    rw [same]
    exact ⟨stop.threads, stop.field, stop.crashed⟩
  have running' : next.crashed = false := changes.crashed.trans running
  have restarting : next.restarting = true := by rw [same]
  -- Either a thread was left behind already, or this stop can leave one.
  by_cases behind : ∃ thread, service.LeftBehind thread
  · -- One was left behind before, and the stop is one of another thread.
    obtain ⟨thread, listens, unknown⟩ := behind
    refine ⟨[], next, thread, rfl, ⟨changes.keeps listens ?_, changes.field ▸ unknown⟩,
      Or.inr ⟨listens, unknown⟩⟩
    rintro server rfl
    exact absurd field unknown
  · -- Nobody has the port but the thread in the field, which the stop does not reach.
    have sound := kept.sound current server there
    have unassigned : server.server = false := by
      cases phase : server.phase with
      -- It opens its socket behind the stop.
      | opening => exact (sound.opening phase).1
      -- It has its socket, and has not assigned it when the stop comes.
      | assigning => exact (sound.assigning phase).1
      | accepting => exact absurd (Or.inl phase) unsettled
      | terminated => exact absurd (Or.inr phase) unsettled
    have there' : next.threads[current]? = some server := by
      rw [changes.self there, SocketServerThread.threadStop, unassigned]
      rfl
    have kept' := step_kept kept taken
    cases phase : server.phase with
    | assigning =>
      obtain ⟨later, final, ran, lost⟩ :=
        assigning_leftBehind kept' running' restarting there' phase
      exact ⟨later, final, current, ran, lost, Or.inl field⟩
    | opening =>
      have alone : ∀ thread, ¬ next.Listens thread := by
        intro thread listens
        have before := changes.listens
          (fun _ _ => SocketServerThread.listening_of_threadStop) listens
        by_cases own : thread = current
        · subst own
          obtain ⟨other, there'', opened⟩ := before
          obtain rfl : server = other := Option.some.inj (there.symm.trans there'')
          rw [(sound.opening phase).2] at opened
          cases opened
        · refine behind ⟨thread, before, ?_⟩
          rw [field]
          exact fun same => own (Option.some.inj same).symm
      obtain ⟨later, final, ran, lost⟩ :=
        opening_leftBehind bindable running' restarting there' phase alone
      exact ⟨later, final, current, ran, lost, Or.inl field⟩
    | accepting => exact absurd (Or.inl phase) unsettled
    | terminated => exact absurd (Or.inr phase) unsettled

/-- A thread that is lost has the port until its `accept` fails. -/
theorem run_lost (kept : Kept port service) (lost : service.Lost thread)
    {later : List ServiceEvent} (works : .fails thread ∉ later) {final : MainService}
    (ran : Events.run (step port) service later = some final) :
    final.Lost thread ∧ (port ≠ 0 → ∀ other, final.Listens other → other = thread) := by
  -- The lost thread is the only one with the port, step by step.
  have along : Events.Along (step port) (fun _ event => event ≠ .fails thread) service later :=
    Events.along_of_forall fun event member _ same => works (same ▸ member)
  obtain ⟨kept', lost'⟩ := Events.run_along
    (fun service => Kept port service ∧ service.Lost thread)
    (fun _ _ _ held met taken => ⟨step_kept held.1 taken, step_lost held.1 held.2 met taken⟩)
    ⟨kept, lost⟩ along ran
  exact ⟨lost', fun real other listens =>
    kept'.one real other thread listens lost'.leftBehind.1⟩

/-- What `getprop` prints for a device that was booted first in the year 2013. -/
def someFirstboot : List JString :=
  [[0x31, 0x33, 0x37, 0x35, 0x30, 0x38, 0x36, 0x36, 0x30, 0x30, 0x30, 0x30, 0x30]]

/-- Two restarts at once. -/
def earlyRestart : List ServiceEvent := [.onStartCommand, .onStartCommand, .stopOld, .startNew,
  .stopOld, .startNew, .opens 0 true]

/-- The first thread has got the port, and the service knows the second one. -/
def earlyService : MainService where
  socketServerThread := some 1
  threads := [{ phase := .assigning, listening := true }, .new]

end MainService

end Control

section Availability

namespace SocketServerThread

/-- A server thread that clients can still get to. -/
def Coming (server : SocketServerThread) : Prop :=
  server.phase = .opening ∨ server.phase = .assigning ∨
    server.phase = .accepting ∧ server.listening = true

/-- How many steps a thread has in front of it, apart from those that take clients. -/
def left (server : SocketServerThread) : Nat :=
  match server.phase with
  | .opening => 3
  | .assigning => 2
  | .accepting => 1
  | .terminated => 0

end SocketServerThread

/-- A step of a thread that takes no client, and that the system does not refuse. -/
def ServiceEvent.OfThread : ServiceEvent → Prop
  | .opens _ granted => granted = true
  | .assigns _ => True
  | .leaves _ => True
  | _ => False

/-- The service is not unbound, and the system refuses neither a socket nor a client. -/
def ServiceEvent.Undisturbed : ServiceEvent → Prop
  | .onUnbind => False
  | .opens _ granted => granted = true
  | .fails _ => False
  | _ => True

/-- The steps that threads take until they rest are of this kind. -/
theorem ServiceEvent.OfThread.undisturbed {event : ServiceEvent} (own : event.OfThread) :
    event.Undisturbed := by
  cases event with
  | opens thread granted => exact own
  | assigns thread => trivial
  | leaves thread => trivial
  | _ => exact own.elim

namespace MainService

variable {port : Int} {service next : MainService} {event : ServiceEvent} {thread : Nat}

/-- Clients can get to the thread in the field, or to one that was lost. -/
def Served (service : MainService) : Prop :=
  service.restarting = false → ∀ (current : Nat) (server : SocketServerThread),
    service.socketServerThread = some current → service.threads[current]? = some server →
      server.Coming ∨ ∃ other, service.Lost other

/-- A service that has just been made has not promised anything. -/
theorem start_served : Served {} := by
  intro _ current server field
  cases field

/-- No thread has ended with its socket open. -/
def Unbroken (service : MainService) : Prop :=
  ∀ (thread : Nat) (server : SocketServerThread), service.threads[thread]? = some server →
    server.phase = .terminated → server.listening = false

/-- A service that has just been made has none at all. -/
theorem start_unbroken : Unbroken {} := by
  intro thread server there
  simp at there

/-- A change that ends a thread without its socket leaves the others as they are. -/
theorem Unbroken.changes (unbroken : Unbroken service)
    {change : SocketServerThread → SocketServerThread}
    (changes : Changes service next thread change)
    (closes : ∀ server : SocketServerThread, service.threads[thread]? = some server →
      (change server).phase = .terminated → (change server).listening = false) :
    Unbroken next := by
  intro other server there
  obtain ⟨old, before, rfl⟩ := changes.there there
  split
  · rename_i same
    subst same
    exact closes old before
  -- The others are as they were.
  · exact unbroken other old before

/-- Threads end with their sockets closed as long as `accept` fails for no other reason. -/
theorem step_unbroken (kept : Kept port service) (unbroken : Unbroken service)
    (quiet : event.Undisturbed) (taken : step port service event = some next) :
    Unbroken next := by
  cases step_cases taken with
  | nothing called threads field crashed restarting =>
    unfold Unbroken
    rw [threads]
    exact unbroken
  -- A stop closes the socket, or finds none in the field.
  | stopped stops current field changes restarting =>
    refine unbroken.changes changes fun server there ended => ?_
    unfold SocketServerThread.threadStop at ended ⊢
    split
    · rfl
    · rename_i unassigned
      rw [if_neg unassigned] at ended
      exact unbroken current server there ended
  | started restarting threads field crashed idle =>
    intro thread server there ended
    rw [threads] at there
    rcases List.mem_append.mp (List.mem_of_getElem? there) with before | last
    · obtain ⟨place, there⟩ := List.mem_iff_getElem?.mp before
      exact unbroken place server there ended
    · obtain rfl := List.mem_singleton.mp last
      cases ended
  | stepped thread server there step changes restarting =>
    refine unbroken.changes changes fun other there' ended => ?_
    obtain rfl : server = other := Option.some.inj (there.symm.trans there')
    have sound := kept.sound thread server there
    cases step with
    -- Of these steps only a refusal and an exception end the thread.
    | opened opening alone => cases ended
    | refused granted opening held => exact (sound.opening opening).2
    | assigned assigning => cases ended
    | accepted accepting listening => exact unbroken thread server there ended
    | left accepting closed => exact closed
    | failed accepting listening => exact quiet.elim
  | collected thread server there ended unknown changes restarting =>
    exact unbroken.changes changes fun _ _ _ => rfl
  | crashed thread granted range same =>
    subst same
    exact unbroken

/-- A step of a thread keeps clients coming to it, unless another one has the port. -/
theorem ServerStep.coming (bindable : Bindable port) (kept : Kept port service)
    {server : SocketServerThread} {change : SocketServerThread → SocketServerThread}
    (step : ServerStep port service thread server event change)
    (there : service.threads[thread]? = some server) (quiet : event.Undisturbed)
    (coming : server.Coming) :
    (change server).Coming ∨
      ∃ other, service.Listens other ∧ other ≠ thread := by
  have sound := kept.sound thread server there
  cases step with
  | opened opening silent => exact Or.inl (Or.inr (Or.inl rfl))
  | refused granted opening held =>
    -- The port is held by a thread that has a socket, which this one has not.
    obtain ⟨other, listens⟩ := held quiet bindable
    refine Or.inr ⟨other, listens, ?_⟩
    rintro rfl
    obtain ⟨same, there', opened⟩ := listens
    obtain rfl : server = same := Option.some.inj (there.symm.trans there')
    rw [(sound.opening opening).2] at opened
    cases opened
  | assigned assigning => exact Or.inl (Or.inr (Or.inr ⟨rfl, (sound.assigning assigning).2⟩))
  | accepted accepting listening => exact Or.inl (Or.inr (Or.inr ⟨accepting, listening⟩))
  -- Its socket is open, so that it does not leave.
  | left accepting closed =>
    rcases coming with opening | assigning | ⟨-, opened⟩
    · rw [accepting] at opening
      cases opening
    · rw [accepting] at assigning
      cases assigning
    · rw [closed] at opened
      cases opened
  | failed accepting listening => exact quiet.elim

/-- No `accept` fails where nothing disturbs the threads. -/
theorem works_of_undisturbed (quiet : event.Undisturbed) (thread : Nat) :
    event ≠ .fails thread := by
  rintro rfl
  exact quiet

/-- Clients stay served as long as nobody unbinds and the system refuses nothing. -/
theorem step_served (bindable : Bindable port) (kept : Kept port service)
    (unbroken : Unbroken service) (served : Served service) (quiet : event.Undisturbed)
    (taken : step port service event = some next) : Served next := by
  intro idle current server field there
  -- A thread that was lost before goes on taking clients.
  by_cases behind : ∃ other, service.Lost other
  · obtain ⟨other, lost⟩ := behind
    exact Or.inr ⟨other, step_lost kept lost (works_of_undisturbed quiet other) taken⟩
  · have now : service.restarting = false → ∀ server, service.socketServerThread = some current →
        service.threads[current]? = some server → server.Coming :=
      fun idle server field there => (served idle current server field there).resolve_right behind
    cases step_cases taken with
    -- Nothing has changed, or there is no thread in the field yet.
    | nothing called threads field' crashed restarting =>
      rw [threads] at there
      rw [field'] at field
      rcases restarting with same | ⟨-, none⟩
      · exact Or.inl (now (same ▸ idle) server field there)
      · rw [none] at field
        cases field
    | stopped stops current' field' changes restarting =>
      -- It is the first step of a restart, which is not over.
      rcases stops with rfl | rfl
      · rw [restarting.mpr rfl] at idle
        cases idle
      · exact quiet.elim
    -- The new thread is about to open its socket.
    | started restarting threads field' crashed idle' =>
      rw [field'] at field
      obtain rfl := Option.some.inj field
      rw [threads, List.getElem?_concat_length] at there
      obtain rfl := Option.some.inj there
      exact Or.inl (Or.inl rfl)
    | stepped thread old there' step changes restarting =>
      rw [changes.field] at field
      rw [restarting] at idle
      obtain ⟨same, before, rfl⟩ := changes.there there
      have coming := now idle same field before
      split
      · rename_i own
        subst own
        obtain rfl : old = same := Option.some.inj (there'.symm.trans before)
        refine (step.coming bindable kept there' quiet coming).imp id ?_
        -- The port is held by another thread, which the service does not know.
        rintro ⟨other, ⟨holder, held, opened⟩, differs⟩
        have lost : service.Lost other := by
          refine ⟨fun same => differs (Option.some.inj (same.symm.trans field)), holder, held,
            opened, fun ended => ?_⟩
          rw [unbroken other holder held ended] at opened
          cases opened
        exact ⟨other, step_lost kept lost (works_of_undisturbed quiet other) taken⟩
      · exact Or.inl coming
    | collected thread old there' ended unknown changes restarting =>
      -- The thread in the field is not collected.
      rw [changes.field] at field
      have differs : thread ≠ current := fun same => unknown (same ▸ field)
      rw [changes.other differs] at there
      exact Or.inl (now (restarting ▸ idle) server field there)
    | crashed thread granted range same =>
      subst same
      exact Or.inl (now idle server field there)

/-- No thread has anything to do but to take clients. -/
def AtRest (port : Int) (service : MainService) : Prop :=
  ∀ thread, step port service (.opens thread true) = none ∧
    step port service (.assigns thread) = none ∧ step port service (.leaves thread) = none

/-- A thread takes a client exactly when it has assigned a socket that is open. -/
theorem accepts_iff (running : service.crashed = false) :
    (step port service (.accepts thread)).isSome = true ↔
      ∃ server, service.threads[thread]? = some server ∧ server.phase = .accepting ∧
        server.listening = true := by
  simp [step, running]

/-- A thread that clients can get to takes them when it has come to rest. -/
theorem AtRest.accepts (rest : AtRest port service) (running : service.crashed = false)
    {server : SocketServerThread} (there : service.threads[thread]? = some server)
    (coming : server.Coming) :
    (step port service (.accepts thread)).isSome = true := by
  obtain ⟨opens, assigns, -⟩ := rest thread
  -- A thread at rest has neither to open its socket nor to assign it.
  rcases coming with opening | assigning | accepting
  · simp [step, running, there, opening] at opens
  · simp [step, running, there, assigning] at assigns
  · exact (accepts_iff running).mpr ⟨server, there, accepting⟩

/-- A thread that is lost takes clients, or will. -/
theorem Lost.coming (lost : service.Lost thread) :
    ∃ server, service.threads[thread]? = some server ∧ server.Coming := by
  obtain ⟨-, server, there, opened, going⟩ := lost
  refine ⟨server, there, ?_⟩
  cases phase : server.phase with
  | opening => exact Or.inl phase
  | assigning => exact Or.inr (Or.inl phase)
  | accepting => exact Or.inr (Or.inr ⟨phase, opened⟩)
  | terminated => exact absurd phase going

/-- The steps that all threads have in front of them. -/
def left (service : MainService) : Nat := (service.threads.map (·.left)).sum

/-- A change that brings a thread nearer to its end brings the service nearer. -/
theorem Changes.left {change : SocketServerThread → SocketServerThread}
    (changes : Changes service next thread change) {server : SocketServerThread}
    (there : service.threads[thread]? = some server) (nearer : (change server).left < server.left) :
    next.left < service.left := by
  obtain ⟨inside, rfl⟩ := List.getElem?_eq_some_iff.mp there
  -- The sum is split at the thread that changes.
  have split : service.threads = service.threads.take thread ++
      service.threads[thread] :: service.threads.drop (thread + 1) := by
    rw [List.getElem_cons_drop, List.take_append_drop]
  unfold MainService.left
  rw [changes.threads, List.modify_eq_take_cons_drop inside]
  conv_rhs => rw [split]
  simp only [List.map_append, List.map_cons, List.sum_append, List.sum_cons]
  omega

/-- The threads have three steps each at most. -/
theorem left_le (service : MainService) : service.left ≤ 3 * service.threads.length := by
  unfold left
  -- Three steps: opening, assigning and leaving.
  have each : ∀ server : SocketServerThread, server.left ≤ 3 := by
    intro server
    unfold SocketServerThread.left
    split <;> omega
  induction service.threads with
  | nil => exact Nat.le_refl 0
  | cons server rest ih =>
    have := each server
    simp only [List.map_cons, List.sum_cons, List.length_cons]
    omega

/-- A step of a thread that takes no client brings it nearer to its end. -/
theorem ServerStep.nearer {server : SocketServerThread}
    {change : SocketServerThread → SocketServerThread}
    (step : ServerStep port service thread server event change) (own : event.OfThread) :
    (change server).left < server.left := by
  unfold SocketServerThread.left
  cases step with
  | opened opening alone => simp [opening]
  | refused granted opening held => simp [opening]
  | assigned assigning => simp [assigning]
  | accepted accepting listening => exact own.elim
  | left accepting closed => simp [accepting]
  | failed accepting listening => exact own.elim

/-- A step of a thread changes neither the field nor the restart, and brings rest nearer. -/
theorem step_ofThread (bindable : Bindable port) (own : event.OfThread)
    (taken : step port service event = some next) :
    next.socketServerThread = service.socketServerThread ∧
      next.restarting = service.restarting ∧ next.left < service.left := by
  cases step_cases taken with
  | nothing called threads field crashed restarting =>
    rcases called with rfl | rfl | rfl
    · exact own.elim
    · exact own.elim
    · exact own.elim
  | stopped stops current field changes restarting =>
    rcases stops with rfl | rfl
    · exact own.elim
    · exact own.elim
  | started restarting threads field crashed idle => exact own.elim
  | stepped thread server there step changes restarting =>
    exact ⟨changes.field, restarting, changes.left there (step.nearer own)⟩
  | collected thread server there ended unknown changes restarting => exact own.elim
  | crashed thread granted range same => exact absurd range bindable.inRange

/-- The threads take no more steps than they have in front of them. -/
theorem run_ofThread (bindable : Bindable port) {later : List ServiceEvent}
    {final : MainService} : ∀ {service : MainService}, (∀ event ∈ later, event.OfThread) →
      Events.run (step port) service later = some final →
        final.socketServerThread = service.socketServerThread ∧
          final.restarting = service.restarting ∧ later.length + final.left ≤ service.left := by
  induction later with
  | nil =>
    intro service own ran
    cases ran
    exact ⟨rfl, rfl, by simp⟩
  -- The first step brings the threads nearer to rest by one at least.
  | cons event rest ih =>
    intro service own ran
    rw [List.forall_mem_cons] at own
    obtain ⟨next, taken, behind⟩ := Events.run_cons.mp ran
    obtain ⟨field, restarting, nearer⟩ := step_ofThread bindable own.1 taken
    obtain ⟨field', restarting', few⟩ := ih own.2 behind
    refine ⟨field'.trans field, restarting'.trans restarting, ?_⟩
    rw [List.length_cons]
    omega

/-- In a service that has come to rest, exactly one thread takes clients. -/
theorem Served.one (bindable : Bindable port) (kept : Kept port service)
    (served : Served service) (started : service.socketServerThread ≠ none)
    (idle : service.restarting = false) (rest : AtRest port service) :
    ∃ thread, (step port service (.accepts thread)).isSome = true ∧
      ∀ other, (step port service (.accepts other)).isSome = true → other = thread := by
  have running : service.crashed = false :=
    Bool.eq_false_iff.mpr fun ended => bindable.inRange (kept.running ended)
  -- The thread that clients can get to is the current one, or one that was lost.
  obtain ⟨thread, accepts⟩ : ∃ thread, (step port service (.accepts thread)).isSome = true := by
    obtain ⟨current, field⟩ := Option.ne_none_iff_exists'.mp started
    have last := (kept.current current).mp field
    have there := List.getElem?_eq_getElem (show current < service.threads.length by omega)
    rcases served idle current _ field there with coming | ⟨other, lost⟩
    · exact ⟨current, rest.accepts running there coming⟩
    · obtain ⟨server, there', coming⟩ := lost.coming
      exact ⟨other, rest.accepts running there' coming⟩
  -- Two threads that take clients would both have the port.
  refine ⟨thread, accepts, fun other accepts' => ?_⟩
  have listens : ∀ thread, (step port service (.accepts thread)).isSome = true →
      service.Listens thread := by
    intro thread accepts
    obtain ⟨server, there, -, opened⟩ := (accepts_iff running).mp accepts
    exact ⟨server, there, opened⟩
  exact kept.one bindable.ne_zero other thread (listens other accepts') (listens thread accepts)

/--
Behind a restart there is exactly one server thread that takes clients.

However many restarts there were and however their steps met those of the threads, the threads come
to rest after three steps each at most, and then one of them takes clients and the others take none.
-/
theorem restart_serves (digits : CharacterDigit) (result : List JString)
    (bindable : Bindable (serverPort digits result)) (events : List ServiceEvent)
    (service : MainService)
    (ran : Events.run (step (serverPort digits result)) {} events = some service)
    (quiet : ∀ event ∈ events, event.Undisturbed)
    (started : service.socketServerThread ≠ none) (idle : service.restarting = false)
    (later : List ServiceEvent) (own : ∀ event ∈ later, event.OfThread) (final : MainService)
    (ran' : Events.run (step (serverPort digits result)) service later = some final) :
    later.length ≤ 3 * service.threads.length ∧ (AtRest (serverPort digits result) final →
      ∃ thread, (step (serverPort digits result) final (.accepts thread)).isSome = true ∧
        ∀ other, (step (serverPort digits result) final (.accepts other)).isSome = true →
          other = thread) := by
  -- The steps of the threads are undisturbed as well, so that the invariant is kept by all.
  have along : Events.Along (step (serverPort digits result))
      (fun _ event => event.Undisturbed) {} (events ++ later) := by
    refine Events.along_of_forall fun event member _ => ?_
    exact (List.mem_append.mp member).elim (quiet event) fun last => (own event last).undisturbed
  obtain ⟨kept, -, served⟩ := Events.run_along
    (fun service => Kept (serverPort digits result) service ∧ Unbroken service ∧ Served service)
    (fun _ _ _ held met taken => ⟨step_kept held.1 taken, step_unbroken held.1 held.2.1 met taken,
      step_served bindable held.1 held.2.1 held.2.2 met taken⟩)
    ⟨start_kept, start_unbroken, start_served⟩ along (Events.run_append ran ran')
  obtain ⟨field, restarting, few⟩ := run_ofThread bindable own ran'
  refine ⟨?_, fun rest => ?_⟩
  · have := left_le service
    omega
  · exact served.one bindable kept (field ▸ started) (restarting.trans idle) rest

/-- The service behind its first start. -/
def startedService : MainService where
  socketServerThread := some 0
  threads := [.new]

/-- The service when its first thread has come to rest. -/
def restingService : MainService where
  socketServerThread := some 0
  threads := [{ phase := .accepting, server := true, listening := true }]

/-- The first start: the thread gets the port, and takes clients. -/
theorem restart_serves_first :
    ∃ thread,
      (step (serverPort .ascii someFirstboot) restingService (.accepts thread)).isSome = true := by
  have ran : Events.run (step (serverPort .ascii someFirstboot)) {}
      [.onStartCommand, .stopOld, .startNew] = some startedService := rfl
  have ran' : Events.run (step (serverPort .ascii someFirstboot)) startedService
      [.opens 0 true, .assigns 0] = some restingService := rfl
  have rest : AtRest (serverPort .ascii someFirstboot) restingService := by
    intro thread
    cases thread with
    | zero => exact ⟨rfl, rfl, rfl⟩
    | succ thread => exact ⟨rfl, rfl, rfl⟩
  obtain ⟨thread, accepts, -⟩ := (restart_serves .ascii someFirstboot (by decide)
    [.onStartCommand, .stopOld, .startNew] startedService ran
    (by simp [ServiceEvent.Undisturbed]) (by decide) rfl [.opens 0 true, .assigns 0]
    (by simp [ServiceEvent.OfThread]) restingService ran').2 rest
  exact ⟨thread, accepts⟩

end MainService

end Availability

end AndroidApps.TouchClient
