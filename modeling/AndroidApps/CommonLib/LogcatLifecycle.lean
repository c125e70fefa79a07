import AndroidApps.CommonLib.LogcatProcess

/-! When a log reader that is asked to start does run, whatever it and its callers do before. -/

namespace AndroidApps.CommonLib.LogcatProcess

section Starting

/-- A reader thread is running. -/
def Running (process : LogcatProcess) : Prop :=
  ∃ (thread : Nat) (phase : ReaderPhase),
    process.threads[thread]? = some (ThreadState.running phase)

/-- The last calls were `release` and `init`. -/
def Renewed (process : LogcatProcess) : Prop := process.calls.take 2 = [.init, .release]

/--
A call of `start` in this state does what it should.

It returns, and returns true exactly when a reader is running then, and it starts a new one behind
`release` and `init`.
-/
def GoodStart (process : LogcatProcess) : Prop :=
  ∃ value, process.start.2 = .returned value ∧ (value = true ↔ Running process.start.1) ∧
    (Renewed process → ∃ thread : Nat, process.threads[thread]? = some ThreadState.new ∧
      process.start.1.threads[thread]? = some (ThreadState.running .initializing))

/--
The states in which `start` can be called.

Either `alive` is set and a reader runs, or it is not set and there is neither a thread nor a
reader, or the thread was made by `init` and never started.
-/
def Ready (process : LogcatProcess) : Prop :=
  match process.alive, process.thread with
  | true, _ => Running process ∧ ¬ Renewed process
  | false, none => ¬ Running process ∧ ¬ Renewed process
  | false, some thread =>
    match process.threads[thread]? with
    | some .new => True
    | some .stillborn => Running process ∧ ¬ Renewed process
    | _ => False

/-- A thread that is started was new and runs from then on. -/
theorem start_new {process : LogcatProcess} {thread : Nat} (alive : process.alive = false)
    (own : process.thread = some thread) (fresh : process.threads[thread]? = some ThreadState.new) :
    process.start = ({ process with
      alive := true
      threads := process.threads.set thread (.running .initializing)
      calls := .start :: process.calls }, .returned true) := by
  simp [start, called, alive, own, fresh]

/-- A thread that does not run and will not leaves the others as they are. -/
theorem running_set {threads : List ThreadState} {thread : Nat} {state other : ThreadState}
    (there : threads[thread]? = some state) (rests : ∀ phase, state ≠ .running phase)
    (ends : ∀ phase, other ≠ .running phase) :
    (∃ (index : Nat) (phase : ReaderPhase),
        (threads.set thread other)[index]? = some (ThreadState.running phase)) ↔
      ∃ (index : Nat) (phase : ReaderPhase),
        threads[index]? = some (ThreadState.running phase) := by
  -- The thread that changes runs neither before nor behind, and the others stay.
  refine exists_congr fun index => exists_congr fun phase => ?_
  rw [List.getElem?_set]
  by_cases here : thread = index
  · have inside : thread < threads.length := (List.getElem?_eq_some_iff.mp there).1
    rw [if_pos here, if_pos inside, ← here, there]
    exact iff_of_false (fun same => ends phase (Option.some.inj same))
      fun same => rests phase (Option.some.inj same)
  · rw [if_neg here]

/-- A start that leaves the threads as they are is good only if it need not start one. -/
theorem goodStart_of_same {process : LogcatProcess} (value : Bool)
    (result : process.start.2 = .returned value)
    (same : Running process.start.1 ↔ Running process)
    (quiet : ∀ thread : Nat, process.threads[thread]? = some ThreadState.new →
      process.start.1.threads[thread]? = some ThreadState.new) :
    GoodStart process ↔ (value = true ↔ Running process) ∧ ¬ Renewed process := by
  -- No new thread runs behind the call, so that none may be asked for.
  unfold GoodStart
  constructor
  · rintro ⟨other, returned, running, starts⟩
    cases result.symm.trans returned
    refine ⟨running.trans same, fun renewed => ?_⟩
    obtain ⟨thread, fresh, started⟩ := starts renewed
    cases (quiet thread fresh).symm.trans started
  · rintro ⟨running, old⟩
    exact ⟨value, result, running.trans same.symm, fun renewed => absurd renewed old⟩

/-- A start that throws is not a good one. -/
theorem goodStart_threw {process : LogcatProcess} (threw : process.start.2 = .threw) :
    ¬ GoodStart process := by
  rintro ⟨value, returned, -⟩
  cases threw.symm.trans returned

/-- A call of `start` does what it should exactly in the states in which it can be called. -/
theorem goodStart_iff (process : LogcatProcess) : GoodStart process ↔ Ready process := by
  -- The flag, the thread and the state of the thread decide which branch `start` takes.
  cases alive : process.alive with
  | true =>
    -- Nothing is done, whatever the thread is.
    have result : process.start = (process.called .start, .returned true) := by
      simp [start, called, alive]
    have ready : Ready process ↔ Running process ∧ ¬ Renewed process := by
      unfold Ready
      rw [alive]
    rw [ready, goodStart_of_same true (by rw [result]) (by rw [result]; rfl)
      (by rw [result]; exact fun _ => id)]
    simp
  | false =>
    cases own : process.thread with
    | none =>
      have result : process.start =
          ({ process.called .start with alive := true }, .returned false) := by
        simp [start, called, alive, own]
      have ready : Ready process ↔ ¬ Running process ∧ ¬ Renewed process := by
        unfold Ready
        rw [alive, own]
      rw [ready, goodStart_of_same false (by rw [result]) (by rw [result]; rfl)
        (by rw [result]; exact fun _ => id)]
      simp
    | some thread =>
      cases there : process.threads[thread]? with
      | none =>
        have threw : process.start.2 = .threw := by simp [start, called, alive, own, there]
        exact iff_of_false (goodStart_threw threw) (by simp [Ready, alive, own, there])
      | some state =>
        cases state with
        | new =>
          have result := start_new alive own there
          have inside : thread < process.threads.length := (List.getElem?_eq_some_iff.mp there).1
          have started : process.start.1.threads[thread]? =
              some (ThreadState.running .initializing) := by
            rw [result, List.getElem?_set_self inside]
          have ready : Ready process := by simp [Ready, alive, own, there]
          refine iff_of_true ⟨true, by rw [result], ?_, fun _ => ⟨thread, there, started⟩⟩ ready
          exact iff_of_true rfl ⟨thread, .initializing, started⟩
        | stillborn =>
          have result : process.start = ({ process with
              alive := true
              threads := process.threads.set thread .dead
              calls := .start :: process.calls }, .returned true) := by
            simp [start, called, alive, own, there]
          have ready : Ready process ↔ Running process ∧ ¬ Renewed process := by
            simp [Ready, alive, own, there]
          rw [ready, goodStart_of_same true (by rw [result])
            (by rw [result]; exact running_set there (by simp) (by simp)) ?_]
          · simp
          · intro other fresh
            have apart : thread ≠ other := by
              rintro rfl
              cases there.symm.trans fresh
            rw [result, List.getElem?_set_ne apart, fresh]
        | running phase =>
          have threw : process.start.2 = .threw := by simp [start, called, alive, own, there]
          exact iff_of_false (goodStart_threw threw) (by simp [Ready, alive, own, there])
        | dead =>
          have threw : process.start.2 = .threw := by simp [start, called, alive, own, there]
          exact iff_of_false (goodStart_threw threw) (by simp [Ready, alive, own, there])

end Starting

section Lifecycle

variable (threadStop : ThreadState → Option ThreadState)

/-- What all orderly events preserve. -/
structure Consistent (process : LogcatProcess) : Prop where
  held : process.alive = true → ∃ (thread : Nat) (phase : ReaderPhase),
    process.thread = some thread ∧
      process.threads[thread]? = some (ThreadState.running phase) ∧ phase ≠ .cleared
  only : ∀ (thread : Nat) (phase : ReaderPhase),
    process.threads[thread]? = some (ThreadState.running phase) → process.thread = some thread
  released : process.calls.head? = some .release → process.alive = false
  renewed : process.Renewed → process.alive = false

/-- The thread of the object was made by `init` and never started. -/
def Fresh (process : LogcatProcess) : Prop :=
  ∃ thread : Nat, process.thread = some thread ∧ process.threads[thread]? = some ThreadState.new

/--
The events that keep `alive` and `thread` in step with the reader.

A reader is started while it runs or before it ever did, `exec` fails only for one that was stopped,
and no reader is released that `Thread.stop` leaves running.
-/
def Orderly (process : LogcatProcess) : LogcatEvent → Prop
  | .call .start => process.alive = true ∨ process.Fresh
  | .call .release => ∀ (thread : Nat) (phase : ReaderPhase), process.thread = some thread →
    (process.threads[thread]?).bind threadStop ≠ some (ThreadState.running phase)
  | .reader _ .execFails => process.alive = false
  | _ => True

/-- The last calls are `release` and `init` exactly behind an `init` that follows a `release`. -/
theorem renewed_called {process : LogcatProcess} {call : LogcatCall} :
    (process.called call).Renewed ↔ call = .init ∧ process.calls.head? = some .release := by
  unfold Renewed called
  cases process.calls <;> simp

/-- Making a thread starts none. -/
theorem running_of_append {threads : List ThreadState} {thread : Nat} {phase : ReaderPhase}
    (runs : (threads ++ [ThreadState.new])[thread]? = some (ThreadState.running phase)) :
    threads[thread]? = some (ThreadState.running phase) := by
  -- The place of a thread that runs is not the new one.
  rcases Nat.lt_or_ge thread threads.length with inside | outside
  · rwa [List.getElem?_append_left inside] at runs
  · rw [List.getElem?_append_right outside, List.getElem?_singleton] at runs
    split at runs <;> cases runs

/-- `init` keeps the fields in step. -/
theorem consistent_init {process : LogcatProcess} (kept : Consistent process) :
    Consistent process.init.1 := by
  -- Where there is a thread nothing changes, and where there is none nothing runs.
  obtain ⟨held, only, released, renewed⟩ := kept
  have quiet : (process.called .init).Renewed → process.alive = false :=
    fun again => released (renewed_called.mp again).2
  cases own : process.thread with
  | some thread =>
    have result : process.init.1 = process.called .init := by simp [init, called, own]
    rw [result]
    exact ⟨held, only, by simp [called], quiet⟩
  | none =>
    have result : process.init.1 = { process.called .init with
        thread := some process.threads.length
        threads := process.threads ++ [.new]
        filter := [JString.ofString "logcat"] } := by simp [init, called, own]
    rw [result]
    -- No reader runs without a thread, and the one that is made does not run yet.
    have rests : process.alive = false := by
      by_contra alive
      obtain ⟨thread, _, own', _⟩ := held (by simpa using alive)
      cases own.symm.trans own'
    refine ⟨fun alive => ?_, fun thread phase runs => ?_, by simp [called], quiet⟩
    · cases rests.symm.trans alive
    · have before := running_of_append runs
      cases own.symm.trans (only thread phase before)

/-- `start` keeps the fields in step if the reader runs, or never ran. -/
theorem consistent_start {process : LogcatProcess} (kept : Consistent process)
    (orderly : process.alive = true ∨ process.Fresh) : Consistent process.start.1 := by
  -- Either nothing is done, or the thread that was made and not started runs from now on.
  obtain ⟨held, only, released, renewed⟩ := kept
  have old : ¬ (process.called .start).Renewed := fun again => by
    cases (renewed_called.mp again).1
  cases alive : process.alive with
  | true =>
    have result : process.start.1 = process.called .start := by simp [start, called, alive]
    rw [result]
    exact ⟨held, only, by simp [called], fun again => absurd again old⟩
  | false =>
    obtain ⟨thread, own, fresh⟩ := orderly.resolve_left (by simp [alive])
    have inside : thread < process.threads.length := (List.getElem?_eq_some_iff.mp fresh).1
    rw [start_new alive own fresh]
    refine ⟨fun _ => ⟨thread, .initializing, own, List.getElem?_set_self inside, by decide⟩,
      fun other phase runs => ?_, by simp, fun again => absurd again old⟩
    -- The thread that runs now is the referenced one, and no other ran before.
    by_cases here : thread = other
    · exact here ▸ own
    · rw [List.getElem?_set_ne here] at runs
      exact only other phase runs

/-- What stopping the thread can do. -/
theorem stopThread_cases (process : LogcatProcess) :
    (process.thread = none ∧
      process.stopThread threadStop = ({ process with alive := false }, .returned true)) ∨
    (∃ thread stopped, process.thread = some thread ∧
      (process.threads[thread]?).bind threadStop = some stopped ∧
      process.stopThread threadStop = ({ process with
        alive := false
        threads := process.threads.set thread stopped }, .returned true)) ∨
    ∃ thread, process.thread = some thread ∧
      process.stopThread threadStop = ({ process with alive := false }, .threw) := by
  -- There is no thread, or the platform stops it, or the platform throws.
  cases own : process.thread with
  | none => exact .inl ⟨rfl, by simp [stopThread, own]⟩
  | some thread =>
    cases left : (process.threads[thread]?).bind threadStop with
    | none => exact .inr (.inr ⟨thread, rfl, by simp [stopThread, own, left]⟩)
    | some stopped =>
      exact .inr (.inl ⟨thread, stopped, rfl, left, by simp [stopThread, own, left]⟩)

/-- A reader that was stopped is consistent as long as it keeps the thread. -/
theorem consistent_stopThread {process : LogcatProcess}
    (only : ∀ (thread : Nat) (phase : ReaderPhase),
      process.threads[thread]? = some (ThreadState.running phase) →
        process.thread = some thread) :
    Consistent (process.stopThread threadStop).1 := by
  -- The flag is clear, so that all that is left to show is which threads run.
  obtain ⟨own, result⟩ | ⟨mine, stopped, own, left, result⟩ | ⟨mine, own, result⟩ :=
    stopThread_cases threadStop process
  · rw [result]
    exact ⟨by simp, only, fun _ => rfl, fun _ => rfl⟩
  · rw [result]
    refine ⟨by simp, fun thread phase runs => ?_, fun _ => rfl, fun _ => rfl⟩
    -- Whatever the platform makes of the thread, it is the referenced one.
    by_cases here : mine = thread
    · exact here ▸ own
    · rw [List.getElem?_set_ne here] at runs
      exact only thread phase runs
  · rw [result]
    exact ⟨by simp, only, fun _ => rfl, fun _ => rfl⟩

/-- `release` keeps the fields in step if it does not leave the reader running. -/
theorem consistent_release {process : LogcatProcess} (kept : Consistent process)
    (orderly : Orderly threadStop process (.call .release)) :
    Consistent (process.release threadStop).1 := by
  -- Behind an exception the thread is kept, and otherwise it must not run any more.
  obtain ⟨own, result⟩ | ⟨mine, stopped, own, left, result⟩ | ⟨mine, own, result⟩ :=
    stopThread_cases threadStop (process.called .release)
  · have same : (process.release threadStop).1 =
        { process.called .release with alive := false, thread := none } := by
      simp [release, result]
    rw [same]
    refine ⟨by simp, fun thread phase runs => ?_, fun _ => rfl, fun _ => rfl⟩
    exact own.symm.trans (kept.only thread phase runs)
  · have same : (process.release threadStop).1 = { process.called .release with
        alive := false
        thread := none
        threads := (process.called .release).threads.set mine stopped } := by
      simp [release, result]
    rw [same]
    refine ⟨by simp, fun thread phase runs => ?_, fun _ => rfl, fun _ => rfl⟩
    -- Only the referenced thread could run, and the platform has ended it.
    have runs : (process.threads.set mine stopped)[thread]? = some (.running phase) := runs
    by_cases here : mine = thread
    · subst here
      have inside : mine < process.threads.length := by
        by_contra outside
        rw [List.getElem?_set] at runs
        simp [outside] at runs
      rw [List.getElem?_set_self inside] at runs
      exact absurd (left.trans runs) (orderly mine phase own)
    · rw [List.getElem?_set_ne here] at runs
      exact absurd (Option.some.inj (own.symm.trans (kept.only thread phase runs))) here
  · have same : (process.release threadStop).1 =
        { process.called .release with alive := false } := by
      simp [release, result]
    rw [same]
    exact ⟨by simp, kept.only, fun _ => rfl, fun _ => rfl⟩

/-- What a step of a reader thread can do. -/
theorem readerStep_cases {process behind : LogcatProcess} {phase : ReaderPhase} {step : ReaderStep}
    {state : ThreadState} (taken : process.readerStep phase step = some (state, behind)) :
    (∃ next, next ≠ .cleared ∧ phase ≠ .cleared ∧ state = .running next ∧
      ∃ filter, behind = { process with filter := filter }) ∨
    (step = .execFails ∧ state = .dead ∧ behind = process) ∨
    (state = .running .cleared ∧ behind = { process with alive := false }) ∨
    (phase = .cleared ∧ state = .dead ∧ behind = { process with thread := none }) := by
  -- Each exit of `run` is one of the last three cases; all other steps lead on within it.
  cases step <;> simp only [readerStep, Option.ite_none_right_eq_some, Option.some.injEq,
    Prod.mk.injEq] at taken
  all_goals obtain ⟨there, rfl, rfl⟩ := taken
  case initFails => exact .inl ⟨.leaving, by decide, by simp [there], rfl, _, rfl⟩
  case initDone => exact .inl ⟨.executing, by decide, by simp [there], rfl, _, rfl⟩
  case execDone => exact .inl ⟨.reading, by decide, by simp [there], rfl, _, rfl⟩
  case readFails => exact .inl ⟨.leaving, by decide, by simp [there], rfl, _, rfl⟩
  case noticesStop => exact .inl ⟨.leaving, by decide, by simp [there.1], rfl, _, rfl⟩
  case execFails => exact .inr (.inl ⟨rfl, rfl, rfl⟩)
  case clearAlive => exact .inr (.inr (.inl ⟨rfl, rfl⟩))
  case clearThread => exact .inr (.inr (.inr ⟨there, rfl, rfl⟩))

/-- A step of a reader thread keeps the fields in step, unless `exec` fails while `alive` is set. -/
theorem consistent_reader {process behind : LogcatProcess} {thread : Nat} {phase : ReaderPhase}
    {step : ReaderStep} {state : ThreadState} (kept : Consistent process)
    (orderly : Orderly threadStop process (.reader thread step))
    (runs : process.threads[thread]? = some (ThreadState.running phase))
    (taken : process.readerStep phase step = some (state, behind)) :
    Consistent { behind with threads := behind.threads.set thread state } := by
  obtain ⟨held, only, released, renewed⟩ := kept
  have own := only thread phase runs
  have inside : thread < process.threads.length := (List.getElem?_eq_some_iff.mp runs).1
  -- No other thread runs, so none but this one runs behind the step.
  have others : ∀ (other : Nat) (next : ReaderPhase),
      (process.threads.set thread state)[other]? = some (ThreadState.running next) →
        thread = other := by
    intro other next later
    by_contra apart
    rw [List.getElem?_set_ne apart] at later
    exact apart (Option.some.inj (own.symm.trans (only other next later)))
  obtain ⟨next, open', _, rfl, filter, rfl⟩ | ⟨rfl, rfl, rfl⟩ | ⟨rfl, rfl⟩ | ⟨rfl, rfl, rfl⟩ :=
    readerStep_cases taken
  · refine ⟨fun _ => ⟨thread, next, own, List.getElem?_set_self inside, open'⟩,
      fun other later now => ?_, released, renewed⟩
    exact others other later now ▸ own
  · have rests : behind.alive = false := orderly
    refine ⟨fun alive => (by cases rests.symm.trans alive), fun other later now => ?_,
      released, renewed⟩
    exact others other later now ▸ own
  · refine ⟨by simp, fun other later now => ?_, fun _ => rfl, fun _ => rfl⟩
    exact others other later now ▸ own
  · -- The flag was cleared before the thread, and nobody has set it since.
    have rests : process.alive = false := by
      by_contra alive
      obtain ⟨mine, next, own', now, open'⟩ := held (by simpa using alive)
      cases own.symm.trans own'
      cases runs.symm.trans now
      exact open' rfl
    refine ⟨fun alive => (by cases rests.symm.trans alive), fun other later now => ?_,
      released, renewed⟩
    obtain rfl := others other later now
    rw [List.getElem?_set_self inside] at now
    cases now

/-- An orderly event keeps the fields in step. -/
theorem consistent_step {process next : LogcatProcess} {event : LogcatEvent}
    (kept : Consistent process) (orderly : Orderly threadStop process event)
    (taken : process.step threadStop event = some next) : Consistent next := by
  -- A call is looked at by its kind, and a step of a thread by what it can do.
  cases event with
  | call call =>
    cases taken
    cases call with
    | init => exact consistent_init kept
    | start => exact consistent_start kept orderly
    | stop => exact consistent_stopThread threadStop (show ∀ (thread : Nat) (phase : ReaderPhase),
      (process.called .stop).threads[thread]? = some (ThreadState.running phase) → _ from kept.only)
    | release => exact consistent_release threadStop kept orderly
  | reader thread step =>
    simp only [LogcatProcess.step] at taken
    split at taken
    · rename_i phase runs
      obtain ⟨⟨state, behind⟩, stepped, rfl⟩ := Option.map_eq_some_iff.mp taken
      exact consistent_reader threadStop kept orderly runs stepped
    · cases taken

/-- A consistent reader can be started while it runs, or before it ever did. -/
theorem ready_of_consistent {process : LogcatProcess} (kept : Consistent process)
    (orderly : process.alive = true ∨ process.Fresh) : Ready process := by
  -- A set flag vouches for a thread that runs, and for no `release` since it was set.
  cases alive : process.alive with
  | true =>
    obtain ⟨thread, phase, _, runs, _⟩ := kept.held alive
    have old : ¬ Renewed process := fun again => by
      cases (kept.renewed again).symm.trans alive
    simpa [Ready, alive] using ⟨⟨thread, phase, runs⟩, old⟩
  | false =>
    obtain ⟨thread, own, fresh⟩ := orderly.resolve_left (by simp [alive])
    simp [Ready, alive, own, fresh]

/-- A new object is consistent. -/
theorem consistent_new : Consistent .new :=
  ⟨by simp [new], by simp [new], by simp [new], by simp [new, Renewed]⟩

/-- An event is a call of `start` only where `start` does what it should. -/
def StartsWell (process : LogcatProcess) (event : LogcatEvent) : Prop :=
  event = .call .start → GoodStart process

/-- An event is a call of `start` only in a state in which it can be called. -/
def StartsReady (process : LogcatProcess) (event : LogcatEvent) : Prop :=
  event = .call .start → Ready process

/--
When all calls of `start` do what they should, over every run of calls and reader steps.

They do exactly when each of them meets a state in which it can be called, and an orderly run leads
to no other.
-/
theorem lifecycle_iff (events : List LogcatEvent) :
    (Events.Along (step threadStop) StartsWell .new events ↔
      Events.Along (step threadStop) StartsReady .new events) ∧
    (Events.Along (step threadStop) (Orderly threadStop) .new events →
      Events.Along (step threadStop) StartsWell .new events) := by
  -- A single call is judged by the state it meets, and orderly events lead only to good states.
  have same : ∀ process event, StartsWell process event ↔ StartsReady process event :=
    fun process event => imp_congr_right fun _ => goodStart_iff process
  refine ⟨Events.along_congr same, fun orderly => ?_⟩
  refine Events.along_of_invariant Consistent
    (fun process event next kept met taken => consistent_step threadStop kept met taken) ?_
    consistent_new orderly
  rintro process event kept met rfl
  exact (goodStart_iff process).mpr (ready_of_consistent kept met)

/-- The instance that is handed out first is the one behind `init`. -/
theorem getInstance_run :
    Events.run (step threadStop) .new [.call .init] = some (getInstance none) := rfl

/-- The events of a reader whose `exec` fails, and that is then started again. -/
def failedExec : List LogcatEvent :=
  [.call .init, .call .start, .reader 0 (.initDone []), .reader 0 .execFails, .call .start]

/-- The second call of `start` returns true, and no reader is running. -/
theorem lifecycle_failedExec :
    ¬ Events.Along (step fun _ => none) StartsWell .new failedExec := by
  -- At the last event the reader of the first call is dead, and none was started since.
  intro along
  obtain ⟨_, second⟩ := along _ rfl
  obtain ⟨_, third⟩ := second _ rfl
  obtain ⟨_, fourth⟩ := third _ rfl
  obtain ⟨_, fifth⟩ := fourth _ rfl
  obtain ⟨value, returned, running, _⟩ := (fifth _ rfl).1 rfl
  cases returned
  obtain ⟨thread, phase, runs⟩ := running.mp rfl
  have dead : ∀ state ∈ [ThreadState.dead], state ≠ .running phase := by simp
  exact dead _ (List.mem_of_getElem? runs) rfl

end Lifecycle

end AndroidApps.CommonLib.LogcatProcess
