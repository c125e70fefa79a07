import AndroidApps.Lib.Events
import AndroidApps.Lib.JavaText

/-! The thread that plays a GPS log, and the calls that ask for another log. -/

namespace AndroidApps.Gildroia

section Source

/-- `Global.readOneLineStream`: the line, and what is left of the stream. -/
def Global.readOneLineStream : List UInt8 → JString × List UInt8
  | [] => ([], [])
  | byte :: rest =>
    if byte = 0x0A then ([], rest)
    else
      let (line, rest) := readOneLineStream rest
      (byte.toUInt16 :: line, rest)

/-- Where a log thread stands in `run`, with the stream it has opened and the URL it is from. -/
inductive LogPhase where
  | created
  | opening
  | testing (url : JString) (inputStream : List UInt8)
  | reading (url : JString) (inputStream : List UInt8)
  | parsing (url : JString) (inputStream : List UInt8) (line : JString)
  | sleeping (url : JString) (inputStream : List UInt8)
  | closing (again : Bool)
  | leaving
  | clearing
  | finished
  deriving DecidableEq

/-- Where the caller stands in `playLogFile`, with the URL it has asked for. -/
inductive PlayPhase where
  | idle
  | stopping (url : JString)
  | joining (url : JString)
  | waiting (url : JString) (thread : Nat)
  | creating (url : JString)
  | enabling (url : JString)
  | naming (url : JString)
  | starting (url : JString)
  deriving DecidableEq

/-- What ends the application: `join` without a thread, or a line that cannot be parsed. -/
inductive GpsCrash where
  | nullPointer
  | badLine
  deriving DecidableEq

/-- The fields of a `GpsThread`, the threads it has made, its caller, and what was reported. -/
structure GpsThread (ρ : Type) where
  gpsLogThread : Option Nat := none
  gpsLogThreadRunning : Bool := false
  gpsLogUrl : JString := []
  threads : List LogPhase := []
  call : PlayPhase := .idle
  reports : List (JString × ρ) := []
  crash : Option GpsCrash := none

/-- One step of the caller or of a log thread. -/
inductive GpsEvent where
  /-- `playLogFile` is called. -/
  | play (url : JString)
  /-- The caller goes on in `playLogFile`. -/
  | proceed
  /-- A log thread opens its URL, and gets a stream or an exception. -/
  | opens (thread : Nat) (inputStream : Option (List UInt8))
  /-- A log thread takes another step. -/
  | goes (thread : Nat)
  deriving DecidableEq

namespace GpsThread

variable {ρ : Type}

/-- A log thread comes to another place. -/
def enter (gps : GpsThread ρ) (thread : Nat) (phase : LogPhase) : GpsThread ρ :=
  { gps with threads := gps.threads.set thread phase }

/-- The next step of `playLogFile`, which stays in `join` until the thread has finished. -/
def proceed (gps : GpsThread ρ) : Option (GpsThread ρ) :=
  match gps.call with
  | .idle => none
  | .stopping url => some { gps with gpsLogThreadRunning := false, call := .joining url }
  -- The field is read here, so that a thread that has ended in between leaves a null.
  | .joining url =>
    match gps.gpsLogThread with
    | none => some { gps with crash := some .nullPointer }
    | some thread => some { gps with call := .waiting url thread }
  | .waiting url thread =>
    if gps.threads[thread]? = some .finished then some { gps with call := .creating url } else none
  | .creating url =>
    some { gps with
      gpsLogThread := some gps.threads.length
      threads := gps.threads ++ [.created]
      call := .enabling url }
  | .enabling url => some { gps with gpsLogThreadRunning := true, call := .naming url }
  | .naming url => some { gps with gpsLogUrl := url, call := .starting url }
  | .starting _ =>
    gps.gpsLogThread.map fun thread => { gps.enter thread .opening with call := .idle }

/-- A step of a log thread that has no stream to open. -/
def goes (parse : JString → Option (Option ρ)) (gps : GpsThread ρ) (thread : Nat) :
    LogPhase → Option (GpsThread ρ)
  | .created | .opening | .finished => none
  | .testing url inputStream =>
    some (gps.enter thread
      (if gps.gpsLogThreadRunning then .reading url inputStream else .closing false))
  -- A line of 20 characters or fewer ends the log, and it is played from its start again.
  | .reading url inputStream =>
    let (line, rest) := Global.readOneLineStream inputStream
    some (gps.enter thread (if line.length ≤ 20 then .closing true else .parsing url rest line))
  | .parsing url inputStream line =>
    match parse line with
    | none => some { gps with crash := some .badLine }
    | some report =>
      some { gps.enter thread (.sleeping url inputStream) with
        reports := gps.reports ++ (report.map fun report => (url, report)).toList }
  | .sleeping url inputStream => some (gps.enter thread (.testing url inputStream))
  | .closing again => some (gps.enter thread (if again then .opening else .leaving))
  | .leaving => some { gps.enter thread .clearing with gpsLogThreadRunning := false }
  | .clearing => some { gps.enter thread .finished with gpsLogThread := none }

/-- One step, unless it is not the turn of the one that takes it or the application has ended. -/
def step (parse : JString → Option (Option ρ)) (gps : GpsThread ρ) (event : GpsEvent) :
    Option (GpsThread ρ) :=
  if gps.crash.isSome then none
  else
    match event with
    | .play url =>
      if gps.call = .idle then
        some { gps with
          call := if gps.gpsLogThread.isSome then .stopping url else .creating url }
      else none
    | .proceed => gps.proceed
    | .opens thread inputStream =>
      if gps.threads[thread]? = some .opening then
        some (gps.enter thread
          (match inputStream with
          | some inputStream => .testing gps.gpsLogUrl inputStream
          | none => .closing false))
      else none
    | .goes thread => gps.threads[thread]?.bind (gps.goes parse thread)

end GpsThread

end Source

section Invariant

/-- A log thread that has been started and has not ended. -/
def LogPhase.Alive : LogPhase → Prop
  | .created | .finished => False
  | _ => True

instance : DecidablePred LogPhase.Alive
  | .created => isFalse id
  | .finished => isFalse id
  | .opening => isTrue trivial
  | .testing _ _ => isTrue trivial
  | .reading _ _ => isTrue trivial
  | .parsing _ _ _ => isTrue trivial
  | .sleeping _ _ => isTrue trivial
  | .closing _ => isTrue trivial
  | .leaving => isTrue trivial
  | .clearing => isTrue trivial

/-- The URL of the stream that a log thread has opened. -/
def LogPhase.url? : LogPhase → Option JString
  | .testing url _ => some url
  | .reading url _ => some url
  | .parsing url _ _ => some url
  | .sleeping url _ => some url
  | _ => none

namespace GpsThread

variable {ρ : Type}

/-- No log thread is left: the ones that were made have finished. -/
structure Quiet (gps : GpsThread ρ) : Prop where
  field : gps.gpsLogThread = none
  finished : ∀ phase ∈ gps.threads, phase = .finished

/-- The last thread is the only one that has not finished, and the field refers to it. -/
structure Single (gps : GpsThread ρ) (last : LogPhase) : Prop where
  finished : ∃ others, gps.threads = others ++ [last] ∧ ∀ phase ∈ others, phase = .finished
  field : gps.gpsLogThread = some (gps.threads.length - 1)

/-- A thread plays the log that was asked for, or none does. -/
def Playing (gps : GpsThread ρ) : Prop :=
  Quiet gps ∨ ∃ last, Single gps last ∧ last.Alive ∧ ∀ url, last.url? = some url →
    url = gps.gpsLogUrl

/-- What holds where the caller stands. -/
def Inv (gps : GpsThread ρ) : Prop :=
  match gps.call with
  | .idle => Playing gps
  | .stopping _ => Playing gps
  | .joining _ => Playing gps ∧ gps.gpsLogThreadRunning = false
  | .waiting _ thread =>
    Playing gps ∧ gps.gpsLogThreadRunning = false ∧ thread + 1 = gps.threads.length
  | .creating _ => Quiet gps
  | .enabling _ => Single gps .created
  | .naming _ => Single gps .created ∧ gps.gpsLogThreadRunning = true
  | .starting url =>
    Single gps .created ∧ gps.gpsLogThreadRunning = true ∧ gps.gpsLogUrl = url

end GpsThread

end Invariant

section Steps

namespace GpsThread

variable {ρ : Type} {parse : JString → Option (Option ρ)} {gps next : GpsThread ρ} {thread : Nat}
  {phase last : LogPhase}

/-- What a step of a log thread leaves as it is, and what it may do. -/
structure ThreadStep (gps next : GpsThread ρ) : Prop where
  call : next.call = gps.call
  url : next.gpsLogUrl = gps.gpsLogUrl
  length : next.threads.length = gps.threads.length
  stopped : gps.gpsLogThreadRunning = false → next.gpsLogThreadRunning = false
  playing : Playing next
  reported : next.reports = gps.reports ∨
    ∃ report, next.reports = gps.reports ++ [(gps.gpsLogUrl, report)]

/-- The threads, the field and the URL say whether a log is played. -/
theorem Playing.same (playing : Playing gps) (threads : next.threads = gps.threads)
    (field : next.gpsLogThread = gps.gpsLogThread) (url : next.gpsLogUrl = gps.gpsLogUrl) :
    Playing next := by
  rcases playing with ⟨none, finished⟩ | ⟨last, ⟨others, some⟩, alive, opened⟩
  · exact Or.inl ⟨field.trans none, threads ▸ finished⟩
  -- The last thread is still the one in the field.
  · refine Or.inr ⟨last, ⟨threads ▸ others, ?_⟩, alive, url ▸ opened⟩
    rw [field, threads, some]

/-- A thread that is alive is the last one. -/
theorem Playing.turn (playing : Playing gps) (there : gps.threads[thread]? = some phase)
    (alive : phase.Alive) : Single gps phase ∧ thread = gps.threads.length - 1 ∧
      ∀ url, phase.url? = some url → url = gps.gpsLogUrl := by
  have ended : ∀ {phases : List LogPhase}, (∀ phase ∈ phases, phase = .finished) →
      phases[thread]? ≠ some phase := by
    intro phases finished there
    rw [finished phase (List.mem_of_getElem? there)] at alive
    exact alive
  rcases playing with quiet | ⟨last, single, _, url⟩
  · exact absurd there (ended quiet.finished)
  · obtain ⟨others, threads, finished⟩ := single.finished
    -- The thread is the last one, as the others have finished.
    rw [threads] at there
    rcases Nat.lt_or_ge thread others.length with before | behind
    · rw [List.getElem?_append_left before] at there
      exact absurd there (ended finished)
    · rw [List.getElem?_append_right behind, List.getElem?_singleton] at there
      split_ifs at there with first
      cases there
      refine ⟨single, ?_, url⟩
      rw [threads, List.length_append, List.length_singleton]
      omega

/-- The last thread comes to another place. -/
theorem Single.enter (single : Single gps last) (phase : LogPhase) :
    ∃ others, gps.threads.set (gps.threads.length - 1) phase = others ++ [phase] ∧
      ∀ phase ∈ others, phase = .finished := by
  obtain ⟨others, threads, finished⟩ := single.finished
  refine ⟨others, ?_, finished⟩
  simp [threads]

/-- A thread that goes on, while the field and the URL stay as they are, still plays the log. -/
theorem Single.goesOn (single : Single gps last) (phase : LogPhase)
    (threads : next.threads = gps.threads.set (gps.threads.length - 1) phase)
    (field : next.gpsLogThread = gps.gpsLogThread) (alive : phase.Alive)
    (url : ∀ url, phase.url? = some url → url = next.gpsLogUrl) : Playing next := by
  refine Or.inr ⟨phase, ⟨?_, ?_⟩, alive, url⟩
  · rw [threads]
    exact single.enter phase
  · rw [field, threads, List.length_set]
    exact single.field

/-- Only a log thread that has been started and has not ended takes a step. -/
theorem goes_alive (taken : gps.goes parse thread phase = some next) : phase.Alive := by
  cases phase with
  | created => cases taken
  | finished => cases taken
  | _ => trivial

/-- What a step can be, as long as the application has not ended. -/
theorem step_cases {event : GpsEvent} (taken : step parse gps event = some next) :
    gps.crash = none ∧
      ((∃ url, event = .play url ∧ gps.call = .idle ∧ next = { gps with
          call := if gps.gpsLogThread.isSome then .stopping url else .creating url }) ∨
        (event = .proceed ∧ gps.proceed = some next) ∨
        (∃ thread inputStream, event = .opens thread inputStream ∧
          gps.threads[thread]? = some .opening ∧
          next = gps.enter thread (match inputStream with
            | some inputStream => .testing gps.gpsLogUrl inputStream
            | none => .closing false)) ∨
        ∃ thread phase, event = .goes thread ∧ gps.threads[thread]? = some phase ∧
          gps.goes parse thread phase = some next) := by
  unfold step at taken
  -- An application that has ended takes no step.
  by_cases crashed : gps.crash.isSome = true
  · rw [if_pos crashed] at taken
    cases taken
  rw [if_neg crashed] at taken
  refine ⟨Option.not_isSome_iff_eq_none.mp crashed, ?_⟩
  cases event with
  | play url =>
    dsimp only at taken
    by_cases idle : gps.call = .idle
    · rw [if_pos idle] at taken
      exact .inl ⟨url, rfl, idle, (Option.some.inj taken).symm⟩
    · rw [if_neg idle] at taken
      cases taken
  | proceed => exact .inr (.inl ⟨rfl, taken⟩)
  | opens thread inputStream =>
    dsimp only at taken
    by_cases there : gps.threads[thread]? = some .opening
    · rw [if_pos there] at taken
      exact .inr (.inr (.inl ⟨thread, inputStream, rfl, there, (Option.some.inj taken).symm⟩))
    · rw [if_neg there] at taken
      cases taken
  | goes thread =>
    obtain ⟨phase, there, taken⟩ := Option.bind_eq_some_iff.mp taken
    exact .inr (.inr (.inr ⟨thread, phase, rfl, there, taken⟩))

/-- A step of a log thread leaves it alone to play, or no thread is left. -/
theorem goes_step (playing : Playing gps) (there : gps.threads[thread]? = some phase)
    (taken : gps.goes parse thread phase = some next) : ThreadStep gps next := by
  obtain ⟨single, rfl, url⟩ := playing.turn there (goes_alive taken)
  cases phase with
  | created => cases taken
  | opening => cases taken
  | finished => cases taken
  -- The flag decides whether another line is read from the same stream.
  | testing opened inputStream =>
    cases taken
    refine ⟨rfl, rfl, List.length_set, id, single.goesOn _ rfl rfl ?_ ?_, Or.inl rfl⟩
    · split_ifs <;> trivial
    · intro other same
      split_ifs at same
      · exact url other same
      · cases same
  -- The end of the log closes the stream, and any other line is parsed.
  | reading opened inputStream =>
    cases taken
    refine ⟨rfl, rfl, List.length_set, id, single.goesOn _ rfl rfl ?_ ?_, Or.inl rfl⟩
    · split_ifs <;> trivial
    · intro other same
      split_ifs at same
      · cases same
      · exact url other same
  | parsing opened inputStream line =>
    rw [goes] at taken
    cases parsed : parse line with
    -- A line that cannot be parsed ends the application.
    | none =>
      rw [parsed] at taken
      cases taken
      exact ⟨rfl, rfl, rfl, id, playing.same rfl rfl rfl, Or.inl rfl⟩
    -- A report is one of the log that the thread has opened.
    | some report =>
      rw [parsed] at taken
      cases taken
      refine ⟨rfl, rfl, List.length_set, id, single.goesOn _ rfl rfl trivial url, ?_⟩
      cases report with
      | none => exact Or.inl (List.append_nil _)
      | some report => exact Or.inr ⟨report, by rw [← url opened rfl]; rfl⟩
  | sleeping opened inputStream =>
    cases taken
    exact ⟨rfl, rfl, List.length_set, id, single.goesOn _ rfl rfl trivial url, Or.inl rfl⟩
  -- The stream is closed, and there is none until the next one is opened.
  | closing again =>
    cases taken
    refine ⟨rfl, rfl, List.length_set, id, single.goesOn _ rfl rfl ?_ ?_, Or.inl rfl⟩
    · split_ifs <;> trivial
    · intro other same
      split_ifs at same <;> cases same
  -- The flag is set back by the thread itself.
  | leaving =>
    cases taken
    refine ⟨rfl, rfl, List.length_set, fun _ => rfl, ?_, Or.inl rfl⟩
    refine single.goesOn .clearing rfl rfl trivial ?_
    intro other same
    cases same
  | clearing =>
    cases taken
    refine ⟨rfl, rfl, List.length_set, id, Or.inl ⟨rfl, ?_⟩, Or.inl rfl⟩
    -- The thread was the last one that had not finished.
    obtain ⟨others, threads, finished⟩ := single.enter .finished
    intro other member
    rw [show (gps.enter _ LogPhase.finished).threads = _ from threads] at member
    rcases List.mem_append.mp member with before | here
    · exact finished other before
    · exact List.mem_singleton.mp here

/-- A thread opens the log that was asked for. -/
theorem opens_step {inputStream : Option (List UInt8)} (playing : Playing gps)
    (there : gps.threads[thread]? = some .opening) :
    ThreadStep gps (gps.enter thread
      (match inputStream with
      | some inputStream => .testing gps.gpsLogUrl inputStream
      | none => .closing false)) := by
  obtain ⟨single, rfl, _⟩ := playing.turn there trivial
  refine ⟨rfl, rfl, List.length_set, id, single.goesOn _ rfl rfl ?_ ?_, Or.inl rfl⟩
  -- It reads the stream, or closes what it could not open.
  · cases inputStream <;> trivial
  · intro url same
    cases inputStream with
    | none => cases same
    | some inputStream => exact (Option.some.inj same).symm

/-- Whether the caller has not yet come behind the `join` of `playLogFile`. -/
def Before (call : PlayPhase) : Prop :=
  match call with
  | .idle | .stopping _ | .joining _ | .waiting _ _ => True
  | _ => False

/-- The invariant where the caller is not behind `join`. -/
theorem Inv.playing (inv : Inv gps) (before : Before gps.call) : Playing gps := by
  unfold Inv at inv
  cases call : gps.call with
  | idle => rwa [call] at inv
  | stopping => rwa [call] at inv
  | joining =>
    rw [call] at inv
    exact inv.1
  | waiting =>
    rw [call] at inv
    exact inv.1
  | _ =>
    rw [call] at before
    cases before

/-- No thread is alive behind `join`. -/
theorem Inv.idle (inv : Inv gps) (behind : ¬ Before gps.call) :
    ∀ phase ∈ gps.threads, ¬ phase.Alive := by
  -- A thread that was made and not started is not alive.
  have single : Single gps .created → ∀ phase ∈ gps.threads, ¬ phase.Alive := by
    rintro ⟨⟨others, threads, finished⟩, _⟩ phase member
    rw [threads] at member
    rcases List.mem_append.mp member with before | here
    · rw [finished phase before]
      exact id
    · rw [List.mem_singleton.mp here]
      exact id
  unfold Inv at inv
  cases call : gps.call with
  | creating =>
    rw [call] at inv
    intro phase member
    rw [inv.finished phase member]
    exact id
  | enabling =>
    rw [call] at inv
    exact single inv
  | naming =>
    rw [call] at inv
    exact single inv.1
  | starting =>
    rw [call] at inv
    exact single inv.1
  | _ =>
    rw [call] at behind
    exact absurd trivial behind

/-- A step of a log thread keeps the invariant. -/
theorem Inv.threadStep (inv : Inv gps) (before : Before gps.call) (step : ThreadStep gps next) :
    Inv next := by
  unfold Inv at inv ⊢
  rw [step.call]
  cases call : gps.call with
  | idle => exact step.playing
  | stopping => exact step.playing
  -- A flag that was set back is not set again by a thread.
  | joining =>
    rw [call] at inv
    exact ⟨step.playing, step.stopped inv.2⟩
  | waiting =>
    rw [call] at inv
    refine ⟨step.playing, step.stopped inv.2.1, ?_⟩
    rw [step.length]
    exact inv.2.2
  | _ =>
    rw [call] at before
    cases before

/-- A step of the caller keeps the invariant. -/
theorem Inv.proceed (inv : Inv gps) (taken : gps.proceed = some next) :
    Inv next ∧ next.reports = gps.reports := by
  unfold Inv at inv
  unfold GpsThread.proceed at taken
  cases call : gps.call with
  | idle => simp [call] at taken
  -- The flag is set back, and the thread is where it was.
  | stopping url =>
    rw [call] at inv taken
    cases taken
    exact ⟨⟨inv.same rfl rfl rfl, rfl⟩, rfl⟩
  | joining url =>
    rw [call] at inv taken
    obtain ⟨playing, stopped⟩ := inv
    cases field : gps.gpsLogThread with
    -- `join` without a thread ends the application.
    | none =>
      simp only [field] at taken
      cases taken
      refine ⟨?_, rfl⟩
      simp only [Inv]
      exact ⟨playing.same rfl field.symm rfl, stopped⟩
    | some thread =>
      simp only [field] at taken
      cases taken
      refine ⟨⟨playing.same rfl field.symm rfl, stopped, ?_⟩, rfl⟩
      -- The field refers to the last thread, which is there.
      rcases playing with quiet | ⟨last, single, _⟩
      · rw [quiet.field] at field
        cases field
      · obtain ⟨⟨others, threads, _⟩, last⟩ := single
        rw [field, threads, List.length_append, List.length_singleton] at last
        cases last
        simp [threads]
  | waiting url thread =>
    rw [call] at inv taken
    obtain ⟨playing, _, joined⟩ := inv
    dsimp only at taken
    split_ifs at taken with ended
    cases taken
    refine ⟨?_, rfl⟩
    -- The thread that has finished was the last one.
    rcases playing with quiet | ⟨last, ⟨⟨others, threads, _⟩, _⟩, alive, _⟩
    · exact ⟨quiet.field, quiet.finished⟩
    · have here : thread = others.length := by
        rw [threads, List.length_append, List.length_singleton] at joined
        omega
      rw [threads, here, List.getElem?_append_right (Nat.le_refl _), Nat.sub_self] at ended
      cases ended
      cases alive
  -- All threads have finished, and a new one is put behind them.
  | creating url =>
    rw [call] at inv taken
    cases taken
    refine ⟨⟨⟨gps.threads, rfl, inv.finished⟩, ?_⟩, rfl⟩
    simp
  | enabling url =>
    rw [call] at inv taken
    cases taken
    exact ⟨⟨⟨inv.finished, inv.field⟩, rfl⟩, rfl⟩
  | naming url =>
    rw [call] at inv taken
    cases taken
    exact ⟨⟨⟨inv.1.finished, inv.1.field⟩, inv.2, rfl⟩, rfl⟩
  -- The thread begins to open the log that was named before.
  | starting url =>
    rw [call] at inv taken
    obtain ⟨single, _, _⟩ := inv
    rw [single.field] at taken
    cases taken
    refine ⟨?_, rfl⟩
    exact single.goesOn .opening rfl rfl trivial fun _ same => by cases same

/-- Each step keeps the invariant, and reports nothing or a line of the log asked for. -/
theorem step_inv (inv : Inv gps) {event : GpsEvent} (taken : step parse gps event = some next) :
    Inv next ∧ (next.reports = gps.reports ∨ Before gps.call ∧
      ∃ report, next.reports = gps.reports ++ [(gps.gpsLogUrl, report)]) := by
  obtain ⟨_, ⟨url, rfl, idle, rfl⟩ | ⟨rfl, called⟩ |
    ⟨thread, inputStream, rfl, there, rfl⟩ | ⟨thread, phase, rfl, there, gone⟩⟩ := step_cases taken
  · -- The next call begins.
    have playing := inv.playing (by rw [idle]; trivial)
    refine ⟨?_, Or.inl rfl⟩
    cases field : gps.gpsLogThread with
    | some thread => exact playing.same rfl field.symm rfl
    | none =>
      -- With no thread in the field, no thread is left.
      rcases playing with quiet | ⟨last, single, _⟩
      · exact ⟨rfl, quiet.finished⟩
      · rw [single.field] at field
        cases field
  -- The caller goes on and reports nothing.
  · obtain ⟨kept, same⟩ := inv.proceed called
    exact ⟨kept, Or.inl same⟩
  -- A thread opens its log, which is alive only in front of `join`.
  · by_cases before : Before gps.call
    · exact ⟨inv.threadStep before (opens_step (inv.playing before) there), Or.inl rfl⟩
    · exact absurd trivial (inv.idle before _ (List.mem_of_getElem? there))
  · by_cases before : Before gps.call
    · have moved := goes_step (inv.playing before) there gone
      exact ⟨inv.threadStep before moved, moved.reported.imp_right fun some => ⟨before, some⟩⟩
    · -- Behind `join` it is the turn of the caller alone.
      exact absurd (goes_alive gone) (inv.idle before _ (List.mem_of_getElem? there))

end GpsThread

end Steps

section Runs

/-- How many steps a log thread still takes once it has been told to stop. -/
def LogPhase.left : LogPhase → Nat
  | .reading _ _ => 7
  | .parsing _ _ _ => 6
  | .closing true => 6
  | .sleeping _ _ => 5
  | .opening => 5
  | .testing _ _ => 4
  | .closing false => 3
  | .leaving => 2
  | .clearing => 1
  | .created => 0
  | .finished => 0

namespace GpsThread

variable {ρ : Type} {parse : JString → Option (Option ρ)} {gps next final : GpsThread ρ}
  {thread : Nat} {phase last : LogPhase} {event : GpsEvent}

/-- How many steps the last log thread still takes, unless the application has ended. -/
def left (gps : GpsThread ρ) : Nat :=
  if gps.crash.isSome then 0 else (gps.threads.getLast?.map LogPhase.left).getD 0

/-- What is left to the thread that has not finished. -/
theorem Single.left (single : Single gps last) (running : gps.crash = none) :
    gps.left = last.left := by
  obtain ⟨others, threads, _⟩ := single.finished
  simp [GpsThread.left, running, threads]

/-- A thread comes nearer to its end when the place that it comes to is nearer to it. -/
theorem Single.nearer (single : Single gps last) (running : gps.crash = none) (phase : LogPhase)
    (threads : next.threads = gps.threads.set (gps.threads.length - 1) phase)
    (same : next.crash = gps.crash) (less : phase.left < last.left) : next.left < gps.left := by
  obtain ⟨others, after, _⟩ := single.enter phase
  have reached : next.left = phase.left := by
    simp [GpsThread.left, same, running, threads, after]
  rw [reached, single.left running]
  exact less

/-- Each step of a log thread that has been told to stop brings it nearer to its end. -/
theorem left_step (playing : Playing gps) (stopped : gps.gpsLogThreadRunning = false)
    (busy : gps.call ≠ .idle) (other : event ≠ .proceed)
    (taken : step parse gps event = some next) :
    next.left < gps.left ∧ next.call = gps.call := by
  obtain ⟨running, ⟨url, rfl, idle, _⟩ | ⟨rfl, _⟩ |
    ⟨thread, inputStream, rfl, there, rfl⟩ | ⟨thread, phase, rfl, there, taken⟩⟩ := step_cases taken
  -- The caller is in a call, and it is not its turn.
  · exact absurd idle busy
  · exact absurd rfl other
  · obtain ⟨single, rfl, _⟩ := playing.turn there trivial
    refine ⟨single.nearer running _ rfl rfl ?_, rfl⟩
    -- Behind the opening it tests the flag, or closes and leaves.
    cases inputStream with
    | none => exact Nat.lt_of_succ_lt (Nat.lt_succ_self 4)
    | some inputStream => exact Nat.lt_succ_self 4
  · obtain ⟨single, rfl, _⟩ := playing.turn there (goes_alive taken)
    refine ⟨?_, (goes_step playing there taken).call⟩
    cases phase with
    | created => cases taken
    | opening => cases taken
    | finished => cases taken
    -- The flag was set back, so that it leaves its loop.
    | testing url inputStream =>
      cases taken
      refine single.nearer running _ rfl rfl ?_
      rw [stopped]
      exact Nat.lt_succ_self 3
    -- It closes a log that is over, or parses one more line.
    | reading url inputStream =>
      cases taken
      refine single.nearer running _ rfl rfl ?_
      split_ifs <;> exact Nat.lt_succ_self 6
    | parsing url inputStream line =>
      rw [goes] at taken
      cases parsed : parse line with
      | none =>
        rw [parsed] at taken
        cases taken
        rw [single.left running]
        exact Nat.succ_pos 5
      | some report =>
        rw [parsed] at taken
        cases taken
        exact single.nearer running _ rfl rfl (Nat.lt_succ_self 5)
    | sleeping url inputStream =>
      cases taken
      exact single.nearer running _ rfl rfl (Nat.lt_succ_self 4)
    | closing again =>
      cases taken
      refine single.nearer running _ rfl rfl ?_
      cases again <;> decide
    | leaving =>
      cases taken
      exact single.nearer running _ rfl rfl (by decide)
    | clearing =>
      cases taken
      exact single.nearer running _ rfl rfl (by decide)

/-- A log thread that has not finished can take its next step. -/
theorem turn_enabled (parse : JString → Option (Option ρ)) (single : Single gps last)
    (alive : last.Alive) (running : gps.crash = none) :
    ∃ event, event ≠ .proceed ∧ (step parse gps event).isSome := by
  obtain ⟨others, threads, _⟩ := single.finished
  have there : gps.threads[others.length]? = some last := by simp [threads]
  -- A thread that opens its log gets an answer from outside, and any other goes on by itself.
  by_cases opening : last = .opening
  · refine ⟨.opens others.length none, by simp, ?_⟩
    simp [step, running, there, opening]
  · refine ⟨.goes others.length, by simp, ?_⟩
    simp only [step, running, there, Option.isSome_none, Option.bind_some]
    cases last with
    | created => cases alive
    | finished => cases alive
    | opening => exact absurd rfl opening
    | parsing url inputStream line =>
      rw [if_neg Bool.false_ne_true, goes]
      cases parse line <;> rfl
    | _ => rfl

/-- The invariant holds before the first call. -/
theorem inv_new : Inv ({} : GpsThread ρ) := Or.inl ⟨rfl, fun _ member => by cases member⟩

/-- The invariant holds in every run. -/
theorem run_inv {events : List GpsEvent} (ran : Events.run (step parse) {} events = some gps) :
    Inv gps :=
  Events.run_invariant Inv (fun _ _ _ inv taken => (step_inv inv taken).1) inv_new ran

/-- While the caller waits in `join`, the thread comes nearer to its end with each step. -/
theorem waiting_left {url : JString} {later : List GpsEvent} : ∀ {gps : GpsThread ρ}, Inv gps →
    gps.call = .waiting url thread → GpsEvent.proceed ∉ later →
    Events.run (step parse) gps later = some final →
      later.length + final.left ≤ gps.left ∧ Inv final ∧ final.call = .waiting url thread := by
  induction later with
  | nil =>
    intro gps inv waits _ ran
    cases ran
    exact ⟨by simp, inv, waits⟩
  | cons event rest ih =>
    intro gps inv waits others ran
    obtain ⟨next, taken, behind⟩ := Events.run_cons.mp ran
    rw [List.mem_cons, not_or] at others
    -- As long as the caller waits, the flag is not set and the last thread is the only one.
    have facts := inv
    unfold Inv at facts
    rw [waits] at facts
    obtain ⟨nearer, stays⟩ :=
      left_step facts.1 facts.2.1 (by simp [waits]) (Ne.symm others.1) taken
    obtain ⟨sum, kept, still⟩ :=
      ih (step_inv inv taken).1 (stays.trans waits) others.2 behind
    refine ⟨?_, kept, still⟩
    rw [List.length_cons]
    omega

/-- No thread takes more than seven steps to its end. -/
theorem left_le (gps : GpsThread ρ) : gps.left ≤ 7 := by
  unfold GpsThread.left
  split_ifs
  · exact Nat.zero_le 7
  · cases gps.threads.getLast? with
    | none => exact Nat.zero_le 7
    | some last =>
      show last.left ≤ 7
      cases last with
      | closing again => cases again <;> decide
      | _ => first | exact Nat.le_refl 7 | exact Nat.le_of_ble_eq_true rfl

/-- A caller that waits is let go by the thread, or the thread can still take a step. -/
theorem waiting_enabled {url : JString} (inv : Inv gps) (waits : gps.call = .waiting url thread)
    (running : gps.crash = none) :
    (step parse gps .proceed).isSome ∨
      ∃ event, event ≠ .proceed ∧ (step parse gps event).isSome := by
  unfold Inv at inv
  rw [waits] at inv
  obtain ⟨playing, _, joined⟩ := inv
  rcases playing with quiet | ⟨last, single, alive, _⟩
  -- All threads have finished, so that `join` returns.
  · left
    have there : gps.threads[thread]? = some .finished := by
      have inside : thread < gps.threads.length := by omega
      rw [List.getElem?_eq_getElem inside, quiet.finished _ (List.getElem_mem inside)]
    simp [step, running, GpsThread.proceed, waits, there]
  · exact Or.inr (turn_enabled parse single alive running)

/--
One log at a time is played, and it is the one that was asked for.

In every order of steps, at most one log thread is alive, it reads the log that was asked for last,
and nothing is reported between the `join` of a call and the start of its thread. A call that waits
in `join` is let go after at most seven steps of the thread, if the application does not end.
-/
theorem playback_safe (parse : JString → Option (Option ρ)) (events : List GpsEvent)
    (gps : GpsThread ρ) (ran : Events.run (step parse) {} events = some gps) :
    (∀ (first second : Nat) (phase other : LogPhase), gps.threads[first]? = some phase →
      gps.threads[second]? = some other → phase.Alive → other.Alive → first = second) ∧
    (∀ phase ∈ gps.threads, ∀ url, phase.url? = some url → url = gps.gpsLogUrl) ∧
    (∀ event next, step parse gps event = some next → next.reports = gps.reports ∨
      Before gps.call ∧ ∃ report, next.reports = gps.reports ++ [(gps.gpsLogUrl, report)]) ∧
    ∀ url thread, gps.call = .waiting url thread → ∀ later final, GpsEvent.proceed ∉ later →
      Events.run (step parse) gps later = some final → later.length ≤ 7 ∧
        (final.crash.isSome ∨ (step parse final .proceed).isSome ∨
          ∃ event, event ≠ .proceed ∧ (step parse final event).isSome) := by
  have inv := run_inv ran
  -- Each part is read off the invariant of the state that is reached.
  refine ⟨?_, ?_, fun event next taken => (step_inv inv taken).2, ?_⟩
  · intro first second phase other there there' alive alive'
    by_cases before : Before gps.call
    · have playing := inv.playing before
      rw [(playing.turn there alive).2.1, (playing.turn there' alive').2.1]
    · exact absurd alive (inv.idle before phase (List.mem_of_getElem? there))
  -- A thread with a stream is alive, and so it is the last one.
  · intro phase member url opened
    have alive : phase.Alive := by
      cases phase with
      | created => cases opened
      | finished => cases opened
      | _ => trivial
    by_cases before : Before gps.call
    · obtain ⟨place, there⟩ := List.mem_iff_getElem?.mp member
      exact ((inv.playing before).turn there alive).2.2 url opened
    · exact absurd alive (inv.idle before phase member)
  · intro url thread waits later final others behind
    obtain ⟨sum, kept, still⟩ := waiting_left inv waits others behind
    refine ⟨?_, ?_⟩
    · have bound := left_le gps
      omega
    · cases running : final.crash with
      | some crash => exact Or.inl rfl
      | none => exact Or.inr (waiting_enabled kept still running)

/-- A run that plays a log, asks for another one, and has come to the `join` of the first. -/
def someSwitch : List GpsEvent :=
  [.play [0x61], .proceed, .proceed, .proceed, .proceed, .opens 0 (some [0x0A]), .goes 0,
    .play [0x62], .proceed, .proceed]

/-- The caller waits in the last state of that run, and the thread that reads is let go. -/
theorem playback_safe_switch :
    ∃ gps, Events.run (step fun _ => some (some ())) {} someSwitch = some gps ∧
      gps.call = .waiting [0x62] 0 ∧
        ∀ phase ∈ gps.threads, ∀ url, phase.url? = some url → url = gps.gpsLogUrl := by
  obtain ⟨gps, ran⟩ : ∃ gps : GpsThread Unit,
      Events.run (step fun _ => some (some ())) {} someSwitch = some gps := ⟨_, rfl⟩
  refine ⟨gps, ran, ?_, (playback_safe _ someSwitch gps ran).2.1⟩
  cases ran
  rfl

end GpsThread

end Runs

end AndroidApps.Gildroia
