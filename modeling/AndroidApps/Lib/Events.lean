import Mathlib.Data.List.Infix

/-! Systems driven by events: what their steps preserve, and what holds in every state of a run. -/

namespace AndroidApps.Events

variable {σ ι : Type}

/-- The state behind a sequence of events, unless one of them cannot happen where it stands. -/
def run (step : σ → ι → Option σ) : σ → List ι → Option σ
  | state, [] => some state
  | state, event :: rest => (step state event).bind fun next => run step next rest

/-- A property of all states of a run, the first one and the last one included. -/
def Always (step : σ → ι → Option σ) (holds : σ → Prop) : σ → List ι → Prop
  | state, [] => holds state
  | state, event :: rest =>
    holds state ∧ ∀ next, step state event = some next → Always step holds next rest

/-- A condition on all events of a run, each with the state it happens in. -/
def Along (step : σ → ι → Option σ) (meets : σ → ι → Prop) : σ → List ι → Prop
  | _, [] => True
  | state, event :: rest =>
    ∀ next, step state event = some next → meets state event ∧ Along step meets next rest

variable {step : σ → ι → Option σ}

/-- A run is an event and a run behind it. -/
theorem run_cons {state final : σ} {event : ι} {rest : List ι} :
    run step state (event :: rest) = some final ↔
      ∃ next, step state event = some next ∧ run step next rest = some final := by
  rw [run, Option.bind_eq_some_iff]

/-- Events behind a run go on from the state it leads to. -/
theorem run_append {start middle final : σ} {first second : List ι}
    (ran : run step start first = some middle) (later : run step middle second = some final) :
    run step start (first ++ second) = some final := by
  induction first generalizing start with
  | nil =>
    cases ran
    exact later
  | cons event rest ih =>
    obtain ⟨next, taken, behind⟩ := run_cons.mp ran
    exact run_cons.mpr ⟨next, taken, ih behind⟩

/-- All states of a run are those behind its first events. -/
theorem always_iff {holds : σ → Prop} {events : List ι} : ∀ {start : σ},
    Always step holds start events ↔
      ∀ first, first <+: events → ∀ state, run step start first = some state → holds state := by
  -- The state in front is the one behind no event, and the others are behind the first event.
  induction events with
  | nil =>
    intro start
    simp [Always, run]
  | cons event rest ih =>
    intro start
    constructor
    · rintro ⟨now, later⟩ first short state ran
      cases first with
      | nil =>
        cases ran
        exact now
      | cons other first =>
        obtain ⟨rfl, shorter⟩ := List.cons_prefix_cons.mp short
        obtain ⟨next, taken, behind⟩ := run_cons.mp ran
        exact ih.mp (later next taken) first shorter state behind
    · intro all
      refine ⟨all [] List.nil_prefix start rfl, ?_⟩
      intro next taken
      refine ih.mpr fun first short state ran => ?_
      exact all (event :: first) (List.cons_prefix_cons.mpr ⟨rfl, short⟩) state
        (run_cons.mpr ⟨next, taken, ran⟩)

/-- What every step preserves holds in all states of a run. -/
theorem always_of_invariant (Inv : σ → Prop)
    (preserved : ∀ state event next, Inv state → step state event = some next → Inv next)
    {holds : σ → Prop} (implies : ∀ state, Inv state → holds state) {events : List ι} :
    ∀ {start : σ}, Inv start → Always step holds start events := by
  induction events with
  | nil => exact implies _
  | cons event rest ih =>
    intro start kept
    exact ⟨implies start kept, fun next taken => ih (preserved start event next kept taken)⟩

/-- What every step preserves holds at the end of a run. -/
theorem run_invariant (Inv : σ → Prop)
    (preserved : ∀ state event next, Inv state → step state event = some next → Inv next)
    {events : List ι} {start final : σ} (kept : Inv start)
    (ran : run step start events = some final) : Inv final :=
  always_iff.mp (always_of_invariant Inv preserved (fun _ held => held) kept) events
    (List.prefix_refl events) final ran

/-- Conditions that say the same of every event say the same of a run. -/
theorem along_congr {meets right : σ → ι → Prop}
    (same : ∀ state event, meets state event ↔ right state event) {events : List ι} :
    ∀ {start : σ}, Along step meets start events ↔ Along step right start events := by
  induction events with
  | nil => exact Iff.rfl
  | cons event rest ih =>
    intro start
    exact forall₂_congr fun next _ => and_congr (same start event) ih

/-- A condition that the events meet wherever they happen is met all along. -/
theorem along_of_forall {meets : σ → ι → Prop} {events : List ι} :
    ∀ {start : σ}, (∀ event ∈ events, ∀ state, meets state event) →
      Along step meets start events := by
  induction events with
  | nil => exact fun _ => trivial
  | cons event rest ih =>
    intro start all next _
    rw [List.forall_mem_cons] at all
    exact ⟨all.1 start, ih all.2⟩

/--
A property holds all along a run of allowed events exactly when each of them meets the condition
that keeps it.

The invariant is what all allowed steps preserve from states in which the property holds.
-/
theorem always_iff_along_of (Inv : σ → Prop) {holds : σ → Prop} {allowed meets : σ → ι → Prop}
    (preserved : ∀ state event next, Inv state → holds state → allowed state event →
      step state event = some next → Inv next)
    (keeps : ∀ state event next, Inv state → holds state → allowed state event →
      step state event = some next → (holds next ↔ meets state event)) {events : List ι} :
    ∀ {start : σ}, Inv start → holds start → Along step allowed start events →
      (Always step holds start events ↔ Along step meets start events) := by
  induction events with
  | nil =>
    intro start _ held _
    exact iff_of_true held trivial
  | cons event rest ih =>
    intro start kept held all
    constructor
    · rintro ⟨_, later⟩ next taken
      obtain ⟨fine, behind⟩ := all next taken
      -- The property holds behind the event, which is all that the condition asks for.
      have after : holds next := by
        have states := later next taken
        cases rest with
        | nil => exact states
        | cons => exact states.1
      have same := keeps start event next kept held fine taken
      exact ⟨same.mp after,
        (ih (preserved start event next kept held fine taken) after behind).mp (later next taken)⟩
    · intro along
      refine ⟨held, fun next taken => ?_⟩
      obtain ⟨fine, behind⟩ := all next taken
      obtain ⟨met, later⟩ := along next taken
      have after := (keeps start event next kept held fine taken).mpr met
      exact (ih (preserved start event next kept held fine taken) after behind).mpr later

/-- A property holds all along a run exactly when each event meets the condition that keeps it. -/
theorem always_iff_along (Inv : σ → Prop) {holds : σ → Prop} {meets : σ → ι → Prop}
    (preserved : ∀ state event next, Inv state → holds state → step state event = some next →
      Inv next)
    (keeps : ∀ state event next, Inv state → holds state → step state event = some next →
      (holds next ↔ meets state event)) {events : List ι} {start : σ} (kept : Inv start)
    (held : holds start) :
    Always step holds start events ↔ Along step meets start events := by
  have all : Along step (fun _ _ => True) start events := along_of_forall fun _ _ _ => trivial
  exact always_iff_along_of Inv
    (fun state event next here now _ => preserved state event next here now)
    (fun state event next here now _ => keeps state event next here now) kept held all

/-- Two conditions are met all along a run together when each of them is. -/
theorem along_and {meets right : σ → ι → Prop} {events : List ι} :
    ∀ {start : σ}, Along step (fun state event => meets state event ∧ right state event) start
      events ↔ Along step meets start events ∧ Along step right start events := by
  induction events with
  | nil => exact fun {start} => ⟨fun _ => ⟨trivial, trivial⟩, fun _ => trivial⟩
  | cons event rest ih =>
    intro start
    constructor
    · intro both
      refine ⟨fun next taken => ?_, fun next taken => ?_⟩
      · exact ⟨(both next taken).1.1, (ih.mp (both next taken).2).1⟩
      · exact ⟨(both next taken).1.2, (ih.mp (both next taken).2).2⟩
    · rintro ⟨one, other⟩ next taken
      exact ⟨⟨(one next taken).1, (other next taken).1⟩,
        ih.mpr ⟨(one next taken).2, (other next taken).2⟩⟩

/-- What all events that meet a condition preserve vouches for each of them. -/
theorem along_of_invariant (Inv : σ → Prop) {meets right : σ → ι → Prop}
    (preserved : ∀ state event next, Inv state → meets state event →
      step state event = some next → Inv next)
    (holds : ∀ state event, Inv state → meets state event → right state event)
    {events : List ι} : ∀ {start : σ}, Inv start → Along step meets start events →
      Along step right start events := by
  -- The event is taken in a state that keeps the invariant, and leads to another one.
  induction events with
  | nil => exact fun _ _ => trivial
  | cons event rest ih =>
    intro start kept along next taken
    obtain ⟨met, later⟩ := along next taken
    exact ⟨holds start event kept met, ih (preserved start event next kept met taken) later⟩

/-- What all events that meet a condition preserve holds at the end of a run of such events. -/
theorem run_along (Inv : σ → Prop) {meets : σ → ι → Prop}
    (preserved : ∀ state event next, Inv state → meets state event →
      step state event = some next → Inv next)
    {events : List ι} : ∀ {start final : σ}, Inv start → Along step meets start events →
      run step start events = some final → Inv final := by
  induction events with
  | nil =>
    intro start final kept _ ran
    cases ran
    exact kept
  | cons event rest ih =>
    intro start final kept along ran
    obtain ⟨next, taken, later⟩ := run_cons.mp ran
    obtain ⟨met, behind⟩ := along next taken
    exact ih (preserved start event next kept met taken) behind later

/-- An event that can no longer happen has been repeated just often enough. -/
theorem run_replicate_unique {event : ι} {finished : σ → Prop}
    (stuck : ∀ state, finished state → step state event = none) {start first second : σ}
    {few many : Nat}
    (one : run step start (List.replicate few event) = some first) (ended : finished first)
    (other : run step start (List.replicate many event) = some second) (also : finished second) :
    first = second := by
  -- The induction is on one of the two counts; where either run stops, the other cannot go on.
  induction few generalizing start many with
  | zero =>
    cases one
    cases many with
    | zero => exact Option.some.inj other
    | succ many =>
      obtain ⟨next, taken, -⟩ := run_cons.mp other
      rw [stuck first ended] at taken
      contradiction
  | succ few ih =>
    obtain ⟨next, taken, later⟩ := run_cons.mp one
    cases many with
    | zero =>
      cases other
      rw [stuck second also] at taken
      contradiction
    | succ many =>
      obtain ⟨next', taken', later'⟩ := run_cons.mp other
      rw [taken] at taken'
      cases taken'
      exact ih later later'

end AndroidApps.Events
