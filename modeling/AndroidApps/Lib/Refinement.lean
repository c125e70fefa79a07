import Mathlib.Logic.Basic

/-! State machines with partial calls, and when one answers like another over whole runs. -/

namespace AndroidApps.Machine

variable {σ τ ι α : Type}

/-- The answers of a sequence of calls, unless one of them has no defined outcome. -/
def run (call : σ → ι → Option (α × σ)) : σ → List ι → Option (List α × σ)
  | state, [] => some ([], state)
  | state, input :: rest =>
    match call state input with
    | none => none
    | some (answer, state) =>
      match run call state rest with
      | none => none
      | some (answers, state) => some (answer :: answers, state)

/-- Every call of a sequence meets a condition on the state it is made in. -/
def Along (call : σ → ι → Option (α × σ)) (meets : σ → ι → Prop) : σ → List ι → Prop
  | _, [] => True
  | state, input :: rest =>
    meets state input ∧
      ∀ answer next, call state input = some (answer, next) → Along call meets next rest

/-- A call with an outcome is followed by the rest of the run. -/
theorem run_cons {call : σ → ι → Option (α × σ)} {state next : σ} {input : ι} {rest : List ι}
    {answer : α} (called : call state input = some (answer, next)) :
    run call state (input :: rest) =
      (run call next rest).map fun result => (answer :: result.1, result.2) := by
  rw [run, called]
  cases later : run call next rest with
  | none => simp [later]
  | some result => simp [later]

/-- A run with an outcome begins with a call that has one. -/
theorem run_cons_some {call : σ → ι → Option (α × σ)} {state final : σ} {input : ι}
    {rest : List ι} {answers : List α}
    (ran : run call state (input :: rest) = some (answers, final)) :
    ∃ answer next others, call state input = some (answer, next) ∧
      run call next rest = some (others, final) ∧ answers = answer :: others := by
  -- Were there no outcome of the first call, there would be none of the run.
  cases called : call state input with
  | none => simp [run, called] at ran
  | some outcome =>
    obtain ⟨answer, next⟩ := outcome
    rw [run_cons called] at ran
    obtain ⟨result, later, same⟩ := Option.map_eq_some_iff.mp ran
    obtain ⟨others, last⟩ := result
    cases same
    exact ⟨answer, next, others, rfl, later, rfl⟩

/-- A run has one answer for each call. -/
theorem run_length {call : σ → ι → Option (α × σ)} {inputs : List ι} :
    ∀ {state final : σ} {answers : List α}, run call state inputs = some (answers, final) →
      answers.length = inputs.length := by
  -- Each call adds one answer in front of those of the calls behind it.
  induction inputs with
  | nil =>
    intro state final answers ran
    cases ran
    rfl
  | cons input rest ih =>
    intro state final answers ran
    obtain ⟨answer, next, others, _, later, same⟩ := run_cons_some ran
    rw [same, List.length_cons, List.length_cons, ih later]

/-- A call that meets the condition, followed by calls that do. -/
theorem along_cons {call : σ → ι → Option (α × σ)} {meets : σ → ι → Prop} {state next : σ}
    {input : ι} {rest : List ι} {answer : α} (met : meets state input)
    (called : call state input = some (answer, next)) (later : Along call meets next rest) :
    Along call meets state (input :: rest) := by
  refine ⟨met, ?_⟩
  intro other after outcome
  rw [called] at outcome
  cases outcome
  exact later

/-- The call behind a run meets a condition that all calls meet. -/
theorem along_last {call : σ → ι → Option (α × σ)} {meets : σ → ι → Prop} {inputs : List ι}
    {input : ι} : ∀ {state final : σ} {answers : List α},
      Along call meets state (inputs ++ [input]) → run call state inputs = some (answers, final) →
      meets final input := by
  -- The induction follows the run to the state in which the last call is made.
  induction inputs with
  | nil =>
    intro state final answers along ran
    cases ran
    exact along.1
  | cons first rest ih =>
    intro state final answers along ran
    obtain ⟨answer, next, others, called, later, _⟩ := run_cons_some ran
    exact ih (along.2 answer next called) later

/--
A machine that follows another one call by call answers like it over every run.

The condition under which a call is followed may depend on the state of the followed machine.
-/
theorem run_refines {concrete : σ → ι → Option (α × σ)} {abstract : τ → ι → Option (α × τ)}
    (Related : σ → τ → Prop) (meets : τ → ι → Prop)
    (follows : ∀ state spec input, Related state spec → meets spec input →
      ∃ answer next after, concrete state input = some (answer, next) ∧
        abstract spec input = some (answer, after) ∧ Related next after) :
    ∀ inputs state spec, Related state spec → Along abstract meets spec inputs →
      ∃ answers next after, run concrete state inputs = some (answers, next) ∧
        run abstract spec inputs = some (answers, after) ∧ Related next after := by
  -- Both machines take the same call, give the same answer, and are related again.
  intro inputs
  induction inputs with
  | nil =>
    intro state spec related _
    exact ⟨[], state, spec, rfl, rfl, related⟩
  | cons input rest ih =>
    intro state spec related along
    obtain ⟨met, later⟩ := along
    obtain ⟨answer, next, after, called, expected, kept⟩ := follows state spec input related met
    obtain ⟨answers, last, final, ran, ranSpec, ends⟩ :=
      ih next after kept (later answer after expected)
    refine ⟨answer :: answers, last, final, ?_, ?_, ends⟩
    · rw [run_cons called, ran]
      rfl
    · rw [run_cons expected, ranSpec]
      rfl

/--
What every call that meets the condition preserves vouches for each of them.

The invariant is met by the state each call of the run is made in.
-/
theorem along_of_invariant {call : σ → ι → Option (α × σ)} (Inv : σ → Prop)
    {meets right : σ → ι → Prop}
    (preserved : ∀ state input answer next, Inv state → meets state input →
      call state input = some (answer, next) → Inv next)
    (holds : ∀ state input, Inv state → meets state input → right state input) :
    ∀ inputs state, Inv state → Along call meets state inputs → Along call right state inputs := by
  -- The condition on a call is there to hand the invariant on to the next state.
  intro inputs
  induction inputs with
  | nil =>
    intro state _ _
    trivial
  | cons input rest ih =>
    intro state kept along
    obtain ⟨met, later⟩ := along
    refine ⟨holds state input kept met, ?_⟩
    intro answer next called
    exact ih next (preserved state input answer next kept met called) (later answer next called)

/-- All calls of a run meet a condition when the first ones do and the others do behind them. -/
theorem along_append {call : σ → ι → Option (α × σ)} {meets : σ → ι → Prop}
    {first second : List ι} : ∀ {state : σ}, Along call meets state (first ++ second) ↔
      Along call meets state first ∧ ∀ answers next, run call state first = some (answers, next) →
        Along call meets next second := by
  -- The states of the second part are those the first part can end in.
  induction first with
  | nil =>
    intro state
    simp [Along, run]
  | cons input rest ih =>
    intro state
    constructor
    · rintro ⟨met, later⟩
      refine ⟨⟨met, fun answer next called => (ih.mp (later answer next called)).1⟩, ?_⟩
      intro answers last ran
      obtain ⟨answer, next, others, called, rested, _⟩ := run_cons_some ran
      exact (ih.mp (later answer next called)).2 others last rested
    · rintro ⟨⟨met, later⟩, behind⟩
      refine ⟨met, fun answer next called => ih.mpr ⟨later answer next called, ?_⟩⟩
      intro answers last rested
      refine behind (answer :: answers) last ?_
      rw [run_cons called, rested]
      rfl

/--
What every call that meets the condition preserves holds at the end of the run.

The invariant may speak of the calls made so far and their answers, the last one first.
-/
theorem run_traced {call : σ → ι → Option (α × σ)} (Inv : List (ι × α) → σ → Prop)
    {meets : σ → ι → Prop}
    (step : ∀ past state input, Inv past state → meets state input →
      ∃ answer next, call state input = some (answer, next) ∧ Inv ((input, answer) :: past) next) :
    ∀ inputs past state, Inv past state → Along call meets state inputs →
      ∃ answers final, run call state inputs = some (answers, final) ∧
        Inv ((inputs.zip answers).reverse ++ past) final := by
  -- The past grows by the call and its answer, and the run behind it starts with this past.
  intro inputs
  induction inputs with
  | nil =>
    intro past state kept _
    exact ⟨[], state, rfl, kept⟩
  | cons input rest ih =>
    intro past state kept along
    obtain ⟨met, later⟩ := along
    obtain ⟨answer, next, called, keptNext⟩ := step past state input kept met
    obtain ⟨answers, final, ran, ends⟩ := ih _ next keptNext (later answer next called)
    refine ⟨answer :: answers, final, ?_, ?_⟩
    · rw [run_cons called, ran]
      rfl
    · simpa using ends

/-- Whether all calls of a run meet a condition is found out by making them. -/
instance Along.decidable (call : σ → ι → Option (α × σ)) (meets : σ → ι → Prop)
    [∀ state input, Decidable (meets state input)] :
    ∀ state inputs, Decidable (Along call meets state inputs)
  | _, [] => isTrue trivial
  | state, input :: rest =>
    match called : call state input with
    | none => decidable_of_iff (meets state input)
        ⟨fun met => ⟨met, by simp [called]⟩, fun along => along.1⟩
    | some (answer, next) =>
      have := Along.decidable call meets next rest
      decidable_of_iff (meets state input ∧ Along call meets next rest)
        ⟨fun both => along_cons both.1 called both.2, fun along => ⟨along.1, along.2 _ _ called⟩⟩

end AndroidApps.Machine
