import Mathlib.Logic.Relation

/-! Loops of an imperative program: one pass at a time, to a result or for ever. -/

namespace AndroidApps.Loop

variable {σ ρ : Type}

/-- Run a loop for at most the given number of passes. -/
def run (step : σ → σ ⊕ ρ) : Nat → σ → Option ρ
  -- Running out of passes says nothing about the loop, so no result is reported.
  | 0, _ => none
  | fuel + 1, state =>
    match step state with
    | .inl next => run step fuel next
    | .inr result => some result

/-- The states in which a pass of the loop begins. -/
def Reaches (step : σ → σ ⊕ ρ) : σ → σ → Prop :=
  Relation.ReflTransGen fun state next => step state = .inl next

/-- The loop leaves with this result. -/
def Ends (step : σ → σ ⊕ ρ) (start : σ) (result : ρ) : Prop :=
  ∃ fuel, run step fuel start = some result

/-- The loop leaves with some result. -/
def Terminates (step : σ → σ ⊕ ρ) (start : σ) : Prop :=
  ∃ result, Ends step start result

/-- A call whose loops are given enough passes comes back. -/
def Returns {α : Type} (call : Nat → Option α) : Prop :=
  ∃ enough, ∀ fuel, enough ≤ fuel → (call fuel).isSome = true

/-- A call whose loops are given enough passes comes back with this result. -/
def Yields {α : Type} (call : Nat → Option α) (result : α) : Prop :=
  ∃ enough, ∀ fuel, enough ≤ fuel → call fuel = some result

variable {step : σ → σ ⊕ ρ}

/-- A pass that continues hands the loop over to its next state. -/
theorem run_continue {state next : σ} (continues : step state = .inl next) (fuel : Nat) :
    run step (fuel + 1) state = run step fuel next := by
  simp [run, continues]

/-- A pass that leaves the loop gives its result. -/
theorem run_leave {state : σ} {result : ρ} (leaves : step state = .inr result) (fuel : Nat) :
    run step (fuel + 1) state = some result := by
  simp [run, leaves]

/-- More passes than the loop needs do not change its result. -/
theorem run_mono {state : σ} {result : ρ} {fuel more : Nat}
    (ended : run step fuel state = some result) (enough : fuel ≤ more) :
    run step more state = some result := by
  -- Both runs take the same passes, and the shorter one has already left the loop.
  induction fuel generalizing state more with
  | zero => simp [run] at ended
  | succ fuel ih =>
    obtain ⟨more, rfl⟩ : ∃ rest, more = rest + 1 := ⟨more - 1, by omega⟩
    cases pass : step state with
    | inl next =>
      rw [run_continue pass] at ended ⊢
      exact ih ended (by omega)
    | inr left =>
      rw [run_leave pass] at ended ⊢
      exact ended

/-- Running a loop with more and more passes finds its end, if it has one. -/
theorem returns_run_iff {start : σ} :
    Returns (fun fuel => run step fuel start) ↔ Terminates step start := by
  -- More passes than enough change nothing, so that the fuel a run ends with is also the bound.
  constructor
  · rintro ⟨enough, returns⟩
    obtain ⟨result, ended⟩ := Option.isSome_iff_exists.mp (returns enough (Nat.le_refl enough))
    exact ⟨result, enough, ended⟩
  · rintro ⟨result, enough, ended⟩
    refine ⟨enough, fun fuel longer => ?_⟩
    simp only [run_mono ended longer, Option.isSome_some]

/-- A loop has at most one result. -/
theorem Ends.unique {start : σ} {first second : ρ} (one : Ends step start first)
    (other : Ends step start second) : first = second := by
  -- Either run extended to the longer of the two fuels reports its own result there.
  obtain ⟨fuel, one⟩ := one
  obtain ⟨more, other⟩ := other
  have left := run_mono one (Nat.le_max_left fuel more)
  have right := run_mono other (Nat.le_max_right fuel more)
  exact Option.some.inj (left.symm.trans right)

section Yields

variable {α β : Type} {call : Nat → Option α}

/-- A call without a loop comes back with what it computes. -/
theorem yields_of_eq {result : α} (computes : ∀ fuel, call fuel = some result) :
    Yields call result :=
  ⟨0, fun fuel _ => computes fuel⟩

/-- A call that comes back with a result comes back. -/
theorem Yields.returns {result : α} (yields : Yields call result) : Returns call := by
  obtain ⟨enough, ended⟩ := yields
  exact ⟨enough, fun fuel longer => Option.isSome_iff_exists.mpr ⟨result, ended fuel longer⟩⟩

/-- A call comes back with at most one result. -/
theorem Yields.unique {first second : α} (one : Yields call first) (other : Yields call second) :
    first = second := by
  obtain ⟨enough, one⟩ := one
  obtain ⟨more, other⟩ := other
  have left := one (max enough more) (Nat.le_max_left enough more)
  have right := other (max enough more) (Nat.le_max_right enough more)
  exact Option.some.inj (left.symm.trans right)

/-- Once a part of a call has come back, the rest decides how the call comes back. -/
theorem Yields.followed_iff {part : α} {result : β} {whole next : Nat → Option β}
    (first : Yields call part)
    (goesOn : ∀ fuel, call fuel = some part → whole fuel = next fuel) :
    Yields whole result ↔ Yields next result := by
  obtain ⟨enough, first⟩ := first
  -- From some number of passes on, the two calls are the same.
  have same : ∀ fuel, enough ≤ fuel → whole fuel = next fuel :=
    fun fuel longer => goesOn fuel (first fuel longer)
  constructor
  · rintro ⟨more, ended⟩
    refine ⟨max enough more, fun fuel longer => ?_⟩
    rw [← same fuel (Nat.le_trans (Nat.le_max_left enough more) longer)]
    exact ended fuel (Nat.le_trans (Nat.le_max_right enough more) longer)
  · rintro ⟨more, ended⟩
    refine ⟨max enough more, fun fuel longer => ?_⟩
    rw [same fuel (Nat.le_trans (Nat.le_max_left enough more) longer)]
    exact ended fuel (Nat.le_trans (Nat.le_max_right enough more) longer)

/-- A call that goes on differently once a part of it has come back. -/
theorem Yields.followed {part : α} {result : β} {whole next : Nat → Option β}
    (first : Yields call part) (goesOn : ∀ fuel, call fuel = some part → whole fuel = next fuel)
    (rest : Yields next result) : Yields whole result :=
  (first.followed_iff goesOn).mpr rest

/-- A call that computes its result once a part of it has come back. -/
theorem Yields.computed {part : α} {result : β} {whole : Nat → Option β}
    (first : Yields call part)
    (computes : ∀ fuel, call fuel = some part → whole fuel = some result) : Yields whole result :=
  first.followed computes (yields_of_eq fun _ => rfl)

/-- A loop that ends is a call that comes back. -/
theorem Ends.yields {ρ σ : Type} {step : σ → σ ⊕ ρ} {start : σ} {result : ρ}
    (ended : Ends step start result) : Yields (fun fuel => run step fuel start) result := by
  obtain ⟨enough, ended⟩ := ended
  exact ⟨enough, fun fuel longer => run_mono ended longer⟩

/-- A call whose results do not change when its loops are given more passes. -/
def Final (call : Nat → Option α) : Prop :=
  ∀ fuel more result, call fuel = some result → fuel ≤ more → call more = some result

/-- The results of a loop are final. -/
theorem final_run {ρ σ : Type} (step : σ → σ ⊕ ρ) (start : σ) :
    Final fun fuel => run step fuel start :=
  fun _ _ _ ended longer => run_mono ended longer

/-- What needs no passes is final. -/
theorem final_const (outcome : Option α) : Final fun _ => outcome :=
  fun _ _ _ ended _ => ended

/-- A call is final if its first part is, and what follows each result of that part. -/
theorem Final.followed {next : α → Nat → Option β} {whole : Nat → Option β} (first : Final call)
    (unended : ∀ fuel, call fuel = none → whole fuel = none)
    (goesOn : ∀ fuel part, call fuel = some part → whole fuel = next part fuel)
    (rest : ∀ part, Final (next part)) : Final whole := by
  intro fuel more result ended longer
  cases came : call fuel with
  | none =>
    rw [unended fuel came] at ended
    cases ended
  | some part =>
    -- The first part comes back alike, so that the same part follows it.
    rw [goesOn fuel part came] at ended
    rw [goesOn more part (first fuel more part came longer)]
    exact rest part fuel more result ended longer

/-- What is computed from the result of a final call is final. -/
theorem Final.map (final : Final call) (f : α → β) : Final fun fuel => (call fuel).map f := by
  intro fuel more result ended longer
  obtain ⟨part, came, computed⟩ := Option.map_eq_some_iff.mp ended
  exact Option.map_eq_some_iff.mpr ⟨part, final fuel more part came longer, computed⟩

/-- A final call that came back once always does, given the passes. -/
theorem Final.yields {result : α} {fuel : Nat} (final : Final call)
    (ended : call fuel = some result) : Yields call result :=
  ⟨fuel, fun more longer => final fuel more result ended longer⟩

/-- A final call has at most one result. -/
theorem Final.unique {first second : α} {fuel more : Nat} (final : Final call)
    (one : call fuel = some first) (other : call more = some second) : first = second :=
  (final.yields one).unique (final.yields other)

/-- What holds of each element of a list with enough passes holds of all with enough for all. -/
theorem enough_forall_mem {holds : α → Nat → Prop} {elements : List α}
    (each : ∀ element ∈ elements, ∃ enough, ∀ fuel, enough ≤ fuel → holds element fuel) :
    ∃ enough, ∀ fuel, enough ≤ fuel → ∀ element ∈ elements, holds element fuel := by
  -- The larger one of two numbers of passes is enough for both.
  induction elements with
  | nil => exact ⟨0, fun _ _ _ member => absurd member List.not_mem_nil⟩
  | cons first rest ih =>
    obtain ⟨enough, held⟩ := each first List.mem_cons_self
    obtain ⟨more, others⟩ := ih fun element member => each element (List.mem_cons_of_mem _ member)
    refine ⟨max enough more, fun fuel longer => ?_⟩
    rw [List.forall_mem_cons]
    exact ⟨held fuel (Nat.le_trans (Nat.le_max_left _ _) longer),
      others fuel (Nat.le_trans (Nat.le_max_right _ _) longer)⟩

end Yields

/-- One pass does not change how the loop ends. -/
theorem ends_continue {state next : σ} {result : ρ} (continues : step state = .inl next) :
    Ends step state result ↔ Ends step next result := by
  -- The fuel of the two runs differs by the one pass.
  constructor
  · rintro ⟨fuel, ended⟩
    cases fuel with
    | zero => simp [run] at ended
    | succ fuel => exact ⟨fuel, by rwa [run_continue continues] at ended⟩
  · rintro ⟨fuel, ended⟩
    exact ⟨fuel + 1, by rwa [run_continue continues]⟩

/-- A pass that leaves the loop is how the loop ends. -/
theorem ends_leave {state : σ} {result : ρ} (leaves : step state = .inr result) :
    Ends step state result :=
  ⟨1, run_leave leaves 0⟩

/-- A state on the way to the end ends the same way as the start. -/
theorem Reaches.ends_iff {start state : σ} (reached : Reaches step start state) {result : ρ} :
    Ends step start result ↔ Ends step state result := by
  -- The passes between the two states each preserve the outcome.
  induction reached with
  | refl => rfl
  | tail _ pass ih => exact ih.trans (ends_continue pass)

/-- One pass does not change whether the loop ends. -/
theorem terminates_continue {state next : σ} (continues : step state = .inl next) :
    Terminates step state ↔ Terminates step next :=
  exists_congr fun _ => ends_continue continues

/-- A state on the way terminates exactly when the start does. -/
theorem Reaches.terminates_iff {start state : σ} (reached : Reaches step start state) :
    Terminates step start ↔ Terminates step state :=
  exists_congr fun _ => reached.ends_iff

/-- What every pass preserves holds whenever a pass begins. -/
theorem Reaches.invariant (Inv : σ → Prop)
    (preserved : ∀ state next, Inv state → step state = .inl next → Inv next)
    {start state : σ} (initial : Inv start) (reached : Reaches step start state) : Inv state := by
  induction reached with
  | refl => exact initial
  | tail _ pass ih => exact preserved _ _ ih pass

/-- A result the loop leaves with is vouched for by what its passes preserve. -/
theorem run_post (Inv : σ → Prop) (Post : ρ → Prop)
    (continues : ∀ state next, Inv state → step state = .inl next → Inv next)
    (leaves : ∀ state result, Inv state → step state = .inr result → Post result)
    {fuel : Nat} {start : σ} {result : ρ} (initial : Inv start)
    (ended : run step fuel start = some result) : Post result := by
  -- The induction is on the fuel: a pass goes on from a state with the invariant, or leaves from
  -- one.
  induction fuel generalizing start with
  | zero => simp [run] at ended
  | succ fuel ih =>
    cases pass : step start with
    | inl next =>
      rw [run_continue pass] at ended
      exact ih (continues start next initial pass) ended
    | inr left =>
      rw [run_leave pass] at ended
      cases ended
      exact leaves start _ initial pass

/--
A loop whose passes decrease a measure leaves with a result its last pass vouches for.

The invariant may be used both for the decrease and for the result.
-/
theorem ends_of_variant (Inv : σ → Prop) (measure : σ → Nat) (Post : ρ → Prop)
    (continues : ∀ state next, Inv state → step state = .inl next →
      Inv next ∧ measure next < measure state)
    (leaves : ∀ state result, Inv state → step state = .inr result → Post result)
    {start : σ} (initial : Inv start) : ∃ result, Ends step start result ∧ Post result := by
  -- The measure bounds the passes still to come, so induction runs on that bound.
  induction bound : measure start using Nat.strongRecOn generalizing start with
  | ind bound ih =>
    subst bound
    cases pass : step start with
    | inl next =>
      obtain ⟨kept, smaller⟩ := continues start next initial pass
      obtain ⟨result, ended, good⟩ := ih _ smaller kept rfl
      exact ⟨result, (ends_continue pass).mpr ended, good⟩
    | inr result => exact ⟨result, ends_leave pass, leaves start result initial pass⟩

/-- What every pass of a loop over a list preserves holds behind the loop. -/
theorem foldlM_invariant {ι : Type} {pass : σ → ι → Option σ} (Inv : σ → Prop)
    (preserved : ∀ state input next, Inv state → pass state input = some next → Inv next)
    {inputs : List ι} {start final : σ} (initial : Inv start)
    (ended : inputs.foldlM pass start = some final) : Inv final := by
  -- The passes before the first failure are the only ones there are, and all of them succeed.
  induction inputs generalizing start with
  | nil =>
    cases ended
    exact initial
  | cons input rest ih =>
    rw [List.foldlM_cons] at ended
    obtain ⟨next, passed, later⟩ := Option.bind_eq_some_iff.mp ended
    exact ih (preserved start input next initial passed) later

/-- A loop that can always take another pass never leaves. -/
theorem not_terminates_of_invariant (Inv : σ → Prop)
    (continues : ∀ state, Inv state → ∃ next, step state = .inl next ∧ Inv next)
    {start : σ} (initial : Inv start) : ¬ Terminates step start := by
  rintro ⟨result, fuel, ended⟩
  -- Each pass uses up one unit of fuel and leads to a state in which another is possible.
  induction fuel generalizing start with
  | zero => simp [run] at ended
  | succ fuel ih =>
    obtain ⟨next, pass, kept⟩ := continues start initial
    rw [run_continue pass] at ended
    exact ih kept ended

end AndroidApps.Loop
