import Mathlib.Logic.Basic

/-! Programs that call a machine, and what holds of all the calls they make. -/

namespace AndroidApps

/-- A program that calls a machine: it goes on with the answer of each call. -/
inductive Calls (ι ω α : Type) where
  | done (result : α)
  /-- The program ends with an exception. -/
  | thrown
  | call (input : ι) (rest : ω → Calls ι ω α)

namespace Calls

variable {ι ω α β σ : Type}

/-- One program behind another. -/
def bind : Calls ι ω α → (α → Calls ι ω β) → Calls ι ω β
  | done result, next => next result
  | thrown, _ => thrown
  | call input rest, next => call input fun answer => (rest answer).bind next

instance : Monad (Calls ι ω) where
  pure := done
  bind := bind

/-- A single call, for its answer. -/
def ask (input : ι) : Calls ι ω ω := call input done

/-- The result of a program, and the machine behind its calls, if all of them return. -/
def run (machine : σ → ι → Option (ω × σ)) : Calls ι ω α → σ → Option (α × σ)
  | done result, state => some (result, state)
  | thrown, _ => none
  | call input rest, state =>
    match machine state input with
    | none => none
    | some (answer, next) => (rest answer).run machine next

/--
Every call of a program meets a condition on the state it is made in, and its result meets one on
the state behind the calls.
-/
def Ensures (machine : σ → ι → Option (ω × σ)) (meets : σ → ι → Prop) (post : α → σ → Prop) :
    Calls ι ω α → σ → Prop
  | done result, state => post result state
  | thrown, _ => True
  | call input rest, state =>
    meets state input ∧ ∀ answer next, machine state input = some (answer, next) →
      (rest answer).Ensures machine meets post next

/-- Every call of a program meets a condition on the state it is made in. -/
def Along (machine : σ → ι → Option (ω × σ)) (meets : σ → ι → Prop) (program : Calls ι ω α)
    (state : σ) : Prop :=
  program.Ensures machine meets (fun _ _ => True) state

variable {machine : σ → ι → Option (ω × σ)} {meets : σ → ι → Prop} {post : α → σ → Prop}
  {program : Calls ι ω α} {state : σ}

/-- What is ensured holds behind a run. -/
theorem Ensures.of_run (ensures : program.Ensures machine meets post state) {result : α}
    {after : σ} (ran : program.run machine state = some (result, after)) : post result after := by
  induction program generalizing state with
  | done found =>
    cases ran
    exact ensures
  | thrown => cases ran
  | call input rest ih =>
    rw [run] at ran
    split at ran
    · cases ran
    · rename_i answer next called
      exact ih answer (ensures.2 answer next called) ran

/-- A condition on the result may be weakened. -/
theorem Ensures.mono {weaker : α → σ → Prop} (ensures : program.Ensures machine meets post state)
    (implies : ∀ result after, post result after → weaker result after) :
    program.Ensures machine meets weaker state := by
  induction program generalizing state with
  | done result => exact implies result state ensures
  | thrown => trivial
  | call input rest ih =>
    exact ⟨ensures.1, fun answer next called => ih answer (ensures.2 answer next called)⟩

/-- The calls of a program that ensures something all meet its condition. -/
theorem Ensures.along (ensures : program.Ensures machine meets post state) :
    program.Along machine meets state :=
  ensures.mono fun _ _ _ => trivial

/-- A program behind another one ensures what it does for every result of the first one. -/
theorem Ensures.bind {next : α → Calls ι ω β} {later : β → σ → Prop}
    (first : program.Ensures machine meets
      (fun result after => (next result).Ensures machine meets later after) state) :
    (program >>= next).Ensures machine meets later state := by
  -- The induction is on the first program, whose calls are those of the whole.
  induction program generalizing state with
  | done result => exact first
  | thrown => trivial
  | call input rest ih =>
    exact ⟨first.1, fun answer after called => ih answer (first.2 answer after called)⟩

/-- A call ensures what holds behind each of its answers. -/
theorem ensures_ask {input : ι} {post : ω → σ → Prop} (met : meets state input)
    (holds : ∀ answer next, machine state input = some (answer, next) → post answer next) :
    (ask input : Calls ι ω ω).Ensures machine meets post state :=
  ⟨met, holds⟩

end Calls

end AndroidApps
