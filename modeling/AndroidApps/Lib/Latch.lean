import Mathlib.Data.List.Basic

/-! Choosing elements of a list where some of them have no verdict of their own. -/

namespace AndroidApps.Latch

variable {α : Type} {verdict : α → Option Bool}

/-- The elements chosen: by their own verdict, or else by the verdict that was reached last. -/
def choose (verdict : α → Option Bool) : Bool → List α → List α
  | _, [] => []
  | last, element :: rest =>
    let now := (verdict element).getD last
    if now then element :: choose verdict now rest else choose verdict now rest

/-- The first element is chosen or not, and its verdict is the last one for the others. -/
theorem choose_cons (last : Bool) (element : α) (rest : List α) :
    choose verdict last (element :: rest) =
      (if (verdict element).getD last then [element] else []) ++
        choose verdict ((verdict element).getD last) rest := by
  rw [choose]
  split
  · rfl
  · rfl

/--
A loop over a list that adds to a result.

An input may stand for nothing, and then it leaves the verdict and the result as they are.
-/
theorem foldlM_choose {σ ι : Type} {pass : σ → ι → Option σ} (entry : ι → Option α)
    (At : Bool → List α → σ → Prop) {inputs : List ι}
    (passes : ∀ input ∈ inputs, entry input = none → ∀ last chosen state, At last chosen state →
      ∃ next, pass state input = some next ∧ At last chosen next)
    (adds : ∀ input ∈ inputs, ∀ element, entry input = some element →
      ∀ last chosen state, At last chosen state →
        ∃ next, pass state input = some next ∧
          At ((verdict element).getD last)
            (chosen ++ if (verdict element).getD last then [element] else []) next) :
    ∀ {last : Bool} {chosen : List α} {state : σ}, At last chosen state →
      ∃ final, inputs.foldlM pass state = some final ∧
        ∃ flag, At flag (chosen ++ choose verdict last (inputs.filterMap entry)) final := by
  induction inputs with
  | nil =>
    intro last chosen state here
    refine ⟨state, rfl, last, ?_⟩
    rw [List.filterMap_nil, choose, List.append_nil]
    exact here
  | cons input rest ih =>
    intro last chosen state here
    rw [List.forall_mem_cons] at passes adds
    -- The first input leads to a state from which the others lead on.
    cases stands : entry input with
    | none =>
      obtain ⟨next, passed, there⟩ := passes.1 stands last chosen state here
      obtain ⟨final, ended, flag, done⟩ := ih passes.2 adds.2 there
      refine ⟨final, ?_, flag, ?_⟩
      · rw [List.foldlM_cons, passed]
        exact ended
      · rwa [List.filterMap_cons_none stands]
    | some element =>
      obtain ⟨next, passed, there⟩ := adds.1 element stands last chosen state here
      obtain ⟨final, ended, flag, done⟩ := ih passes.2 adds.2 there
      refine ⟨final, ?_, flag, ?_⟩
      · rw [List.foldlM_cons, passed]
        exact ended
      · rwa [List.filterMap_cons_some stands, choose_cons, ← List.append_assoc]

end AndroidApps.Latch
