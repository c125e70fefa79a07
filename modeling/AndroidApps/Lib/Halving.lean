import Mathlib.Algebra.Group.Nat.Defs
import Mathlib.Algebra.GroupWithZero.Nat
import Mathlib.Data.List.Sublists

/-! Sums of the numbers that come from halving one number again and again. -/

namespace AndroidApps

/-- A number, its half, the half of that, and so on, down to one. -/
def halvings (n : Nat) : List Nat :=
  if n = 0 then [] else n :: halvings (n / 2)
termination_by n
decreasing_by omega

theorem halvings_zero : halvings 0 = [] := by
  rw [halvings, if_pos rfl]

theorem halvings_pos {n : Nat} (positive : 0 < n) : halvings n = n :: halvings (n / 2) := by
  rw [halvings, if_neg (Nat.ne_of_gt positive)]

/-- A sum of some of the halvings of a number, each of which is taken at most once. -/
def IsHalvingSum (n total : Nat) : Prop :=
  ∃ steps : List Nat, steps.Sublist (halvings n) ∧ steps.sum = total

theorem isHalvingSum_zero {total : Nat} : IsHalvingSum 0 total ↔ total = 0 := by
  -- Zero has no halvings, so that only the empty sum is left.
  unfold IsHalvingSum
  rw [halvings_zero]
  constructor
  · rintro ⟨steps, chosen, rfl⟩
    rw [List.sublist_nil.mp chosen, List.sum_nil]
  · rintro rfl
    exact ⟨[], List.Sublist.refl [], rfl⟩

/-- The number itself is taken or not, and what is left is a sum of its other halvings. -/
theorem isHalvingSum_pos {n total : Nat} (positive : 0 < n) :
    IsHalvingSum n total ↔
      IsHalvingSum (n / 2) total ∨ n ≤ total ∧ IsHalvingSum (n / 2) (total - n) := by
  -- The first halving of a number is the number itself.
  unfold IsHalvingSum
  rw [halvings_pos positive]
  constructor
  · rintro ⟨steps, chosen, rfl⟩
    cases chosen with
    | cons _ later => exact .inl ⟨steps, later, rfl⟩
    | cons_cons _ later =>
      rename_i rest
      refine .inr ⟨?_, rest, later, ?_⟩
      · rw [List.sum_cons]
        exact Nat.le_add_right _ _
      · rw [List.sum_cons, Nat.add_sub_cancel_left]
  · rintro (⟨steps, later, same⟩ | ⟨fits, steps, later, same⟩)
    · exact ⟨steps, later.cons n, same⟩
    · refine ⟨n :: steps, later.cons_cons n, ?_⟩
      rw [List.sum_cons, same]
      omega

/-- All halvings but the first one together are less than the first one. -/
theorem IsHalvingSum.lt {n total : Nat} (positive : 0 < n) (sum : IsHalvingSum (n / 2) total) :
    total < n := by
  -- The second one is at most half of the first, and what follows is less than the second.
  induction n using Nat.strongRecOn generalizing total with
  | ind n ih =>
    rcases Nat.eq_zero_or_pos (n / 2) with last | more
    · rw [last, isHalvingSum_zero] at sum
      omega
    · rcases (isHalvingSum_pos more).mp sum with smaller | ⟨fits, rest⟩
      · have := ih (n / 2) (by omega) more smaller
        omega
      · have := ih (n / 2) (by omega) more rest
        omega

/--
Every number below a size is a sum of halvings of its half exactly for the powers of two.

A halving that leaves a remainder leaves a gap between the sums.
-/
theorem isHalvingSum_all_iff {size : Nat} (positive : 0 < size) :
    (∀ total, total < size → IsHalvingSum (size / 2) total) ↔ ∃ k, size = 2 ^ k := by
  induction size using Nat.strongRecOn with
  | ind size ih =>
    rcases Nat.lt_or_ge size 2 with one | several
    · have single : size = 1 := by omega
      subst single
      refine iff_of_true (fun total low => ?_) ⟨0, rfl⟩
      exact isHalvingSum_zero.mpr (by omega)
    · have half : 0 < size / 2 := by omega
      have below := ih (size / 2) (by omega) half
      constructor
      · intro all
        -- The sums below the first step are those of the other steps, and reach all numbers there.
        obtain ⟨k, power⟩ := below.mp fun total low => by
          rcases (isHalvingSum_pos half).mp (all total (by omega)) with later | ⟨fits, _⟩
          · exact later
          · omega
        -- The largest number needs the first step, and the rest of it has to be such a sum.
        rcases (isHalvingSum_pos half).mp (all (size - 1) (by omega)) with later | ⟨_, rest⟩
        · have := later.lt half
          omega
        · have := rest.lt half
          refine ⟨k + 1, ?_⟩
          rw [Nat.pow_succ]
          omega
      · rintro ⟨k, rfl⟩ total low
        obtain ⟨k, rfl⟩ : ∃ other, k = other + 1 := ⟨k - 1, by
          rcases k with _ | k
          · simp at several
          · simp⟩
        have exact : 2 ^ (k + 1) / 2 = 2 ^ k := by
          rw [Nat.pow_succ, Nat.mul_div_cancel _ (by decide)]
        rw [exact] at half below ⊢
        have all := below.mpr ⟨k, rfl⟩
        rw [isHalvingSum_pos half]
        rcases Nat.lt_or_ge total (2 ^ k) with small | large
        · exact .inl (all total small)
        · refine .inr ⟨large, all _ ?_⟩
          rw [Nat.pow_succ] at low
          omega

end AndroidApps
