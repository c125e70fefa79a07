import AndroidApps.Gildroia.HoPosition
import Mathlib.Tactic.Ring

/-! The entry of the table of law dongs that the halved steps of `FindDongOfOffset` reach. -/

namespace AndroidApps.Gildroia

/-- How far steps get that are halved each time and never pass the target. -/
def descend (nSize target : Nat) : Nat :=
  if nSize = 0 then 0
  else if nSize ≤ target then nSize + descend (nSize / 2) (target - nSize)
  else descend (nSize / 2) target
termination_by nSize
decreasing_by all_goals omega

theorem descend_zero (target : Nat) : descend 0 target = 0 := by
  rw [descend]
  simp

/-- A step that fits is taken. -/
theorem descend_take {nSize target : Nat} (positive : 0 < nSize) (fits : nSize ≤ target) :
    descend nSize target = nSize + descend (nSize / 2) (target - nSize) := by
  rw [descend]
  simp [Nat.ne_of_gt positive, fits]

/-- A step that would pass the target is left out. -/
theorem descend_skip {nSize target : Nat} (positive : 0 < nSize) (passes : target < nSize) :
    descend nSize target = descend (nSize / 2) target := by
  rw [descend]
  simp [Nat.ne_of_gt positive, Nat.not_le.mpr passes]

/-- The entries of a table below an offset are those up to an index. -/
def BelowUpTo (table : List (Nat × Nat)) (ofs target : Nat) : Prop :=
  ∀ i entry, table[i]? = some entry → (ofs > entry.1 ↔ i ≤ target)

section Search

variable {table : List (Nat × Nat)} {ofs target : Nat}

/-- A pass at an entry below the offset moves there. -/
theorem findDongPass_right {vars : DongSearch} {entry : Nat × Nat} (more : vars.left < vars.right)
    (probed : table[vars.mid]? = some entry) (below : ofs > entry.1) :
    findDongPass table ofs vars =
      if vars.nSize / 2 = 0 then .inr table[vars.mid]?
      else .inl ⟨vars.nSize / 2, vars.mid, vars.right, vars.mid + vars.nSize / 2⟩ := by
  unfold findDongPass
  rw [if_pos more, probed]
  simp only [if_pos below, Nat.add_eq_left]
  rw [probed]

/-- A pass at an entry that is not below the offset stays. -/
theorem findDongPass_left {vars : DongSearch} {entry : Nat × Nat} (more : vars.left < vars.right)
    (probed : table[vars.mid]? = some entry) (above : ¬ ofs > entry.1) :
    findDongPass table ofs vars =
      if vars.nSize / 2 = 0 then .inr table[vars.left]?
      else .inl ⟨vars.nSize / 2, vars.left, vars.mid, vars.left + vars.nSize / 2⟩ := by
  unfold findDongPass
  rw [if_pos more, probed]
  simp only [if_neg above, Nat.add_eq_left]

/--
The loop ends at the entry its halved steps reach.

The bounds stay so far apart that the loop ends by its step alone.
-/
theorem findDong_ends (below : BelowUpTo table ofs target) (nSize : Nat) :
    ∀ left right, 0 < nSize → left ≤ target → left + 2 * nSize ≤ table.length →
      left + 2 * nSize ≤ right + 1 →
      Loop.Ends (findDongPass table ofs) ⟨nSize, left, right, left + nSize⟩
        table[left + descend nSize (target - left)]? := by
  -- Every pass halves the step, so the induction is on the step.
  induction nSize using Nat.strongRecOn with
  | ind nSize ih =>
    intro left right positive low inside apart
    have more : left < right := by omega
    have bound : left + nSize < table.length := by omega
    have probed : table[left + nSize]? = some table[left + nSize] := List.getElem?_eq_getElem bound
    have compare := below (left + nSize) _ probed
    by_cases fits : left + nSize ≤ target
    · have pass := findDongPass_right
        (show (⟨nSize, left, right, left + nSize⟩ : DongSearch).left < right from more) probed
        (compare.mpr fits)
      rw [descend_take positive (by omega), ← Nat.add_assoc, Nat.sub_sub]
      by_cases last : nSize / 2 = 0
      · rw [last, descend_zero]
        exact Loop.ends_leave (pass.trans (if_pos last))
      · exact (Loop.ends_continue (pass.trans (if_neg last))).mpr
          (ih (nSize / 2) (by omega) (left + nSize) right (by omega) fits (by omega) (by omega))
    · have pass := findDongPass_left
        (show (⟨nSize, left, right, left + nSize⟩ : DongSearch).left < right from more) probed
        (mt compare.mp fits)
      rw [descend_skip positive (by omega)]
      by_cases last : nSize / 2 = 0
      · rw [last, descend_zero]
        exact Loop.ends_leave (pass.trans (if_pos last))
      · exact (Loop.ends_continue (pass.trans (if_neg last))).mpr
          (ih (nSize / 2) (by omega) left (left + nSize) (by omega) low (by omega) (by omega))

/-- With enough passes the search returns the entry its halved steps reach. -/
theorem findDongEntry_eq (below : BelowUpTo table ofs target) (listed : target < table.length) :
    ∃ enough, ∀ fuel, enough ≤ fuel →
      findDongEntry fuel table ofs = table[descend (table.length / 2) target]? := by
  have filled : table ≠ [] := by
    rintro rfl
    simp at listed
  have ended : Loop.Ends (findDongPass table ofs)
      ⟨table.length / 2, 0, table.length - 1, table.length / 2⟩
      table[descend (table.length / 2) target]? := by
    by_cases single : table.length / 2 = 0
    · -- A table of one entry does not enter the loop.
      have one : table.length - 1 = 0 := by omega
      rw [single, descend_zero, one]
      exact Loop.ends_leave rfl
    · have walked := findDong_ends below (table.length / 2) 0 (table.length - 1) (by omega)
        (Nat.zero_le _) (by omega) (by omega)
      simpa using walked
  obtain ⟨enough, ran⟩ := ended
  refine ⟨enough, ?_⟩
  intro fuel longer
  rw [findDongEntry, if_neg filled]
  simp only [Loop.run_mono ran longer, Option.join_some]

end Search

end AndroidApps.Gildroia
