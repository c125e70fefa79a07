import AndroidApps.Gildroia.NameMatch
import Mathlib.Data.List.Find

/-! The mask of complete characters: which of its bits the name matcher tests at which position. -/

namespace AndroidApps.Gildroia

section Tests

/-- How many of a number of positions are passed, with the first one that stops. -/
def stopCount (stops : Nat → Bool) (positions : Nat) : Nat :=
  ((List.range positions).find? stops).elim positions (· + 1)

/-- The first position stops, or it is passed and one of the later ones may stop. -/
theorem stopCount_succ (stops : Nat → Bool) (positions : Nat) :
    stopCount stops (positions + 1) =
      if stops 0 then 1 else stopCount (fun i => stops (i + 1)) positions + 1 := by
  unfold stopCount
  rw [List.range_succ_eq_map, List.find?_cons]
  cases stops 0 with
  | true => rfl
  | false =>
    -- The later positions are those of the shorter run, moved up by one.
    simp only [List.find?_map, Bool.false_eq_true, if_false]
    have moved : stops ∘ Nat.succ = fun i => stops (i + 1) := rfl
    rw [moved]
    cases (List.range positions).find? fun i => stops (i + 1) with
    | none => rfl
    | some first => rfl

/-- No position is counted twice. -/
theorem stopCount_le (stops : Nat → Bool) (positions : Nat) :
    stopCount stops positions ≤ positions := by
  unfold stopCount
  cases found : (List.range positions).find? stops with
  | none => exact Nat.le_refl _
  | some first => exact List.mem_range.mp (List.mem_of_find?_eq_some found)

/-- Only the positions that are there matter. -/
theorem stopCount_congr {stops others : Nat → Bool} {positions : Nat}
    (same : ∀ i, i < positions → stops i = others i) :
    stopCount stops positions = stopCount others positions := by
  have found : (List.range positions).find? stops = (List.range positions).find? others :=
    List.find?_congr fun i member => same i (List.mem_range.mp member)
  rw [stopCount, found, stopCount]

variable (pText strName : Nat → UInt16)

/-- Behind the first two positions nothing is tested. -/
theorem matchFrom_tests_late {nStrIdx : Nat} (late : 2 ≤ nStrIdx) (todo checkHangulBit : Nat) :
    (matchFrom pText strName nStrIdx todo checkHangulBit).tests = [] := by
  -- Every later position is behind them as well.
  induction todo generalizing nStrIdx with
  | zero => rfl
  | succ todo ih =>
    rw [matchFrom, if_pos (show nStrIdx > 2 - 1 by omega)]
    generalize (if isChosung (pText nStrIdx) then _ else _) = same
    cases same with
    | true => exact ih (by omega)
    | false => rfl

/--
The bits are tested one after the other, each at the position with its number.

The tests come to an end at the first position whose bit is set and whose characters differ.
-/
theorem matchFrom_tests (todo : Nat) : ∀ nStrIdx checkHangulBit,
    (matchFrom pText strName nStrIdx todo checkHangulBit).tests =
      (List.range (stopCount (fun i => checkHangulBit.testBit i &&
          pText (nStrIdx + i) != strName (nStrIdx + i)) (min todo (2 - nStrIdx)))).map
        fun i => (nStrIdx + i, checkHangulBit.testBit i) := by
  -- One position further on, the mask is shifted, so its bits have moved down by one.
  induction todo with
  | zero =>
    intro nStrIdx checkHangulBit
    rw [Nat.zero_min]
    rfl
  | succ todo ih =>
    intro nStrIdx checkHangulBit
    by_cases late : nStrIdx > 2 - 1
    · rw [matchFrom_tests_late pText strName late, show min (todo + 1) (2 - nStrIdx) = 0 by omega]
      rfl
    · have later := ih (nStrIdx + 1) (checkHangulBit >>> 1)
      have shifted : ∀ i, (checkHangulBit >>> 1).testBit i = checkHangulBit.testBit (i + 1) := by
        intro i
        rw [Nat.testBit_shiftRight, Nat.add_comm]
      simp only [shifted, show ∀ i, nStrIdx + 1 + i = nStrIdx + (i + 1) by omega] at later
      have lowest : checkHangulBit.testBit 0 = decide (checkHangulBit % 2 = 1) := Nat.testBit_zero _
      rw [show min (todo + 1) (2 - nStrIdx) = min todo (2 - (nStrIdx + 1)) + 1 by omega,
        stopCount_succ, matchFrom, if_neg late]
      by_cases test : checkHangulBit % 2 = 1
      · rw [if_pos test]
        by_cases same : pText nStrIdx = strName nStrIdx
        · simp only [same, beq_self_eq_true, if_true, Comparison.testing, Comparison.reading, later,
            Nat.add_zero, bne_self_eq_false, Bool.and_false, Bool.false_eq_true, if_false,
            List.range_succ_eq_map, List.map_cons, List.map_map, lowest, test, decide_true]
          rfl
        · -- The loop ends with this test.
          simp only [beq_eq_false_iff_ne.mpr same, Bool.false_eq_true, if_false, Nat.add_zero,
            lowest, test, decide_true, bne_iff_ne.mpr same, Bool.and_self, if_true]
          simp [lowest, test]
      · simp only [Comparison.testing, later, lowest, test, decide_false,
          Bool.false_and, Bool.false_eq_true, if_false, List.range_succ_eq_map, List.map_cons,
          List.map_map, Nat.add_zero]
        rfl

end Tests

/--
Each bit of the mask tells of the character with its number, and is tested at its position.

The tests of a name are those of the first two positions, as far as the text has them, or they end
with the first complete character that differs.
-/
theorem checkCompletHangul_positions (pText : Nat → UInt16) (nLen : Nat) :
    (∀ i, i < min nLen 31 →
      (checkCompletHangul pText nLen).testBit i = !isChosung (pText i)) ∧
    ∀ strName, (matchFrom pText strName 0 nLen (checkCompletHangul pText nLen)).tests =
      (List.range (stopCount (fun i => !isChosung (pText i) && pText i != strName i)
        (min nLen 2))).map fun i => (i, !isChosung (pText i)) := by
  have bits : ∀ i, i < min nLen 31 →
      (checkCompletHangul pText nLen).testBit i = !isChosung (pText i) := by
    intro i within
    rw [checkCompletHangul_testBit pText nLen (by omega), decide_eq_true (by omega : i < nLen),
      Bool.true_and]
  refine ⟨bits, fun strName => ?_⟩
  have tests := matchFrom_tests pText strName nLen 0 (checkCompletHangul pText nLen)
  simp only [Nat.zero_add, Nat.sub_zero] at tests
  -- The positions of the tests are among the first two of the text.
  have stops : stopCount (fun i => (checkCompletHangul pText nLen).testBit i &&
      pText i != strName i) (min nLen 2) =
        stopCount (fun i => !isChosung (pText i) && pText i != strName i) (min nLen 2) := by
    refine stopCount_congr fun i below => ?_
    rw [bits i (by omega)]
  rw [tests, stops]
  refine List.map_congr_left fun i member => ?_
  have low := List.mem_range.mp member
  have few := stopCount_le (fun i => !isChosung (pText i) && pText i != strName i) (min nLen 2)
  rw [bits i (by omega)]

end AndroidApps.Gildroia
