import AndroidApps.Gildroia.AdminBoundLaws
import AndroidApps.Lib.ClosedPath

/-! What the ray test of `llInBoundary` says about a ring does not depend on how it is written. -/

namespace AndroidApps.Gildroia

section Edges

/-- The edge between two vertices is crossed by the ray to the east of a position. -/
def crosses (lat lon : Nat) (vj vi : BoundVtx) : Bool :=
  straddles vi vj lat && exactLeftOf vi vj lat lon

variable {lat lon : Nat}

/-- The point where an edge meets the line is the same from both of its ends. -/
theorem meetingPoint_comm {vi vj : BoundVtx} (meets : straddles vi vj lat = true) :
    meetingPoint vj vi lat = meetingPoint vi vj lat := by
  -- An edge that meets the line is not horizontal, so that both quotients are proper.
  have heights : vi.y ≤ lat ∧ lat < vj.y ∨ vj.y ≤ lat ∧ lat < vi.y := of_decide_eq_true meets
  have apart : (vi.y : ℚ) ≠ vj.y := by
    intro same
    have := Nat.cast_injective same
    omega
  have up : (vj.y : ℚ) - vi.y ≠ 0 := sub_ne_zero.mpr apart.symm
  have down : (vi.y : ℚ) - vj.y ≠ 0 := sub_ne_zero.mpr apart
  unfold meetingPoint
  field_simp
  ring

/-- An edge is crossed whichever of its ends comes first. -/
theorem crosses_comm (vj vi : BoundVtx) : crosses lat lon vj vi = crosses lat lon vi vj := by
  -- An edge that straddles the latitude has one meeting point from either end.
  have sides : straddles vj vi lat = straddles vi vj lat := by
    rw [straddles_eq, straddles_eq, Bool.xor_comm]
  unfold crosses
  rw [sides]
  cases meets : straddles vi vj lat with
  | false => rfl
  | true =>
    have point := meetingPoint_comm meets
    simp only [meetingPoint] at point
    simp only [exactLeftOf, point]

end Edges

section Rings

variable {lat lon : Nat}

/-- The loop turns its flag over once for each edge that is crossed. -/
theorem boundaryLoop_eq (ring : List BoundVtx) : ∀ (vj : BoundVtx) (check : Bool),
    boundaryLoop exactLeftOf lat lon vj ring check =
      (check ^^ pathParity (crosses lat lon) (vj :: ring)) := by
  -- The induction is on the vertices still to come, with the one before them.
  induction ring with
  | nil =>
    intro vj check
    simp [boundaryLoop, pathParity]
  | cons vi rest ih =>
    intro vj check
    rw [boundaryLoop, ih, pathParity]
    rw [← Bool.xor_assoc]
    congr 1
    unfold crosses
    split
    · rename_i counted
      rw [counted, Bool.xor_true]
    · rename_i skipped
      rw [Bool.eq_false_iff.mpr skipped, Bool.xor_false]

/-- The ray test counts the edges of the closed path along the ring. -/
theorem llInBoundary_eq (ring : List BoundVtx) :
    llInBoundary exactLeftOf ring lat lon = ringParity (crosses lat lon) ring := by
  unfold llInBoundary
  rcases List.eq_nil_or_concat ring with rfl | ⟨front, last, rfl⟩
  · rfl
  · -- The loop begins with the edge from the last vertex to the first one.
    rw [List.concat_eq_append, List.getLast?_concat]
    change boundaryLoop exactLeftOf lat lon last (front ++ [last]) false = _
    rw [boundaryLoop_eq, Bool.false_xor, ringParity_shift]
    rfl

/--
Membership in a ring does not depend on how the ring is written, and is additive.

A ring that is split by a path between two of its vertices contains a position exactly when one
of its parts does and the other does not, so that a position inside the ring is in exactly one.
-/
theorem llInBoundary_additive (lat lon : Nat) :
    (∀ (ring : List BoundVtx) (n : Nat),
      llInBoundary exactLeftOf (ring.rotate n) lat lon =
        llInBoundary exactLeftOf ring lat lon) ∧
    (∀ ring : List BoundVtx,
      llInBoundary exactLeftOf ring.reverse lat lon = llInBoundary exactLeftOf ring lat lon) ∧
    ∀ (before : List BoundVtx) (v : BoundVtx) (arc : List BoundVtx) (w : BoundVtx)
      (after path : List BoundVtx),
      let whole := llInBoundary exactLeftOf (before ++ v :: (arc ++ w :: after)) lat lon
      let first := llInBoundary exactLeftOf (v :: (arc ++ w :: path.reverse)) lat lon
      let second := llInBoundary exactLeftOf (before ++ v :: (path ++ w :: after)) lat lon
      whole = (first ^^ second) ∧ (whole = true → first ≠ second) := by
  refine ⟨fun ring n => ?_, fun ring => ?_, ?_⟩
  · rw [llInBoundary_eq, llInBoundary_eq, ringParity_rotate]
  · rw [llInBoundary_eq, llInBoundary_eq, ringParity_reverse crosses_comm]
  · intro before v arc w after path
    -- Both rings through the vertices before are written so that they begin with the split.
    have turned : ∀ middle : List BoundVtx,
        ringParity (crosses lat lon) (before ++ v :: (middle ++ w :: after)) =
          ringParity (crosses lat lon) (v :: (middle ++ w :: (after ++ before))) := by
      intro middle
      rw [ringParity_append]
      simp
    have split : ringParity (crosses lat lon) (before ++ v :: (arc ++ w :: after)) =
        (ringParity (crosses lat lon) (v :: (arc ++ w :: path.reverse)) ^^
          ringParity (crosses lat lon) (before ++ v :: (path ++ w :: after))) := by
      rw [turned, turned, ringParity_split crosses_comm]
    dsimp only
    rw [llInBoundary_eq, llInBoundary_eq, llInBoundary_eq, split]
    refine ⟨rfl, fun inside same => ?_⟩
    rw [same, Bool.xor_self] at inside
    cases inside

end Rings

end AndroidApps.Gildroia
