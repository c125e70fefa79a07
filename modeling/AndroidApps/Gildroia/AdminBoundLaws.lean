import AndroidApps.Gildroia.AdminBound
import Mathlib.Algebra.Order.Field.Rat
import Mathlib.Data.List.Find
import Mathlib.Tactic.FieldSimp
import Mathlib.Tactic.Linarith
import Mathlib.Tactic.Positivity

/-! The lookup that skips boxes finds the dong a search through all of them would find. -/

namespace AndroidApps.Gildroia

section Rings

/-- A box around all vertices of a ring. -/
def Bound.Encloses (bound : Bound) (ring : List BoundVtx) : Prop :=
  ∀ vertex ∈ ring, bound.left ≤ vertex.x ∧ vertex.x ≤ bound.right ∧
    bound.bottom ≤ vertex.y ∧ vertex.y ≤ bound.top

instance (bound : Bound) (ring : List BoundVtx) : Decidable (bound.Encloses ring) :=
  inferInstanceAs (Decidable (∀ vertex ∈ ring, _))

/-- The vertex lies above a latitude. -/
def BoundVtx.above (vertex : BoundVtx) (lat : Nat) : Bool := decide (lat < vertex.y)

/-- An edge meets the line of a latitude exactly when one of its ends lies above it. -/
theorem straddles_eq (vi vj : BoundVtx) (lat : Nat) :
    straddles vi vj lat = (vi.above lat ^^ vj.above lat) := by
  unfold straddles BoundVtx.above
  by_cases first : lat < vi.y <;> by_cases second : lat < vj.y <;>
    simp [first, second] <;> omega

/-- The point where an edge meets the line of a latitude. -/
def meetingPoint (vi vj : BoundVtx) (lat : Nat) : ℚ :=
  ((vj.x : ℚ) - (vi.x : ℚ)) * ((lat : ℚ) - (vi.y : ℚ)) / ((vj.y : ℚ) - (vi.y : ℚ)) + (vi.x : ℚ)

/-- The meeting point divides the edge in the ratio of the heights. -/
theorem meetingPoint_between {vi vj : BoundVtx} {lat : Nat} (meets : straddles vi vj lat = true) :
    ∃ t : ℚ, 0 ≤ t ∧ t ≤ 1 ∧ meetingPoint vi vj lat = (1 - t) * vi.x + t * vj.x := by
  have heights : vi.y ≤ lat ∧ lat < vj.y ∨ vj.y ≤ lat ∧ lat < vi.y := of_decide_eq_true meets
  refine ⟨((lat : ℚ) - vi.y) / ((vj.y : ℚ) - vi.y), ?_, ?_, by unfold meetingPoint; ring⟩
  · -- Both differences have the same sign.
    rcases heights with ⟨low, high⟩ | ⟨low, high⟩
    · have := Nat.cast_le (α := ℚ).mpr low
      have := Nat.cast_lt (α := ℚ).mpr high
      exact div_nonneg (by linarith) (by linarith)
    · have := Nat.cast_le (α := ℚ).mpr low
      have := Nat.cast_lt (α := ℚ).mpr high
      exact div_nonneg_of_nonpos (by linarith) (by linarith)
  · rcases heights with ⟨low, high⟩ | ⟨low, high⟩
    · have := Nat.cast_le (α := ℚ).mpr low
      have := Nat.cast_lt (α := ℚ).mpr high
      exact (div_le_one (by linarith)).mpr (by linarith)
    · have := Nat.cast_le (α := ℚ).mpr low
      have := Nat.cast_lt (α := ℚ).mpr high
      exact (div_le_one_of_neg (by linarith)).mpr (by linarith)

/-- West of both ends of an edge is west of the point where it meets the line. -/
theorem exactLeftOf_west {vi vj : BoundVtx} {lat lon : Nat} (meets : straddles vi vj lat = true)
    (first : lon < vi.x) (second : lon < vj.x) : exactLeftOf vi vj lat lon = true := by
  obtain ⟨t, low, high, point⟩ := meetingPoint_between meets
  have first : (lon : ℚ) < vi.x := Nat.cast_lt.mpr first
  have second : (lon : ℚ) < vj.x := Nat.cast_lt.mpr second
  refine decide_eq_true ?_
  change (lon : ℚ) < meetingPoint vi vj lat
  rw [point]
  -- The point is an average of the two ends.
  nlinarith [mul_nonneg low (sub_pos.mpr second).le,
    mul_nonneg (sub_nonneg.mpr high) (sub_pos.mpr first).le]

/-- East of both ends of an edge is not west of the point where it meets the line. -/
theorem exactLeftOf_east {vi vj : BoundVtx} {lat lon : Nat} (meets : straddles vi vj lat = true)
    (first : vi.x ≤ lon) (second : vj.x ≤ lon) : exactLeftOf vi vj lat lon = false := by
  -- The point where the edge meets the line is a mean of its ends, and a mean of two numbers that
  -- are at most lon is at most lon.
  obtain ⟨t, low, high, point⟩ := meetingPoint_between meets
  have first : (vi.x : ℚ) ≤ lon := Nat.cast_le.mpr first
  have second : (vj.x : ℚ) ≤ lon := Nat.cast_le.mpr second
  refine decide_eq_false ?_
  change ¬ (lon : ℚ) < meetingPoint vi vj lat
  rw [point, not_lt]
  nlinarith [mul_nonneg low (sub_nonneg.mpr second),
    mul_nonneg (sub_nonneg.mpr high) (sub_nonneg.mpr first)]

section Parity

variable {leftOf : BoundVtx → BoundVtx → Nat → Nat → Bool} {lat lon : Nat}

/-- A ring none of whose edges is counted does not contain the position. -/
theorem boundaryLoop_uncounted (inside : BoundVtx → Prop)
    (uncounted : ∀ vi vj, inside vi → inside vj → straddles vi vj lat = true →
      leftOf vi vj lat lon = false) {ring : List BoundVtx} :
    ∀ {vj : BoundVtx} {check : Bool}, inside vj → (∀ vertex ∈ ring, inside vertex) →
      boundaryLoop leftOf lat lon vj ring check = check := by
  -- The induction is on the vertices. An edge that is not counted leaves the flag as it is.
  induction ring with
  | nil =>
    intro vj check _ _
    rfl
  | cons vi rest ih =>
    intro vj check own all
    have first := all vi List.mem_cons_self
    have skipped : (straddles vi vj lat && leftOf vi vj lat lon) = false := by
      cases meets : straddles vi vj lat with
      | false => rfl
      | true => simp [uncounted vi vj first own meets]
    rw [boundaryLoop, skipped]
    exact ih first fun vertex member => all vertex (List.mem_cons_of_mem vi member)

/-- A ring all of whose edges across the line are counted is left on the side it was entered on. -/
theorem boundaryLoop_counted (inside : BoundVtx → Prop)
    (counted : ∀ vi vj, inside vi → inside vj → straddles vi vj lat = true →
      leftOf vi vj lat lon = true) {ring : List BoundVtx} :
    ∀ {vj : BoundVtx} {check : Bool}, inside vj → (∀ vertex ∈ ring, inside vertex) →
      boundaryLoop leftOf lat lon vj ring check =
        (check ^^ vj.above lat ^^ (ring.getLast?.getD vj).above lat) := by
  -- Every counted edge is a change of side, so the parity is that of the two end points.
  induction ring with
  | nil =>
    intro vj check _ _
    simp [boundaryLoop]
  | cons vi rest ih =>
    intro vj check own all
    have first := all vi List.mem_cons_self
    have toggled : (if straddles vi vj lat && leftOf vi vj lat lon then !check else check) =
        (check ^^ (vi.above lat ^^ vj.above lat)) := by
      rw [← straddles_eq]
      cases meets : straddles vi vj lat with
      | false => simp
      | true => simp [counted vi vj first own meets]
    have last : (vi :: rest).getLast?.getD vj = rest.getLast?.getD vi := by
      rw [List.getLast?_cons]
      rfl
    rw [boundaryLoop, toggled, last,
      ih first fun vertex member => all vertex (List.mem_cons_of_mem vi member)]
    cases check <;> cases vi.above lat <;> cases vj.above lat <;>
      cases (rest.getLast?.getD vi).above lat <;> rfl

end Parity

/-- A ring does not contain a position outside a box around it. -/
theorem llInBoundary_outside {bound : Bound} {ring : List BoundVtx} {lat lon : Nat}
    (encloses : bound.Encloses ring) (outside : bound.llInBound lat lon = false) :
    llInBoundary exactLeftOf ring lat lon = false := by
  unfold llInBoundary
  cases ends : ring.getLast? with
  | none => rfl
  | some last =>
    have own := encloses last (List.mem_of_getLast? ends)
    have beside : lon < bound.left ∨ bound.right < lon ∨ lat < bound.bottom ∨ bound.top < lat := by
      have := of_decide_eq_false outside
      omega
    dsimp only
    rcases beside with west | elsewhere
    · -- West of the box every edge across the line counts, and a closed ring has an even number.
      rw [boundaryLoop_counted (fun vertex => lon < vertex.x), ends]
      · rw [Option.getD_some, Bool.false_xor, Bool.xor_self]
      · intro vi vj first second meets
        exact exactLeftOf_west meets first second
      · omega
      · intro vertex member
        have := encloses vertex member
        omega
    · rcases elsewhere with east | beyond
      · refine boundaryLoop_uncounted (fun vertex => vertex.x ≤ lon) ?_ (by omega) ?_
        · intro vi vj first second meets
          exact exactLeftOf_east meets first second
        · intro vertex member
          have := encloses vertex member
          omega
      · -- North or south of the box no edge meets the line.
        refine boundaryLoop_uncounted
          (fun vertex => bound.bottom ≤ vertex.y ∧ vertex.y ≤ bound.top) ?_ (by omega) ?_
        · intro vi vj first second meets
          have heights := of_decide_eq_true meets
          omega
        · intro vertex member
          have := encloses vertex member
          omega

end Rings

section Buffer

/-- The vertices of a dong in the file. -/
def ringOf (data : List UInt8) (dong : ChildBound) : List BoundVtx :=
  File.elementsAt BoundVtx.decode 8 data dong.offset dong.vtxNum

/-- A ring with at least one vertex, all of them inside the file. -/
structure RingInside (data : List UInt8) (dong : ChildBound) : Prop where
  some : 1 ≤ dong.vtxNum
  inside : dong.offset + dong.vtxNum * 8 ≤ data.length

instance (data : List UInt8) (dong : ChildBound) : Decidable (RingInside data dong) :=
  decidable_of_iff (1 ≤ dong.vtxNum ∧ dong.offset + dong.vtxNum * 8 ≤ data.length)
    ⟨fun ⟨first, inside⟩ => ⟨first, inside⟩, fun ⟨first, inside⟩ => ⟨first, inside⟩⟩

/-- The size kept for the vertex buffer is its size. -/
def Lookup.Sized (vars : Lookup) : Prop :=
  ∀ pVertex, vars.pVertex = some pVertex → pVertex.length = vars.nVertexSize

/-- The variables of the lookup whenever a dong is looked at. -/
structure Ready (data : List UInt8) (vars : Lookup) : Prop where
  opened : vars.fp.data = data
  placed : vars.fp.pos < 2 ^ 31
  sized : vars.Sized

variable {data : List UInt8} {vars : Lookup}

/-- The buffer has room for the vertices of the dong it was grown for. -/
theorem growBuffer_room (sized : vars.Sized) (vtxNum : Nat) :
    (growBuffer vars vtxNum).1.length = (growBuffer vars vtxNum).2 ∧
      vtxNum ≤ (growBuffer vars vtxNum).2 := by
  -- The buffer is kept only where it is large enough already.
  unfold growBuffer
  split
  · simp
  · rename_i pVertex held
    split
    · simp
    · rename_i enough
      exact ⟨sized pVertex held, Nat.not_lt.mp enough⟩

/-- Seeking by the distance to an offset leads to the offset. -/
theorem fseekCur_offset {fp : File} {offset : Nat} (placed : fp.pos < 2 ^ 31)
    (low : offset < 2 ^ 31) : fp.fseekCur (toInt (u32Sub offset fp.pos)) = fp.moveTo offset := by
  -- The distance is taken modulo 2 ^ 32 and read as a signed number, which is right as long as both
  -- places are below 2 ^ 31.
  have distance : toInt (u32Sub offset fp.pos) = (offset : Int) - fp.pos := by
    unfold toInt u32Sub
    split <;> omega
  rw [distance, File.fseekCur, if_pos (by omega)]
  congr 1
  omega

/-- The ring of a dong is read whole, and the position is looked for in it. -/
theorem lookupDong_eq (leftOf : BoundVtx → BoundVtx → Nat → Nat → Bool) {dong : ChildBound}
    (ring : RingInside data dong) (ready : Ready data vars) (lat lon : Nat) :
    ∃ after, Ready data after ∧ after.hcode = vars.hcode ∧
      lookupDong leftOf lat lon dong vars =
        some (if llInBoundary leftOf (ringOf data dong) lat lon then
          .exit { after with hcode := dong.hcode } else .next after) := by
  -- The buffer was grown for the dong and the file holds its whole ring, so nothing of an earlier
  -- dong is left among the vertices that are looked at.
  obtain ⟨sized, room⟩ := growBuffer_room ready.sized dong.vtxNum
  have addressable := vars.fp.addressable
  have inside := ring.inside
  obtain ⟨opened, placed, _⟩ := ready
  subst opened
  have whole : ((growBuffer vars dong.vtxNum).1.take dong.vtxNum).length = dong.vtxNum := by
    rw [List.length_take]
    omega
  have counted : (vars.fp.moveTo dong.offset).freadCount 8 dong.vtxNum ≠ 0 := by
    have := ring.some
    simp only [File.freadCount, File.moveTo_data, File.moveTo_pos]
    omega
  refine ⟨⟨vars.fp.moveTo (dong.offset + dong.vtxNum * 8),
    some (ringOf vars.fp.data dong ++ (growBuffer vars dong.vtxNum).1.drop dong.vtxNum),
    (growBuffer vars dong.vtxNum).2, vars.hcode⟩, ⟨rfl, ?_, ?_⟩, rfl, ?_⟩
  · simp only [File.moveTo_pos]
    omega
  · intro pVertex held
    cases held
    rw [List.length_append, List.length_drop, ringOf, File.elementsAt_length]
    dsimp only
    omega
  · unfold lookupDong
    simp only []
    rw [fseekCur_offset placed (by omega), if_neg (by omega), if_neg counted,
      File.freadArray_inside (by rw [whole]; exact inside), whole]
    simp only [File.moveTo_data, File.moveTo_pos, File.moveTo_moveTo, ringOf]
    exact (apply_ite some _ _ _).symm

/-- The variables a part of the lookup ends with. -/
def Flow.last : Flow → Lookup
  | .next vars | .exit vars => vars

/-- A part of the lookup that never reads past the end of the buffer, whatever the file holds. -/
def Stays (data : List UInt8) (flow : Option Flow) : Prop :=
  ∃ ended, flow = some ended ∧ ended.last.fp.data = data ∧ ended.last.Sized

/-- Looking at a dong keeps the file and the size of the buffer. -/
theorem lookupDong_stays (leftOf : BoundVtx → BoundVtx → Nat → Nat → Bool) (lat lon : Nat)
    (dong : ChildBound) (opened : vars.fp.data = data) (sized : vars.Sized) :
    Stays data (lookupDong leftOf lat lon dong vars) := by
  obtain ⟨grown, room⟩ := growBuffer_room sized dong.vtxNum
  unfold lookupDong
  simp only []
  rw [if_neg (by omega)]
  -- The slots read and the slots behind them make up the whole buffer again.
  generalize reading : File.freadArray BoundVtx.decode 8
    ((growBuffer vars dong.vtxNum).1.take dong.vtxNum)
    (vars.fp.fseekCur (toInt (u32Sub dong.offset vars.fp.pos))) = result
  have whole : (result.1 ++ (growBuffer vars dong.vtxNum).1.drop dong.vtxNum).length =
      (growBuffer vars dong.vtxNum).2 := by
    rw [← reading, List.length_append, File.freadArray_length, List.length_take, List.length_drop]
    omega
  have kept : result.2.data = data := by
    rw [← reading, File.freadArray_data, File.fseekCur_data, opened]
  have sizedAfter : ∀ hcode, Lookup.Sized ⟨result.2,
      some (result.1 ++ (growBuffer vars dong.vtxNum).1.drop dong.vtxNum),
      (growBuffer vars dong.vtxNum).2, hcode⟩ := by
    intro hcode pVertex held
    cases held
    exact whole
  split
  · exact ⟨_, rfl, kept, sizedAfter _⟩
  · split
    · exact ⟨_, rfl, kept, sizedAfter _⟩
    · exact ⟨_, rfl, kept, sizedAfter _⟩

/-- The loop over dongs keeps the file and the size of the buffer. -/
theorem lookupDongs_stays (leftOf : BoundVtx → BoundVtx → Nat → Nat → Bool) (lat lon : Nat)
    (dongs : List (Bound × ChildBound)) :
    ∀ {vars : Lookup}, vars.fp.data = data → vars.Sized →
      Stays data (lookupDongs leftOf lat lon dongs vars) := by
  -- The induction is on the dongs. A dong whose box does not contain the position is not read at
  -- all.
  induction dongs with
  | nil =>
    intro vars opened sized
    exact ⟨.next vars, rfl, opened, sized⟩
  | cons dong rest ih =>
    intro vars opened sized
    rw [lookupDongs]
    split
    · obtain ⟨ended, looked, kept, sizedAfter⟩ :=
        lookupDong_stays leftOf lat lon dong.2 opened sized
      rw [looked]
      cases ended with
      | next after => exact ih kept sizedAfter
      | exit after => exact ⟨.exit after, rfl, kept, sizedAfter⟩
    · exact ih opened sized

/-- One region of a level, whose part is skipped or searched. -/
theorem region_stays {inBox : Bool} {part : Option Flow} {loop : Lookup → Option Flow}
    (opened : vars.fp.data = data) (sized : vars.Sized) (own : Stays data part)
    (later : ∀ {vars : Lookup}, vars.fp.data = data → vars.Sized → Stays data (loop vars)) :
    Stays data (match if inBox then part else some (.next vars) with
      | some (.next vars) => if vars.hcode.isNull = false then some (.next vars) else loop vars
      | done => done) := by
  -- A region that is skipped leaves everything as it was, and the search of its part ends with or
  -- without a dong. Only without one does the loop go on.
  have first : Stays data (if inBox then part else some (.next vars)) := by
    split
    · exact own
    · exact ⟨.next vars, rfl, opened, sized⟩
  obtain ⟨ended, searched, kept, sizedAfter⟩ := first
  rw [searched]
  cases ended with
  | next after =>
    dsimp only
    split
    · exact ⟨.next after, rfl, kept, sizedAfter⟩
    · exact later kept sizedAfter
  | exit after => exact ⟨.exit after, rfl, kept, sizedAfter⟩

/-- The loop over guguns keeps the file and the size of the buffer. -/
theorem lookupGuguns_stays (leftOf : BoundVtx → BoundVtx → Nat → Nat → Bool) (lat lon : Nat)
    (guguns : List (Bound × DongAdminMap)) :
    ∀ {vars : Lookup}, vars.fp.data = data → vars.Sized →
      Stays data (lookupGuguns leftOf lat lon guguns vars) := by
  -- The step is the one for any level of regions, with the loop over dongs inside.
  induction guguns with
  | nil =>
    intro vars opened sized
    exact ⟨.next vars, rfl, opened, sized⟩
  | cons gugun rest ih =>
    intro vars opened sized
    rw [lookupGuguns]
    exact region_stays opened sized
      (lookupDongs_stays leftOf lat lon gugun.2.entries opened sized) ih

/-- The loop over sidos keeps the file and the size of the buffer. -/
theorem lookupSidos_stays (leftOf : BoundVtx → BoundVtx → Nat → Nat → Bool) (lat lon : Nat)
    (sidos : List (Bound × GunGuAdminMap)) :
    ∀ {vars : Lookup}, vars.fp.data = data → vars.Sized →
      Stays data (lookupSidos leftOf lat lon sidos vars) := by
  -- The step is the one for any level of regions, with the loop over guguns inside.
  induction sidos with
  | nil =>
    intro vars opened sized
    exact ⟨.next vars, rfl, opened, sized⟩
  | cons sido rest ih =>
    intro vars opened sized
    rw [lookupSidos]
    exact region_stays opened sized
      (lookupGuguns_stays leftOf lat lon sido.2.entries opened sized) ih

/-- The lookup always comes to an end, and leaves the contents of the file as they are. -/
theorem findHCode_returns (leftOf : BoundVtx → BoundVtx → Nat → Nat → Bool)
    {manager : AdminBoundManager} {fp : File} (opened : manager.pFile = some fp)
    (lat lon : Nat) (hcode : HCode) :
    ∃ found located after, manager.findHCode leftOf lat lon hcode =
      some (found, located, some after) ∧ after.data = fp.data := by
  -- Whether the loops run to the end or are left early, they leave an answer.
  have start : Lookup.Sized ⟨fp.fseek 0, none, 0, .null⟩ := fun _ held => nomatch held
  obtain ⟨ended, looked, kept, _⟩ := lookupSidos_stays leftOf lat lon
    manager.boundaryMap.entries (fp.fseek_data 0) start
  simp only [AdminBoundManager.findHCode, opened, looked]
  cases ended with
  | next vars => exact ⟨_, _, vars.fp, rfl, kept⟩
  | exit vars => exact ⟨_, _, vars.fp, rfl, kept⟩

end Buffer

section Loops

/-- A search that skips groups without a match finds what a search through all groups finds. -/
theorem find?_flatMap_filter {α β : Type} (wanted : β → Bool) (members searched : α → List β)
    (kept : α → Bool) {groups : List α}
    (same : ∀ group ∈ groups, (searched group).find? wanted = (members group).find? wanted)
    (sound : ∀ group ∈ groups, kept group = false → ∀ member ∈ members group,
      wanted member = false) :
    ((groups.filter kept).flatMap searched).find? wanted =
      (groups.flatMap members).find? wanted := by
  -- The induction is on the groups. A group that is skipped has no match, so it adds nothing to the
  -- search through all groups.
  induction groups with
  | nil => rfl
  | cons group rest ih =>
    have later := ih (fun other listed => same other (List.mem_cons_of_mem group listed))
      fun other listed => sound other (List.mem_cons_of_mem group listed)
    rw [List.flatMap_cons, List.find?_append, ← later, List.filter_cons]
    split
    · rw [List.flatMap_cons, List.find?_append, same group List.mem_cons_self]
    · rename_i skipped
      have empty : (members group).find? wanted = none := by
        rw [List.find?_eq_none]
        intro member listed
        simp [sound group List.mem_cons_self (Bool.not_eq_true _ ▸ skipped) member listed]
      rw [empty, Option.none_or]

variable {data : List UInt8} (leftOf : BoundVtx → BoundVtx → Nat → Nat → Bool) (lat lon : Nat)

/-- The position is in the box of a dong and in its ring. -/
def locates (data : List UInt8) (dong : Bound × ChildBound) : Bool :=
  dong.1.llInBound lat lon && llInBoundary leftOf (ringOf data dong.2) lat lon

/-- How a part of the lookup ends, given the first dong it meets that contains the position. -/
def Finds (data : List UInt8) (found : Option (Bound × ChildBound)) (flow : Option Flow) : Prop :=
  match found with
  | some dong => ∃ vars, flow = some (.exit vars) ∧ vars.hcode = dong.2.hcode ∧ Ready data vars
  | none => ∃ vars, flow = some (.next vars) ∧ vars.hcode = .null ∧ Ready data vars

/-- The loop over dongs stops at the first one that contains the position. -/
theorem lookupDongs_finds {dongs : List (Bound × ChildBound)} :
    (∀ dong ∈ dongs, dong.1.llInBound lat lon = true → RingInside data dong.2) →
      ∀ {vars : Lookup}, Ready data vars → vars.hcode = .null →
      Finds data (dongs.find? (locates leftOf lat lon data))
        (lookupDongs leftOf lat lon dongs vars) := by
  -- The induction is on the dongs. A dong that does not contain the position leaves the buffer
  -- behind, which is all that the next one needs.
  induction dongs with
  | nil =>
    intro _ vars ready null
    exact ⟨vars, rfl, null, ready⟩
  | cons dong rest ih =>
    intro rings vars ready null
    have others := fun other member => rings other (List.mem_cons_of_mem dong member)
    rw [lookupDongs]
    cases boxed : dong.1.llInBound lat lon with
    | false =>
      rw [List.find?_cons_of_neg (by simp [locates, boxed])]
      exact ih others ready null
    | true =>
      obtain ⟨after, readyAfter, kept, looked⟩ :=
        lookupDong_eq leftOf (rings dong List.mem_cons_self boxed) ready lat lon
      rw [if_pos rfl, looked]
      cases inRing : llInBoundary leftOf (ringOf data dong.2) lat lon with
      | false =>
        rw [List.find?_cons_of_neg (by simp [locates, inRing])]
        exact ih others readyAfter (kept.trans null)
      | true =>
        rw [List.find?_cons_of_pos (by simp [locates, boxed, inRing])]
        exact ⟨_, rfl, rfl, readyAfter.opened, readyAfter.placed, readyAfter.sized⟩

/-- One region of a level: its part is skipped or searched, and a match ends the search. -/
theorem region_finds {α : Type} (members : α → List (Bound × ChildBound)) (box : α → Bool)
    (part : α → Lookup → Option Flow) (region : α) {rest : List α} {vars : Lookup}
    (ready : Ready data vars) (null : vars.hcode = .null)
    (own : box region = true →
      Finds data ((members region).find? (locates leftOf lat lon data)) (part region vars))
    {loop : Lookup → Option Flow}
    (later : ∀ {vars : Lookup}, Ready data vars → vars.hcode = .null →
      Finds data (((rest.filter box).flatMap members).find? (locates leftOf lat lon data))
        (loop vars)) :
    Finds data ((((region :: rest).filter box).flatMap members).find? (locates leftOf lat lon data))
      (match if box region then part region vars else some (.next vars) with
      | some (.next vars) => if vars.hcode.isNull = false then some (.next vars) else loop vars
      | done => done) := by
  -- The flag of the loop is the code found so far. It is still null when a part ends without a
  -- match, so exactly then the loop goes on.
  cases boxed : box region with
  | false =>
    have searched : vars.hcode.isNull = true := by
      rw [null]
      rfl
    rw [List.filter_cons_of_neg (by simp [boxed]), if_neg (by simp)]
    simp only [searched, Bool.true_eq_false, if_false]
    exact later ready null
  | true =>
    have found := own boxed
    rw [List.filter_cons_of_pos boxed, List.flatMap_cons, List.find?_append, if_pos rfl]
    cases first : (members region).find? (locates leftOf lat lon data) with
    | some dong =>
      rw [first] at found
      obtain ⟨after, ended, hcode, readyAfter⟩ := found
      rw [ended]
      exact ⟨after, rfl, hcode, readyAfter⟩
    | none =>
      rw [first] at found
      obtain ⟨after, ended, hcode, readyAfter⟩ := found
      have searched : after.hcode.isNull = true := by
        rw [hcode]
        rfl
      rw [ended]
      simp only [searched, Bool.true_eq_false, if_false, Option.none_or]
      exact later readyAfter hcode

/-- The dongs of the guguns whose boxes the position is in. -/
def boxedDongs (guguns : List (Bound × DongAdminMap)) : List (Bound × ChildBound) :=
  (guguns.filter fun gugun => gugun.1.llInBound lat lon).flatMap fun gugun => gugun.2.entries

/-- The loop over guguns stops at the first dong that contains the position. -/
theorem lookupGuguns_finds {guguns : List (Bound × DongAdminMap)} :
    (∀ gugun ∈ guguns, ∀ dong ∈ gugun.2.entries, dong.1.llInBound lat lon = true →
      RingInside data dong.2) →
      ∀ {vars : Lookup}, Ready data vars → vars.hcode = .null →
      Finds data ((boxedDongs lat lon guguns).find? (locates leftOf lat lon data))
        (lookupGuguns leftOf lat lon guguns vars) := by
  -- The dongs of the first gugun come in front of those of the others.
  induction guguns with
  | nil =>
    intro _ vars ready null
    exact ⟨vars, rfl, null, ready⟩
  | cons gugun rest ih =>
    intro rings vars ready null
    have others := fun other member => rings other (List.mem_cons_of_mem gugun member)
    rw [lookupGuguns]
    refine region_finds leftOf lat lon (fun gugun => gugun.2.entries) _
      (fun gugun => lookupDongs leftOf lat lon gugun.2.entries) gugun ready null (fun _ => ?_)
      (ih others)
    exact lookupDongs_finds leftOf lat lon (rings gugun List.mem_cons_self) ready null

/-- The loop over sidos stops at the first dong that contains the position. -/
theorem lookupSidos_finds {sidos : List (Bound × GunGuAdminMap)} :
    (∀ sido ∈ sidos, ∀ gugun ∈ sido.2.entries, ∀ dong ∈ gugun.2.entries,
      dong.1.llInBound lat lon = true → RingInside data dong.2) →
      ∀ {vars : Lookup}, Ready data vars → vars.hcode = .null →
      Finds data (((sidos.filter fun sido => sido.1.llInBound lat lon).flatMap fun sido =>
        boxedDongs lat lon sido.2.entries).find? (locates leftOf lat lon data))
        (lookupSidos leftOf lat lon sidos vars) := by
  -- The guguns of the first sido come in front of those of the others.
  induction sidos with
  | nil =>
    intro _ vars ready null
    exact ⟨vars, rfl, null, ready⟩
  | cons sido rest ih =>
    intro rings vars ready null
    have others := fun other member => rings other (List.mem_cons_of_mem sido member)
    rw [lookupSidos]
    refine region_finds leftOf lat lon _ _ (fun sido => lookupGuguns leftOf lat lon sido.2.entries)
      sido ready null (fun _ => ?_) (ih others)
    exact lookupGuguns_finds leftOf lat lon (rings sido List.mem_cons_self) ready null

end Loops

section BruteForce

/-- A box that lies in another one. -/
structure Bound.Within (bound outer : Bound) : Prop where
  left : outer.left ≤ bound.left
  top : bound.top ≤ outer.top
  right : bound.right ≤ outer.right
  bottom : outer.bottom ≤ bound.bottom

instance (bound outer : Bound) : Decidable (bound.Within outer) :=
  decidable_of_iff (outer.left ≤ bound.left ∧ bound.top ≤ outer.top ∧ bound.right ≤ outer.right ∧
    outer.bottom ≤ bound.bottom)
    ⟨fun ⟨left, top, right, bottom⟩ => ⟨left, top, right, bottom⟩,
      fun ⟨left, top, right, bottom⟩ => ⟨left, top, right, bottom⟩⟩

/-- A position outside a box is outside every box in it. -/
theorem Bound.Within.outside {bound outer : Bound} (within : bound.Within outer) {lat lon : Nat}
    (outside : outer.llInBound lat lon = false) : bound.llInBound lat lon = false := by
  obtain ⟨left, top, right, bottom⟩ := within
  have missed := of_decide_eq_false outside
  refine decide_eq_false ?_
  omega

/-- A map whose boxes enclose what is in them, and whose rings can be read from the file. -/
structure WellBoxed (data : List UInt8) (sidos : SidoAdminMap) : Prop where
  sido : ∀ sido ∈ sidos.entries, ∀ gugun ∈ sido.2.entries, gugun.1.Within sido.1
  gugun : ∀ sido ∈ sidos.entries, ∀ gugun ∈ sido.2.entries, ∀ dong ∈ gugun.2.entries,
    dong.1.Within gugun.1
  dong : ∀ dong ∈ allDongs sidos, dong.1.Encloses (ringOf data dong.2)
  ring : ∀ dong ∈ allDongs sidos, RingInside data dong.2
  coded : ∀ dong ∈ allDongs sidos, dong.2.hcode ≠ .null

/-- The dongs of a gugun of a sido are among all dongs. -/
theorem mem_allDongs {sidos : SidoAdminMap} {dong : Bound × ChildBound} :
    dong ∈ allDongs sidos ↔
      ∃ sido ∈ sidos.entries, ∃ gugun ∈ sido.2.entries, dong ∈ gugun.2.entries := by
  simp only [allDongs, List.mem_flatMap]

/-- Only the null code is null. -/
theorem HCode.isNull_iff (hcode : HCode) : hcode.isNull = true ↔ hcode = .null := by
  cases hcode
  simp only [isNull, Bool.and_eq_true, beq_iff_eq, and_assoc, null, HCode.mk.injEq]

/-- The first dong in the order of the maps whose ring contains the position. -/
def firstDong (data : List UInt8) (sidos : SidoAdminMap) (lat lon : Nat) :
    Option (Bound × ChildBound) :=
  (allDongs sidos).find? fun dong => llInBoundary exactLeftOf (ringOf data dong.2) lat lon

/-- Skipping boxes does not change which dong is found first. -/
theorem find?_boxed {data : List UInt8} {sidos : SidoAdminMap} (boxed : WellBoxed data sidos)
    (lat lon : Nat) :
    ((sidos.entries.filter fun sido => sido.1.llInBound lat lon).flatMap fun sido =>
      boxedDongs lat lon sido.2.entries).find? (locates exactLeftOf lat lon data) =
      firstDong data sidos lat lon := by
  -- A dong whose ring contains the position has it in its box, hence in all boxes around it.
  have inBox : ∀ dong ∈ allDongs sidos,
      locates exactLeftOf lat lon data dong =
        llInBoundary exactLeftOf (ringOf data dong.2) lat lon := by
    intro dong member
    cases own : dong.1.llInBound lat lon with
    | true => simp [locates, own]
    | false => simp [locates, own, llInBoundary_outside (boxed.dong dong member) own]
  have inGugun : ∀ sido ∈ sidos.entries,
      (boxedDongs lat lon sido.2.entries).find? (locates exactLeftOf lat lon data) =
        (sido.2.entries.flatMap fun gugun => gugun.2.entries).find?
          (locates exactLeftOf lat lon data) := by
    intro sido listed
    refine find?_flatMap_filter _ _ _ _ (fun _ _ => rfl) fun gugun member skipped dong inside => ?_
    have outside := (boxed.gugun sido listed gugun member dong inside).outside skipped
    rw [locates, outside, Bool.false_and]
  rw [find?_flatMap_filter _ (fun sido => sido.2.entries.flatMap fun gugun => gugun.2.entries) _ _
    inGugun]
  · exact List.find?_congr inBox
  · intro sido listed skipped dong member
    obtain ⟨gugun, within, inside⟩ := List.mem_flatMap.mp member
    have outer := (boxed.sido sido listed gugun within).outside skipped
    have outside := (boxed.gugun sido listed gugun within dong inside).outside outer
    rw [locates, outside, Bool.false_and]

variable {manager : AdminBoundManager} {fp : File}

/-- The bytes of a box. -/
def boxBytes (bound : Bound) : List UInt8 :=
  [bound.left, bound.top, bound.right, bound.bottom].flatMap (leBytes 4)

/-- A file of one sido with one gugun and one dong, a square. -/
def squareFile : File where
  data := List.replicate 60 0 ++ leBytes 4 1 ++ boxBytes ⟨10, 40, 30, 20⟩ ++ [1] ++
    boxBytes ⟨10, 40, 30, 20⟩ ++ [1] ++
    boxBytes ⟨10, 40, 30, 20⟩ ++ leBytes 4 125 ++ leBytes 2 4 ++ [11, 5, 0x70, 0, 0] ++
    [10, 20, 30, 20, 30, 40, 10, 40].flatMap (leBytes 4)
  pos := 0
  addressable := by decide +kernel

/-- The manager after that file was loaded. -/
def squareManager : AdminBoundManager := (AdminBoundManager.start.create squareFile).getD .start

theorem squareManager_created : AdminBoundManager.start.create squareFile = some squareManager := by
  have loaded : (AdminBoundManager.start.create squareFile).isSome = true := by decide +kernel
  obtain ⟨manager, created⟩ := Option.isSome_iff_exists.mp loaded
  rw [squareManager, created]
  rfl

/-- The lookup finds the first dong whose ring contains the position, among all dongs. -/
theorem findHCode_first (opened : manager.pFile = some fp)
    (boxed : WellBoxed fp.data manager.boundaryMap) (lat lon : Nat) (hcode : HCode) :
    ∃ after : File, after.data = fp.data ∧
      manager.findHCode exactLeftOf lat lon hcode =
        some (match firstDong fp.data manager.boundaryMap lat lon with
          | some dong => (true, dong.2.hcode, some after)
          | none => (false, .null, some after)) := by
  -- The loops search the dongs of the boxes that contain the position, and the boxes are right
  -- about their dongs, so they find what a search through all dongs finds.
  have rings : ∀ sido ∈ manager.boundaryMap.entries, ∀ gugun ∈ sido.2.entries,
      ∀ dong ∈ gugun.2.entries, dong.1.llInBound lat lon = true → RingInside fp.data dong.2 := by
    intro sido listed gugun within dong inside _
    exact boxed.ring dong (mem_allDongs.mpr ⟨sido, listed, gugun, within, inside⟩)
  have ready : Ready fp.data ⟨fp.fseek 0, none, 0, .null⟩ :=
    ⟨rfl, Nat.two_pow_pos 31, fun _ held => nomatch held⟩
  have found := lookupSidos_finds exactLeftOf lat lon rings ready rfl
  rw [find?_boxed boxed] at found
  simp only [AdminBoundManager.findHCode, opened]
  cases first : firstDong fp.data manager.boundaryMap lat lon with
  | some dong =>
    rw [first] at found
    obtain ⟨vars, ended, coded, after⟩ := found
    have filled : vars.hcode.isNull = false := by
      rw [Bool.eq_false_iff, coded]
      intro null
      exact boxed.coded dong (List.mem_of_find?_eq_some first) ((HCode.isNull_iff _).mp null)
    refine ⟨vars.fp, after.opened, ?_⟩
    rw [ended]
    simp only [coded] at filled ⊢
    rw [filled, Bool.not_false]
  | none =>
    rw [first] at found
    obtain ⟨vars, ended, coded, after⟩ := found
    refine ⟨vars.fp, after.opened, ?_⟩
    rw [ended]
    simp only [coded]
    rfl

/-- The map of one square is well boxed, and finds a position inside and none outside. -/
theorem findHCode_first_square :
    (∃ after : File, after.data = (squareFile.moveTo 125).data ∧
      squareManager.findHCode exactLeftOf 30 20 .null = some (true, ⟨11, 5, 7⟩, some after)) ∧
    ∃ after : File, after.data = (squareFile.moveTo 125).data ∧
      squareManager.findHCode exactLeftOf 30 31 .null = some (false, .null, some after) := by
  -- One position is inside the square, and no dong is found for the other.
  have opened : squareManager.pFile = some (squareFile.moveTo 125) := by decide +kernel
  have boxed : WellBoxed (squareFile.moveTo 125).data squareManager.boundaryMap :=
    ⟨by decide +kernel, by decide +kernel, by decide +kernel, by decide +kernel, by decide +kernel⟩
  constructor
  · have first : firstDong (squareFile.moveTo 125).data squareManager.boundaryMap 30 20 =
        some (⟨10, 40, 30, 20⟩, ⟨⟨10, 40, 30, 20⟩, 125, 4, ⟨11, 5, 7⟩⟩) := by decide +kernel
    have found := findHCode_first opened boxed 30 20 .null
    rw [first] at found
    exact found
  · have none : firstDong (squareFile.moveTo 125).data squareManager.boundaryMap 30 31 = none := by
      decide +kernel
    have found := findHCode_first opened boxed 30 31 .null
    rw [none] at found
    exact found

end BruteForce

end AndroidApps.Gildroia
