import AndroidApps.Gildroia.Address
import Mathlib.Data.List.Chain

/-! Which sigungu `FindSigunguOfOffset` finds, and what a sigungu without roads does to it. -/

namespace AndroidApps.Gildroia

section Scan

variable {start : SigunguDataF → Nat} {ofs : Nat}

/-- The scan ends at the first record that begins behind the offset, and gives the one before. -/
theorem findSigunguFrom_eq (records : List SigunguDataF) : ∀ before : Option SigunguDataF,
    findSigunguFrom start ofs before records =
      (records.takeWhile fun sdF => decide (start sdF ≤ ofs)).getLast?.or before := by
  -- The record before the current one is the last of those that were passed.
  induction records with
  | nil =>
    intro before
    rfl
  | cons sdF rest ih =>
    intro before
    rw [findSigunguFrom, List.takeWhile_cons]
    by_cases behind : start sdF > ofs
    · rw [if_pos behind, if_neg (by simpa using behind)]
      rfl
    · rw [if_neg behind, ih, if_pos (by simpa using behind), List.getLast?_cons]
      cases (rest.takeWhile fun sdF => decide (start sdF ≤ ofs)).getLast? with
      | none => rfl
      | some last => rfl

/-- Records that all begin at or before the offset are passed, up to the last of them. -/
theorem findSigunguFrom_passed {front behind : List SigunguDataF} {sdF : SigunguDataF}
    (passed : ∀ earlier ∈ front, start earlier ≤ ofs) (own : start sdF ≤ ofs) :
    findSigunguFrom start ofs none (front ++ sdF :: behind) =
      (behind.takeWhile fun later => decide (start later ≤ ofs)).getLast?.or (some sdF) := by
  rw [findSigunguFrom_eq, List.takeWhile_append_of_pos (by simpa using passed), List.takeWhile_cons,
    if_pos (by simpa using own), List.getLast?_append, List.getLast?_cons, Option.or_none]
  cases (behind.takeWhile fun later => decide (start later ≤ ofs)).getLast? with
  | none => rfl
  | some last => rfl

end Scan

section Regions

/-- A list of sigungus in the order of the file, whose roads stand in the same order. -/
structure SigungusOrdered (records : List SigunguDataF) : Prop where
  offset : records.Pairwise fun first later => first.offset < later.offset
  -- A sigungu without roads has `road_ofs` 0.
  road : records.Pairwise fun first later => later.roadOfs ≠ 0 → first.roadOfs < later.roadOfs

/-- An offset at or behind a sigungu of the list, and in front of the next one. -/
def InDongRegion (records : List SigunguDataF) (sdF : SigunguDataF) (ofs : Nat) : Prop :=
  ∃ front behind, records = front ++ sdF :: behind ∧ sdF.offset ≤ ofs ∧
    ∀ next, behind.head? = some next → ofs < next.offset

/-- An offset at or behind the roads of a sigungu, and in front of the next ones of the list. -/
def InRoadRegion (records : List SigunguDataF) (sdF : SigunguDataF) (ofs : Nat) : Prop :=
  ∃ front behind, records = front ++ sdF :: behind ∧ sdF.roadOfs ≠ 0 ∧ sdF.roadOfs ≤ ofs ∧
    ∀ next, (behind.find? fun later => later.roadOfs ≠ 0) = some next → ofs < next.roadOfs

variable {helper : SearchHelper} {sdF : SigunguDataF} {ofs : Nat}

/-- The sigungu of an offset of the dong region is found. -/
theorem findSigunguOfOffset_dong (ordered : SigungusOrdered helper.sigunguDataFs)
    (region : InDongRegion helper.sigunguDataFs sdF ofs) :
    helper.findSigunguOfOffset ofs false = some sdF := by
  obtain ⟨front, behind, listed, own, above⟩ := region
  have offsets := ordered.offset
  rw [listed] at offsets
  have earlier : ∀ other ∈ front, other.offset ≤ ofs := by
    intro other member
    have := (List.pairwise_append.mp offsets).2.2 other member sdF List.mem_cons_self
    omega
  unfold SearchHelper.findSigunguOfOffset
  rw [listed]
  refine (findSigunguFrom_passed earlier own).trans ?_
  -- The scan stops right behind the sigungu, or the list ends there.
  cases behind with
  | nil => rfl
  | cons next rest =>
    rw [List.takeWhile_cons, if_neg]
    · rfl
    · simpa using above next rfl

/-- Where the scan for the sigungu of a road goes, from the sigungu itself on. -/
theorem findSigunguOfOffset_road {front behind : List SigunguDataF}
    (ordered : SigungusOrdered helper.sigunguDataFs)
    (listed : helper.sigunguDataFs = front ++ sdF :: behind) (roads : sdF.roadOfs ≠ 0)
    (own : sdF.roadOfs ≤ ofs) :
    helper.findSigunguOfOffset ofs true =
      (behind.takeWhile fun later => decide (later.roadOfs ≤ ofs)).getLast?.or (some sdF) := by
  -- The roads of the sigungus in front begin earlier, because this one has roads.
  have order := ordered.road
  rw [listed] at order
  have earlier : ∀ other ∈ front, other.roadOfs ≤ ofs := by
    intro other member
    have := (List.pairwise_append.mp order).2.2 other member sdF List.mem_cons_self roads
    omega
  unfold SearchHelper.findSigunguOfOffset
  rw [listed]
  exact findSigunguFrom_passed earlier own

/-- In the road region the scan never steps in front of the first record. -/
theorem findSigunguOfOffset_road_isSome (ordered : SigungusOrdered helper.sigunguDataFs)
    (region : InRoadRegion helper.sigunguDataFs sdF ofs) :
    (helper.findSigunguOfOffset ofs true).isSome = true := by
  obtain ⟨front, behind, listed, roads, own, _⟩ := region
  rw [findSigunguOfOffset_road ordered listed roads own, Option.isSome_or, Option.isSome_some,
    Bool.or_true]

/-- The sigungu of a road is found exactly when the next record, if there is one, has roads too. -/
theorem findSigunguOfOffset_road_iff {front behind : List SigunguDataF}
    (ordered : SigungusOrdered helper.sigunguDataFs)
    (listed : helper.sigunguDataFs = front ++ sdF :: behind) (roads : sdF.roadOfs ≠ 0)
    (own : sdF.roadOfs ≤ ofs)
    (above : ∀ next, (behind.find? fun later => later.roadOfs ≠ 0) = some next →
      ofs < next.roadOfs) :
    helper.findSigunguOfOffset ofs true = some sdF ↔
      ∀ next, behind.head? = some next → next.roadOfs ≠ 0 := by
  rw [findSigunguOfOffset_road ordered listed roads own]
  cases behind with
  | nil => simp
  | cons next rest =>
    by_cases without : next.roadOfs = 0
    · -- A record without roads is passed, so that the scan ends at it or behind it.
      have offsets := ordered.offset
      rw [listed] at offsets
      have later := (List.pairwise_cons.mp (List.pairwise_append.mp offsets).2.1).1
      have passed : decide (next.roadOfs ≤ ofs) = true := decide_eq_true (without ▸ Nat.zero_le ofs)
      rw [List.takeWhile_cons, if_pos passed, List.getLast?_cons]
      refine ⟨fun same => ?_, fun all => (all next rfl without).elim⟩
      rw [Option.some_or, Option.some.injEq] at same
      have reached : sdF ∈ next :: rest := by
        rw [← same]
        cases ends : (rest.takeWhile fun later => decide (later.roadOfs ≤ ofs)).getLast? with
        | none => exact List.mem_cons_self
        | some last =>
          have within := List.mem_of_getLast? ends
          exact List.mem_cons_of_mem next ((List.takeWhile_prefix _).subset within)
      exact (Nat.lt_irrefl _ (later sdF reached)).elim
    · -- The next record with roads begins behind the offset, and the scan stops at it.
      have first : ((next :: rest).find? fun later => later.roadOfs ≠ 0) = some next := by
        rw [List.find?_cons_of_pos]
        exact decide_eq_true without
      have beyond := above next first
      rw [List.takeWhile_cons, if_neg (by simpa using beyond)]
      simpa using without

/--
What `FindSigunguOfOffset` is for: an offset is taken to the sigungu whose region it lies in.

There are two regions for each sigungu, one for its dongs and one for its roads. As a record is
found, the scan does not step in front of the first one.
-/
structure FindsRegions (helper : SearchHelper) : Prop where
  dong : ∀ sdF ofs, InDongRegion helper.sigunguDataFs sdF ofs →
    helper.findSigunguOfOffset ofs false = some sdF
  road : ∀ sdF ofs, InRoadRegion helper.sigunguDataFs sdF ofs →
    helper.findSigunguOfOffset ofs true = some sdF

/-- Every offset is taken to its sigungu exactly when none without roads follows one with roads. -/
theorem findSigunguOfOffset_iff (helper : SearchHelper)
    (ordered : SigungusOrdered helper.sigunguDataFs) :
    FindsRegions helper ↔
      helper.sigunguDataFs.IsChain fun sdF next => sdF.roadOfs ≠ 0 → next.roadOfs ≠ 0 := by
  rw [List.isChain_iff_forall_rel_of_append_cons_cons]
  constructor
  · intro finds sdF next front behind listed roads
    -- The first offset of the roads is already taken elsewhere when the next record has none.
    have order := ordered.road
    rw [listed] at order
    have later := (List.pairwise_cons.mp (List.pairwise_append.mp order).2.1).1
    have above : ∀ other, ((next :: behind).find? fun later => later.roadOfs ≠ 0) = some other →
        sdF.roadOfs < other.roadOfs := by
      intro other found
      exact later other (List.mem_of_find?_eq_some found) (by simpa using List.find?_some found)
    have found := finds.road sdF sdF.roadOfs
      ⟨front, next :: behind, listed, roads, Nat.le_refl _, above⟩
    exact (findSigunguOfOffset_road_iff ordered listed roads (Nat.le_refl _) above).mp found
      next rfl
  · intro condition
    refine ⟨fun sdF ofs region => findSigunguOfOffset_dong ordered region, ?_⟩
    rintro sdF ofs ⟨front, behind, listed, roads, own, above⟩
    refine (findSigunguOfOffset_road_iff ordered listed roads own above).mpr ?_
    intro next first
    obtain ⟨rest, rfl⟩ := List.head?_eq_some_iff.mp first
    exact condition listed roads

/-- A helper of a sido with some sigungus, of whose file nothing else is known. -/
def regionHelper (records : List SigunguDataF) : SearchHelper :=
  { SearchHelper.readHeaders zeroAddressLocals ⟨[], 0, Nat.two_pow_pos 31⟩ with
    sigunguDataFs := records }

/-- With the sigungu without roads in front of the others, every offset is taken to its sigungu. -/
theorem findSigunguOfOffset_iff_front :
    FindsRegions (regionHelper [⟨1, 0, 10⟩, ⟨2, 100, 30⟩, ⟨3, 200, 50⟩]) :=
  (findSigunguOfOffset_iff (regionHelper [⟨1, 0, 10⟩, ⟨2, 100, 30⟩, ⟨3, 200, 50⟩])
    ⟨by decide, by decide⟩).mpr (by decide)

/-- With the sigungu without roads behind another one, it is given for the roads of that one. -/
theorem findSigunguOfOffset_behind :
    SigungusOrdered (regionHelper [⟨1, 100, 10⟩, ⟨2, 0, 30⟩, ⟨3, 200, 50⟩]).sigunguDataFs ∧
      ¬ FindsRegions (regionHelper [⟨1, 100, 10⟩, ⟨2, 0, 30⟩, ⟨3, 200, 50⟩]) := by
  -- The sigungu in the middle has no roads, and its zero does not stop the scan.
  refine ⟨⟨by decide, by decide⟩, fun finds => ?_⟩
  have region : InRoadRegion (regionHelper [⟨1, 100, 10⟩, ⟨2, 0, 30⟩, ⟨3, 200, 50⟩]).sigunguDataFs
      ⟨1, 100, 10⟩ 150 := by
    refine ⟨[], [⟨2, 0, 30⟩, ⟨3, 200, 50⟩], rfl, by decide, by decide, ?_⟩
    intro next found
    cases found
    decide
  have found := finds.road _ _ region
  cases found

end Regions

end AndroidApps.Gildroia
