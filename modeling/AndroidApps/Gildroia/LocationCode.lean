import AndroidApps.Gildroia.AdminBoundLaws
import AndroidApps.Lib.Refinement

/-! The code of the region a position lies in: how changes are detected and reported. -/

namespace AndroidApps.Gildroia

/-- The `sidoCode` column of `g_sido_info`. -/
def sidoCodes : List Nat := [11, 26, 27, 28, 29, 30, 31, 41, 42, 43, 44, 45, 46, 47, 48, 50]

/-- A `jlong` passed on as a `u32`. -/
def u32OfLong (value : Int) : Nat := (value % 2 ^ 32).toNat

/-- What `JNI_ChangedLocationCode` returns, whose last three values are set only on a change. -/
structure LocationCode where
  code : Nat
  changed : Option (Nat × Nat × Nat)
  deriving DecidableEq

section Calls

variable (leftOf : BoundVtx → BoundVtx → Nat → Nat → Bool)

/-- `SetLocationPos` on `g_pAdminBound`. -/
def setLocationPos (admin : Option AdminBoundManager) (lon lat : Int) :
    Option (Option AdminBoundManager) :=
  match admin with
  | none => some none
  | some manager => (manager.findBound leftOf (u32OfLong lat) (u32OfLong lon)).map some

/-- `JNI_ChangedLocationCode` on `g_pAdminBound`. -/
def changedLocationCode (admin : Option AdminBoundManager) :
    LocationCode × Option AdminBoundManager :=
  match admin with
  | none => (⟨0, none⟩, none)
  | some manager =>
    let (changedFlag, manager) := manager.ifChangedHCode
    if changedFlag ≠ 0 then
      let hCode := manager.hCode
      -- A code that is not in the table ends the search at its length.
      let sidoIdx := sidoCodes.findIdx fun sidoCode => sidoCode == hCode.sido
      (⟨sidoIdx * 100000000 + hCode.gugun * 100000 + hCode.dong,
        some (changedFlag &&& 1, changedFlag &&& 2, changedFlag &&& 4)⟩, some manager)
    else (⟨0, none⟩, some manager)

/-- The two calls through which the map follows its position. -/
inductive LocationCall where
  | setLocationPos (lon lat : Int)
  | changedLocationCode
  deriving DecidableEq

/-- A call and its answer, which only the second kind has. -/
def locationCall (admin : Option AdminBoundManager) :
    LocationCall → Option (Option LocationCode × Option AdminBoundManager)
  | .setLocationPos lon lat => (setLocationPos leftOf admin lon lat).map fun admin => (none, admin)
  | .changedLocationCode => some ((changedLocationCode admin).map some id)

/-- The two calls on the manager itself. -/
inductive BoundCall where
  | findBound (lat lon : Nat)
  | ifChangedHCode
  deriving DecidableEq

/-- A call and the mask returned, which only the second kind has. -/
def boundCall (manager : AdminBoundManager) : BoundCall → Option (Option Nat × AdminBoundManager)
  | .findBound lat lon => (manager.findBound leftOf lat lon).map fun manager => (none, manager)
  | .ifChangedHCode => some (manager.ifChangedHCode.map some id)

end Calls

section Detector

/-- The bits of the fields in which two codes differ. -/
def HCode.changedBits (old new : HCode) : Nat :=
  (if old.sido ≠ new.sido then 1 else 0) + (if old.gugun ≠ new.gugun then 2 else 0) +
    (if old.dong ≠ new.dong then 4 else 0)

/-- Codes without differing fields are the same. -/
theorem HCode.changedBits_eq_zero (old new : HCode) : old.changedBits new = 0 ↔ old = new := by
  cases old
  cases new
  simp only [changedBits, HCode.mk.injEq]
  split <;> split <;> split <;> simp_all

/-- Each bit stands for its field. -/
theorem HCode.changedBits_fields (old new : HCode) :
    (old.changedBits new &&& 1 ≠ 0 ↔ old.sido ≠ new.sido) ∧
      (old.changedBits new &&& 2 ≠ 0 ↔ old.gugun ≠ new.gugun) ∧
      (old.changedBits new &&& 4 ≠ 0 ↔ old.dong ≠ new.dong) := by
  unfold changedBits
  by_cases sido : old.sido = new.sido <;> by_cases gugun : old.gugun = new.gugun <;>
    by_cases dong : old.dong = new.dong <;> simp [sido, gugun, dong]

namespace AdminBoundManager

variable (manager : AdminBoundManager)

/-- The mask of a call. -/
theorem ifChangedHCode_mask : manager.ifChangedHCode.1 =
    if manager.hCode.isNull then 7 else manager.hCode.changedBits manager.tmpHCode := by
  unfold ifChangedHCode HCode.changedBits
  split <;> rfl

/-- Whatever a call returns, the located code is the current one behind it. -/
theorem ifChangedHCode_next :
    manager.ifChangedHCode.2 = { manager with hCode := manager.tmpHCode } := by
  unfold ifChangedHCode
  split
  · rfl
  · -- Nothing is stored when the codes agree, and nothing has to be.
    change (if manager.hCode.changedBits manager.tmpHCode ≠ 0 then _ else _) = _
    split
    · rfl
    · rename_i unchanged
      rw [ne_eq, not_not, HCode.changedBits_eq_zero] at unchanged
      cases manager
      cases unchanged
      rfl

variable {manager}

/-- With a code stored, the mask has the bits of the fields that differ from it. -/
theorem ifChangedHCode_stored (stored : manager.hCode ≠ .null) :
    (manager.ifChangedHCode.1 ≠ 0 ↔ manager.tmpHCode ≠ manager.hCode) ∧
      (manager.ifChangedHCode.1 &&& 1 ≠ 0 ↔ manager.tmpHCode.sido ≠ manager.hCode.sido) ∧
      (manager.ifChangedHCode.1 &&& 2 ≠ 0 ↔ manager.tmpHCode.gugun ≠ manager.hCode.gugun) ∧
      (manager.ifChangedHCode.1 &&& 4 ≠ 0 ↔ manager.tmpHCode.dong ≠ manager.hCode.dong) := by
  -- A stored code is not the null code, so that the mask compares field by field.
  have compared : manager.ifChangedHCode.1 = manager.hCode.changedBits manager.tmpHCode := by
    rw [ifChangedHCode_mask, if_neg (by rwa [HCode.isNull_iff])]
  obtain ⟨sido, gugun, dong⟩ := manager.hCode.changedBits_fields manager.tmpHCode
  rw [compared]
  refine ⟨?_, sido.trans ne_comm, gugun.trans ne_comm, dong.trans ne_comm⟩
  rw [ne_eq, HCode.changedBits_eq_zero]
  exact ne_comm

/-- A call behind another one returns 0, once a code was located. -/
theorem ifChangedHCode_again (found : manager.tmpHCode ≠ .null) :
    manager.ifChangedHCode.2.ifChangedHCode.1 = 0 := by
  rw [ifChangedHCode_mask, ifChangedHCode_next, if_neg (by rwa [HCode.isNull_iff]),
    HCode.changedBits_eq_zero]

end AdminBoundManager

variable (leftOf : BoundVtx → BoundVtx → Nat → Nat → Bool)

/-- The code a lookup in the map of a manager locates. -/
def codeAt (manager : AdminBoundManager) (lat lon : Nat) : HCode :=
  match manager.findHCode leftOf lat lon .null with
  | some (_, hcode, _) => hcode
  | none => .null

/-- Two managers of the same map and the same file, which may stand at different positions in it. -/
structure SameMap (manager other : AdminBoundManager) : Prop where
  boundaryMap : manager.boundaryMap = other.boundaryMap
  pFile : manager.pFile.map File.data = other.pFile.map File.data

/-- A lookup with a file does not depend on the position in it. -/
theorem findHCode_sameMap {manager other : AdminBoundManager} (same : SameMap manager other)
    (hcode otherCode : HCode) (lat lon : Nat) {fp : File} (opened : manager.pFile = some fp) :
    manager.findHCode leftOf lat lon hcode = other.findHCode leftOf lat lon otherCode := by
  -- The lookup begins by seeking to the start of the file, so what is left of an earlier one does
  -- not matter.
  have files := same.pFile
  rw [opened, Option.map_some] at files
  obtain ⟨otherFp, openedOther, data⟩ := Option.map_eq_some_iff.mp files.symm
  have rewound : fp.fseek 0 = otherFp.fseek 0 := by
    rw [File.fseek_of_lt (by decide), File.fseek_of_lt (by decide)]
    exact File.moveTo_eq_of_data data.symm 0
  simp only [AdminBoundManager.findHCode, opened, openedOther, same.boundaryMap, rewound]

/-- A lookup locates the code at the position, and changes nothing else that is looked at. -/
theorem findBound_located {manager other : AdminBoundManager} (same : SameMap manager other)
    (idle : manager.pFile = none → manager.tmpHCode = .null) (lat lon : Nat) :
    ∃ next, manager.findBound leftOf lat lon = some next ∧ SameMap next other ∧
      next.hCode = manager.hCode ∧ next.tmpHCode = codeAt leftOf other lat lon := by
  -- Without a file the lookup answers nothing and the code stays as it was, which is null from the
  -- start.
  cases opened : manager.pFile with
  | none =>
    have unopened : other.pFile = none := by
      have files := same.pFile
      rw [opened, Option.map_none] at files
      exact Option.map_eq_none_iff.mp files.symm
    refine ⟨{ manager with pFile := none }, ?_, ⟨same.boundaryMap, ?_⟩, rfl, ?_⟩
    · simp [AdminBoundManager.findBound, AdminBoundManager.findHCode, opened]
    · rw [unopened]
    · simp [codeAt, AdminBoundManager.findHCode, unopened, idle opened]
  | some fp =>
    obtain ⟨found, hcode, after, looked, kept⟩ :=
      findHCode_returns leftOf opened lat lon manager.tmpHCode
    refine ⟨{ manager with tmpHCode := hcode, pFile := some after }, ?_,
      ⟨same.boundaryMap, ?_⟩, rfl, ?_⟩
    · rw [AdminBoundManager.findBound, looked]
      rfl
    · rw [← same.pFile, opened, Option.map_some, Option.map_some, kept]
    · rw [codeAt, ← findHCode_sameMap leftOf same manager.tmpHCode .null lat lon opened, looked]

variable (manager : AdminBoundManager)

/-- The code located by the last lookup of a run, given with its last call first. -/
def located : List (BoundCall × Option Nat) → HCode
  | [] => .null
  | (.findBound lat lon, _) :: _ => codeAt leftOf manager lat lon
  | (.ifChangedHCode, _) :: past => located past

/-- The code reported by the last call of a run that returned a mask other than 0. -/
def reported : List (BoundCall × Option Nat) → HCode
  | [] => .null
  | (.findBound _ _, _) :: past => reported past
  | (.ifChangedHCode, mask) :: past =>
    if mask = some 0 then reported past else located leftOf manager past

/-- A manager in the middle of a run. -/
structure Detects (past : List (BoundCall × Option Nat)) (state : AdminBoundManager) : Prop where
  same : SameMap state manager
  tmpHCode : state.tmpHCode = located leftOf manager past
  hCode : state.hCode = reported leftOf manager past

/-- Nothing is located without a file. -/
theorem located_idle (unopened : manager.pFile = none) (past : List (BoundCall × Option Nat)) :
    located leftOf manager past = .null := by
  -- Without a file every lookup answers with the null code.
  induction past with
  | nil => rfl
  | cons entry past ih =>
    obtain ⟨call, answer⟩ := entry
    cases call with
    | findBound lat lon => simp [located, codeAt, AdminBoundManager.findHCode, unopened]
    | ifChangedHCode => exact ih

/-- Each call keeps the two codes those of the run so far. -/
theorem boundCall_detects {past : List (BoundCall × Option Nat)} {state : AdminBoundManager}
    (detects : Detects leftOf manager past state) (call : BoundCall) :
    ∃ answer next, boundCall leftOf state call = some (answer, next) ∧
      Detects leftOf manager ((call, answer) :: past) next := by
  obtain ⟨same, tmpHCode, hCode⟩ := detects
  cases call with
  | findBound lat lon =>
    have idle : state.pFile = none → state.tmpHCode = .null := by
      intro unopened
      have files := same.pFile
      rw [unopened, Option.map_none] at files
      rw [tmpHCode, located_idle leftOf manager (Option.map_eq_none_iff.mp files.symm)]
    obtain ⟨next, looked, sameNext, kept, found⟩ := findBound_located leftOf same idle lat lon
    refine ⟨none, next, ?_, sameNext, found, kept.trans hCode⟩
    rw [boundCall, looked]
    rfl
  | ifChangedHCode =>
    refine ⟨some state.ifChangedHCode.1, state.ifChangedHCode.2, rfl, ?_, ?_, ?_⟩
    · rw [AdminBoundManager.ifChangedHCode_next]
      exact ⟨same.boundaryMap, same.pFile⟩
    · rw [AdminBoundManager.ifChangedHCode_next]
      exact tmpHCode
    · rw [AdminBoundManager.ifChangedHCode_next, reported]
      split
      · -- A mask of 0 means that the located code had been reported already.
        rename_i silent
        rw [Option.some.injEq, AdminBoundManager.ifChangedHCode_mask] at silent
        split at silent
        · cases silent
        · rw [HCode.changedBits_eq_zero] at silent
          exact silent.symm.trans hCode
      · exact tmpHCode

variable {manager}

/--
In every run from null codes a call reports a change against the code reported last.

Before anything was reported, a located code is reported with all its fields.
-/
theorem ifChangedHCode_detects (stored : manager.hCode = .null)
    (lookedUp : manager.tmpHCode = .null)
    (calls : List BoundCall) :
    ∃ answers state mask next,
      Machine.run (boundCall leftOf) manager calls = some (answers, state) ∧
      boundCall leftOf state .ifChangedHCode = some (some mask, next) ∧
      let past := (calls.zip answers).reverse
      let old := reported leftOf manager past
      let new := located leftOf manager past
      (old ≠ .null → (mask ≠ 0 ↔ new ≠ old) ∧ (mask &&& 1 ≠ 0 ↔ new.sido ≠ old.sido) ∧
        (mask &&& 2 ≠ 0 ↔ new.gugun ≠ old.gugun) ∧ (mask &&& 4 ≠ 0 ↔ new.dong ≠ old.dong)) ∧
      (old = .null → new ≠ .null → mask = 7) ∧
      next.hCode = new ∧
      (new ≠ .null → ∃ last, boundCall leftOf next .ifChangedHCode = some (some 0, last)) := by
  -- The invariant of a run is that the two stored codes are the one located last and the one
  -- reported last. The call itself is then a comparison of the two.
  have start : Detects leftOf manager [] manager := ⟨⟨rfl, rfl⟩, lookedUp, stored⟩
  have free : ∀ calls state, Machine.Along (boundCall leftOf) (fun _ _ => True) state calls := by
    intro calls
    induction calls with
    | nil => exact fun _ => trivial
    | cons call rest ih => exact fun state => ⟨trivial, fun _ next _ => ih next⟩
  obtain ⟨answers, state, ran, detects⟩ := Machine.run_traced (Detects leftOf manager)
    (fun _ _ call detects _ => boundCall_detects leftOf manager detects call) calls [] manager start
    (free calls manager)
  rw [List.append_nil] at detects
  obtain ⟨_, tmpHCode, hCode⟩ := detects
  refine ⟨answers, state, state.ifChangedHCode.1, state.ifChangedHCode.2, ran, rfl, ?_⟩
  simp only [← tmpHCode, ← hCode]
  refine ⟨AdminBoundManager.ifChangedHCode_stored, ?_, ?_, ?_⟩
  · intro unknown _
    rw [AdminBoundManager.ifChangedHCode_mask, if_pos ((HCode.isNull_iff _).mpr unknown)]
  · rw [AdminBoundManager.ifChangedHCode_next]
  · intro found
    refine ⟨state.ifChangedHCode.2.ifChangedHCode.2, ?_⟩
    rw [boundCall, Prod.map, AdminBoundManager.ifChangedHCode_again found, id]

/-- The manager of one square, whose dong belongs to no gugun. -/
def citySquare : AdminBoundManager where
  boundaryMap := StdMap.empty.insert ⟨10, 40, 30, 20⟩ (StdMap.empty.insert ⟨10, 40, 30, 20⟩
    (StdMap.empty.insert ⟨10, 40, 30, 20⟩ ⟨⟨10, 40, 30, 20⟩, 125, 4, ⟨36, 0, 7⟩⟩))
  hCode := .null
  tmpHCode := .null
  pFile := squareManager.pFile

/-- The first code located is reported whole, and not again. -/
theorem ifChangedHCode_detects_square :
    ∃ state mask next,
      Machine.run (boundCall exactLeftOf) squareManager [.findBound 30 20] = some ([none], state) ∧
      boundCall exactLeftOf state .ifChangedHCode = some (some mask, next) ∧
      mask = 7 ∧ next.hCode = ⟨11, 5, 7⟩ ∧
      ∃ last, boundCall exactLeftOf next .ifChangedHCode = some (some 0, last) := by
  -- The position is inside the square, so that the first call reports all three fields.
  have silent :
      (Machine.run (boundCall exactLeftOf) squareManager [.findBound 30 20]).map Prod.fst =
      some [none] := by decide +kernel
  have stored : squareManager.hCode = .null := by decide +kernel
  have lookedUp : squareManager.tmpHCode = .null := by decide +kernel
  have new : located exactLeftOf squareManager [(.findBound 30 20, none)] = ⟨11, 5, 7⟩ := by
    decide +kernel
  obtain ⟨answers, state, mask, next, ran, called, _, first, after, again⟩ :=
    ifChangedHCode_detects exactLeftOf stored lookedUp [.findBound 30 20]
  rw [ran, Option.map_some, Option.some.injEq] at silent
  cases silent
  have some : located exactLeftOf squareManager [(.findBound 30 20, none)] ≠ .null := by
    rw [new]
    decide
  exact ⟨state, mask, next, ran, called, first rfl some, after.trans new, again some⟩

/-- The first call reports all fields: without a code located, and when one of them is 0. -/
theorem ifChangedHCode_first_all :
    (boundCall exactLeftOf citySquare .ifChangedHCode).map Prod.fst = some (some 7) ∧
      located exactLeftOf citySquare [] = reported exactLeftOf citySquare [] ∧
      (Machine.run (boundCall exactLeftOf) citySquare [.findBound 30 20, .ifChangedHCode]).map
        Prod.fst = some [none, some 7] ∧
      (located exactLeftOf citySquare [(.findBound 30 20, none)]).gugun =
        (reported exactLeftOf citySquare [(.findBound 30 20, none)]).gugun := by
  decide +kernel

end Detector

section Loading

theorem readRecord_data {α : Type} {decode : List UInt8 → α} {width : Nat} {fp after : File}
    {record : α} (read : readRecord decode width fp = some (record, after)) :
    after.data = fp.data := by
  unfold readRecord at read
  split at read
  · cases read
    rfl
  · cases read

theorem createDongs_data (count : Nat) : ∀ {dongMap loaded : DongAdminMap} {fp after : File},
    createDongs count dongMap fp = some (loaded, after) → after.data = fp.data := by
  -- The induction is on the number of records still to be read: reading moves the file only.
  induction count with
  | zero =>
    intro dongMap loaded fp after created
    cases created
    rfl
  | succ count ih =>
    intro dongMap loaded fp after created
    rw [createDongs, Option.bind_eq_bind, Option.bind_eq_some_iff] at created
    obtain ⟨⟨dong, next⟩, read, rest⟩ := created
    exact (ih rest).trans (readRecord_data read)

theorem createGuguns_data (count : Nat) : ∀ {gugunMap loaded : GunGuAdminMap} {fp after : File},
    createGuguns count gugunMap fp = some (loaded, after) → after.data = fp.data := by
  -- Reading only moves the position, in this loop and in the one over dongs.
  induction count with
  | zero =>
    intro gugunMap loaded fp after created
    cases created
    rfl
  | succ count ih =>
    intro gugunMap loaded fp after created
    simp only [createGuguns, Option.bind_eq_bind, Option.bind_eq_some_iff] at created
    obtain ⟨⟨gugun, next⟩, read, ⟨dongMap, last⟩, dongs, rest⟩ := created
    exact (ih rest).trans ((createDongs_data _ dongs).trans (readRecord_data read))

theorem createSidos_data (count : Nat) : ∀ {sidoMap loaded : SidoAdminMap} {fp after : File},
    createSidos count sidoMap fp = some (loaded, after) → after.data = fp.data := by
  -- Reading only moves the position, in this loop and in the one over guguns.
  induction count with
  | zero =>
    intro sidoMap loaded fp after created
    cases created
    rfl
  | succ count ih =>
    intro sidoMap loaded fp after created
    simp only [createSidos, Option.bind_eq_bind, Option.bind_eq_some_iff] at created
    obtain ⟨⟨sido, next⟩, read, ⟨gugunMap, last⟩, guguns, rest⟩ := created
    exact (ih rest).trans ((createGuguns_data _ guguns).trans (readRecord_data read))

/-- Loading keeps the file open, and leaves the codes as they are. -/
theorem create_loaded {manager created : AdminBoundManager} {fp : File}
    (loaded : manager.create fp = some created) :
    created.pFile.map File.data = some fp.data ∧ created.hCode = manager.hCode ∧
      created.tmpHCode = manager.tmpHCode := by
  -- The file is read through, and the codes are not touched.
  simp only [AdminBoundManager.create, Option.bind_eq_bind, Option.bind_eq_some_iff,
    Option.pure_def, Option.some.injEq] at loaded
  obtain ⟨⟨_, behindHeader⟩, header, ⟨sidoNum, behindNum⟩, number, ⟨sidoMap, after⟩, sidos, same⟩ :=
    loaded
  cases same
  refine ⟨?_, rfl, rfl⟩
  rw [Option.map_some, createSidos_data _ sidos, readRecord_data number, readRecord_data header,
    File.fseek_data]

end Loading

section Reports

variable (leftOf : BoundVtx → BoundVtx → Nat → Nat → Bool)

/-- The position a call sets. -/
def LocationCall.position : LocationCall → Option (Int × Int)
  | .setLocationPos lon lat => some (lon, lat)
  | .changedLocationCode => none

/-- The position set last, given the last call first. -/
def lastPosition (past : List LocationCall) : Option (Int × Int) :=
  past.findSome? LocationCall.position

/--
When a call is answered rightly.

A position is set with coordinates that fit the parameters, inside boxes whose rings are in the
file, and changes are asked for while the last position is located.
-/
def LocationCall.Meets (data : List UInt8) :
    Option AdminBoundManager → LocationCall → Prop
  | some manager, .setLocationPos lon lat =>
    (0 ≤ lon ∧ lon < 2 ^ 32) ∧ (0 ≤ lat ∧ lat < 2 ^ 32) ∧
      ∀ dong ∈ allDongs manager.boundaryMap, dong.1.llInBound lat.toNat lon.toNat = true →
        RingInside data dong.2
  | some manager, .changedLocationCode => manager.tmpHCode ≠ .null
  | none, _ => False

instance LocationCall.decidableMeets (data : List UInt8) :
    ∀ admin call, Decidable (LocationCall.Meets data admin call)
  | some manager, .setLocationPos lon lat =>
    inferInstanceAs (Decidable ((0 ≤ lon ∧ lon < 2 ^ 32) ∧ (0 ≤ lat ∧ lat < 2 ^ 32) ∧
      ∀ dong ∈ allDongs manager.boundaryMap, dong.1.llInBound lat.toNat lon.toNat = true →
        RingInside data dong.2))
  | some manager, .changedLocationCode => inferInstanceAs (Decidable (manager.tmpHCode ≠ .null))
  | none, _ => isFalse id

/-- The position lies in the ring of a dong. -/
def LiesIn (data : List UInt8) (position : Int × Int) (dong : ChildBound) : Prop :=
  llInBoundary leftOf (ringOf data dong) position.2.toNat position.1.toNat = true

instance (data : List UInt8) (position : Int × Int) (dong : ChildBound) :
    Decidable (LiesIn leftOf data position dong) :=
  inferInstanceAs (Decidable (_ = true))

/-- The manager in the middle of a run: a code that is not null is that of the last position. -/
structure Follows (data : List UInt8) (sidos : SidoAdminMap) (past : List LocationCall)
    (manager : AdminBoundManager) : Prop where
  boundaryMap : manager.boundaryMap = sidos
  pFile : manager.pFile.map File.data = some data
  tmpHCode : manager.tmpHCode ≠ .null → ∃ position, lastPosition past = some position ∧
    ∃ dong ∈ allDongs sidos, LiesIn leftOf data position dong.2 ∧
      manager.tmpHCode = dong.2.hcode

variable {data : List UInt8} {sidos : SidoAdminMap} {manager : AdminBoundManager}

/-- A code that is located is that of a dong whose ring contains the position. -/
theorem findBound_lies (boundaryMap : manager.boundaryMap = sidos)
    (pFile : manager.pFile.map File.data = some data) {lat lon : Nat}
    (rings : ∀ dong ∈ allDongs sidos, dong.1.llInBound lat lon = true → RingInside data dong.2) :
    ∃ next, manager.findBound leftOf lat lon = some next ∧ next.boundaryMap = sidos ∧
      next.pFile.map File.data = some data ∧
      (next.tmpHCode ≠ .null → ∃ dong ∈ allDongs sidos,
        llInBoundary leftOf (ringOf data dong.2) lat lon = true ∧
        next.tmpHCode = dong.2.hcode) := by
  -- What the loops find is a dong of the map whose ring contains the position. Without one the code
  -- is null, and nothing is said about it.
  obtain ⟨fp, opened, contents⟩ := Option.map_eq_some_iff.mp pFile
  subst boundaryMap contents
  have ready : Ready fp.data ⟨fp.fseek 0, none, 0, .null⟩ :=
    ⟨rfl, Nat.two_pow_pos 31, fun _ held => nomatch held⟩
  have nested : ∀ sido ∈ manager.boundaryMap.entries, ∀ gugun ∈ sido.2.entries,
      ∀ dong ∈ gugun.2.entries, dong.1.llInBound lat lon = true → RingInside fp.data dong.2 := by
    intro sido listed gugun within dong inside
    exact rings dong (mem_allDongs.mpr ⟨sido, listed, gugun, within, inside⟩)
  have found := lookupSidos_finds leftOf lat lon nested ready rfl
  simp only [AdminBoundManager.findBound, AdminBoundManager.findHCode, opened]
  revert found
  generalize first : List.find? (locates leftOf lat lon fp.data) _ = dong
  intro found
  cases dong with
  | none =>
    obtain ⟨vars, ended, null, after⟩ := found
    rw [ended]
    exact ⟨_, rfl, rfl, by simp [after.opened], fun some => (some null).elim⟩
  | some dong =>
    obtain ⟨vars, ended, coded, after⟩ := found
    have located : locates leftOf lat lon fp.data dong = true := List.find?_some first
    have inRing := (Bool.and_eq_true_iff.mp located).2
    have member := List.mem_of_find?_eq_some first
    simp only [boxedDongs, List.mem_flatMap, List.mem_filter] at member
    obtain ⟨sido, ⟨listed, _⟩, gugun, ⟨within, _⟩, inside⟩ := member
    rw [ended]
    exact ⟨_, rfl, rfl, by simp [after.opened], fun _ =>
      ⟨dong, mem_allDongs.mpr ⟨sido, listed, gugun, within, inside⟩, inRing, coded⟩⟩

/-- A nonnegative `jlong` that fits arrives unchanged. -/
theorem u32OfLong_of_fits {value : Int} (nonneg : 0 ≤ value) (fits : value < 2 ^ 32) :
    u32OfLong value = value.toNat := by
  rw [u32OfLong, Int.emod_eq_of_lt nonneg fits]

/-- Each call that meets the condition keeps the code that of the last position. -/
theorem locationCall_follows {past : List LocationCall} {call : LocationCall}
    (follows : Follows leftOf data sidos past manager)
    (met : LocationCall.Meets data (some manager) call) :
    ∃ answer next, locationCall leftOf (some manager) call = some (answer, some next) ∧
      Follows leftOf data sidos (call :: past) next := by
  -- A position that is not negative and fits in 32 bits is passed on as it is, so the lookup is
  -- made at the position of the call.
  obtain ⟨boundaryMap, pFile, tmpHCode⟩ := follows
  cases call with
  | setLocationPos lon lat =>
    obtain ⟨⟨lonNonneg, lonFits⟩, ⟨latNonneg, latFits⟩, rings⟩ := met
    rw [boundaryMap] at rings
    obtain ⟨next, looked, sameMap, sameFile, lies⟩ := findBound_lies leftOf boundaryMap pFile rings
    refine ⟨none, next, ?_, sameMap, sameFile, fun found => ⟨(lon, lat), rfl, lies found⟩⟩
    simp only [locationCall, setLocationPos]
    rw [u32OfLong_of_fits lonNonneg lonFits, u32OfLong_of_fits latNonneg latFits, looked]
    rfl
  | changedLocationCode =>
    refine ⟨(changedLocationCode (some manager)).1, manager.ifChangedHCode.2, ?_, ?_⟩
    · simp only [locationCall, changedLocationCode]
      split <;> rfl
    · rw [AdminBoundManager.ifChangedHCode_next]
      exact ⟨boundaryMap, pFile, tmpHCode⟩

/-- A code of the table is found at a place in it. -/
theorem sidoCodes_findIdx {sido : Nat} (legal : sido ∈ sidoCodes) :
    (sidoCodes.findIdx fun sidoCode => sidoCode == sido) < 16 ∧
      sidoCodes[sidoCodes.findIdx fun sidoCode => sidoCode == sido]? = some sido := by
  have inside : (sidoCodes.findIdx fun sidoCode => sidoCode == sido) < sidoCodes.length :=
    List.findIdx_lt_length.mpr ⟨sido, legal, beq_self_eq_true sido⟩
  refine ⟨inside, ?_⟩
  have found := List.findIdx_getElem (w := inside)
  rw [List.getElem?_eq_getElem inside, eq_of_beq found]

/-- The code of a dong as it is reported: the place of its sido, its gugun and itself. -/
def IsCodeOf (code : Nat) (hcode : HCode) : Prop :=
  ∃ i < 16, sidoCodes[i]? = some hcode.sido ∧
    code = i * 100000000 + hcode.gugun * 100000 + hcode.dong

/-- In every run whose calls meet the condition, the codes reported are those of the positions. -/
theorem changedLocationCode_valid {fp : File}
    (created : AdminBoundManager.start.create fp = some manager)
    (legal : ∀ dong ∈ allDongs manager.boundaryMap, dong.2.hcode.sido ∈ sidoCodes)
    (calls : List LocationCall)
    (met : Machine.Along (locationCall leftOf) (LocationCall.Meets fp.data) (some manager)
      (calls ++ [.changedLocationCode])) :
    ∃ answers state value next,
      Machine.run (locationCall leftOf) (some manager) calls = some (answers, state) ∧
      locationCall leftOf state .changedLocationCode = some (some value, next) ∧
      (value.code ≠ 0 → ∃ position, lastPosition calls.reverse = some position ∧
        ∃ dong ∈ allDongs manager.boundaryMap, LiesIn leftOf fp.data position dong.2 ∧
          IsCodeOf value.code dong.2.hcode) := by
  obtain ⟨pFile, _, tmpHCode⟩ := create_loaded created
  have start : Follows leftOf fp.data manager.boundaryMap [] manager :=
    ⟨rfl, pFile, fun found => (found tmpHCode).elim⟩
  obtain ⟨along, behind⟩ := Machine.along_append.mp met
  -- The code stays that of the last position through all calls before the last one.
  obtain ⟨answers, state, ran, current, same, follows⟩ := Machine.run_traced
    (fun past state => ∃ current, state = some current ∧
      Follows leftOf fp.data manager.boundaryMap (past.map Prod.fst) current)
    (fun past state call kept asked => by
      obtain ⟨current, same, follows⟩ := kept
      subst same
      obtain ⟨answer, next, called, followsNext⟩ := locationCall_follows leftOf follows asked
      exact ⟨answer, some next, called, next, rfl, followsNext⟩)
    calls [] (some manager) ⟨manager, rfl, start⟩ along
  have located := (behind answers state ran).1
  subst same
  rw [List.append_nil, List.map_reverse, List.map_fst_zip (Machine.run_length ran).ge] at follows
  obtain ⟨position, set, dong, listed, lies, coded⟩ := follows.tmpHCode located
  obtain ⟨low, place⟩ := sidoCodes_findIdx (legal dong listed)
  refine ⟨answers, some current, (changedLocationCode (some current)).1,
    (changedLocationCode (some current)).2, ran, rfl, ?_⟩
  intro nonzero
  refine ⟨position, set, dong, listed, lies, _, low, place, ?_⟩
  revert nonzero
  simp only [changedLocationCode, AdminBoundManager.ifChangedHCode_next, coded]
  split
  · exact fun _ => rfl
  · exact fun zero => (zero rfl).elim

/-- A position in the square is located, and its code reported. -/
theorem changedLocationCode_valid_square :
    ∃ answers state value next,
      Machine.run (locationCall exactLeftOf) (some squareManager) [.setLocationPos 20 30] =
        some (answers, state) ∧
      locationCall exactLeftOf state .changedLocationCode = some (some value, next) ∧
      (value.code ≠ 0 → ∃ position, lastPosition [.setLocationPos 20 30] = some position ∧
        ∃ dong ∈ allDongs squareManager.boundaryMap,
          LiesIn exactLeftOf squareFile.data position dong.2 ∧
          IsCodeOf value.code dong.2.hcode) := by
  have legal : ∀ dong ∈ allDongs squareManager.boundaryMap, dong.2.hcode.sido ∈ sidoCodes := by
    decide +kernel
  refine changedLocationCode_valid exactLeftOf squareManager_created legal
    [.setLocationPos 20 30] ?_
  decide +kernel

/-- Behind a position outside the square, a code is reported that no dong has. -/
theorem changedLocationCode_outside :
    AdminBoundManager.start.create squareFile = some squareManager ∧
      (∀ dong ∈ allDongs squareManager.boundaryMap, dong.2.hcode.sido ∈ sidoCodes) ∧
      (Machine.run (locationCall exactLeftOf) (some squareManager)
        [.setLocationPos 31 30, .changedLocationCode]).map Prod.fst =
          some [none, some ⟨1600000000, some (1, 2, 4)⟩] ∧
      ∀ dong ∈ allDongs squareManager.boundaryMap,
        ¬ LiesIn exactLeftOf squareFile.data (31, 30) dong.2 := by
  exact ⟨squareManager_created, by decide +kernel⟩

end Reports

end AndroidApps.Gildroia
