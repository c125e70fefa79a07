import AndroidApps.Gildroia.Records
import AndroidApps.Lib.StdMap
import AndroidApps.Lib.Stdio
import Mathlib.Data.Prod.Lex
import Mathlib.Data.Rat.Defs

/-! The boundaries of the administrative regions: their file, and the lookup of a position. -/

namespace AndroidApps.Gildroia

/-- `HCODE`. -/
structure HCode where
  sido : Nat
  gugun : Nat
  dong : Nat
  deriving DecidableEq

/-- The code of no region. -/
def HCode.null : HCode := ⟨0, 0, 0⟩

/-- `isNull`. -/
def HCode.isNull (hcode : HCode) : Bool := hcode.sido == 0 && hcode.gugun == 0 && hcode.dong == 0

/-- `BOUND`, in which the bottom is below the top. -/
structure Bound where
  left : Nat
  top : Nat
  right : Nat
  bottom : Nat
  deriving DecidableEq

namespace Bound

/-- `llInBound`. -/
def llInBound (bound : Bound) (lat lon : Nat) : Bool :=
  decide (bound.left ≤ lon ∧ lon ≤ bound.right ∧ bound.bottom ≤ lat ∧ lat ≤ bound.top)

/-- `operator<`. -/
def less (bound other : Bound) : Bool :=
  if bound.left < other.left then true
  else if bound.left = other.left then
    if bound.top < other.top then true
    else if bound.top = other.top then
      if bound.right < other.right then true
      else if bound.right = other.right then decide (bound.bottom < other.bottom)
      else false
    else false
  else false

/-- The four sides in the order in which they are compared. -/
def sides (bound : Bound) : ℕ ×ₗ ℕ ×ₗ ℕ ×ₗ ℕ :=
  toLex (bound.left, toLex (bound.top, toLex (bound.right, bound.bottom)))

theorem sides_injective : Function.Injective sides := by
  intro bound other same
  cases bound
  cases other
  simp_all [sides]

/-- Bounds are ordered by their sides. -/
instance : LinearOrder Bound := LinearOrder.lift' sides sides_injective

/-- The order of the maps is the one the source declares. -/
theorem less_iff_lt (bound other : Bound) : bound.less other = true ↔ bound < other := by
  -- The sides are compared one after the other, and the next one decides where they are the same.
  change _ ↔ sides bound < sides other
  simp only [less, sides, Prod.Lex.toLex_lt_toLex]
  split
  · simp_all
  · split
    · split
      · simp_all
      · split
        · split
          · simp_all
          · split <;> simp_all
        · simp_all
    · simp_all

end Bound

/-- `PARENT_BOUND`, the box of a sido or a gugun. -/
structure ParentBound where
  bound : Bound
  childNum : Nat

/-- `CHILD_BOUND`, a dong with the place of its ring in the file. -/
structure ChildBound where
  bound : Bound
  offset : Nat
  vtxNum : Nat
  hcode : HCode
  deriving DecidableEq

/-- `BOUND_VTX`. -/
structure BoundVtx where
  x : Nat
  y : Nat
  deriving DecidableEq

section Records

/-- The bytes of a `BOUND`. -/
def Bound.decode (bytes : List UInt8) : Bound :=
  ⟨wordAt bytes 0 4, wordAt bytes 4 4, wordAt bytes 8 4, wordAt bytes 12 4⟩

/-- The 17 bytes of a `PARENT_BOUND`. -/
def ParentBound.decode (bytes : List UInt8) : ParentBound := ⟨.decode bytes, wordAt bytes 16 1⟩

/-- The 27 bytes of a `CHILD_BOUND`, whose code is packed into five. -/
def ChildBound.decode (bytes : List UInt8) : ChildBound :=
  ⟨.decode bytes, wordAt bytes 16 4, wordAt bytes 20 2,
    ⟨wordAt bytes 22 1, bitField (wordAt bytes 23 4) 0 12, bitField (wordAt bytes 23 4) 12 20⟩⟩

/-- The 8 bytes of a `BOUND_VTX`. -/
def BoundVtx.decode (bytes : List UInt8) : BoundVtx := ⟨wordAt bytes 0 4, wordAt bytes 4 4⟩

instance : InMemory BoundVtx where
  bytes vertex := leBytes 4 vertex.x ++ leBytes 4 vertex.y

end Records

/-- The dongs of a gugun. -/
abbrev DongAdminMap := StdMap Bound ChildBound

/-- The guguns of a sido. -/
abbrev GunGuAdminMap := StdMap Bound DongAdminMap

/-- The sidos. -/
abbrev SidoAdminMap := StdMap Bound GunGuAdminMap

/-- All dongs in the order of the maps. -/
def allDongs (sidos : SidoAdminMap) : List (Bound × ChildBound) :=
  sidos.entries.flatMap fun sido => sido.2.entries.flatMap fun gugun => gugun.2.entries

/-- `CAdminBoundManager`. -/
structure AdminBoundManager where
  boundaryMap : SidoAdminMap
  hCode : HCode
  tmpHCode : HCode
  pFile : Option File

/-- The manager as it is constructed. -/
def AdminBoundManager.start : AdminBoundManager := ⟨.empty, .null, .null, none⟩

section Create

/-- Read one record, unless the file ends before it does. -/
def readRecord {α : Type} (decode : List UInt8 → α) (width : Nat) (fp : File) : Option (α × File) :=
  if fp.pos + width ≤ fp.data.length then
    some (decode (bytesAt fp.data fp.pos width), fp.moveTo (fp.pos + width))
  else none

/-- The loop over the dongs of a gugun. -/
def createDongs : Nat → DongAdminMap → File → Option (DongAdminMap × File)
  | 0, dongMap, fp => some (dongMap, fp)
  | count + 1, dongMap, fp => do
    let (dongBound, fp) ← readRecord ChildBound.decode 27 fp
    createDongs count (dongMap.insert dongBound.bound dongBound) fp

/-- The loop over the guguns of a sido. -/
def createGuguns : Nat → GunGuAdminMap → File → Option (GunGuAdminMap × File)
  | 0, gugunMap, fp => some (gugunMap, fp)
  | count + 1, gugunMap, fp => do
    let (gugunBound, fp) ← readRecord ParentBound.decode 17 fp
    let (dongMap, fp) ← createDongs gugunBound.childNum .empty fp
    createGuguns count (gugunMap.insert gugunBound.bound dongMap) fp

/-- The loop over the sidos. -/
def createSidos : Nat → SidoAdminMap → File → Option (SidoAdminMap × File)
  | 0, sidoMap, fp => some (sidoMap, fp)
  | count + 1, sidoMap, fp => do
    let (sidoBound, fp) ← readRecord ParentBound.decode 17 fp
    let (gugunMap, fp) ← createGuguns sidoBound.childNum .empty fp
    createSidos count (sidoMap.insert sidoBound.bound gugunMap) fp

/-- `Create`, when it succeeds on the file it opened. -/
def AdminBoundManager.create (manager : AdminBoundManager) (fp : File) :
    Option AdminBoundManager := do
  -- The header of the file is read and not looked at.
  let (_, fp) ← readRecord (fun _ => ()) 60 (fp.fseek 0)
  let (sidoNum, fp) ← readRecord leWord 4 fp
  let (sidoMap, fp) ← createSidos sidoNum .empty fp
  return { manager with boundaryMap := sidoMap, pFile := some fp }

end Create

section Lookup

/-- Whether the edge between two vertices meets the line of a latitude, which its lower end does. -/
def straddles (vi vj : BoundVtx) (lat : Nat) : Bool :=
  decide (vi.y ≤ lat ∧ lat < vj.y ∨ vj.y ≤ lat ∧ lat < vi.y)

/-- The comparison of the longitude with the point where an edge meets the line, computed
exactly. -/
def exactLeftOf (vi vj : BoundVtx) (lat lon : Nat) : Bool :=
  decide ((lon : ℚ) <
    ((vj.x : ℚ) - (vi.x : ℚ)) * ((lat : ℚ) - (vi.y : ℚ)) / ((vj.y : ℚ) - (vi.y : ℚ)) + (vi.x : ℚ))

-- How the expression over `double` compares with the longitude is left open here.
variable (leftOf : BoundVtx → BoundVtx → Nat → Nat → Bool)

/-- The loop of `llInBoundary`, with the vertex before the current one. -/
def boundaryLoop (lat lon : Nat) : BoundVtx → List BoundVtx → Bool → Bool
  | _, [], check => check
  | vj, vi :: rest, check =>
    boundaryLoop lat lon vi rest
      (if straddles vi vj lat && leftOf vi vj lat lon then !check else check)

/-- `llInBoundary`, which begins with the edge from the last vertex to the first. -/
def llInBoundary (pVertex : List BoundVtx) (lat lon : Nat) : Bool :=
  match pVertex.getLast? with
  | none => false
  | some last => boundaryLoop leftOf lat lon last pVertex false

/-- The variables of `findBound`: the file, the vertex buffer with its size, and the code. -/
structure Lookup where
  fp : File
  pVertex : Option (List BoundVtx)
  nVertexSize : Nat
  hcode : HCode

/-- Where a part of `findBound` leads: on to the next region, or to `func_exit`. -/
inductive Flow where
  | next (vars : Lookup)
  | exit (vars : Lookup)

/-- The vertex buffer, which is replaced by a larger one when it is too small. -/
def growBuffer (vars : Lookup) (vtxNum : Nat) : List BoundVtx × Nat :=
  match vars.pVertex with
  | none => (List.replicate vtxNum ⟨0, 0⟩, vtxNum)
  | some pVertex =>
    if vars.nVertexSize < vtxNum then (List.replicate vtxNum ⟨0, 0⟩, vtxNum)
    else (pVertex, vars.nVertexSize)

/-- A dong whose box the position is in, unless its ring is read past the end of the buffer. -/
def lookupDong (lat lon : Nat) (dong : ChildBound) (vars : Lookup) : Option Flow :=
  let (pVertex, nVertexSize) := growBuffer vars dong.vtxNum
  let fp := vars.fp.fseekCur (toInt (u32Sub dong.offset vars.fp.pos))
  if pVertex.length < dong.vtxNum then none
  else
    let count := fp.freadCount 8 dong.vtxNum
    let (read, fp) := File.freadArray BoundVtx.decode 8 (pVertex.take dong.vtxNum) fp
    let vars : Lookup := ⟨fp, some (read ++ pVertex.drop dong.vtxNum), nVertexSize, vars.hcode⟩
    if count = 0 then some (.exit vars)
    else if llInBoundary leftOf read lat lon then some (.exit { vars with hcode := dong.hcode })
    else some (.next vars)

/-- The loop over the dongs of a gugun. -/
def lookupDongs (lat lon : Nat) : List (Bound × ChildBound) → Lookup → Option Flow
  | [], vars => some (.next vars)
  | dong :: rest, vars =>
    if dong.1.llInBound lat lon then
      match lookupDong leftOf lat lon dong.2 vars with
      | some (.next vars) => lookupDongs lat lon rest vars
      | done => done
    else lookupDongs lat lon rest vars

/-- The loop over the guguns of a sido. -/
def lookupGuguns (lat lon : Nat) : List (Bound × DongAdminMap) → Lookup → Option Flow
  | [], vars => some (.next vars)
  | gugun :: rest, vars =>
    match if gugun.1.llInBound lat lon then lookupDongs leftOf lat lon gugun.2.entries vars
      else some (.next vars) with
    | some (.next vars) =>
      if vars.hcode.isNull = false then some (.next vars) else lookupGuguns lat lon rest vars
    | done => done

/-- The loop over the sidos. -/
def lookupSidos (lat lon : Nat) : List (Bound × GunGuAdminMap) → Lookup → Option Flow
  | [], vars => some (.next vars)
  | sido :: rest, vars =>
    match if sido.1.llInBound lat lon then lookupGuguns leftOf lat lon sido.2.entries vars
      else some (.next vars) with
    | some (.next vars) =>
      if vars.hcode.isNull = false then some (.next vars) else lookupSidos lat lon rest vars
    | done => done

namespace AdminBoundManager

variable (manager : AdminBoundManager)

/-- `findBound` into a code: what it returns, the code, and the file behind it. -/
def findHCode (lat lon : Nat) (hcode : HCode) : Option (Bool × HCode × Option File) :=
  match manager.pFile with
  | none => some (false, hcode, none)
  | some fp =>
    match lookupSidos leftOf lat lon manager.boundaryMap.entries ⟨fp.fseek 0, none, 0, .null⟩ with
    | none => none
    | some (.next vars) | some (.exit vars) => some (!vars.hcode.isNull, vars.hcode, some vars.fp)

/-- `findBound` for a position, which looks up the code to be compared next. -/
def findBound (lat lon : Nat) : Option AdminBoundManager :=
  (manager.findHCode leftOf lat lon manager.tmpHCode).map fun (_, hcode, fp) =>
    { manager with tmpHCode := hcode, pFile := fp }

/-- `if_changed_hcode`, whose bits are 1 for the sido, 2 for the gugun and 4 for the dong. -/
def ifChangedHCode : Nat × AdminBoundManager :=
  if manager.hCode.isNull then (7, { manager with hCode := manager.tmpHCode })
  else
    let ret := (if manager.hCode.sido ≠ manager.tmpHCode.sido then 1 else 0) +
      (if manager.hCode.gugun ≠ manager.tmpHCode.gugun then 2 else 0) +
      (if manager.hCode.dong ≠ manager.tmpHCode.dong then 4 else 0)
    (ret, if ret ≠ 0 then { manager with hCode := manager.tmpHCode } else manager)

end AdminBoundManager

end Lookup

end AndroidApps.Gildroia
