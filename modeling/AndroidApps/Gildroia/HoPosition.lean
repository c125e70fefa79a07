import AndroidApps.Gildroia.Address
import AndroidApps.Gildroia.PoiCursor

/-! The dong and the position of a ho record, and the POI bodies that refer to one. -/

namespace AndroidApps.Gildroia

section Positions

/-- The variables of the loop of `FindDongOfOffset`. -/
structure DongSearch where
  nSize : Nat
  left : Nat
  right : Nat
  mid : Nat

/-- One pass of the loop, or the entry it stops at; an entry outside the table cannot be read. -/
def findDongPass (table : List (Nat × Nat)) (ofs : Nat) (vars : DongSearch) :
    DongSearch ⊕ Option (Nat × Nat) :=
  if vars.left < vars.right then
    match table[vars.mid]? with
    | none => .inr none
    | some entry =>
      let left := if ofs > entry.1 then vars.mid else vars.left
      let right := if ofs > entry.1 then vars.right else vars.mid
      let nSize := vars.nSize / 2
      if left + nSize = left then .inr table[left]? else .inl ⟨nSize, left, right, left + nSize⟩
  else .inr table[vars.left]?

/-- The entry of the table of law dongs that `FindDongOfOffset` settles on. -/
def findDongEntry (fuel : Nat) (table : List (Nat × Nat)) (ofs : Nat) : Option (Nat × Nat) :=
  -- Without an entry the last one has no place.
  if table = [] then none
  else
    let nSize := table.length / 2
    (Loop.run (findDongPass table ofs) fuel ⟨nSize, 0, table.length - 1, nSize⟩).join

/-- `FindDongOfOffset`, when the record of the dong is asked for. -/
def SearchHelper.findDongOfOffset (fuel : Nat) (helper : SearchHelper) (ofs : Nat)
    (dongDataF : DongDataF) : Option (Nat × DongDataF × SearchHelper) :=
  (findDongEntry fuel helper.ldCodeOffset ofs).map fun entry =>
    let (dongDataF, fp) := (helper.fp.fseek entry.1).fread DongDataF.decode 18 dongDataF
    (entry.2, dongDataF, { helper with fp := fp })

/-- Read the ho record at an offset. -/
def SearchHelper.readHo (helper : SearchHelper) (hoOfs : Nat) (ho : HoData) :
    HoData × SearchHelper :=
  let (ho, fp) := (helper.fp.fseek hoOfs).fread HoData.decode 7 ho
  (ho, { helper with fp := fp })

/--
The scan of `GetHo` over the dongs listed last, with the dong before the current one.

The first dong has none before it, and the last one is the answer when no other is.
-/
def scanDongs (hoOfs : Nat) : Option DongData → List DongData → Option DongData
  | before, [] => before
  | none, dd :: rest => if dd.info.offset > hoOfs then none else scanDongs hoOfs (some dd) rest
  | some before, dd :: rest =>
    if dd.info.offset > hoOfs ∧ before.info.ldongFlag ≠ 0 then some before
    else scanDongs hoOfs (some dd) rest

/-- `GetPosEx`. -/
def SearchHelper.getPosEx (helper : SearchHelper) (nIndex : Nat) (old : Nat × Nat) :
    (Nat × Nat) × SearchHelper :=
  let fp := helper.fp.fseek (u32 (helper.addrHeader.addrPosExtOfs + 4 * (nIndex * 2)))
  let (x, fp) := fp.freadWord 4 old.1
  let (y, fp) := fp.freadWord 4 old.2
  ((x, y), { helper with fp := fp })

/-- `GetHoPos`, which marks positions that are stored elsewhere. -/
def SearchHelper.getHoPos (helper : SearchHelper) (ho : HoData) (old : Nat × Nat) :
    (Nat × Nat) × SearchHelper :=
  if ho.xQuota = 0x1F ∧ ho.x = 0xFFFF then helper.getPosEx (ho.yQuota * 65536 + ho.y) old
  else ((ho.xQuota * 65536 + ho.x, ho.yQuota * 65536 + ho.y), helper)

/-- `GetHoValue`. -/
def getHoValue (ho : HoData) : Nat := ho.hoQuota * 256 + ho.ho

/-- What `JNI_GetHoData` returns for a ho of a dong: its number and its position. -/
def SearchHelper.hoDataOf (helper : SearchHelper) (dong : DongDataF) (ho : HoData)
    (old : Nat × Nat) : (Nat × Nat × Nat) × SearchHelper :=
  let (pos, helper) := helper.getHoPos ho old
  ((getHoValue ho, u32 (pos.1 + dong.minX), u32 (pos.2 + dong.minY)), helper)

/-- The uninitialised variables of the position functions. -/
structure PositionLocals where
  pos : Nat × Nat
  ho : HoData
  dongF : DongDataF
  useHo : PoiBodyUseHoF
  nu8 : Nat
  nu32 : Nat

/-- The dong code, the position and the ho record that `GetNewHoPos` hands out. -/
structure NewHoPos where
  code : Nat
  x : Nat
  y : Nat
  ho : HoData
  deriving DecidableEq

variable (locals : PositionLocals) (fuel : Nat)

/-- `CUmSearchModule::GetNewHoPos` on one helper. -/
def SearchHelper.getNewHoPos (helper : SearchHelper) (offset : Nat) :
    Option (NewHoPos × SearchHelper) :=
  let (ho, helper) := helper.readHo offset locals.ho
  if helper.dongDatas ≠ [] then
    match scanDongs offset none helper.dongDatas with
    | none => none
    | some dong =>
      let (pos, helper) := helper.getHoPos ho locals.pos
      some (⟨dong.info.code, u32 (pos.1 + dong.info.minX), u32 (pos.2 + dong.info.minY), ho⟩,
        helper)
  else
    let (ho, helper) := helper.readHo offset ho
    match helper.findDongOfOffset fuel offset locals.dongF with
    | none => none
    | some (_, dong, helper) =>
      let (pos, helper) := helper.getHoPos ho locals.pos
      some (⟨dong.code, u32 (pos.1 + dong.minX), u32 (pos.2 + dong.minY), ho⟩, helper)

/-- `tranTelNumber2` of a packed number: its four digits, of which leading zeros may be left out. -/
def telDigits (nTelCode : Nat) (bLeftTrim : Bool) : List UInt8 :=
  let digits := [bitField nTelCode 12 4, bitField nTelCode 8 4, bitField nTelCode 4 4,
    bitField nTelCode 0 4]
  (if bLeftTrim then digits.dropWhile (· = 0) else digits).map fun digit => UInt8.ofNat (digit + 48)

/-- The loop that reads and prints the phone numbers of a POI. -/
def readTels : Nat → Nat → Nat → File → List (List UInt8) × File
  | 0, _, _, fp => ([], fp)
  | count + 1, nu8, nu32, fp =>
    let (nu8, fp) := fp.freadWord 1 nu8
    let (nu32, fp) := fp.freadWord 4 nu32
    -- The format is `0%s) %s-%s`.
    let tel := [48] ++ telDigits nu8 true ++ [41, 32] ++ telDigits (nu32 / 2 ^ 16) true ++ [45] ++
      telDigits (nu32 % 2 ^ 16) false
    let (rest, fp) := readTels count nu8 nu32 fp
    (tel :: rest, fp)

/-- The fixed part of a POI body, for a POI at a ho record with the offset of that record. -/
def SearchHelper.readPoiInfo (helper : SearchHelper) (poiHeader : PoiHeaderF) :
    Option (PoiBodyF × Nat × SearchHelper) :=
  let zero : PoiBodyF := ⟨0, 0, 0, 0, 0, 0, 0, 0, 0⟩
  let fp := helper.fp.fseek poiHeader.bodyOfs
  if poiHeader.useHoOfs ≠ 0 then
    let (body, fp) := fp.fread PoiBodyUseHoF.decode 6 locals.useHo
    (findDongEntry fuel helper.ldCodeOffset body.hoOfs).map fun entry =>
      ({ zero with
          branch := body.branch, bunji := body.bunji, hDCode := entry.2, parking := body.parking,
          san := body.san, telCnt := body.telCnt },
        body.hoOfs, { helper with fp := fp })
  else
    let (info, fp) := fp.fread PoiBodyF.decode 16 zero
    some (info, 0, { helper with fp := fp })

/-- The branch name of a POI. -/
def HelperState.readBranchName (state : HelperState) (branch : Nat) :
    List UInt16 × Nat × HelperState :=
  if branch ≠ 0 then
    let (nu32, fp) := state.helper.fp.freadWord 4 (u32 locals.nu32)
    let (text, textMng) := state.textMng.getTextOfs nu32 0
    (cString text, nu32, ⟨{ state.helper with fp := fp }, textMng⟩)
  else ([], u32 locals.nu32, state)

/-- The second position of a POI, of which only one is read. -/
def readPosEx (posCnt : Nat) (fp : File) : (Nat × Nat) × File :=
  if posCnt ≠ 0 then
    let (xEx, fp) := fp.freadWord 4 0
    let (yEx, fp) := fp.freadWord 4 0
    ((xEx, yEx), fp)
  else ((0, 0), fp)

/-- The number and the position of a POI at a ho record. -/
def SearchHelper.placePoi (helper : SearchHelper) (hoOfs : Nat) (info : PoiBodyF) :
    Option (PoiBodyF × SearchHelper) :=
  let (ho, helper) := helper.readHo hoOfs locals.ho
  (helper.findDongOfOffset fuel hoOfs locals.dongF).map fun (_, dong, helper) =>
    let (pos, helper) := helper.getHoPos ho (locals.pos.1, info.y)
    -- The field for `x` has 28 bits.
    ({ info with
        ho := getHoValue ho % 2 ^ 16, x := u32 (pos.1 + dong.minX) % 2 ^ 28,
        y := u32 (pos.2 + dong.minY) },
      helper)

/-- `CUmSearchHelper::GetSearchPoiResult`. -/
def HelperState.getSearchPoiResult (state : HelperState) (poiHeader : PoiHeaderF) :
    Option (PoiBody × HelperState) :=
  match state.helper.readPoiInfo locals fuel poiHeader with
  | none => none
  | some (info, hoOfs, helper) =>
    let (branchName, nu32, state) :=
      HelperState.readBranchName locals { state with helper := helper } info.branch
    let (tel, fp) := readTels info.telCnt (locals.nu8 % 2 ^ 8) nu32 state.helper.fp
    let (pos, fp) := readPosEx poiHeader.posCnt fp
    let helper := { state.helper with fp := fp }
    if poiHeader.useHoOfs ≠ 0 then
      (helper.placePoi locals fuel hoOfs info).map fun (info, helper) =>
        (⟨branchName, tel, pos.1, pos.2, info⟩, { state with helper := helper })
    else some (⟨branchName, tel, pos.1, pos.2, info⟩, { state with helper := helper })

end Positions

end AndroidApps.Gildroia
