import AndroidApps.Gildroia.HoPosition
import AndroidApps.Gildroia.PoiName

/-! The other searches of a helper: dongs and roads by name, POIs by phone number and category. -/

namespace AndroidApps.Gildroia

section Regions

/-- The uninitialised variables of a search for dongs or roads. -/
structure RegionLocals where
  nKeyValue : Nat
  choOfs : Nat
  nTemp : Nat
  offsets : Nat → Nat
  name : Nat → UInt16
  dongF : DongDataF
  roadF : RoadDataF

variable (locals : RegionLocals) (fuel : Nat)

/-- `findChosungOffsetDong`: the bucket of a code ends where that of the next code begins. -/
def findChosungOffsetDong (fp : File) (choIdxOfs choIdxCnt choCode : Nat) :
    Option (Option (Nat × Nat) × File) :=
  match searchu32KeyValue locals.nKeyValue fuel fp choCode choIdxOfs 8 choIdxCnt with
  | none => none
  | some (false, fp) => some (none, fp)
  | some (true, fp) =>
    let (offset, fp) := fp.freadWord 4 (u32 locals.choOfs)
    let (nTemp, fp) := fp.freadWord 4 (u32 locals.nTemp)
    let (nTemp, fp) := fp.freadWord 4 nTemp
    some (some (offset, u32Sub nTemp offset / 4), fp)

/-- The offsets in a bucket. -/
def readOffsets (fp : File) (choOfs choCnt : Nat) : List Nat × File :=
  File.freadArray leWord 4 ((List.range choCnt).map fun i => u32 (locals.offsets i))
    (fp.fseek choOfs)

/-- The variables of the loop over a bucket, with the result it adds to. -/
structure RegionVars (info data : Type) where
  fp : File
  textMng : TextMng
  info : info
  vars : MatchVars
  result : List data

/-- One dong of a bucket. -/
def searchDongPass (helper : SearchHelper) (nSidoIdx : Nat) (dongName : Nat → UInt16)
    (ckCmpHan : Nat) (state : RegionVars DongDataF DongData) (offset : Nat) :
    Option (RegionVars DongDataF DongData) :=
  let (info, fp) := (state.fp.fseek offset).fread DongDataF.decode 18 state.info
  let info := { info with offset := offset }
  match helper.findSigunguOfOffset offset false with
  | none => none
  | some pSigunguF =>
    match state.textMng.getDongName locals.nKeyValue fuel
      (dongCodeOf helper.sidoData.idx pSigunguF.code info.code) with
    | some (some (text, nLen), textMng) =>
      let (vars, decision) := dongPass dongName ckCmpHan state.vars (text.take nLen)
      some ⟨fp, textMng, info, vars,
        if decision.bAddData then
          state.result ++ [⟨nSidoIdx, pSigunguF, cString text, nLen, info⟩]
        else state.result⟩
    -- A dong without a name would be copied from `NULL`.
    | _ => none

/-- `CUmSearchHelper::SearchDongName`. -/
def HelperState.searchDongName (state : HelperState) (nSidoIdx : Nat) (dongName : Nat → UInt16)
    (choCode ckCmpHan : Nat) (result : List DongData) : Option (List DongData × HelperState) :=
  let helper := state.helper
  match findChosungOffsetDong locals fuel helper.fp helper.addrHeader.addrChoIdxOfs
    helper.addrHeader.addrChoIdxCnt choCode with
  | none => none
  | some (none, fp) => some (result, { state with helper := { helper with fp := fp } })
  | some (some (choOfs, choCnt), fp) =>
    let (offsets, fp) := readOffsets locals fp choOfs choCnt
    let start : RegionVars DongDataF DongData :=
      ⟨fp, state.textMng, locals.dongF, matchStart locals.name, result⟩
    (offsets.foldlM (searchDongPass locals fuel helper nSidoIdx dongName ckCmpHan) start).map
      fun after => (after.result, ⟨{ helper with fp := after.fp }, after.textMng⟩)

/-- One road of a bucket, which is passed over when its code has no name. -/
def searchRoadPass (helper : SearchHelper) (nSidoIdx : Nat) (roadName : Nat → UInt16)
    (ckCmpHan : Nat) (state : RegionVars RoadDataF RoadData) (offset : Nat) :
    Option (RegionVars RoadDataF RoadData) :=
  let (info, fp) := (state.fp.fseek offset).fread RoadDataF.decode 10 state.info
  let info := { info with offset := offset }
  match helper.findSigunguOfOffset offset true with
  | none => none
  | some pSigunguF =>
    match state.textMng.getRoadName locals.nKeyValue fuel
      (dongCodeOf helper.sidoData.idx pSigunguF.code info.code) with
    | none => none
    -- The loop goes on with the next road.
    | some (none, textMng) => some ⟨fp, textMng, info, state.vars, state.result⟩
    | some (some (text, nLen), textMng) =>
      let (vars, decision) := roadPass roadName ckCmpHan state.vars (text.take nLen)
      some ⟨fp, textMng, info, vars,
        if decision.bAddData then
          state.result ++ [⟨nSidoIdx, pSigunguF, cString text, nLen, info⟩]
        else state.result⟩

/-- `CUmSearchHelper::SearchRoadName`. -/
def HelperState.searchRoadName (state : HelperState) (nSidoIdx : Nat) (roadName : Nat → UInt16)
    (choCode ckCmpHan : Nat) (result : List RoadData) : Option (List RoadData × HelperState) :=
  let helper := state.helper
  match findChosungOffsetDong locals fuel helper.fp helper.addrHeader.roadChoIdxOfs
    helper.addrHeader.roadChoIdxCnt choCode with
  | none => none
  | some (none, fp) => some (result, { state with helper := { helper with fp := fp } })
  | some (some (choOfs, choCnt), fp) =>
    let (offsets, fp) := readOffsets locals fp choOfs choCnt
    let start : RegionVars RoadDataF RoadData :=
      ⟨fp, state.textMng, locals.roadF, matchStart locals.name, result⟩
    (offsets.foldlM (searchRoadPass locals fuel helper nSidoIdx roadName ckCmpHan) start).map
      fun after => (after.result, ⟨{ helper with fp := after.fp }, after.textMng⟩)

end Regions

section Pois

/-- The uninitialised variables of a search for POIs by phone number or category. -/
structure PoiLocals where
  nKeyValue : Nat
  offset : Nat
  count : Nat
  beginOfs : Nat
  endOfs : Nat
  telDDD : Nat → Nat
  beginOfss : Nat → Nat
  endOfss : Nat → Nat
  offsets : Nat → Nat
  info : PoiHeaderF

variable (locals : PoiLocals) (fuel : Nat)

/-- Find a key in a table, then read the pair of words behind it into two variables. -/
def searchPair (width : KeyWidth) (fp : File) (key offset recordSize count : Nat)
    (old : Nat × Nat) : Option (Option (Nat × Nat) × File) :=
  match searchKeyValue width locals.nKeyValue fuel fp key offset recordSize count with
  | none => none
  | some (false, fp) => some (none, fp)
  | some (true, fp) =>
    let (first, fp) := fp.freadWord 4 old.1
    let (second, fp) := fp.freadWord 4 old.2
    some (some (first, second), fp)

/-- Insert the POI whose header stands at an offset. -/
def HelperState.insertPoi (state : HelperState) (nSidoIdx offset : Nat) (info : PoiHeaderF)
    (poiHeaders : PoiMap) : PoiHeaderF × PoiMap × HelperState :=
  let (info, fp) := (state.helper.fp.fseek offset).fread PoiHeaderF.decode 8 info
  let (text, textMng) := state.textMng.getTextOfs info.nameOfs 0
  (info, poiHeaders.insert (cString text, ⟨nSidoIdx, info⟩),
    ⟨{ state.helper with fp := fp }, textMng⟩)

/-- The part of both `SearchTelNumber`s below one area code: the exchange, then the number. -/
def HelperState.searchTelBelow (state : HelperState) (nSidoIdx endOfs telKUK telNUM : Nat)
    (old : Nat × Nat) (info : PoiHeaderF) (poiHeaders : PoiMap) :
    Option ((Nat × Nat) × PoiHeaderF × PoiMap × HelperState) :=
  let fp := state.helper.fp.fseek (u32Sub endOfs 8)
  let (count, fp) := fp.freadWord 4 old.1
  let (offset, fp) := fp.freadWord 4 old.2
  -- The exchange leads to a table of numbers, and the number to a POI.
  match searchPair locals fuel .u16 fp telKUK offset 10 count (count, offset) with
  | none => none
  | some (none, fp) =>
    some ((count, offset), info, poiHeaders,
      { state with helper := { state.helper with fp := fp } })
  | some (some (count, offset), fp) =>
    match searchKeyValue .u16 locals.nKeyValue fuel fp telNUM offset 6 count with
    | none => none
    | some (false, fp) =>
      some ((count, offset), info, poiHeaders,
        { state with helper := { state.helper with fp := fp } })
    | some (true, fp) =>
      let (offset, fp) := fp.freadWord 4 offset
      let state := { state with helper := { state.helper with fp := fp } }
      let (info, poiHeaders, state) := state.insertPoi nSidoIdx offset info poiHeaders
      some ((count, offset), info, poiHeaders, state)

/-- `SearchTelNumber` with an area code. -/
def HelperState.searchTelNumberDDD (state : HelperState) (nSidoIdx telDDD telKUK telNUM : Nat)
    (poiHeaders : PoiMap) : Option (PoiMap × HelperState) :=
  let helper := state.helper
  match searchPair locals fuel .u8 helper.fp telDDD helper.poiHeader.telPoiIdxOfs 9
    helper.poiHeader.telPoiIdxCnt (u32 locals.beginOfs, u32 locals.endOfs) with
  | none => none
  | some (none, fp) => some (poiHeaders, { state with helper := { helper with fp := fp } })
  -- Of the two offsets only the end of the part is used.
  | some (some (_, endOfs), fp) =>
    let state := { state with helper := { helper with fp := fp } }
    (state.searchTelBelow locals fuel nSidoIdx endOfs telKUK telNUM
      (u32 locals.count, u32 locals.offset) locals.info poiHeaders).map
      fun (_, _, poiHeaders, state) => (poiHeaders, state)

/-- The loop that reads the area codes: only the end of each part is used later. -/
def readAreaEnds : Nat → Nat → File → List Nat × File
  | 0, _, fp => ([], fp)
  | count + 1, i, fp =>
    let (_, fp) := fp.freadWord 1 (locals.telDDD i % 2 ^ 8)
    let (_, fp) := fp.freadWord 4 (u32 (locals.beginOfss i))
    let (endOfs, fp) := fp.freadWord 4 (u32 (locals.endOfss i))
    let (rest, fp) := readAreaEnds count (i + 1) fp
    (endOfs :: rest, fp)

/-- The variables of the loop over the area codes. -/
abbrev TelVars := (Nat × Nat) × PoiHeaderF × PoiMap × HelperState

/-- `SearchTelNumber` without an area code, over at most 32 of them. -/
def HelperState.searchTelNumber (state : HelperState) (nSidoIdx telKUK telNUM : Nat)
    (poiHeaders : PoiMap) : Option (PoiMap × HelperState) :=
  let helper := state.helper
  let nLen := (toInt helper.poiHeader.telPoiIdxCnt).toNat
  -- The three arrays have 32 elements.
  if 32 < nLen then none
  else
    let (ends, fp) := readAreaEnds locals nLen 0 (helper.fp.fseek helper.poiHeader.telPoiIdxOfs)
    let start : TelVars := ((u32 locals.count, u32 locals.offset), locals.info, poiHeaders,
      { state with helper := { helper with fp := fp } })
    let pass : TelVars → Nat → Option TelVars := fun (old, info, poiHeaders, state) endOfs =>
      state.searchTelBelow locals fuel nSidoIdx endOfs telKUK telNUM old info poiHeaders
    (ends.foldlM pass start).map fun (_, _, poiHeaders, state) => (poiHeaders, state)

/-- `searchCateInfo`: the count and the offset behind three codes, or nothing. -/
def searchCateInfo (fp : File) (eOffset code1 code2 code3 : Nat) :
    Option (Option (Nat × Nat) × File) :=
  let (offset, fp) := (fp.fseek (u32Sub eOffset 4)).freadWord 4 (u32 locals.offset)
  -- The first table stands right behind its count, and the others where their pair says.
  let (count, fp) := (fp.fseek offset).freadWord 4 (u32 locals.count)
  match searchPair locals fuel .u16 fp code1 fp.pos 10 count (count, offset) with
  | none => none
  | some (none, fp) => some (none, fp)
  | some (some (count, offset), fp) =>
    match searchPair locals fuel .u16 fp code2 offset 10 count (count, offset) with
    | none => none
    | some (none, fp) => some (none, fp)
    | some (some (count, offset), fp) =>
      searchPair locals fuel .u16 fp code3 offset 10 count (count, offset)

/-- One POI of a category, which is passed over when its name is empty. -/
def catePoiPass (nSidoIdx : Nat) (state : PoiHeaderF × PoiMap × HelperState) (offset : Nat) :
    PoiHeaderF × PoiMap × HelperState :=
  let (info, poiHeaders, state) := state
  let (info, fp) := (state.helper.fp.fseek offset).fread PoiHeaderF.decode 8 info
  let state := { state with helper := { state.helper with fp := fp } }
  if info.nameOfs % 32 ≠ 0 then
    let (text, textMng) := state.textMng.getTextOfs info.nameOfs 0
    (info, poiHeaders.insert (cString text, ⟨nSidoIdx, info⟩), { state with textMng := textMng })
  else (info, poiHeaders, state)

/-- `SearchPoiCate`. -/
def HelperState.searchPoiCate (state : HelperState) (nSidoIdx endOfs code1 code2 code3 : Nat)
    (poiHeaders : PoiMap) : Option (PoiMap × HelperState) :=
  match searchCateInfo locals fuel state.helper.fp endOfs code1 code2 code3 with
  | none => none
  | some (none, fp) => some (poiHeaders, { state with helper := { state.helper with fp := fp } })
  | some (some (count, offset), fp) =>
    -- A count that is negative as an `int` reads nothing.
    let nCnt := (toInt count).toNat
    let (offsets, fp) := if nCnt = 0 then ([], fp) else
      File.freadArray leWord 4 ((List.range nCnt).map fun i => u32 (locals.offsets i))
        (fp.fseek offset)
    let state := { state with helper := { state.helper with fp := fp } }
    let (_, poiHeaders, state) :=
      offsets.foldl (catePoiPass nSidoIdx) (locals.info, poiHeaders, state)
    some (poiHeaders, state)

/-- `SearchPoiCateSido`. -/
def HelperState.searchPoiCateSido (state : HelperState) (nSidoIdx code1 code2 code3 : Nat)
    (poiHeaders : PoiMap) : Option (PoiMap × HelperState) :=
  state.searchPoiCate locals fuel nSidoIdx state.helper.poiHeader.catePoiOfs code1 code2 code3
    poiHeaders

/-- The categories below the record of a code in an index. -/
def HelperState.searchPoiCateIndex (state : HelperState) (idxOfs idxCnt nSidoIdx code : Nat)
    (code1 code2 code3 : Nat) (poiHeaders : PoiMap) : Option (PoiMap × HelperState) :=
  let fp := state.helper.fp.fseek idxOfs
  match searchPair locals fuel .u32 fp code fp.pos 12 idxCnt
    (u32 locals.beginOfs, u32 locals.endOfs) with
  | none => none
  | some (none, fp) => some (poiHeaders, { state with helper := { state.helper with fp := fp } })
  | some (some (_, endOfs), fp) =>
    HelperState.searchPoiCate locals fuel { state with helper := { state.helper with fp := fp } }
      nSidoIdx endOfs code1 code2 code3 poiHeaders

/-- `SearchPoiCateHDong`. -/
def HelperState.searchPoiCateHDong (state : HelperState) (nSidoIdx nHCode code1 code2 code3 : Nat)
    (poiHeaders : PoiMap) : Option (PoiMap × HelperState) :=
  state.searchPoiCateIndex locals fuel state.helper.poiHeader.dongCatePoiIdxOfs
    state.helper.poiHeader.dongCatePoiIdxCnt nSidoIdx nHCode code1 code2 code3 poiHeaders

/-- `SearchPoiCateMesh`, which seeks to the count of its index in place of the offset. -/
def HelperState.searchPoiCateMesh (state : HelperState) (nSidoIdx nMeshCode code1 code2 code3 : Nat)
    (poiHeaders : PoiMap) : Option (PoiMap × HelperState) :=
  let meshX := nMeshCode % 2 ^ 16
  let meshY := nMeshCode / 2 ^ 16 % 2 ^ 16
  let sido := state.helper.sidoData
  -- A mesh outside the sido is not looked for.
  if meshX < sido.meshXMin ∨ sido.meshXMax < meshX ∨ meshY < sido.meshYMin ∨
      sido.meshYMax < meshY then some (poiHeaders, state)
  else
    state.searchPoiCateIndex locals fuel state.helper.poiHeader.meshPoiIdxCnt
      state.helper.poiHeader.meshPoiIdxCnt nSidoIdx nMeshCode code1 code2 code3 poiHeaders

end Pois

end AndroidApps.Gildroia
