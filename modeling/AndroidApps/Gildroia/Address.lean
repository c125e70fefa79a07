import AndroidApps.Gildroia.NameMatch
import AndroidApps.Gildroia.SearchHelper

/-! The address part of a search helper: its construction, and the lists of regions and numbers. -/

namespace AndroidApps.Gildroia

/-- The uninitialised variables of the address functions. -/
structure AddressLocals where
  nKeyValue : Nat
  nOffset : Nat
  nDCode : Nat
  offset : Nat
  bunji : Nat
  hoCnt : Nat
  nLen : Nat
  fileHeader : SearchFileHeader
  addrHeader : AddrDataHeader
  poiHeader : PoiDataHeader
  sidoData : SidoData
  sigunguF : SigunguDataF
  dongF : DongDataF
  roadF : RoadDataF
  ho : HoData
  newHo : NewHoData

/-- Uninitialised variables that happen to be zero. -/
def zeroAddressLocals : AddressLocals :=
  ⟨0, 0, 0, 0, 0, 0, 0, ⟨0, 0, 0, 0⟩, ⟨0, 0, 0, 0, 0, 0, 0, 0, 0⟩,
    ⟨0, 0, 0, 0, 0, 0, 0, 0, 0, 0, 0, 0⟩, ⟨0, 0, 0, 0, 0, 0⟩, ⟨0, 0, 0⟩, ⟨0, 0, 0, 0, 0, 0, 0⟩,
    ⟨0, 0, 0⟩, ⟨0, 0, 0, 0, 0, 0⟩, ⟨0, 0, 0⟩⟩

/-- A helper and the text manager all helpers share. -/
structure HelperState where
  helper : SearchHelper
  textMng : TextMng

/-- What `u16cpy` copies of a name, with its length: from `NULL` there is nothing to copy. -/
def copiedName (found : Option (Option (List UInt16 × Nat) × TextMng)) :
    Option (List UInt16 × Nat × TextMng) :=
  match found with
  | some (some (text, nLen), textMng) => some (cString text, nLen, textMng)
  | _ => none

section Loading

/-- The variables of the loop of `LoadSigunguFDatas`. -/
structure SigunguWalk where
  fp : File
  sdF : SigunguDataF
  loaded : List SigunguDataF

/-- One sigungu record, kept with its own offset in place of the link. -/
def loadSigunguPass (walk : SigunguWalk) : SigunguWalk ⊕ (File × List SigunguDataF) :=
  let (sdF, fp) := (walk.fp.fseek walk.sdF.offset).fread SigunguDataF.decode 10 walk.sdF
  let loaded := walk.loaded ++ [{ sdF with offset := walk.sdF.offset }]
  -- The offset that was just read is the one of the next record, and 0 ends the chain.
  if sdF.offset ≠ 0 then .inl ⟨fp, sdF, loaded⟩ else .inr (fp, loaded)

variable (locals : AddressLocals) (fuel : Nat)

/-- `LoadSigunguFDatas`, whose chain begins behind `SIDO_DATA`. -/
def SearchHelper.loadSigunguFDatas (helper : SearchHelper) : Option SearchHelper :=
  if helper.sigunguDataFs ≠ [] then some helper
  else
    let start : SigunguWalk := ⟨helper.fp, { locals.sigunguF with offset := 10 }, []⟩
    (Loop.run loadSigunguPass fuel start).map fun (fp, loaded) =>
      { helper with fp := fp, sigunguDataFs := loaded }

/-- The loop of `LoadLDongOffset` over the pairs of an offset and a code. -/
def loadLDongPairs : Nat → Nat → Nat → File → List (Nat × Nat) × File
  | 0, _, _, fp => ([], fp)
  | count + 1, nOffset, nDCode, fp =>
    let (nOffset, fp) := fp.freadWord 4 nOffset
    let (nDCode, fp) := fp.freadWord 4 nDCode
    let (rest, fp) := loadLDongPairs count nOffset nDCode fp
    ((nOffset, nDCode) :: rest, fp)

/-- `LoadLDongOffset`. -/
def SearchHelper.loadLDongOffset (helper : SearchHelper) : SearchHelper :=
  let (pairs, fp) := loadLDongPairs helper.addrHeader.addrDongCnt (u32 locals.nOffset)
    (u32 locals.nDCode) (helper.fp.fseek helper.addrHeader.addrDongOfs)
  { helper with fp := fp, ldCodeOffset := helper.ldCodeOffset ++ pairs }

/-- The headers at the end of the file and the sido at its beginning. -/
def SearchHelper.readHeaders (fp : File) : SearchHelper :=
  let (fileHeader, fp) := (fp.fseekEnd 16).fread SearchFileHeader.decode 16 locals.fileHeader
  let (addrHeader, fp) := (fp.fseek (u32Sub fileHeader.addrEndOfs 36)).fread
    AddrDataHeader.decode 36 locals.addrHeader
  let (poiHeader, fp) := (fp.fseek (u32Sub fileHeader.poiEndOfs 48)).fread
    PoiDataHeader.decode 48 locals.poiHeader
  let (sidoData, fp) := (fp.fseek 0).fread SidoData.decode 10 locals.sidoData
  ⟨fp, fileHeader, addrHeader, poiHeader, sidoData, [], [], [], [], [], [], [], [], []⟩

/-- Behind the headers all lists of a helper are empty. -/
theorem SearchHelper.readHeaders_lists (fp : File) :
    ∃ after fileHeader addrHeader poiHeader sidoData, SearchHelper.readHeaders locals fp =
      ⟨after, fileHeader, addrHeader, poiHeader, sidoData, [], [], [], [], [], [], [], [], []⟩ := by
  unfold SearchHelper.readHeaders
  dsimp only
  exact ⟨_, _, _, _, _, rfl⟩

/-- The constructor of `CUmSearchHelper` for a file that could be opened. -/
def SearchHelper.create (fp : File) : Option SearchHelper :=
  ((SearchHelper.readHeaders locals fp).loadSigunguFDatas locals fuel).map fun helper =>
    helper.loadLDongOffset locals

end Loading

section Regions

variable (locals : AddressLocals) (fuel : Nat)

/-- `GetSigunguData` with an offset. -/
def SearchHelper.sigunguDataAt (helper : SearchHelper) (sigunguOfs : Nat) : Option SigunguDataF :=
  helper.sigunguDataFs.find? fun sdF => sdF.offset == sigunguOfs

/-- The loop of `FindSigunguOfOffset`, with the record before the current one. -/
def findSigunguFrom (start : SigunguDataF → Nat) (ofs : Nat) :
    Option SigunguDataF → List SigunguDataF → Option SigunguDataF
  | before, [] => before
  -- In front of the first record there is none to step back to.
  | before, sdF :: rest =>
    if start sdF > ofs then before else findSigunguFrom start ofs (some sdF) rest

/-- `FindSigunguOfOffset`. -/
def SearchHelper.findSigunguOfOffset (helper : SearchHelper) (ofs : Nat) (bRoad : Bool) :
    Option SigunguDataF :=
  findSigunguFrom (if bRoad then SigunguDataF.roadOfs else SigunguDataF.offset) ofs none
    helper.sigunguDataFs

/-- The loop of `GetSigunguData` that gives every sigungu its name. -/
def nameSigungus (sidoIdx : Nat) :
    List SigunguDataF → TextMng → Option (List SigunguData × TextMng)
  | [], textMng => some ([], textMng)
  | sdF :: rest, textMng =>
    match copiedName (textMng.getSigunguName locals.nKeyValue fuel (sidoIdx * 1000 + sdF.code)) with
    | none => none
    | some (name, nLen, textMng) =>
      (nameSigungus sidoIdx rest textMng).map fun (named, textMng) =>
        (⟨name, nLen, sdF⟩ :: named, textMng)

/-- `GetSigunguData`, which is filled by its first call. -/
def HelperState.getSigunguData (state : HelperState) : Option HelperState :=
  if state.helper.sigunguDatas ≠ [] then some state
  else
    match state.helper.loadSigunguFDatas locals fuel with
    | none => none
    | some helper =>
      (nameSigungus locals fuel helper.sidoData.idx helper.sigunguDataFs state.textMng).map
        fun (named, textMng) => ⟨{ helper with sigunguDatas := named }, textMng⟩

/-- The variables of the loop of `GetDongData`. -/
structure DongWalk where
  fp : File
  textMng : TextMng
  ddF : DongDataF
  nextOffset : Nat
  dongDatas : List DongData

/-- One dong record, kept with its own offset in place of the link. -/
def dongDataPass (nSidoIdx sidoIdx : Nat) (pSigunguF : SigunguDataF) (walk : DongWalk) :
    DongWalk ⊕ Option (File × TextMng × List DongData) :=
  let (ddF, fp) := walk.fp.fread DongDataF.decode 18 walk.ddF
  match copiedName (walk.textMng.getDongName locals.nKeyValue fuel
    (dongCodeOf sidoIdx pSigunguF.code ddF.code)) with
  | none => .inr none
  | some (name, nLen, textMng) =>
    let dd : DongData := ⟨nSidoIdx, pSigunguF, name, nLen, { ddF with offset := walk.nextOffset }⟩
    let dongDatas := walk.dongDatas ++ [dd]
    -- The loop goes on by the link that was read, not by the offset that was kept.
    if ddF.offset = 0 then .inr (some (fp, textMng, dongDatas))
    else .inl ⟨fp.fseek ddF.offset, textMng, ddF, ddF.offset, dongDatas⟩

/-- `GetDongData`. -/
def HelperState.getDongData (state : HelperState) (nSidoIdx sigunguOfs : Nat) :
    Option HelperState :=
  let fp := state.helper.fp.fseek (u32 (sigunguOfs + 10))
  match state.helper.findSigunguOfOffset sigunguOfs false with
  | none => none
  | some pSigunguF =>
    let start : DongWalk := ⟨fp, state.textMng, locals.dongF, fp.pos, []⟩
    match Loop.run (dongDataPass locals fuel nSidoIdx state.helper.sidoData.idx pSigunguF) fuel
      start with
    | some (some (fp, textMng, dongDatas)) =>
      some ⟨{ state.helper with fp := fp, dongDatas := dongDatas }, textMng⟩
    | _ => none

/-- The variables of the loop of `GetRoadData`. -/
structure RoadWalk where
  fp : File
  textMng : TextMng
  info : RoadDataF
  nextOffset : Nat
  roadDatas : List RoadData

/-- One road record, which is left out when its code has no name. -/
def roadDataPass (nSidoIdx sidoIdx : Nat) (pSigunguF : SigunguDataF) (walk : RoadWalk) :
    RoadWalk ⊕ Option (File × TextMng × List RoadData) :=
  let (info, fp) := walk.fp.fread RoadDataF.decode 10 walk.info
  -- The link is put aside, as the field is overwritten by the own offset.
  let nTemp := info.offset
  let info := { info with offset := walk.nextOffset }
  match walk.textMng.getRoadName locals.nKeyValue fuel
    (dongCodeOf sidoIdx pSigunguF.code info.code) with
  | none => .inr none
  | some (found, textMng) =>
    let roadDatas := match found with
      | none => walk.roadDatas
      | some (text, nLen) => walk.roadDatas ++ [⟨nSidoIdx, pSigunguF, cString text, nLen, info⟩]
    if nTemp = 0 then .inr (some (fp, textMng, roadDatas))
    else .inl ⟨fp.fseek nTemp, textMng, info, nTemp, roadDatas⟩

/-- `GetRoadData`. -/
def HelperState.getRoadData (state : HelperState) (nSidoIdx sigunguOfs : Nat) :
    Option HelperState :=
  match state.helper.sigunguDataAt sigunguOfs with
  | none => none
  | some pSigunguF =>
    -- A sigungu without roads has no chain of them.
    if pSigunguF.roadOfs = 0 then
      some { state with helper := { state.helper with roadDatas := [] } }
    else
      let fp := state.helper.fp.fseek pSigunguF.roadOfs
      let start : RoadWalk := ⟨fp, state.textMng, locals.roadF, fp.pos, []⟩
      match Loop.run (roadDataPass locals fuel nSidoIdx state.helper.sidoData.idx pSigunguF) fuel
        start with
      | some (some (fp, textMng, roadDatas)) =>
        some ⟨{ state.helper with fp := fp, roadDatas := roadDatas }, textMng⟩
      | _ => none

end Regions

section Numbers

variable (locals : AddressLocals) (fuel : Nat)

/--
The loop over the bunji records of a law dong.

The offset and the two variables read into are carried from one record to the next.
-/
def lawDongBunjis (pDong : Slot) (bSan : Bool) :
    Nat → File → Nat → Nat → Nat → List BunjiData × File
  | 0, fp, _, _, _ => ([], fp)
  | count + 1, fp, offset, bunji, hoCnt =>
    let (bunji, fp) := fp.freadWord 2 bunji
    let (hoCnt, fp) := fp.freadWord 2 hoCnt
    -- The highest bit tells a number on a mountain from a plain one.
    let sanBunji := bitField bunji 15 1 != 0
    let next := u32 (offset + (7 * hoCnt + 4))
    let (rest, fp) := lawDongBunjis pDong bSan count (fp.fseek next) next bunji hoCnt
    (if bSan = sanBunji then
      ⟨pDong, if bSan then bitField bunji 0 15 else bunji, hoCnt, offset⟩ :: rest
    else rest, fp)

/-- The part of `GetBunjiData` for a law dong, which adds to the bunjis listed before. -/
def SearchHelper.addLawDongBunjis (helper : SearchHelper) (pDong : Slot) (dong : DongData)
    (bSan : Bool) : SearchHelper :=
  let fp := helper.fp.fseek (u32 (dong.info.offset + 18))
  let (bunjis, fp) := lawDongBunjis pDong bSan dong.info.bunjiCnt fp fp.pos
    (locals.bunji % 2 ^ 16) (locals.hoCnt % 2 ^ 16)
  { helper with fp := fp, bunjiDatas := helper.bunjiDatas ++ bunjis }

/-- `GetDongDataOfOffset`: a dong listed already, or one added to the other dongs. -/
def HelperState.getDongDataOfOffset (state : HelperState) (nSidoIdx : Nat)
    (pSigunguF : SigunguDataF) (dongOfs : Nat) : Option (Slot × DongData × HelperState) :=
  let helper := state.helper
  let here : DongData → Bool := fun dd => dd.info.offset == dongOfs
  match helper.dongDatas.findIdx? here, helper.dongDatas.find? here with
  | some index, some dd => some (.dong nSidoIdx index, dd, state)
  | _, _ =>
    match helper.dongExDatas.findIdx? here, helper.dongExDatas.find? here with
    | some index, some dd => some (.dongEx nSidoIdx index, dd, state)
    | _, _ =>
      let (info, fp) := (helper.fp.fseek dongOfs).fread DongDataF.decode 18 locals.dongF
      match copiedName (state.textMng.getDongName locals.nKeyValue fuel
        (dongCodeOf helper.sidoData.idx pSigunguF.code info.code)) with
      | none => none
      | some (name, _, textMng) =>
        -- The length of the name is not set here.
        let dd : DongData :=
          ⟨nSidoIdx, pSigunguF, name, locals.nLen, { info with offset := dongOfs }⟩
        some (.dongEx nSidoIdx helper.dongExDatas.length, dd,
          ⟨{ helper with fp := fp, dongExDatas := helper.dongExDatas ++ [dd] }, textMng⟩)

/-- The loop over the law dongs of an administrative dong. -/
def HelperState.addHDongBunjis (nSidoIdx : Nat) (pSigunguF : SigunguDataF) (bSan : Bool) :
    Nat → Nat → HelperState → Option HelperState
  | 0, _, state => some state
  | count + 1, offset, state =>
    let (offset, fp) := state.helper.fp.freadWord 4 offset
    let state := { state with helper := { state.helper with fp := fp } }
    -- An offset of 0 leads to no dong.
    if offset ≠ 0 then
      match state.getDongDataOfOffset locals fuel nSidoIdx pSigunguF offset with
      | none => none
      | some (pDong, dong, next) =>
        -- Called from an administrative dong, the bunjis are read whatever the flag says.
        let helper := next.helper.addLawDongBunjis locals pDong dong bSan
        let helper := { helper with fp := helper.fp.fseek fp.pos }
        addHDongBunjis nSidoIdx pSigunguF bSan count offset ⟨helper, next.textMng⟩
    else addHDongBunjis nSidoIdx pSigunguF bSan count offset state

/-- `GetBunjiData`, given the dong its pointer refers to. -/
def HelperState.getBunjiData (state : HelperState) (pDong : Slot) (dong : DongData)
    (bSan : Bool) : Option HelperState :=
  let helper := { state.helper with bunjiDatas := [] }
  if dong.info.ldongFlag = 1 then
    some { state with helper := helper.addLawDongBunjis locals pDong dong bSan }
  else
    let fp := helper.fp.fseek (u32 (dong.info.offset + 18))
    HelperState.addHDongBunjis locals fuel dong.nSidoIdx dong.pSigunguF bSan dong.info.bunjiCnt
      (u32 locals.offset) { state with helper := { helper with fp := fp } }

/-- The loop over the bunji records of a road. -/
def roadBunjis (pRoad : Slot) : Nat → File → Nat → Nat → Nat → List BunjiData × File
  | 0, fp, _, _, _ => ([], fp)
  | count + 1, fp, offset, bunji, hoCnt =>
    let (bunji, fp) := fp.freadWord 2 bunji
    let (hoCnt, fp) := fp.freadWord 2 hoCnt
    let next := u32 (offset + (8 * hoCnt + 4))
    let (rest, fp) := roadBunjis pRoad count (fp.fseek next) next bunji hoCnt
    (⟨pRoad, bunji, hoCnt, offset⟩ :: rest, fp)

/-- `GetRoadBunjiData`. -/
def SearchHelper.getRoadBunjiData (helper : SearchHelper) (pRoad : Slot) (road : RoadData) :
    SearchHelper :=
  let fp := helper.fp.fseek (u32 (road.info.offset + 10))
  let (bunjis, fp) := roadBunjis pRoad road.info.bunjiCnt fp fp.pos
    (locals.bunji % 2 ^ 16) (locals.hoCnt % 2 ^ 16)
  { helper with fp := fp, bunjiDatas := bunjis }

/-- Read the number of hos of the bunji at an offset. -/
def readHoCnt (fp : File) (bunjiOfs : Nat) : Nat × File :=
  let (_, fp) := (fp.fseek bunjiOfs).freadWord 2 (locals.bunji % 2 ^ 16)
  fp.freadWord 2 (locals.hoCnt % 2 ^ 16)

/-- `GetHoData`. -/
def SearchHelper.getHoData (helper : SearchHelper) (bunjiOfs : Nat) : SearchHelper :=
  let (hoCnt, fp) := readHoCnt locals helper.fp bunjiOfs
  let (hos, fp) := File.freadList HoData.decode 7 hoCnt locals.ho fp
  { helper with fp := fp, hoDatas := hos }

/-- `GetNewHoData`. -/
def SearchHelper.getNewHoData (helper : SearchHelper) (bunjiOfs : Nat) : SearchHelper :=
  let (hoCnt, fp) := readHoCnt locals helper.fp bunjiOfs
  let (hos, fp) := File.freadList NewHoData.decode 8 hoCnt locals.newHo fp
  { helper with fp := fp, newHoDatas := hos }

end Numbers

end AndroidApps.Gildroia
