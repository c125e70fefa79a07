import AndroidApps.Gildroia.UmModule
import AndroidApps.Lib.Refinement

/-! Browsing addresses: the global variables of the Java interface, and the calls that use them. -/

namespace AndroidApps.Gildroia

/-- A vector of dongs or of roads: that of the helper at a place, or the result of a name search. -/
inductive RegionList where
  | helper (sido : Nat)
  | names

namespace RegionList

/-- The element of a vector of dongs that an index stands for. -/
def dongSlot (index : Nat) : RegionList → Slot
  | helper sido => .dong sido index
  | names => .dongName index

/-- The element of a vector of roads that an index stands for. -/
def roadSlot (index : Nat) : RegionList → Slot
  | helper sido => .road sido index
  | names => .roadName index

end RegionList

namespace UmSearchModule

variable (um : UmSearchModule)

/-- The dong in a slot, unless the slot is gone or holds a road. -/
def dongOf : Slot → Option DongData
  | .dong sido index => um.helpers[sido]?.bind fun helper => helper.dongDatas[index]?
  | .dongEx sido index => um.helpers[sido]?.bind fun helper => helper.dongExDatas[index]?
  | .dongName index => um.dongNameResult[index]?
  | .road _ _ | .roadName _ => none

/-- The road in a slot, unless the slot is gone or holds a dong. -/
def roadOf : Slot → Option RoadData
  | .road sido index => um.helpers[sido]?.bind fun helper => helper.roadDatas[index]?
  | .roadName index => um.roadNameResult[index]?
  | .dong _ _ | .dongEx _ _ | .dongName _ => none

/-- The first field of what is in a slot, which dongs and roads have in common. -/
def nSidoIdxOf (slot : Slot) : Option Nat :=
  match um.dongOf slot with
  | some dong => some dong.nSidoIdx
  | none => (um.roadOf slot).map RoadData.nSidoIdx

end UmSearchModule

/--
The global variables of `SearchModule.cpp` that browsing uses.

An index of -1 and a pointer that is `NULL` are `none`.
A pointer to a vector of a helper is the place of the helper.
-/
structure Browser where
  um : UmSearchModule
  sidoIdx : Option Nat
  sigunguIdx : Option Nat
  dongIdx : Option Nat
  bunjiIdx : Option Nat
  roadIdx : Option Nat
  roadBunjiIdx : Option Nat
  pSigunguData : Option Nat
  pDongData : Option RegionList
  pRoadData : Option RegionList
  pBunjiData : Option Nat
  pHoData : Option Nat
  pNewHoData : Option Nat

/-- The uninitialised variables of one call. -/
structure BrowseLocals where
  address : AddressLocals
  regions : Nat → RegionLocals
  pos : Nat × Nat

/-- What a call returns to Java. -/
inductive BrowseAnswer where
  | count (size : Nat)
  | ho (number x y : Nat)
  /-- The array that begins with -1. -/
  | noHo
  /-- No array at all. -/
  | null
  deriving DecidableEq

namespace Browser

/-- The variables behind `InitModule`, when no address has been browsed yet. -/
def start (um : UmSearchModule) : Browser :=
  ⟨um, none, none, none, none, none, none, none, none, none, none, none, none⟩

variable (locals : BrowseLocals) (fuel : Nat) (browser : Browser)

/-- `GetSigunguCount`. -/
def getSigunguCount (sidoIdx : Nat) : Option (BrowseAnswer × Browser) := do
  let um ← browser.um.getSigunguData locals.address fuel sidoIdx
  let helper ← um.helpers[sidoIdx]?
  -- The sido is remembered for the calls behind this one.
  return (.count helper.sigunguDatas.length,
    { browser with um := um, sidoIdx := some sidoIdx, pSigunguData := some sidoIdx })

/-- `GetDongCount`. -/
def getDongCount (sigunguIdx : Nat) : Option (BrowseAnswer × Browser) :=
  match browser.pSigunguData with
  | none => some (.count 0, browser)
  | some pSigunguData => do
    let helper ← browser.um.helpers[pSigunguData]?
    let sigungu ← helper.sigunguDatas[sigunguIdx]?
    let sidoIdx ← browser.sidoIdx
    let um ← browser.um.getDongData locals.address fuel sidoIdx sigungu.pInfo.offset
    let helper ← um.helpers[sidoIdx]?
    return (.count helper.dongDatas.length,
      { browser with
        um := um, sigunguIdx := some sigunguIdx, pDongData := some (.helper sidoIdx) })

/-- `GetSearchDongCount`. -/
def getSearchDongCount (text : Nat → UInt16) (nLen : Nat) : Option (BrowseAnswer × Browser) := do
  let um ← browser.um.searchDongName locals.regions fuel text nLen
  return (.count um.dongNameResult.length, { browser with um := um, pDongData := some .names })

/-- `GetBunjiCount`, which lists the bunjis of the helper the dong belongs to. -/
def getBunjiCount (dongIdx : Nat) : Option (BrowseAnswer × Browser) :=
  match browser.pDongData with
  | none => some (.count 0, browser)
  | some pDongData => do
    let pDong := pDongData.dongSlot dongIdx
    let dong ← browser.um.dongOf pDong
    let um ← browser.um.getBunjiData locals.address fuel dong.nSidoIdx pDong dong false
    let helper ← um.helpers[dong.nSidoIdx]?
    return (.count helper.bunjiDatas.length,
      { browser with um := um, dongIdx := some dongIdx, pBunjiData := some dong.nSidoIdx })

/-- `GetHoCount`, which takes what the bunji belongs to for a dong. -/
def getHoCount (bunjiIdx : Nat) : Option (BrowseAnswer × Browser) :=
  match browser.pBunjiData with
  | none => some (.count 0, browser)
  | some pBunjiData => do
    let helper ← browser.um.helpers[pBunjiData]?
    let bunji ← helper.bunjiDatas[bunjiIdx]?
    -- Only the first field is read here, so that a road does as well.
    let nSidoIdx ← browser.um.nSidoIdxOf bunji.pDong
    let um ← browser.um.getHoData locals.address nSidoIdx bunji.offset
    let helper ← um.helpers[nSidoIdx]?
    return (.count helper.hoDatas.length,
      { browser with um := um, bunjiIdx := some bunjiIdx, pHoData := some nSidoIdx })

/-- `JNI_GetHoData`, which goes back to the bunji for its dong. -/
def jniGetHoData (hoIdx : Nat) : Option (BrowseAnswer × Browser) :=
  match browser.pHoData with
  | none => some (.null, browser)
  | some pHoData => do
    let pBunjiData ← browser.pBunjiData
    let bunjiIdx ← browser.bunjiIdx
    let helper ← browser.um.helpers[pBunjiData]?
    let bunji ← helper.bunjiDatas[bunjiIdx]?
    let helper ← browser.um.helpers[pHoData]?
    match helper.hoDatas[hoIdx]? with
    | none => return (.noHo, browser)
    | some ho =>
      -- The corner of a dong cannot be read from a road.
      let dong ← browser.um.dongOf bunji.pDong
      let helper ← browser.um.helpers[dong.nSidoIdx]?
      let (values, helper) := helper.hoDataOf dong.info ho locals.pos
      let helpers := browser.um.helpers.set dong.nSidoIdx helper
      return (.ho values.1 values.2.1 values.2.2,
        { browser with um := { browser.um with helpers := helpers } })

/-- `GetRoadCount`, which does not look at its parameter. -/
def getRoadCount (_sigunguIdx : Nat) : Option (BrowseAnswer × Browser) :=
  match browser.pSigunguData with
  | none => some (.count 0, browser)
  | some pSigunguData => do
    let helper ← browser.um.helpers[pSigunguData]?
    let sigunguIdx ← browser.sigunguIdx
    let sigungu ← helper.sigunguDatas[sigunguIdx]?
    let sidoIdx ← browser.sidoIdx
    let um ← browser.um.getRoadData locals.address fuel sidoIdx sigungu.pInfo.offset
    let helper ← um.helpers[sidoIdx]?
    return (.count helper.roadDatas.length,
      { browser with um := um, pRoadData := some (.helper sidoIdx) })

/-- `GetSearchRoadCount`. -/
def getSearchRoadCount (text : Nat → UInt16) (nLen : Nat) : Option (BrowseAnswer × Browser) := do
  let um ← browser.um.searchRoadName locals.regions fuel text nLen
  return (.count um.roadNameResult.length, { browser with um := um, pRoadData := some .names })

/-- `GetRoadBunjiCount`, whose bunjis take the place of those of a dong. -/
def getRoadBunjiCount (roadIdx : Nat) : Option (BrowseAnswer × Browser) :=
  match browser.pRoadData with
  | none => some (.count 0, browser)
  | some pRoadData => do
    let pRoad := pRoadData.roadSlot roadIdx
    let road ← browser.um.roadOf pRoad
    let um ← browser.um.getRoadBunjiData locals.address road.nSidoIdx pRoad road
    let helper ← um.helpers[road.nSidoIdx]?
    return (.count helper.bunjiDatas.length,
      { browser with um := um, roadIdx := some roadIdx, pBunjiData := some road.nSidoIdx })

/-- `GetRoadHoCount`, which takes the sido of the road with the index kept. -/
def getRoadHoCount (roadBunjiIdx : Nat) : Option (BrowseAnswer × Browser) :=
  match browser.pBunjiData with
  | none => some (.count 0, browser)
  | some pBunjiData => do
    let pRoadData ← browser.pRoadData
    let roadIdx ← browser.roadIdx
    -- The road is that of the index kept, in the vector that is current now.
    let road ← browser.um.roadOf (pRoadData.roadSlot roadIdx)
    let helper ← browser.um.helpers[pBunjiData]?
    let bunji ← helper.bunjiDatas[roadBunjiIdx]?
    let um ← browser.um.getNewHoData locals.address road.nSidoIdx bunji.offset
    let helper ← um.helpers[road.nSidoIdx]?
    return (.count helper.newHoDatas.length,
      { browser with
        um := um, roadBunjiIdx := some roadBunjiIdx, pNewHoData := some road.nSidoIdx })

end Browser

/-- The calls of the Java interface that browse addresses. -/
inductive BrowseCall where
  | getSigunguCount (sidoIdx : Nat)
  | getDongCount (sigunguIdx : Nat)
  | getSearchDongCount (text : Nat → UInt16) (nLen : Nat)
  | getBunjiCount (dongIdx : Nat)
  | getHoCount (bunjiIdx : Nat)
  | jniGetHoData (hoIdx : Nat)
  | getRoadCount (sigunguIdx : Nat)
  | getSearchRoadCount (text : Nat → UInt16) (nLen : Nat)
  | getRoadBunjiCount (roadIdx : Nat)
  | getRoadHoCount (roadBunjiIdx : Nat)

/-- A call with the values its uninitialised variables happen to have. -/
structure BrowseInput where
  locals : BrowseLocals
  request : BrowseCall

/-- One call, when it returns within the given number of passes of its loops. -/
def Browser.call (fuel : Nat) (browser : Browser) (input : BrowseInput) :
    Option (BrowseAnswer × Browser) :=
  match input.request with
  | .getSigunguCount sidoIdx => browser.getSigunguCount input.locals fuel sidoIdx
  | .getDongCount sigunguIdx => browser.getDongCount input.locals fuel sigunguIdx
  | .getSearchDongCount text nLen => browser.getSearchDongCount input.locals fuel text nLen
  | .getBunjiCount dongIdx => browser.getBunjiCount input.locals fuel dongIdx
  | .getHoCount bunjiIdx => browser.getHoCount input.locals bunjiIdx
  | .jniGetHoData hoIdx => browser.jniGetHoData input.locals hoIdx
  | .getRoadCount sigunguIdx => browser.getRoadCount input.locals fuel sigunguIdx
  | .getSearchRoadCount text nLen => browser.getSearchRoadCount input.locals fuel text nLen
  | .getRoadBunjiCount roadIdx => browser.getRoadBunjiCount input.locals roadIdx
  | .getRoadHoCount roadBunjiIdx => browser.getRoadHoCount input.locals roadBunjiIdx

end AndroidApps.Gildroia
