import AndroidApps.Gildroia.BrowseLaws
import AndroidApps.Gildroia.PoiSearches
import AndroidApps.Lib.Calls
import AndroidApps.Lib.Events

/-! The screens of the address search, over the global variables of the Java interface. -/

namespace AndroidApps.Gildroia

section Native

/-- A row of a list, as it is shown. -/
inductive ListRow where
  | name (text : JString)
  /-- A number of a bunji or of a ho. -/
  | number (value : Nat)
  deriving DecidableEq

namespace Browser

variable (browser : Browser)

/-- `GetSigunguName`, for a sigungu that is listed. -/
def getSigunguName (sigunguIdx : Nat) : Option ListRow := do
  let pSigunguData ← browser.pSigunguData
  let helper ← browser.um.helpers[pSigunguData]?
  let sigungu ← helper.sigunguDatas[sigunguIdx]?
  return .name (sigungu.name.take sigungu.nameLen)

/-- `GetDongName`, for a dong that is listed. -/
def getDongName (dongIdx : Nat) : Option ListRow := do
  let pDongData ← browser.pDongData
  let dong ← browser.um.dongOf (pDongData.dongSlot dongIdx)
  return .name (dong.name.take dong.nameLen)

/-- `GetRoadName`, for a road that is listed. -/
def getRoadName (roadIdx : Nat) : Option ListRow := do
  let pRoadData ← browser.pRoadData
  let road ← browser.um.roadOf (pRoadData.roadSlot roadIdx)
  return .name (road.name.take road.nameLen)

/-- `GetBunjiValue`, for a bunji that is listed. -/
def getBunjiValue (bunjiIdx : Nat) : Option ListRow := do
  let pBunjiData ← browser.pBunjiData
  let helper ← browser.um.helpers[pBunjiData]?
  let bunji ← helper.bunjiDatas[bunjiIdx]?
  return .number bunji.bunji

/-- `GetRoadBunjiValue`. -/
def getRoadBunjiValue (roadBunjiIdx : Nat) : Option ListRow := browser.getBunjiValue roadBunjiIdx

/-- `GetHoValue`, for a ho that is listed. -/
def getHoValue (hoIdx : Nat) : Option ListRow := do
  let pHoData ← browser.pHoData
  let helper ← browser.um.helpers[pHoData]?
  let ho ← helper.hoDatas[hoIdx]?
  return .number (Gildroia.getHoValue ho)

/-- `GetRoadHoValue`, for a ho that is listed. -/
def getRoadHoValue (roadHoIdx : Nat) : Option ListRow := do
  let pNewHoData ← browser.pNewHoData
  let helper ← browser.um.helpers[pNewHoData]?
  let newHo ← helper.newHoDatas[roadHoIdx]?
  return .number newHo.ho

/-- `JNI_GetRoadHoData`, which begins with -1 if there is no such ho, for the road chosen last. -/
def jniGetRoadHoData (locals : PositionLocals) (fuel roadHoIdx : Nat) :
    Option (Option (List Int) × Browser) :=
  match browser.pNewHoData with
  | none => some (none, browser)
  | some pNewHoData => do
    let helper ← browser.um.helpers[pNewHoData]?
    match helper.newHoDatas[roadHoIdx]? with
    -- An index behind the list is told by the first value.
    | none => return (some [-1], browser)
    | some newHo =>
      -- The road is the one of the last `GetRoadBunjiCount`, whatever roads are listed now.
      let pRoadData ← browser.pRoadData
      let roadIdx ← browser.roadIdx
      let road ← browser.um.roadOf (pRoadData.roadSlot roadIdx)
      let (values, um) ← UmSearchModule.roadHoData locals fuel browser.um road newHo
      return (some (values.map Int.ofNat), { browser with um := um })

end Browser

/-- A call that reads a row of a list. -/
inductive RowCall where
  | getSigunguName
  | getDongName
  | getRoadName
  | getBunjiValue
  | getRoadBunjiValue
  | getHoValue
  | getRoadHoValue

/-- The row that a call reads. -/
def Browser.rowOf (browser : Browser) : RowCall → Nat → Option ListRow
  | .getSigunguName => browser.getSigunguName
  | .getDongName => browser.getDongName
  | .getRoadName => browser.getRoadName
  | .getBunjiValue => browser.getBunjiValue
  | .getRoadBunjiValue => browser.getRoadBunjiValue
  | .getHoValue => browser.getHoValue
  | .getRoadHoValue => browser.getRoadHoValue

/-- A call that a view of the address search makes. -/
inductive ViewRequest where
  | getSidoCount
  | getSidoName (sidoIdx : Nat)
  | browse (request : BrowseCall)
  | row (call : RowCall) (idx : Nat)
  | jniGetRoadHoData (roadHoIdx : Nat)
  | getDongNameByDCode (dCode : Nat)
  | getAptCount (dongIdx : Nat)
  | getPoiName (poiIdx : Nat)
  /-- `GetPoiData` of the Java side, with the native calls it makes. -/
  | getPoiData (poiIdx : Nat)

/-- The values that the uninitialised variables of a call happen to have. -/
structure ViewLocals where
  browse : BrowseLocals
  poi : PoiNativeLocals
  code : LHCodeLocals

/-- A call with its uninitialised variables. -/
structure ViewCall where
  locals : ViewLocals
  request : ViewRequest

/-- What a call returns to a view. -/
inductive ViewAnswer where
  | browse (answer : BrowseAnswer)
  | row (row : ListRow)
  /-- A string, unless it is null. -/
  | text (chars : Option JString)
  /-- The array of `JNI_GetRoadHoData`, unless it is null. -/
  | roadHo (values : Option (List Int))
  | poi (poi : Option PoiData)

/--
The native side: whether `g_pSearchModule` is set, and the other global variables.

The module is that of the session, with the table of `LHTbl.dat` beside it. The record that a
session keeps of its calls is read by none of them, and neither is the dong of the last
`GetAptCount`.
-/
structure Native where
  loaded : Bool
  session : Session
  fpLHCode : Option File
  nLHCodeIdxOfs : Nat
  nLHCodeIdxCnt : Nat
  stLHCodeResult : StdMap Nat Unit
  cursor : PoiCursor
  apts : Option Nat

namespace Native

variable (fuel : Nat) (native : Native)

/-- The module of the session. -/
def um : UmSearchModule := native.session.browser.um

/-- Keep what a call left of the module of the session. -/
def keepUm (um : UmSearchModule) : Native :=
  { native with session := { native.session with browser := { native.session.browser with
      um := um } } }

/-- The module with its table. -/
def module : LHCodeModule :=
  ⟨native.um, native.fpLHCode, native.nLHCodeIdxOfs, native.nLHCodeIdxCnt, native.stLHCodeResult⟩

/-- Keep what a call left of the module. -/
def keep (module : LHCodeModule) : Native :=
  { native.keepUm module.um with
    fpLHCode := module.fpLHCode
    nLHCodeIdxOfs := module.nLHCodeIdxOfs
    nLHCodeIdxCnt := module.nLHCodeIdxCnt
    stLHCodeResult := module.stLHCodeResult }

/-- The part of the native side that the calls for POIs are about. -/
def poi : PoiNative := ⟨if native.loaded then some native.module else none, native.cursor⟩

/-- Keep what a call for POIs left. -/
def keepPoi (after : PoiNative) : Native :=
  match after.module with
  | none => { native with cursor := after.cursor }
  | some module => { native.keep module with cursor := after.cursor }

/-- `GetAptCount`, for a dong that is listed. -/
def getAptCount (locals : ViewLocals) (dongIdx : Nat) : Option (ViewAnswer × Native) :=
  match native.session.browser.pDongData with
  -- Without a list of dongs nothing is searched.
  | none => some (.browse (.count 0), native)
  | some pDongData => do
    let pDong ← native.um.dongOf (pDongData.dongSlot dongIdx)
    -- The category of the apartments is P-1-1.
    let found ← native.module.searchPoiCateDong locals.code fuel locals.poi.poi pDong 15 1 1 true
    let after := native.keepPoi (native.poi.found found)
    return (.browse (.count found.um.poiHeaders.length),
      { after with
        session := { after.session with browser := { after.session.browser with
          dongIdx := some dongIdx } }
        apts := some dongIdx })

/-- A call while there is a module. -/
def callLoaded (input : ViewCall) : Option (ViewAnswer × Native) :=
  match input.request with
  | .getSidoCount => some (.browse (.count native.um.helpers.length), native)
  | .getSidoName sidoIdx =>
    (native.um.getSidoName input.locals.poi.junk fuel sidoIdx).map fun (text, um) =>
      (.text (some text), native.keepUm um)
  | .browse request =>
    (native.session.call fuel ⟨input.locals.browse, request⟩).map fun (answer, session) =>
      (.browse answer, { native with session := session })
  | .row call idx => (native.session.browser.rowOf call idx).map fun row => (.row row, native)
  | .jniGetRoadHoData roadHoIdx =>
    (native.session.browser.jniGetRoadHoData input.locals.poi.position fuel roadHoIdx).map
      fun (values, browser) =>
        (.roadHo values, { native with session := { native.session with browser := browser } })
  | .getDongNameByDCode dCode =>
    (PoiNative.nameByDCode
      (native.um.textMng.getDongName input.locals.poi.junk fuel (u32 dCode))).map
      fun (text, textMng) =>
        (.text (some text), native.keepUm { native.um with textMng := textMng })
  | .getAptCount dongIdx => native.getAptCount fuel input.locals dongIdx
  | .getPoiName poiIdx =>
    (native.poi.name (·.getPoiNameAt poiIdx)).map fun chars => (.text chars, native)
  | .getPoiData poiIdx =>
    (native.poi.getPoiData input.locals.poi fuel poiIdx).map fun (poi, after) =>
      (.poi poi, native.keepPoi after)

/--
What a call answers without a module, unless it goes through `g_pSearchModule` or into a list that
was deleted with the module.
-/
def answerUnloaded : ViewRequest → Option ViewAnswer
  | .getSidoCount | .browse (.getSigunguCount _) => some (.browse (.count 0))
  | .getSidoName _ => some (.text none)
  -- The pointers to the lists outlive the module.
  | .browse (.getDongCount _) | .browse (.getRoadCount _) =>
    if native.session.browser.pSigunguData.isNone then some (.browse (.count 0)) else none
  -- These go through the pointer to the module at once.
  | .browse (.getSearchDongCount _ _) | .browse (.getSearchRoadCount _ _)
  | .getDongNameByDCode _ => none
  | .browse (.getBunjiCount _) | .getAptCount _ =>
    if native.session.browser.pDongData.isNone then some (.browse (.count 0)) else none
  | .browse (.getRoadBunjiCount _) =>
    if native.session.browser.pRoadData.isNone then some (.browse (.count 0)) else none
  | .browse (.getHoCount _) | .browse (.getRoadHoCount _) =>
    if native.session.browser.pBunjiData.isNone then some (.browse (.count 0)) else none
  | .browse (.jniGetHoData _) =>
    if native.session.browser.pHoData.isNone then some (.browse .null) else none
  | .jniGetRoadHoData _ =>
    if native.session.browser.pNewHoData.isNone then some (.roadHo none) else none
  -- Rows are read behind a count that is not zero, and there is none.
  | .row _ _ => none
  | .getPoiName poiIdx => (native.poi.name (·.getPoiNameAt poiIdx)).map .text
  | .getPoiData _ => none

/-- A call, when it returns. -/
def call (input : ViewCall) : Option (ViewAnswer × Native) :=
  if native.loaded then native.callLoaded fuel input
  else (native.answerUnloaded input.request).map fun answer => (answer, native)

end Native

end Native

section Views

/-- Where the dongs and the roads of a view come from. -/
inductive Regions where
  | sigungu (nSidoIdx nSigunguIdx : Nat)
  /-- The characters that are searched for, and what is behind them in the memory. -/
  | text (searchText : Nat → UInt16) (nLen : Nat)

/-- A view, by its class and its fields. -/
inductive AddressPlace where
  /-- `SearchMenu`. -/
  | menu
  /-- `SearchAddressMain`, over a `SearchAddressSido`. -/
  | main
  /-- `SearchAddressSigungu`. -/
  | sigungu (nSidoIdx : Nat)
  /-- `SearchAddressDnR`, with a tab of dongs and one of roads. -/
  | dnr (regions : Regions)
  /-- `SearchAddressBnA`, with a tab of bunjis and one of apartments. -/
  | bna (regions : Regions) (nDongIdx : Nat)
  /-- `SearchAddressBunji` of a road. -/
  | roadBunji (regions : Regions) (nRoadIdx : Nat)
  /-- `SearchAddressHo` of a dong. -/
  | ho (regions : Regions) (nDongIdx nBunjiIdx : Nat)
  /-- `SearchAddressHo` of a road. -/
  | roadHo (regions : Regions) (nRoadIdx nBunjiIdx : Nat)

/-- A `SetListData`: the call for the count, and the one for each row. -/
structure ListSource where
  count : ViewRequest
  row : Nat → ViewRequest

/-- The tab of dongs. -/
def Regions.dongList : Regions → ListSource
  | sigungu _ nSigunguIdx => ⟨.browse (.getDongCount nSigunguIdx), .row .getDongName⟩
  | text searchText nLen => ⟨.browse (.getSearchDongCount searchText nLen), .row .getDongName⟩

/-- The tab of roads. -/
def Regions.roadList : Regions → ListSource
  | sigungu _ nSigunguIdx => ⟨.browse (.getRoadCount nSigunguIdx), .row .getRoadName⟩
  | text searchText nLen => ⟨.browse (.getSearchRoadCount searchText nLen), .row .getRoadName⟩

namespace AddressPlace

/-- The lists that `onCreate` fills, in the order of their tabs. -/
def sources : AddressPlace → List ListSource
  | menu => []
  | main => [⟨.getSidoCount, .getSidoName⟩]
  | sigungu nSidoIdx => [⟨.browse (.getSigunguCount nSidoIdx), .row .getSigunguName⟩]
  | dnr regions => [regions.dongList, regions.roadList]
  | bna _ nDongIdx =>
    [⟨.browse (.getBunjiCount nDongIdx), .row .getBunjiValue⟩, ⟨.getAptCount nDongIdx, .getPoiName⟩]
  | roadBunji _ nRoadIdx => [⟨.browse (.getRoadBunjiCount nRoadIdx), .row .getRoadBunjiValue⟩]
  | ho _ _ nBunjiIdx => [⟨.browse (.getHoCount nBunjiIdx), .row .getHoValue⟩]
  | roadHo _ _ nBunjiIdx => [⟨.browse (.getRoadHoCount nBunjiIdx), .row .getRoadHoValue⟩]

/-- The view that a click on a row of a tab changes to, if it is not the map. -/
def next : AddressPlace → (tab row : Nat) → Option AddressPlace
  -- The views of the sidos and of the sigungus have one tab.
  | main, _, row => some (sigungu row)
  | sigungu nSidoIdx, _, row => some (dnr (.sigungu nSidoIdx row))
  | dnr regions, 0, row => some (bna regions row)
  | dnr regions, _, row => some (roadBunji regions row)
  | bna regions nDongIdx, 0, row => some (ho regions nDongIdx row)
  | roadBunji regions nRoadIdx, _, row => some (roadHo regions nRoadIdx row)
  | menu, _, _ | bna _ _, _ + 1, _ | ho _ _ _, _, _ | roadHo _ _ _, _, _ => none

end AddressPlace

/-- A view that was created, with what its lists hold. -/
structure AddressView where
  place : AddressPlace
  lists : List (List ListRow)

/-- The row of a tab can be clicked. -/
def AddressView.offers (view : AddressView) (tab row : Nat) : Bool :=
  (view.lists[tab]?.bind fun list => list[row]?).isSome

/-- What an event puts on the screen: a view, or the map at a position. -/
inductive ScreenChange where
  | view (view : AddressView)
  | map (position : Int × Int)

/-- The row that is made of an answer. -/
def ViewAnswer.toRow : ViewAnswer → Option ListRow
  | .row shown => some shown
  | .text (some chars) => some (.name chars)
  | _ => none

section Programs

variable (locals : ViewRequest → ViewLocals)

/-- A native call. -/
def askFor (request : ViewRequest) : Calls ViewCall ViewAnswer ViewAnswer :=
  .ask ⟨locals request, request⟩

namespace ListSource

variable (source : ListSource)

/-- The rows of these indices, one after the other. -/
def rows : List Nat → Calls ViewCall ViewAnswer (List ListRow)
  | [] => return []
  | idx :: rest => do
    let answer ← askFor locals (source.row idx)
    match answer.toRow with
    | none => .thrown
    | some shown => do
      let list ← rows rest
      return shown :: list

/-- `SetListData`. -/
def setListData : Calls ViewCall ViewAnswer (List ListRow) := do
  match ← askFor locals source.count with
  | .browse (.count size) => source.rows locals (List.range size)
  | _ => .thrown

/-- Fill lists one after the other. -/
def fill : List ListSource → Calls ViewCall ViewAnswer (List (List ListRow))
  | [] => return []
  | source :: rest => do
    let list ← source.setListData locals
    let lists ← fill rest
    return list :: lists

end ListSource

namespace AddressPlace

/-- A view is created. -/
def create (place : AddressPlace) : Calls ViewCall ViewAnswer ScreenChange := do
  let lists ← ListSource.fill locals place.sources
  return .view ⟨place, lists⟩

/--
The position of the row that is clicked, if the map is opened there.

Without a position there is no object, and its fields are read.
-/
def position : AddressPlace → (tab row : Nat) → Option (Calls ViewCall ViewAnswer (Int × Int))
  | ho _ _ _, _, row => some do
    match ← askFor locals (.browse (.jniGetHoData row)) with
    | .browse (.ho _ x y) => return (x, y)
    | _ => .thrown
  -- The name of the old dong is asked for behind the array, and is not shown on the map.
  | roadHo _ _ _, _, row => some do
    match ← askFor locals (.jniGetRoadHoData row) with
    | .roadHo (some [_, _, _, dCode, x, y]) => do
      let _ ← askFor locals (.getDongNameByDCode dCode.toNat)
      return (x, y)
    | _ => .thrown
  | bna _ _, _ + 1, row => some do
    match ← askFor locals (.getPoiData row) with
    | .poi (some poi) => return (poi.x, poi.y)
    | _ => .thrown
  | bna _ _, 0, _ | menu, _, _ | main, _, _ | sigungu _, _, _ | dnr _, _, _
  | roadBunji _ _, _, _ => none

end AddressPlace

/-- What a click on a row does: it opens the next view, or the map. -/
def AddressView.onItemClick (view : AddressView) (tab row : Nat) :
    Option (Calls ViewCall ViewAnswer ScreenChange) :=
  if view.offers tab row then
    match view.place.next tab row with
    | some place => some (place.create locals)
    | none => (view.place.position locals tab row).map fun position => do
      return .map (← position)
  else none

end Programs

end Views

section Application

/-- What the user does, with the uninitialised variables of the calls that this leads to. -/
inductive AddressEvent where
  /-- The search menu is opened. -/
  | openMenu
  /-- The address search is chosen in the menu. -/
  | openAddress (locals : ViewRequest → ViewLocals)
  /-- A row of a tab is clicked. -/
  | click (tab row : Nat) (locals : ViewRequest → ViewLocals)
  /-- A name is searched for. -/
  | search (searchText : Nat → UInt16) (nLen : Nat) (locals : ViewRequest → ViewLocals)
  | goBack

/-- The static `is_init`, the native side, the stack of views, and where the map was opened last. -/
structure AddressApp where
  isInit : Bool
  native : Native
  views : List AddressView
  map : Option (Int × Int)

namespace AddressApp

variable (module : LHCodeModule) (fuel : Nat) (app : AddressApp)

/-- The application behind its start, when the module that can be loaded is this one. -/
def start : AddressApp where
  isInit := false
  native :=
    { loaded := false
      session := .start module.um
      fpLHCode := module.fpLHCode
      nLHCodeIdxOfs := module.nLHCodeIdxOfs
      nLHCodeIdxCnt := module.nLHCodeIdxCnt
      stLHCodeResult := module.stLHCodeResult
      cursor := .init
      apts := none }
  views := []
  map := none

/-- `InitModule`. -/
def initModule (native : Native) : Native := { native.keep module with loaded := true }

/-- `SearchModule.getInstance`, which loads the module the first time. -/
def getInstance : AddressApp :=
  if app.isInit then app
  else { app with native := initModule module app.native, isInit := true }

/-- `ExitModule`, which leaves the other variables. -/
def exitModule : AddressApp := { app with native := { app.native with loaded := false } }

/-- The native calls of an event, and what it shows behind them, if it is possible. -/
def calls : AddressEvent → Option (Calls ViewCall ViewAnswer ScreenChange)
  | .openMenu | .goBack => none
  | .openAddress locals =>
    match app.views.head?.map AddressView.place with
    | some .menu => some (AddressPlace.main.create locals)
    | _ => none
  | .click tab row locals =>
    match app.views with
    | [] => none
    | view :: _ => view.onItemClick locals tab row
  | .search searchText nLen locals =>
    match app.views.head?.map AddressView.place with
    | some .main => some ((AddressPlace.dnr (.text searchText nLen)).create locals)
    | _ => none

/-- `changeScreen` with a new view, or the map on top of the screen. -/
def shows (native : Native) : ScreenChange → AddressApp
  | .view view => { app with native := native, views := view :: app.views }
  | .map position => { app with native := native, map := some position }

/--
The native calls of an event are made.

A view that is created calls `getInstance`, and one that opens the map has done so before.
-/
def perform (program : Calls ViewCall ViewAnswer ScreenChange) : Option AddressApp := do
  let app := app.getInstance module
  let (shown, native) ← program.run (Native.call fuel) app.native
  return app.shows native shown

/-- `goBack`, which calls `onDestroy` of the view: that of the menu exits the module. -/
def goBack : Option AddressApp :=
  match app.views with
  | [] => none
  | view :: rest =>
    match view.place with
    -- `SearchMenu.onDestroy` calls `SearchModule.getInstance( ).ExitModule( )`.
    | .menu => some { (app.getInstance module).exitModule with views := rest }
    | _ => some { app with views := rest }

/-- One event, unless it is not possible where the application stands, or does not return. -/
def step (event : AddressEvent) : Option AddressApp :=
  match event with
  | .openMenu =>
    match app.views with
    | [] => some { app with views := [⟨.menu, []⟩] }
    | _ :: _ => none
  | .goBack => app.goBack module
  | .openAddress _ | .click _ _ _ | .search _ _ _ =>
    (app.calls event).bind (app.perform module fuel)

end AddressApp

end Application

end AndroidApps.Gildroia
