import AndroidApps.Gildroia.Searches

/-! The search module: the helpers of the sidos installed, and the calls it hands on to them. -/

namespace AndroidApps.Gildroia

/-- The tails of `g_sido_info`, which name the files of the sidos. -/
def sidoTails : List String :=
  ["su", "bs", "dg", "ic", "kj", "dj", "us", "kg", "kw", "cb", "cn", "jb", "jn", "kb", "kn", "jj"]

/-- The path of a sido file. -/
def sidoPath (pPath tail : String) : String :=
  (if pPath.endsWith "/" then pPath else pPath ++ "/") ++ tail ++ ".dat"

namespace UmSearchModule

section Loading

variable (locals : AddressLocals) (fuel : Nat) (fopen : String → Option File)

/-- The loop of `Load`, which leaves out the files that cannot be opened. -/
def loadHelpers (pPath : String) : List String → Option (List SearchHelper)
  | [] => some []
  | tail :: rest =>
    match fopen (sidoPath pPath tail) with
    | none => loadHelpers pPath rest
    | some fp =>
      match SearchHelper.create locals fuel fp with
      | none => none
      | some helper => (loadHelpers pPath rest).map fun helpers => helper :: helpers

/-- The first path is tried, and then the others. -/
theorem loadHelpers_cons (pPath tail : String) (rest : List String) :
    loadHelpers locals fuel fopen pPath (tail :: rest) =
      match fopen (sidoPath pPath tail) with
      | none => loadHelpers locals fuel fopen pPath rest
      | some fp =>
        match SearchHelper.create locals fuel fp with
        | none => none
        | some helper =>
          (loadHelpers locals fuel fopen pPath rest).map fun helpers => helper :: helpers := rfl

/-- `Load`, given the text manager that `m_Text_mng.Load` leaves. -/
def load (pPath : String) (textMng : TextMng) : Option UmSearchModule :=
  (loadHelpers locals fuel fopen pPath sidoTails).map fun helpers => ⟨helpers, textMng, [], [], []⟩

end Loading

section Calls

variable (um : UmSearchModule)

/-- Hand a call on to the helper with an index, if there is one. -/
def onHelper (nSidoIdx : Nat) (call : HelperState → Option HelperState) : Option UmSearchModule :=
  match um.helpers[nSidoIdx]? with
  | none => none
  | some helper =>
    (call ⟨helper, um.textMng⟩).map fun after =>
      { um with helpers := um.helpers.set nSidoIdx after.helper, textMng := after.textMng }

variable (locals : AddressLocals) (fuel : Nat)

/-- `GetSigunguData`. -/
def getSigunguData (nSidoIdx : Nat) : Option UmSearchModule :=
  um.onHelper nSidoIdx fun state => state.getSigunguData locals fuel

/-- `GetDongData`. -/
def getDongData (nSidoIdx sigunguOfs : Nat) : Option UmSearchModule :=
  um.onHelper nSidoIdx fun state => state.getDongData locals fuel nSidoIdx sigunguOfs

/-- `GetRoadData`. -/
def getRoadData (nSidoIdx sigunguOfs : Nat) : Option UmSearchModule :=
  um.onHelper nSidoIdx fun state => state.getRoadData locals fuel nSidoIdx sigunguOfs

/-- `GetBunjiData` for a dong, whose flag is passed on negated. -/
def getBunjiData (nSidoIdx : Nat) (pDong : Slot) (dong : DongData) (bSan : Bool) :
    Option UmSearchModule :=
  um.onHelper nSidoIdx fun state => state.getBunjiData locals fuel pDong dong !bSan

/-- `GetBunjiData` for a road. -/
def getRoadBunjiData (nSidoIdx : Nat) (pRoad : Slot) (road : RoadData) : Option UmSearchModule :=
  um.onHelper nSidoIdx fun state =>
    some { state with helper := state.helper.getRoadBunjiData locals pRoad road }

/-- `GetHoData`. -/
def getHoData (nSidoIdx bunjiOfs : Nat) : Option UmSearchModule :=
  um.onHelper nSidoIdx fun state =>
    some { state with helper := state.helper.getHoData locals bunjiOfs }

/-- `GetNewHoData`. -/
def getNewHoData (nSidoIdx bunjiOfs : Nat) : Option UmSearchModule :=
  um.onHelper nSidoIdx fun state =>
    some { state with helper := state.helper.getNewHoData locals bunjiOfs }

end Calls

section Searching

variable {α : Type}

/-- A search through all helpers from an index on, which adds to one result. -/
def searchFrom (search : Nat → HelperState → List α → Option (List α × HelperState)) :
    Nat → List SearchHelper → TextMng → List α → Option (List SearchHelper × TextMng × List α)
  | _, [], textMng, result => some ([], textMng, result)
  | nSidoIdx, helper :: rest, textMng, result =>
    match search nSidoIdx ⟨helper, textMng⟩ result with
    | none => none
    | some (result, after) =>
      (searchFrom search (nSidoIdx + 1) rest after.textMng result).map
        fun (helpers, textMng, result) => (after.helper :: helpers, textMng, result)

variable (locals : Nat → RegionLocals) (fuel : Nat) (um : UmSearchModule)

/-- `SearchDongName`. -/
def searchDongName (dongName : Nat → UInt16) (nLen : Nat) : Option UmSearchModule :=
  let nChoCode := tranChosungText dongName nLen
  let nCkCmpHan := checkCompletHangul dongName nLen
  let search := fun nSidoIdx (state : HelperState) result =>
    state.searchDongName (locals nSidoIdx) fuel nSidoIdx dongName nChoCode nCkCmpHan result
  (searchFrom search 0 um.helpers um.textMng []).map fun (helpers, textMng, result) =>
    { um with helpers := helpers, textMng := textMng, dongNameResult := result }

/-- `SearchRoadName`. -/
def searchRoadName (roadName : Nat → UInt16) (nLen : Nat) : Option UmSearchModule :=
  let nChoCode := tranChosungText roadName nLen
  let nCkCmpHan := checkCompletHangul roadName nLen
  let search := fun nSidoIdx (state : HelperState) result =>
    state.searchRoadName (locals nSidoIdx) fuel nSidoIdx roadName nChoCode nCkCmpHan result
  (searchFrom search 0 um.helpers um.textMng []).map fun (helpers, textMng, result) =>
    { um with helpers := helpers, textMng := textMng, roadNameResult := result }

end Searching

section Names

variable (junk fuel : Nat) (um : UmSearchModule)

/-- `GetSidoName`, with the characters of the name as many as its length says. -/
def getSidoName (nIndex : Int) : Option (List UInt16 × UmSearchModule) :=
  -- An index outside the helpers cannot be read.
  if nIndex < 0 then none
  else
    match um.helpers[nIndex.toNat]? with
    | none => none
    | some helper =>
      match um.textMng.getSidoName junk fuel helper.sidoData.idx with
      | some (some (text, nLen), textMng) => some (text.take nLen, { um with textMng := textMng })
      | _ => none

/-- `GetSidoNameByDCode`, for a code that is not negative. -/
def getSidoNameByDCode (dCode : Nat) : Option (List UInt16 × UmSearchModule) :=
  um.getSidoName junk fuel (toInt (u32 (dCode / 100000000)))

end Names

/-- The code `JNI_GetRoadHoData` composes for a ho of a road. -/
def roadHoCode (road : RoadData) (nDCode : Nat) : Nat :=
  dongCodeOf road.nSidoIdx road.pSigunguF.code nDCode

/-- The six values of `JNI_GetRoadHoData`. -/
def roadHoData (locals : PositionLocals) (fuel : Nat) (um : UmSearchModule) (road : RoadData)
    (newHo : NewHoData) : Option (List Nat × UmSearchModule) :=
  match um.helpers[road.nSidoIdx]? with
  | none => none
  | some helper =>
    (helper.getNewHoPos locals fuel newHo.offset).map fun (pos, helper) =>
      ([newHo.ho, newHo.oBunji, getHoValue pos.ho, roadHoCode road pos.code, pos.x, pos.y],
        { um with helpers := um.helpers.set road.nSidoIdx helper })

end UmSearchModule

end AndroidApps.Gildroia
