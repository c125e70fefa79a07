import AndroidApps.Gildroia.SearchHelper
import AndroidApps.Lib.Refinement

/-! The POI part of the JNI layer: one cached POI behind indexed getters and an iterator. -/

namespace AndroidApps.Gildroia

/-- `POI_BODY`, with its texts as strings. -/
structure PoiBody where
  branchName : List UInt16
  tel : List (List UInt8)
  xEx : Nat
  yEx : Nat
  info : PoiBodyF
  deriving DecidableEq

/--
The global variables of `SearchModule.cpp` that concern POIs.

The cached header and body are what `m_pPoiHeader` and `m_pPoiBody` point to.
The iterator is a position of the current result, unless it belongs to an earlier one.
-/
structure PoiCursor where
  poiDatas : Option PoiMap
  poiHeader : Option PoiHeader
  poiBody : Option PoiBody
  poiHeaderIdx : Int
  poiDatasIterator : Option Nat
  bChangedPoiIterator : Bool

/-- The variables before the first call. -/
def PoiCursor.init : PoiCursor := ⟨none, none, none, -1, none, true⟩

/-- What a call returns to the Java side. -/
inductive PoiAnswer where
  | count (size : Nat)
  | moved (onElement : Bool)
  | text (chars : Option (List UInt16))
  | phone (digits : Option (List UInt8))
  | data (values : Option (List Nat))
  | flag (set : Bool)
  deriving DecidableEq

/-- The calls, with what a search finds as a parameter. -/
inductive PoiCall where
  | getAptCount (result : Option PoiMap)
  | getCatePoiCount (result : Option PoiMap)
  | getSearchPoiNameCount (result : PoiMap)
  | getSearchPoiCallCount (result : PoiMap)
  | moveFirstPoiData
  | moveNextPoiData
  | getPoiNameAt (poiIdx : Nat)
  | getPoiName
  | getPoiBranchNameAt (poiIdx : Nat)
  | getPoiBranchName
  | getPoiCallNumberAt (poiIdx : Nat)
  | getPoiCallNumber
  | getPoiDataAt (poiIdx : Nat)
  | getPoiData
  | isCatePoiAt (poiIdx : Nat)
  | isCatePoi

/-- The branch name of a POI, or `NULL` when it has none. -/
def branchNameOf (body : PoiBody) : PoiAnswer :=
  .text (if body.info.branch = 1 then some body.branchName else none)

/-- The first phone number of a POI, or `NULL` when it has none. -/
def callNumberOf (body : PoiBody) : PoiAnswer :=
  .phone (if body.info.telCnt > 0 then some (body.tel.headD []) else none)

/-- The eleven values of `JNI_GetPoiData`. -/
def poiDataOf (header : PoiHeader) (body : PoiBody) : PoiAnswer :=
  .data (some [header.nSidoIdx, body.info.hDCode, header.info.cateFlag, body.info.san,
    body.info.parking, body.info.bunji, body.info.ho, body.info.x, body.info.y, body.xEx, body.yEx])

/-- Whether a POI belongs to a category. -/
def isCateOf (header : PoiHeader) : PoiAnswer := .flag (header.info.cateFlag != 0)

namespace PoiCursor

variable (getSearchPoiResult : PoiHeader → PoiBody) (state : PoiCursor)

/-- What every search does first, and the result it leaves. -/
def search (result : Option PoiMap) : PoiCursor :=
  { state with
    poiDatas := result
    poiDatasIterator := none
    bChangedPoiIterator := true
    poiHeaderIdx := -1 }

/-- The size of the result a search reports. -/
def countOf (result : Option PoiMap) : PoiAnswer := .count ((result.map List.length).getD 0)

/-- The element an index or an iterator refers to, if there is one. -/
def element (place : Option Nat) : Option (List UInt16 × PoiHeader) :=
  match state.poiDatas, place with
  | some poiDatas, some place => poiDatas[place]?
  | _, _ => none

/-- Point the cache to an element. -/
def cache (entry : List UInt16 × PoiHeader) : PoiCursor :=
  { state with poiHeader := some entry.2, poiBody := some (getSearchPoiResult entry.2) }

/-- The loading block of the getters with an index. -/
def loadAt (poiIdx : Nat) : Option PoiCursor :=
  if state.poiBody = none ∨ state.poiHeaderIdx ≠ poiIdx then
    -- Walking past the last element has no defined outcome.
    (state.element (some poiIdx)).map fun entry =>
      { state.cache getSearchPoiResult entry with poiHeaderIdx := poiIdx }
  else some state

/-- The loading block of the getters on the iterator. -/
def load : Option PoiCursor :=
  if state.bChangedPoiIterator then
    (state.element state.poiDatasIterator).map fun entry =>
      { state.cache getSearchPoiResult entry with bChangedPoiIterator := false }
  else some state

/-- Answer from the cached header and body. -/
def fromCache (answer : PoiHeader → PoiBody → PoiAnswer) : Option (PoiAnswer × PoiCursor) :=
  match state.poiHeader, state.poiBody with
  | some header, some body => some (answer header body, state)
  | _, _ => none

/-- `MoveFirstPoiData`. -/
def moveFirstPoiData : Option (PoiAnswer × PoiCursor) :=
  match state.poiDatas with
  | none => some (.moved false, state)
  | some poiDatas =>
    some (.moved (decide (0 < poiDatas.length)),
      { state with bChangedPoiIterator := true, poiDatasIterator := some 0 })

/-- `MoveNextPoiData`. -/
def moveNextPoiData : Option (PoiAnswer × PoiCursor) :=
  match state.poiDatas with
  | none => some (.moved false, state)
  | some poiDatas =>
    match state.poiDatasIterator with
    | none => none
    | some place =>
      -- The iterator cannot be moved beyond the end.
      if place < poiDatas.length then
        some (.moved (decide (place + 1 < poiDatas.length)),
          { state with poiDatasIterator := some (place + 1), bChangedPoiIterator := true })
      else none

/-- `GetPoiName(I)`, which does not use the cache. -/
def getPoiNameAt (poiIdx : Nat) : Option (PoiAnswer × PoiCursor) :=
  match state.poiDatas with
  | none => some (.text none, state)
  | some _ => (state.element (some poiIdx)).map fun entry => (.text (some entry.1), state)

/-- `GetPoiName()`. -/
def getPoiName : Option (PoiAnswer × PoiCursor) :=
  (state.element state.poiDatasIterator).map fun entry => (.text (some entry.1), state)

/-- `GetPoiBranchName(I)`. -/
def getPoiBranchNameAt (poiIdx : Nat) : Option (PoiAnswer × PoiCursor) :=
  match state.poiDatas with
  | none => some (.text none, state)
  | some _ =>
    (state.loadAt getSearchPoiResult poiIdx).bind (fromCache · fun _ body => branchNameOf body)

/-- `GetPoiBranchName()`. -/
def getPoiBranchName : Option (PoiAnswer × PoiCursor) :=
  (state.load getSearchPoiResult).bind (fromCache · fun _ body => branchNameOf body)

/-- `GetPoiCallNumber(I)`, which does not ask for a result first. -/
def getPoiCallNumberAt (poiIdx : Nat) : Option (PoiAnswer × PoiCursor) :=
  (state.loadAt getSearchPoiResult poiIdx).bind (fromCache · fun _ body => callNumberOf body)

/-- `GetPoiCallNumber()`. -/
def getPoiCallNumber : Option (PoiAnswer × PoiCursor) :=
  (state.load getSearchPoiResult).bind (fromCache · fun _ body => callNumberOf body)

/-- `JNI_GetPoiData(I)`. -/
def getPoiDataAt (poiIdx : Nat) : Option (PoiAnswer × PoiCursor) :=
  match state.poiDatas with
  | none => some (.data none, state)
  | some poiDatas =>
    -- Outside the result only the mark -1 is returned.
    if poiDatas.length ≤ poiIdx then some (.data none, state)
    else (state.loadAt getSearchPoiResult poiIdx).bind (fromCache · poiDataOf)

/-- `JNI_GetPoiData()`. -/
def getPoiData : Option (PoiAnswer × PoiCursor) :=
  (state.load getSearchPoiResult).bind (fromCache · poiDataOf)

/-- `IsCatePoi(I)`, which does not use the cache. -/
def isCatePoiAt (poiIdx : Nat) : Option (PoiAnswer × PoiCursor) :=
  match state.poiDatas with
  | none => some (.flag false, state)
  | some _ => (state.element (some poiIdx)).map fun entry => (isCateOf entry.2, state)

/-- `IsCatePoi()`. -/
def isCatePoi : Option (PoiAnswer × PoiCursor) :=
  (state.load getSearchPoiResult).bind (fromCache · fun header _ => isCateOf header)

/-- One JNI call. -/
def call (state : PoiCursor) : PoiCall → Option (PoiAnswer × PoiCursor)
  -- Without a list of dongs `GetAptCount` returns before it resets anything.
  | .getAptCount none => some (.count 0, state)
  | .getAptCount (some result) => some (countOf (some result), state.search (some result))
  | .getCatePoiCount result => some (countOf result, state.search result)
  | .getSearchPoiNameCount result => some (countOf (some result), state.search (some result))
  | .getSearchPoiCallCount result => some (countOf (some result), state.search (some result))
  | .moveFirstPoiData => state.moveFirstPoiData
  | .moveNextPoiData => state.moveNextPoiData
  | .getPoiNameAt poiIdx => state.getPoiNameAt poiIdx
  | .getPoiName => state.getPoiName
  | .getPoiBranchNameAt poiIdx => state.getPoiBranchNameAt getSearchPoiResult poiIdx
  | .getPoiBranchName => state.getPoiBranchName getSearchPoiResult
  | .getPoiCallNumberAt poiIdx => state.getPoiCallNumberAt getSearchPoiResult poiIdx
  | .getPoiCallNumber => state.getPoiCallNumber getSearchPoiResult
  | .getPoiDataAt poiIdx => state.getPoiDataAt getSearchPoiResult poiIdx
  | .getPoiData => state.getPoiData getSearchPoiResult
  | .isCatePoiAt poiIdx => state.isCatePoiAt poiIdx
  | .isCatePoi => state.isCatePoi getSearchPoiResult

end PoiCursor

end AndroidApps.Gildroia
