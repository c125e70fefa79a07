import AndroidApps.Gildroia.TextMng
import Mathlib.Data.List.Sort

/-! The state of a search helper, one for each sido file, and of the module that owns them. -/

namespace AndroidApps.Gildroia

/-- `SIGUNGU_DATA`, whose record is never changed once it is loaded. -/
structure SigunguData where
  name : List UInt16
  nameLen : Nat
  pInfo : SigunguDataF
  deriving DecidableEq

/-- `DONG_DATA`. -/
structure DongData where
  nSidoIdx : Nat
  pSigunguF : SigunguDataF
  name : List UInt16
  nameLen : Nat
  info : DongDataF
  deriving DecidableEq

/-- `ROAD_DATA`. -/
structure RoadData where
  nSidoIdx : Nat
  pSigunguF : SigunguDataF
  name : List UInt16
  nameLen : Nat
  info : RoadDataF
  deriving DecidableEq

/--
What a `void *` to a dong or a road points to: an element of one of the result vectors.

A vector of a helper is named by the place of the helper in the module.
-/
inductive Slot where
  | dong (sido index : Nat)
  | dongEx (sido index : Nat)
  | dongName (index : Nat)
  | road (sido index : Nat)
  | roadName (index : Nat)
  deriving DecidableEq

/-- `BUNJI_DATA`. -/
structure BunjiData where
  pDong : Slot
  bunji : Nat
  hoCnt : Nat
  offset : Nat
  deriving DecidableEq

/-- `CUmSearchHelper`. -/
structure SearchHelper where
  fp : File
  fileHeader : SearchFileHeader
  addrHeader : AddrDataHeader
  poiHeader : PoiDataHeader
  sidoData : SidoData
  sigunguDatas : List SigunguData
  sigunguDataFs : List SigunguDataF
  dongDatas : List DongData
  dongExDatas : List DongData
  roadDatas : List RoadData
  bunjiDatas : List BunjiData
  hoDatas : List HoData
  newHoDatas : List NewHoData
  ldCodeOffset : List (Nat × Nat)
  deriving DecidableEq

/-- The multimap of POIs by name, as the list of its entries in order. -/
abbrev PoiMap := List (List UInt16 × PoiHeader)

/-- `insert` places an entry behind those whose name is not greater. -/
def PoiMap.insert (poiHeaders : PoiMap) (entry : List UInt16 × PoiHeader) : PoiMap :=
  List.orderedInsert (fun new held => new.1 < held.1) entry poiHeaders

/-- `CUmSearchModule`: the helpers of the sidos installed, and the results of the last searches. -/
structure UmSearchModule where
  helpers : List SearchHelper
  textMng : TextMng
  dongNameResult : List DongData
  roadNameResult : List RoadData
  poiHeaders : PoiMap

/-- An insertion adds one entry and moves none out. -/
theorem PoiMap.insert_perm (poiHeaders : PoiMap) (entry : List UInt16 × PoiHeader) :
    (poiHeaders.insert entry).Perm (entry :: poiHeaders) :=
  List.perm_orderedInsert _ _ _

end AndroidApps.Gildroia
