import AndroidApps.Lib.Bytes

/-! The packed records of the search files, decoded from their bytes. -/

namespace AndroidApps.Gildroia

/-- A bit field of a word, counted from its lowest bit. -/
def bitField (word low width : Nat) : Nat := word / 2 ^ low % 2 ^ width

/-- `SIDO_DATA`, 10 bytes at the start of a sido file. -/
structure SidoData where
  idx : Nat
  code : Nat
  meshXMin : Nat
  meshXMax : Nat
  meshYMin : Nat
  meshYMax : Nat
  deriving DecidableEq

def SidoData.decode (bytes : List UInt8) : SidoData :=
  ⟨wordAt bytes 0 1, wordAt bytes 1 1, wordAt bytes 2 2, wordAt bytes 4 2, wordAt bytes 6 2,
    wordAt bytes 8 2⟩

instance : InMemory SidoData where
  bytes sido := leBytes 1 sido.idx ++ leBytes 1 sido.code ++ leBytes 2 sido.meshXMin ++
    leBytes 2 sido.meshXMax ++ leBytes 2 sido.meshYMin ++ leBytes 2 sido.meshYMax

/-- `SIGUNGU_DATA_F`, 10 bytes. -/
structure SigunguDataF where
  code : Nat
  roadOfs : Nat
  offset : Nat
  deriving DecidableEq

def SigunguDataF.decode (bytes : List UInt8) : SigunguDataF :=
  ⟨wordAt bytes 0 2, wordAt bytes 2 4, wordAt bytes 6 4⟩

instance : InMemory SigunguDataF where
  bytes sdF := leBytes 2 sdF.code ++ leBytes 4 sdF.roadOfs ++ leBytes 4 sdF.offset

/-- `DONG_DATA_F`, 18 bytes. -/
structure DongDataF where
  code : Nat
  minX : Nat
  minY : Nat
  ldongFlag : Nat
  roadFlag : Nat
  bunjiCnt : Nat
  offset : Nat
  deriving DecidableEq

def DongDataF.decode (bytes : List UInt8) : DongDataF :=
  let flags := wordAt bytes 12 2
  ⟨wordAt bytes 0 4, wordAt bytes 4 4, wordAt bytes 8 4, bitField flags 0 1, bitField flags 1 1,
    bitField flags 2 14, wordAt bytes 14 4⟩

instance : InMemory DongDataF where
  bytes ddF := leBytes 4 ddF.code ++ leBytes 4 ddF.minX ++ leBytes 4 ddF.minY ++
    leBytes 2 (ddF.ldongFlag + ddF.roadFlag * 2 + ddF.bunjiCnt * 2 ^ 2) ++ leBytes 4 ddF.offset

/-- `ROAD_DATA_F`, 10 bytes. -/
structure RoadDataF where
  code : Nat
  bunjiCnt : Nat
  offset : Nat
  deriving DecidableEq

def RoadDataF.decode (bytes : List UInt8) : RoadDataF :=
  ⟨wordAt bytes 0 4, wordAt bytes 4 2, wordAt bytes 6 4⟩

instance : InMemory RoadDataF where
  bytes info := leBytes 4 info.code ++ leBytes 2 info.bunjiCnt ++ leBytes 4 info.offset

/-- `HO_DATA`, 7 bytes, read as its first variant. -/
structure HoData where
  ho : Nat
  hoQuota : Nat
  xQuota : Nat
  yQuota : Nat
  x : Nat
  y : Nat
  deriving DecidableEq

def HoData.decode (bytes : List UInt8) : HoData :=
  let quotas := wordAt bytes 1 2
  ⟨wordAt bytes 0 1, bitField quotas 0 6, bitField quotas 6 5, bitField quotas 11 5,
    wordAt bytes 3 2, wordAt bytes 5 2⟩

instance : InMemory HoData where
  bytes ho := leBytes 1 ho.ho ++
    leBytes 2 (ho.hoQuota + ho.xQuota * 2 ^ 6 + ho.yQuota * 2 ^ 11) ++
    leBytes 2 ho.x ++ leBytes 2 ho.y

/-- `NEW_HO_DATA`, 8 bytes. -/
structure NewHoData where
  ho : Nat
  oBunji : Nat
  offset : Nat
  deriving DecidableEq

def NewHoData.decode (bytes : List UInt8) : NewHoData :=
  ⟨wordAt bytes 0 2, wordAt bytes 2 2, wordAt bytes 4 4⟩

instance : InMemory NewHoData where
  bytes newHo := leBytes 2 newHo.ho ++ leBytes 2 newHo.oBunji ++ leBytes 4 newHo.offset

/-- `POI_HEADER_F`, 8 bytes. -/
structure PoiHeaderF where
  nameOfs : Nat
  bodyOfs : Nat
  posCnt : Nat
  cateFlag : Nat
  useHoOfs : Nat
  deriving DecidableEq

def PoiHeaderF.decode (bytes : List UInt8) : PoiHeaderF :=
  let flags := wordAt bytes 4 4
  ⟨wordAt bytes 0 4, bitField flags 0 29, bitField flags 29 1, bitField flags 30 1,
    bitField flags 31 1⟩

instance : InMemory PoiHeaderF where
  bytes info := leBytes 4 info.nameOfs ++
    leBytes 4 (info.bodyOfs + info.posCnt * 2 ^ 29 + info.cateFlag * 2 ^ 30 +
      info.useHoOfs * 2 ^ 31)

/-- `POI_HEADER`: a POI and the position of its sido in `m_helpers`. -/
structure PoiHeader where
  nSidoIdx : Nat
  info : PoiHeaderF
  deriving DecidableEq

/-- `POI_BODY_F`, 16 bytes. -/
structure PoiBodyF where
  hDCode : Nat
  ho : Nat
  bunji : Nat
  san : Nat
  parking : Nat
  x : Nat
  telCnt : Nat
  branch : Nat
  y : Nat
  deriving DecidableEq

def PoiBodyF.decode (bytes : List UInt8) : PoiBodyF :=
  let place := wordAt bytes 6 2
  let position := wordAt bytes 8 4
  ⟨wordAt bytes 0 4, wordAt bytes 4 2, bitField place 0 14, bitField place 14 1,
    bitField place 15 1, bitField position 0 28, bitField position 28 3, bitField position 31 1,
    wordAt bytes 12 4⟩

instance : InMemory PoiBodyF where
  bytes info := leBytes 4 info.hDCode ++ leBytes 2 info.ho ++
    leBytes 2 (info.bunji + info.san * 2 ^ 14 + info.parking * 2 ^ 15) ++
    leBytes 4 (info.x + info.telCnt * 2 ^ 28 + info.branch * 2 ^ 31) ++ leBytes 4 info.y

/-- `POI_BODY_USE_HO_F`, 6 bytes. -/
structure PoiBodyUseHoF where
  san : Nat
  bunji : Nat
  branch : Nat
  hoOfs : Nat
  telCnt : Nat
  parking : Nat
  deriving DecidableEq

def PoiBodyUseHoF.decode (bytes : List UInt8) : PoiBodyUseHoF :=
  let place := wordAt bytes 0 2
  let position := wordAt bytes 2 4
  ⟨bitField place 0 1, bitField place 1 14, bitField place 15 1, bitField position 0 28,
    bitField position 28 3, bitField position 31 1⟩

instance : InMemory PoiBodyUseHoF where
  bytes body := leBytes 2 (body.san + body.bunji * 2 + body.branch * 2 ^ 15) ++
    leBytes 4 (body.hoOfs + body.telCnt * 2 ^ 28 + body.parking * 2 ^ 31)

/-- `SEARCH_FILE_HEADER`, the last 16 bytes of a sido file. -/
structure SearchFileHeader where
  addrBeginOfs : Nat
  addrEndOfs : Nat
  poiBeginOfs : Nat
  poiEndOfs : Nat
  deriving DecidableEq

def SearchFileHeader.decode (bytes : List UInt8) : SearchFileHeader :=
  ⟨wordAt bytes 0 4, wordAt bytes 4 4, wordAt bytes 8 4, wordAt bytes 12 4⟩

instance : InMemory SearchFileHeader where
  bytes header := [header.addrBeginOfs, header.addrEndOfs, header.poiBeginOfs,
    header.poiEndOfs].flatMap (leBytes 4)

/-- `ADDR_DATA_HEADER`, 36 bytes. -/
structure AddrDataHeader where
  addrChoOfs : Nat
  addrChoIdxOfs : Nat
  addrChoIdxCnt : Nat
  roadChoOfs : Nat
  roadChoIdxOfs : Nat
  roadChoIdxCnt : Nat
  addrPosExtOfs : Nat
  addrDongOfs : Nat
  addrDongCnt : Nat
  deriving DecidableEq

def AddrDataHeader.decode (bytes : List UInt8) : AddrDataHeader :=
  ⟨wordAt bytes 0 4, wordAt bytes 4 4, wordAt bytes 8 4, wordAt bytes 12 4, wordAt bytes 16 4,
    wordAt bytes 20 4, wordAt bytes 24 4, wordAt bytes 28 4, wordAt bytes 32 4⟩

instance : InMemory AddrDataHeader where
  bytes header := [header.addrChoOfs, header.addrChoIdxOfs, header.addrChoIdxCnt,
    header.roadChoOfs, header.roadChoIdxOfs, header.roadChoIdxCnt, header.addrPosExtOfs,
    header.addrDongOfs, header.addrDongCnt].flatMap (leBytes 4)

/-- `POI_DATA_HEADER`, 48 bytes. -/
structure PoiDataHeader where
  poiBodyOfs : Nat
  poiInfoOfs : Nat
  poiChoOfs : Nat
  poiChoIdxOfs : Nat
  poiChoIdxCnt : Nat
  catePoiOfs : Nat
  dongCatePoiIdxOfs : Nat
  dongCatePoiIdxCnt : Nat
  telPoiIdxOfs : Nat
  telPoiIdxCnt : Nat
  meshPoiIdxOfs : Nat
  meshPoiIdxCnt : Nat
  deriving DecidableEq

def PoiDataHeader.decode (bytes : List UInt8) : PoiDataHeader :=
  ⟨wordAt bytes 0 4, wordAt bytes 4 4, wordAt bytes 8 4, wordAt bytes 12 4, wordAt bytes 16 4,
    wordAt bytes 20 4, wordAt bytes 24 4, wordAt bytes 28 4, wordAt bytes 32 4,
    wordAt bytes 36 4, wordAt bytes 40 4, wordAt bytes 44 4⟩

instance : InMemory PoiDataHeader where
  bytes header := [header.poiBodyOfs, header.poiInfoOfs, header.poiChoOfs, header.poiChoIdxOfs,
    header.poiChoIdxCnt, header.catePoiOfs, header.dongCatePoiIdxOfs, header.dongCatePoiIdxCnt,
    header.telPoiIdxOfs, header.telPoiIdxCnt, header.meshPoiIdxOfs,
    header.meshPoiIdxCnt].flatMap (leBytes 4)

/-- One `u16` character. -/
def decodeChar (bytes : List UInt8) : UInt16 := UInt16.ofNat (wordAt bytes 0 2)

/-- The codes the program composes for dongs and roads from a sido, a sigungu and a local number. -/
def dongCodeOf (sidoIdx sigunguCode code : Nat) : Nat :=
  u32 (sidoIdx * 100000000 + sigunguCode * 100000 + code)

end AndroidApps.Gildroia
