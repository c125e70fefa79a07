import AndroidApps.Gildroia.KeySearchWrap
import AndroidApps.Gildroia.NameMatchLaws
import AndroidApps.Gildroia.SearchHelper

/-! The search for POIs by name: the chosung index, its buckets and the matcher over a bucket. -/

namespace AndroidApps.Gildroia

/-- The uninitialised variables of one name search. -/
structure PoiNameLocals where
  nKeyValue : Nat
  choOfs : Nat
  nTemp : Nat
  strName : Nat → UInt16
  info : PoiHeaderF

/-- `findChosungOffsetPOI`: the offset and the length of the bucket of a code. -/
def findChosungOffsetPOI (locals : PoiNameLocals) (fuel : Nat) (fp : File)
    (choIdxOfs choIdxCnt choCode : Nat) : Option (Option (Nat × Int) × File) :=
  match searchu32KeyValue locals.nKeyValue fuel fp choCode choIdxOfs 12 choIdxCnt with
  | none => none
  | some (false, fp) => some (none, fp)
  | some (true, fp) =>
    let (offset, fp) := fp.freadWord 4 (u32 locals.choOfs)
    let (nTemp, fp) := fp.freadWord 4 (u32 locals.nTemp)
    some (some (offset, toInt nTemp), fp)

/-- The variables of the loop over a bucket, with the files and the result they are passed. -/
structure PoiNameVars where
  fp : File
  textMng : TextMng
  info : PoiHeaderF
  vars : MatchVars
  poiHeaders : PoiMap

/-- One POI of a bucket. -/
def poiNamePass (nSidoIdx : Nat) (pText : Nat → UInt16) (nLen ckCmpHan : Nat)
    (state : PoiNameVars) : PoiNameVars :=
  let (info, fp) := state.fp.fread PoiHeaderF.decode 8 state.info
  let (text, textMng) := state.textMng.getTextOfs info.nameOfs 0
  let (vars, decision) := poiPass pText nLen ckCmpHan state.vars text
  -- The key is built from `strName`, which holds the string just copied.
  ⟨fp, textMng, info, vars,
    if decision.bAddData then state.poiHeaders.insert (cString text, ⟨nSidoIdx, info⟩)
    else state.poiHeaders⟩

/-- The loop over the POIs of a bucket. -/
def poiNameLoop (nSidoIdx : Nat) (pText : Nat → UInt16) (nLen ckCmpHan : Nat) :
    Nat → PoiNameVars → PoiNameVars
  | 0, state => state
  | count + 1, state =>
    poiNameLoop nSidoIdx pText nLen ckCmpHan count
      (poiNamePass nSidoIdx pText nLen ckCmpHan state)

/-- What a search through one helper leaves behind, with the count it returns. -/
structure PoiNameResult where
  choCnt : Int
  helper : SearchHelper
  textMng : TextMng
  poiHeaders : PoiMap

/-- `CUmSearchHelper::SearchPoiName`. -/
def SearchHelper.searchPoiName (locals : PoiNameLocals) (fuel : Nat) (helper : SearchHelper)
    (textMng : TextMng) (nSidoIdx : Nat) (pText : Nat → UInt16) (nLen choCode ckCmpHan : Nat)
    (poiHeaders : PoiMap) : Option PoiNameResult :=
  match findChosungOffsetPOI locals fuel helper.fp helper.poiHeader.poiChoIdxOfs
    helper.poiHeader.poiChoIdxCnt choCode with
  | none => none
  | some (none, fp) => some ⟨0, { helper with fp := fp }, textMng, poiHeaders⟩
  | some (some (choOfs, choCnt), fp) =>
    let start : PoiNameVars :=
      ⟨fp.fseek choOfs, textMng, locals.info, matchStart locals.strName, poiHeaders⟩
    -- A negative count leaves the loop at once.
    let state := poiNameLoop nSidoIdx pText nLen ckCmpHan choCnt.toNat start
    some ⟨choCnt, { helper with fp := state.fp }, state.textMng, state.poiHeaders⟩

/-- The loop of `CUmSearchModule::SearchPoiName` over the helpers from an index on. -/
def searchPoiNameFrom (locals : Nat → PoiNameLocals) (fuel : Nat) (pText : Nat → UInt16)
    (nLen choCode ckCmpHan : Nat) :
    Nat → List SearchHelper → TextMng → PoiMap → Option (List SearchHelper × TextMng × PoiMap)
  | _, [], textMng, poiHeaders => some ([], textMng, poiHeaders)
  | nSidoIdx, helper :: rest, textMng, poiHeaders =>
    match helper.searchPoiName (locals nSidoIdx) fuel textMng nSidoIdx pText nLen choCode ckCmpHan
      poiHeaders with
    | none => none
    | some result =>
      match searchPoiNameFrom locals fuel pText nLen choCode ckCmpHan (nSidoIdx + 1) rest
        result.textMng result.poiHeaders with
      | none => none
      | some (rest, textMng, poiHeaders) => some (result.helper :: rest, textMng, poiHeaders)

/-- `CUmSearchModule::SearchPoiName` over all sidos. -/
def UmSearchModule.searchPoiName (locals : Nat → PoiNameLocals) (fuel : Nat)
    (um : UmSearchModule) (pText : Nat → UInt16) (nLen : Nat) : Option UmSearchModule :=
  let nChoCode := tranChosungText pText nLen
  let nCkCmpHan := checkCompletHangul pText nLen
  match searchPoiNameFrom locals fuel pText nLen nChoCode nCkCmpHan 0 um.helpers um.textMng [] with
  | none => none
  | some (helpers, textMng, poiHeaders) =>
    some { um with helpers := helpers, textMng := textMng, poiHeaders := poiHeaders }

/-- The overload of `CUmSearchModule::SearchPoiName` for one sido, which is installed. -/
def UmSearchModule.searchPoiNameSido (locals : Nat → PoiNameLocals) (fuel : Nat)
    (um : UmSearchModule) (nSidoIdx : Fin um.helpers.length) (pText : Nat → UInt16) (nLen : Nat) :
    Option UmSearchModule :=
  let nChoCode := tranChosungText pText nLen
  let nCkCmpHan := checkCompletHangul pText nLen
  match (um.helpers.get nSidoIdx).searchPoiName (locals nSidoIdx) fuel um.textMng nSidoIdx pText
    nLen nChoCode nCkCmpHan [] with
  | none => none
  | some result =>
    some { um with
      helpers := um.helpers.set nSidoIdx result.helper
      textMng := result.textMng
      poiHeaders := result.poiHeaders }

/-- The name of a POI in a text file. -/
def nameOf (text : List UInt8) (info : PoiHeaderF) : List UInt16 :=
  cString (textAt text info.nameOfs)

/-- The POI headers an index record refers to. -/
def bucketAt (data : List UInt8) (choIdxOfs index : Nat) : List PoiHeaderF :=
  File.elementsAt PoiHeaderF.decode 8 data (wordAt data (choIdxOfs + index * 12 + 4) 4)
    (wordAt data (choIdxOfs + index * 12 + 8) 4)

/-- The bucket of a code: that of the index record holding the code, or none. -/
def bucketOf (data : List UInt8) (choIdxOfs choIdxCnt choCode : Nat) : List PoiHeaderF :=
  match (List.range choIdxCnt).find? fun index =>
    keyAt data .u32 choIdxOfs 12 index == choCode with
  | none => []
  | some index => bucketAt data choIdxOfs index

/-- A POI belongs into the bucket of a code: its name begins with characters of that code. -/
def Belongs (text : List UInt8) (choCode : Nat) (info : PoiHeaderF) : Prop :=
  choCode % 256 ≤ (nameOf text info).length ∧
    tranChosungText (fun i => (nameOf text info).getD i 0) (choCode % 256) = choCode

/--
The chosung index of a sido file, as its builder promises it.

Its codes increase strictly, and the buckets of codes of length one and two hold
exactly the POIs that belong into them.
-/
structure PoiIndex (data text : List UInt8) (choIdxOfs choIdxCnt : Nat)
    (pois : Set PoiHeaderF) : Prop where
  table : KeyTable data .u32 choIdxOfs 12 choIdxCnt
  buckets : ∀ index, index < choIdxCnt →
    wordAt data (choIdxOfs + index * 12 + 4) 4 +
      wordAt data (choIdxOfs + index * 12 + 8) 4 * 8 ≤ data.length
  exact : ∀ choCode, choCode % 256 = 1 ∨ choCode % 256 = 2 → ∀ info,
    info ∈ bucketOf data choIdxOfs choIdxCnt choCode ↔ info ∈ pois ∧ Belongs text choCode info
  named : ∀ info ∈ pois, TextInside text info.nameOfs

end AndroidApps.Gildroia
