import AndroidApps.Gildroia.LHCode
import AndroidApps.Gildroia.TelNumber
import AndroidApps.Lib.CText
import AndroidApps.Lib.Utf8

/-! The searches of the module for POIs, and the calls of the Java side that hand them over. -/

namespace AndroidApps.Gildroia

namespace LHCodeModule

section Searching

variable (poiLocals : Nat → PoiLocals) (fuel : Nat) (module : LHCodeModule)

/-- Keep what a search of all helpers left. -/
def keepAll (searched : List SearchHelper × TextMng × PoiMap) : LHCodeModule :=
  { module with um := { module.um with
      helpers := searched.1
      textMng := searched.2.1
      poiHeaders := searched.2.2 } }

/-- `SearchTelNumber`, which finds nothing for a text that is no number. -/
def searchTelNumber (pText : List UInt16) : Option LHCodeModule :=
  match tranTelNumber2 fuel pText with
  | none | some none => none
  | some (some none) => some { module with um := { module.um with poiHeaders := [] } }
  | some (some (some (nTelDDD, nTelCode))) =>
    let nTelNUM := nTelCode % 2 ^ 16
    let nTelKUK := nTelCode / 2 ^ 16 % 2 ^ 16
    let search := fun nSidoIdx (state : HelperState) poiHeaders =>
      if nTelDDD = 0 then
        state.searchTelNumber (poiLocals nSidoIdx) fuel nSidoIdx nTelKUK nTelNUM poiHeaders
      else
        state.searchTelNumberDDD (poiLocals nSidoIdx) fuel nSidoIdx nTelDDD nTelKUK nTelNUM
          poiHeaders
    (UmSearchModule.searchFrom search 0 module.um.helpers module.um.textMng []).map module.keepAll

/-- `SearchPoiCateSido`, of a sido that is installed. -/
def searchPoiCateSido (nSidoIdx code1 code2 code3 : Nat) (clearData : Bool) :
    Option LHCodeModule :=
  let poiHeaders := if clearData then [] else module.um.poiHeaders
  match module.um.helpers[nSidoIdx]? with
  | none => none
  | some helper =>
    (HelperState.searchPoiCateSido (poiLocals nSidoIdx) fuel ⟨helper, module.um.textMng⟩ nSidoIdx
      code1 code2 code3 poiHeaders).map (module.keepSearch nSidoIdx)

/-- `SearchPoiCateMesh`. -/
def searchPoiCateMesh (nMeshCode code1 code2 code3 : Nat) (clearData : Bool) :
    Option LHCodeModule :=
  let search := fun nSidoIdx (state : HelperState) poiHeaders =>
    state.searchPoiCateMesh (poiLocals nSidoIdx) fuel nSidoIdx nMeshCode code1 code2 code3
      poiHeaders
  (UmSearchModule.searchFrom search 0 module.um.helpers module.um.textMng
    (if clearData then [] else module.um.poiHeaders)).map module.keepAll

/-- `GetSearchPoiResult`, of a POI whose sido is installed. -/
def getSearchPoiResult (locals : PositionLocals) (poiHeader : PoiHeader) :
    Option (PoiBody × LHCodeModule) :=
  match module.um.helpers[poiHeader.nSidoIdx]? with
  | none => none
  | some helper =>
    (HelperState.getSearchPoiResult locals fuel ⟨helper, module.um.textMng⟩ poiHeader.info).map
      fun (body, after) =>
        (body, module.keepSearch poiHeader.nSidoIdx (module.um.poiHeaders, after))

end Searching

end LHCodeModule

section Codes

open CText

/-- The value of an `int` in a variable of 16 bits. -/
def u16Of (value : Int) : Nat := (value % 2 ^ 16).toNat

/--
The three codes of a category, from a letter and one or two numbers between hyphens.

`GetCatePoiCount` reads the first two without asking whether there are any.
-/
def cateCode (code : JString) : Option (Nat × Nat × Nat) := do
  let (pCode1, rest) ← strtok 0x2D (stringChars code)
  let (pCode2, rest) ← strtok 0x2D rest
  let letter ← pCode1.head?
  let code3 := match strtok 0x2D rest with
    | none => 0
    | some (pCode3, _) => u16Of (atoi pCode3)
  return (u16Of (letter.toNat - 65), u16Of (atoi pCode2), code3)

end Codes

section Interface

/-- `POI_DATA`, for a code and two positions that are not negative. -/
structure PoiData where
  sidoName : JString
  sigunguName : JString
  dongName : JString
  branchName : Option JString
  callNumber : Option (List UInt8)
  catePoi : Bool
  san : Bool
  parking : Bool
  bunji : Int16
  ho : Int16
  x : Nat
  y : Nat
  routeX : Nat
  routeY : Nat

/-- The module behind `g_pSearchModule`, and the variables that concern POIs. -/
structure PoiNative where
  module : Option LHCodeModule
  cursor : PoiCursor

/-- The uninitialised variables of the calls. -/
structure PoiNativeLocals where
  poi : Nat → PoiLocals
  position : PositionLocals
  junk : Nat

namespace PoiNative

variable (locals : PoiNativeLocals) (fuel : Nat) (native : PoiNative)

/-- A search leaves its result in the module, where the variables point to it. -/
def found (module : LHCodeModule) : PoiNative :=
  ⟨some module, native.cursor.search (some module.um.poiHeaders)⟩

/-- `GetCatePoiCount`, without the count it returns. -/
def getCatePoiCount (code : JString) (cateType : Int) (addData : Bool) : Option PoiNative :=
  match cateCode code with
  | none => none
  | some (code1, code2, code3) =>
    -- The sido and the mesh are the first ones, and there is no dong.
    if cateType = 0 then
      native.module.bind fun module =>
        (module.searchPoiCateSido locals.poi fuel 0 code1 code2 code3 !addData).map native.found
    else if cateType = 1 then none
    else if cateType = 2 then
      native.module.bind fun module =>
        (module.searchPoiCateMesh locals.poi fuel 0 code1 code2 code3 !addData).map native.found
    else some { native with cursor := native.cursor.search none }

/-- The variables, unless they point to a result that was deleted with its module. -/
def result : Option PoiCursor :=
  if native.module.isNone && native.cursor.poiDatas.isSome then none else some native.cursor

/-- `MoveFirstPoiData` and `MoveNextPoiData`. -/
def move (call : PoiCursor → Option (PoiAnswer × PoiCursor)) : Option (Bool × PoiNative) :=
  match native.result.bind call with
  | some (.moved onElement, cursor) => some (onElement, { native with cursor := cursor })
  | _ => none

/-- `GetPoiName()`, and `GetPoiName( int )` which is null without a result. -/
def name (call : PoiCursor → Option (PoiAnswer × PoiCursor)) : Option (Option JString) :=
  match native.result.bind call with
  | some (.text chars, _) => some chars
  | _ => none

/-- The POI at a place of the result is read into the module, and the variables point to it. -/
def readAt (place : Option Nat) : Option PoiNative :=
  match native.module, native.cursor.element place with
  | some module, some entry =>
    (module.getSearchPoiResult fuel locals.position entry.2).map fun (body, module) =>
      ⟨some module, native.cursor.cache (fun _ => body) entry⟩
  | _, _ => none

/-- The loading block of the getters with an index. -/
def loadAt (poiIdx : Nat) : Option PoiNative :=
  if native.cursor.poiBody = none ∨ native.cursor.poiHeaderIdx ≠ poiIdx then
    (native.readAt locals fuel (some poiIdx)).map fun after =>
      { after with cursor := { after.cursor with poiHeaderIdx := poiIdx } }
  else some native

/-- The loading block of the getters on the iterator. -/
def load : Option PoiNative :=
  if native.cursor.bChangedPoiIterator then
    (native.readAt locals fuel native.cursor.poiDatasIterator).map fun after =>
      { after with cursor := { after.cursor with bChangedPoiIterator := false } }
  else some native

/-- What a getter returns of the POI that was read last, which is gone with its module. -/
def cached (answer : PoiHeader → PoiBody → PoiAnswer) : Option PoiAnswer :=
  if native.module.isNone then none else (native.cursor.fromCache answer).map Prod.fst

/-- `GetPoiBranchName()`. -/
def getPoiBranchName : Option (Option JString × PoiNative) :=
  (native.load locals fuel).bind fun after =>
    match after.cached fun _ body => branchNameOf body with
    | some (.text chars) => some (chars, after)
    | _ => none

/-- `GetSigunguNameByDCode` and `GetDongNameByDCode`, of a code that has a name. -/
def nameByDCode (found : Option (Option (List UInt16 × Nat) × TextMng)) :
    Option (JString × TextMng) :=
  match found with
  | some (some (text, nLen), textMng) => some (text.take nLen, textMng)
  | _ => none

/-- The names of the sido, the sigungu and the dong of a POI. -/
def placeNames (um : UmSearchModule) (sidoIdx : Nat) (dCode : Nat) :
    Option ((JString × JString × JString) × UmSearchModule) := do
  let (sidoName, um) ← um.getSidoName locals.junk fuel (toInt sidoIdx)
  let (sigunguName, textMng) ←
    nameByDCode (um.textMng.getSigunguName locals.junk fuel (dCode / 100000))
  let (dongName, textMng) ← nameByDCode (textMng.getDongName locals.junk fuel dCode)
  return ((sidoName, sigunguName, dongName), { um with textMng := textMng })

/-- `GetPoiData( int )` of the Java side, which is null behind the end of the result. -/
def getPoiData (poiIdx : Nat) : Option (Option PoiData × PoiNative) :=
  match native.module, native.cursor.poiDatas with
  | some _, some poiDatas =>
    if poiDatas.length ≤ poiIdx then some (none, native)
    else do
      let after ← native.loadAt locals fuel poiIdx
      let module ← after.module
      let values ← after.cached poiDataOf
      -- The texts of the POI are those that were read with it.
      let branch ← after.cached fun _ body => branchNameOf body
      let phone ← after.cached fun _ body => callNumberOf body
      match values, branch, phone with
      | .data (some [sido, dCode, cate, san, parking, bunji, ho, x, y, routeX, routeY]),
        .text branchName, .phone callNumber =>
        let (names, um) ← placeNames locals fuel module.um sido dCode
        return (some
          { sidoName := names.1
            sigunguName := names.2.1
            dongName := names.2.2
            branchName := branchName
            callNumber := callNumber
            catePoi := cate == 1
            san := san == 1
            parking := parking == 1
            bunji := Int16.ofNat bunji
            ho := Int16.ofNat ho
            x := x, y := y, routeX := routeX, routeY := routeY },
          { after with module := some { module with um := um } })
      | _, _, _ => none
  -- Without a result there is no array to look into.
  | _, _ => none

end PoiNative

end Interface

section Unions

variable {entries : Nat → PoiMap}

/-- A search of one helper after the other adds what it adds for each of them. -/
theorem searchFrom_union
    (search : Nat → Nat → HelperState → PoiMap → Option (PoiMap × HelperState))
    {text : List UInt8} (helpers : List SearchHelper) :
    ∀ (start : Nat) (textMng : TextMng) (poiHeaders : PoiMap), textMng.textFp.data = text →
      (∀ i helper, helpers[i]? = some helper → ∀ other : TextMng, other.textFp.data = text →
        Inserts ⟨helper, other⟩ (fun fuel => search fuel (start + i) ⟨helper, other⟩)
          (entries (start + i))) →
      ∃ after, Loop.Yields
        (fun fuel => UmSearchModule.searchFrom (search fuel) start helpers textMng poiHeaders)
        after ∧
        after.2.2.Perm ((List.range' start helpers.length).flatMap entries ++ poiHeaders) := by
  -- The induction is on the helpers. A search leaves the text file for the ones behind it.
  induction helpers with
  | nil =>
    intro start textMng poiHeaders _ _
    exact ⟨([], textMng, poiHeaders), Loop.yields_of_eq fun _ => rfl, List.Perm.refl _⟩
  | cons helper rest ih =>
    intro start textMng poiHeaders same each
    obtain ⟨⟨held, state⟩, ⟨enough, searched⟩, read, added⟩ :=
      each 0 helper rfl textMng same poiHeaders
    dsimp only at read added
    obtain ⟨after, ⟨more, later⟩, inserted⟩ := ih (start + 1) state.textMng held
      (read.text.trans same) (fun i other listed mng kept => by
        rw [show start + 1 + i = start + (i + 1) by omega]
        exact each (i + 1) other listed mng kept)
    refine ⟨(state.helper :: after.1, after.2.1, after.2.2),
      ⟨max enough more, fun fuel longer => ?_⟩, ?_⟩
    · have searched : search fuel start ⟨helper, textMng⟩ poiHeaders = _ :=
        searched fuel (by omega)
      have later := later fuel (by omega)
      simp only [UmSearchModule.searchFrom, searched]
      exact congrArg (Option.map _) later
    · rw [List.length_cons, List.range'_succ, List.flatMap_cons]
      -- What this helper adds is moved behind what the others add.
      refine inserted.trans ((added.append_left _).trans ?_)
      rw [← List.append_assoc]
      exact List.perm_append_comm.append_right _

namespace LHCodeModule

variable {module : LHCodeModule} {poiLocals : Nat → PoiLocals}

/-- The search by mesh adds what the searches of all sidos add. -/
theorem searchPoiCateMesh_union {nMeshCode code1 code2 code3 : Nat}
    (each : ∀ i helper, module.um.helpers[i]? = some helper → ∀ textMng : TextMng,
      textMng.textFp.data = module.um.textMng.textFp.data →
      Inserts ⟨helper, textMng⟩
        (fun fuel poiHeaders => HelperState.searchPoiCateMesh (poiLocals i) fuel ⟨helper, textMng⟩
          i nMeshCode code1 code2 code3 poiHeaders) (entries i)) (clearData : Bool) :
    ∃ after, Loop.Yields
      (fun fuel => module.searchPoiCateMesh poiLocals fuel nMeshCode code1 code2 code3 clearData)
      after ∧
      after.um.poiHeaders.Perm ((List.range module.um.helpers.length).flatMap entries ++
        if clearData then [] else module.um.poiHeaders) := by
  obtain ⟨searched, yields, added⟩ := searchFrom_union
    (fun fuel nSidoIdx state poiHeaders => state.searchPoiCateMesh (poiLocals nSidoIdx)
      fuel nSidoIdx nMeshCode code1 code2 code3 poiHeaders)
    module.um.helpers 0 module.um.textMng
    (if clearData then [] else module.um.poiHeaders) rfl
    (by simpa only [Nat.zero_add] using each)
  -- The helpers are counted from the first one.
  rw [← List.range_eq_range'] at added
  refine ⟨module.keepAll searched, yields.computed fun fuel found => ?_, added⟩
  exact congrArg (Option.map module.keepAll) found

/-- The search by phone number adds what the searches of all sidos add, and nothing else. -/
theorem searchTelNumber_union {pText : List UInt16} {nTelDDD nTelCode : Nat}
    (parsed : Loop.Yields (fun fuel => tranTelNumber2 fuel pText)
      (some (some (nTelDDD, nTelCode))))
    (each : ∀ i helper, module.um.helpers[i]? = some helper → ∀ textMng : TextMng,
      textMng.textFp.data = module.um.textMng.textFp.data →
      Inserts ⟨helper, textMng⟩
        (fun fuel poiHeaders =>
          if nTelDDD = 0 then
            HelperState.searchTelNumber (poiLocals i) fuel ⟨helper, textMng⟩ i
              (nTelCode / 2 ^ 16 % 2 ^ 16) (nTelCode % 2 ^ 16) poiHeaders
          else
            HelperState.searchTelNumberDDD (poiLocals i) fuel ⟨helper, textMng⟩ i nTelDDD
              (nTelCode / 2 ^ 16 % 2 ^ 16) (nTelCode % 2 ^ 16) poiHeaders) (entries i)) :
    ∃ after, Loop.Yields (fun fuel => module.searchTelNumber poiLocals fuel pText) after ∧
      after.um.poiHeaders.Perm ((List.range module.um.helpers.length).flatMap entries) := by
  -- Each helper is searched by the number alone or by the dialling code and the number.
  obtain ⟨searched, yields, added⟩ := searchFrom_union
    (fun fuel nSidoIdx (state : HelperState) poiHeaders =>
      if nTelDDD = 0 then
        state.searchTelNumber (poiLocals nSidoIdx) fuel nSidoIdx (nTelCode / 2 ^ 16 % 2 ^ 16)
          (nTelCode % 2 ^ 16) poiHeaders
      else
        state.searchTelNumberDDD (poiLocals nSidoIdx) fuel nSidoIdx nTelDDD
          (nTelCode / 2 ^ 16 % 2 ^ 16) (nTelCode % 2 ^ 16) poiHeaders)
    module.um.helpers 0 module.um.textMng [] rfl
    (by simpa only [Nat.zero_add] using each)
  rw [← List.range_eq_range', List.append_nil] at added
  obtain ⟨enough, parsed⟩ := parsed
  obtain ⟨more, found⟩ := yields
  -- There is fuel for the number to be parsed and for the searches behind it.
  refine ⟨module.keepAll searched, ⟨max enough more, fun fuel longer => ?_⟩, added⟩
  have parsed : tranTelNumber2 fuel pText = _ := parsed fuel (by omega)
  simp only [searchTelNumber, parsed]
  exact congrArg (Option.map module.keepAll) (found fuel (by omega))

end LHCodeModule

end Unions

section Categories

open CText

/-- What stands behind the last number of a code: plain characters, of which no hyphen is one. -/
structure CodeEnd (behind : JString) : Prop where
  plain : ∀ unit ∈ behind, unit ≠ 0 ∧ unit < 0x80
  hyphen : 0x2D ∉ stringChars behind
  digit : (stringChars behind).takeWhile isDigitByte = []

variable {letter : UInt16} {behind : JString}

/-- A text that begins with a letter and a hyphen is cut behind them. -/
theorem strtok_letter (plain : letter ≠ 0 ∧ letter < 0x80) (other : letter.toUInt8 ≠ 0x2D)
    (rest : JString) :
    strtok 0x2D (stringChars (letter :: 0x2D :: rest)) =
      some ([letter.toUInt8], stringChars rest) := by
  have first : unitBytes letter = [letter.toUInt8] := if_pos plain
  have cut : stringChars (letter :: 0x2D :: rest) =
      [letter.toUInt8] ++ 0x2D :: stringChars rest := by
    simp only [stringChars, List.flatMap_cons, first]
    rfl
  rw [cut]
  exact strtok_piece (by simp) (by simpa using Ne.symm other) _

/-- A code of a letter and one number is cut to them, and the third code is 0. -/
theorem cateCode_two (plain : letter ≠ 0 ∧ letter < 0x80) (other : letter.toUInt8 ≠ 0x2D)
    {number : Nat} (small : number < 2 ^ 16) (ends : CodeEnd behind) :
    cateCode (letter :: 0x2D :: (JString.decimal number ++ behind)) =
      some (u16Of (letter.toUInt8.toNat - 65), number, 0) := by
  have chars : stringChars (JString.decimal number ++ behind) =
      decimalChars number ++ stringChars behind := by
    rw [← stringChars_decimal]
    exact List.flatMap_append
  have second : strtok 0x2D (stringChars (JString.decimal number ++ behind)) =
      some (decimalChars number ++ stringChars behind, []) := by
    rw [chars]
    refine strtok_last (by simp [decimalChars_ne_nil]) ?_
    rw [List.mem_append, not_or]
    exact ⟨decimalChars_plain number, ends.hyphen⟩
  -- Nothing is left for a third piece.
  have third : strtok 0x2D [] = none := rfl
  have value : u16Of (atoi (decimalChars number ++ stringChars behind)) = number := by
    -- The number is not cut by its 16 bits.
    rw [atoi_decimal (by omega) ends.digit, u16Of]
    omega
  simp only [cateCode, strtok_letter plain other, second, third, Option.bind_eq_bind,
    Option.bind_some, List.head?_cons, value]
  rfl

/-- A code of a letter and two numbers is cut to the three. -/
theorem cateCode_three (plain : letter ≠ 0 ∧ letter < 0x80) (other : letter.toUInt8 ≠ 0x2D)
    {number last : Nat} (small : number < 2 ^ 16) (short : last < 2 ^ 16)
    (ends : CodeEnd behind) :
    cateCode (letter :: 0x2D ::
      (JString.decimal number ++ 0x2D :: (JString.decimal last ++ behind))) =
      some (u16Of (letter.toUInt8.toNat - 65), number, last) := by
  have chars : stringChars (JString.decimal number ++ 0x2D :: (JString.decimal last ++ behind)) =
      decimalChars number ++ 0x2D :: (decimalChars last ++ stringChars behind) := by
    rw [← stringChars_decimal, ← stringChars_decimal]
    simp only [stringChars, List.flatMap_append, List.flatMap_cons]
    rfl
  have second : strtok 0x2D
      (stringChars (JString.decimal number ++ 0x2D :: (JString.decimal last ++ behind))) =
      some (decimalChars number, decimalChars last ++ stringChars behind) := by
    rw [chars]
    exact strtok_piece (decimalChars_ne_nil number) (decimalChars_plain number) _
  have third : strtok 0x2D (decimalChars last ++ stringChars behind) =
      some (decimalChars last ++ stringChars behind, []) := by
    refine strtok_last (by simp [decimalChars_ne_nil]) ?_
    rw [List.mem_append, not_or]
    exact ⟨decimalChars_plain last, ends.hyphen⟩
  have value : u16Of (atoi (decimalChars number)) = number := by
    have read : atoi (decimalChars number ++ []) = number := atoi_decimal (by omega) rfl
    rw [← List.append_nil (decimalChars number), read, u16Of]
    omega
  have more : u16Of (atoi (decimalChars last ++ stringChars behind)) = last := by
    rw [atoi_decimal (by omega) ends.digit, u16Of]
    omega
  simp only [cateCode, strtok_letter plain other, second, third, Option.bind_eq_bind,
    Option.bind_some, List.head?_cons, value, more]
  rfl

-- The line break that the codes of the table end with is not read.
example : cateCode (JString.ofString "N-2-13\r\n") = some (13, 2, 13) := by decide +kernel

-- A letter alone leaves nothing for the second code.
example : cateCode (JString.ofString "M") = none := by decide +kernel

end Categories

section Sidos

/-- The first sido is installed, with these bytes in its file and in that of the texts. -/
structure LHCodeModule.SidoReady (module : LHCodeModule) (data text : List UInt8)
    (catePoiOfs : Nat) : Prop where
  installed : ∃ helper, module.um.helpers[0]? = some helper ∧ helper.fp.data = data ∧
    helper.poiHeader.catePoiOfs = catePoiOfs
  texts : module.um.textMng.textFp.data = text

variable {data text : List UInt8} {catePoiOfs code1 code2 code3 : Nat} {leaf : Nat × Nat}

/-- The search of a sido adds the POIs at the leaf of its codes, and can be made again. -/
theorem LHCodeModule.SidoReady.search {module : LHCodeModule}
    (ready : module.SidoReady data text catePoiOfs) (tree : CateTree data text catePoiOfs)
    (found : CateLeaf data catePoiOfs code1 code2 code3 leaf) (poiLocals : Nat → PoiLocals)
    (clearData : Bool) :
    ∃ after, Loop.Yields
      (fun fuel => module.searchPoiCateSido poiLocals fuel 0 code1 code2 code3 clearData) after ∧
      after.SidoReady data text catePoiOfs ∧
      after.um.poiHeaders.Perm
        (leafEntries 0 data text leaf ++ if clearData then [] else module.um.poiHeaders) := by
  obtain ⟨⟨helper, installed, rfl, rfl⟩, rfl⟩ := ready
  let state : HelperState := ⟨helper, module.um.textMng⟩
  have inserts : Inserts state _ (leafEntries 0 state.helper.fp.data state.textMng.textFp.data
      leaf) :=
    searchPoiCateSido_leaf (poiLocals 0) 0 tree found
  obtain ⟨searched, yields, read, added⟩ := inserts (if clearData then [] else module.um.poiHeaders)
  refine ⟨module.keepSearch 0 searched, yields.computed ?_, ⟨⟨searched.2.helper, ?_, read.data, ?_⟩,
    read.text⟩, added⟩
  · intro fuel ended
    simp only [searchPoiCateSido, installed]
    exact congrArg (Option.map (module.keepSearch 0)) ended
  · have bound : 0 < module.um.helpers.length := (List.getElem?_eq_some_iff.mp installed).1
    simp [keepSearch, bound]
  · rw [read.helper]

namespace PoiNative

variable {native : PoiNative} {module : LHCodeModule} {code : JString}

/-- A code whose leaf is in the tree is searched for, and the result is what its leaf adds. -/
theorem getCatePoiCount_found (locals : PoiNativeLocals) (loaded : native.module = some module)
    (ready : module.SidoReady data text catePoiOfs) (tree : CateTree data text catePoiOfs)
    (cut : cateCode code = some (code1, code2, code3))
    (found : CateLeaf data catePoiOfs code1 code2 code3 leaf) (addData : Bool) :
    ∃ after next, Loop.Yields (fun fuel => native.getCatePoiCount locals fuel code 0 addData)
        after ∧
      after.module = some next ∧ next.SidoReady data text catePoiOfs ∧
      after.cursor = native.cursor.search (some next.um.poiHeaders) ∧
      next.um.poiHeaders.Perm
        (leafEntries 0 data text leaf ++ if addData then module.um.poiHeaders else []) := by
  obtain ⟨next, yields, again, added⟩ := ready.search tree found locals.poi !addData
  refine ⟨native.found next, next, yields.computed fun fuel ended => ?_, rfl, again, rfl, ?_⟩
  · have ended : module.searchPoiCateSido locals.poi fuel 0 code1 code2 code3 (!addData) = _ := ended
    simp [getCatePoiCount, cut, loaded, ended]
  · cases addData <;> exact added

end PoiNative

end Sidos

end AndroidApps.Gildroia
