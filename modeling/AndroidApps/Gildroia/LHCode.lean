import AndroidApps.Gildroia.CatePoi
import AndroidApps.Gildroia.UmModule
import AndroidApps.Lib.StdMap
import Mathlib.Data.List.Dedup

/-! The administrative dongs of a law dong, and the category search through all of them. -/

namespace AndroidApps.Gildroia

/-- `CUmSearchModule` with the table of `LHTbl.dat`. -/
structure LHCodeModule where
  um : UmSearchModule
  fpLHCode : Option File
  nLHCodeIdxOfs : Nat
  nLHCodeIdxCnt : Nat
  -- A set is a map without values.
  stLHCodeResult : StdMap Nat Unit

/-- The uninitialised variables of `FindLHDCodeList`. -/
structure LHCodeLocals where
  nKeyValue : Nat
  HDCodeOfs : Nat
  HDCodeCnt : Nat
  HDCode : Nat

/-- A set of codes into which these were inserted. -/
def codeSet (codes : List Nat) : StdMap Nat Unit :=
  codes.foldl (fun held code => held.insert code ()) .empty

/-- The codes of a set are those inserted, each once. -/
theorem codeSet_perm (codes : List Nat) :
    ((codeSet codes).entries.map Prod.fst).Perm codes.dedup := by
  have distinct : ((codeSet codes).entries.map Prod.fst).Nodup := by
    rw [List.Nodup, List.pairwise_map]
    exact (codeSet codes).sorted.imp fun below => below.ne
  refine (List.perm_ext_iff_of_nodup distinct codes.nodup_dedup).mpr fun code => ?_
  have held := StdMap.held_foldl_insert id (fun _ => ()) codes code .empty
  rw [List.mem_dedup, List.mem_map]
  refine held.trans ?_
  -- Nothing is in the set before the first insertion.
  simp [StdMap.empty]

namespace LHCodeModule

section Load

/-- The part of `Load` that opens `LHTbl.dat`, whose last two words say where its table is. -/
def load (um : UmSearchModule) : Option File → LHCodeModule
  | none => ⟨um, none, 0, 0, .empty⟩
  | some fp =>
    let (nLHCodeIdxOfs, fp) := (fp.fseekEnd 8).freadWord 4 0
    let (nLHCodeIdxCnt, fp) := fp.freadWord 4 0
    ⟨um, some fp, nLHCodeIdxOfs, nLHCodeIdxCnt, .empty⟩

end Load

section Searching

variable (locals : LHCodeLocals) (fuel : Nat) (module : LHCodeModule)

/-- `FindLHDCodeList`, whose set is kept in the module. -/
def findLHDCodeList (LDCode : Nat) : Option LHCodeModule :=
  let module := { module with stLHCodeResult := .empty }
  match module.fpLHCode with
  | none => some module
  | some fp =>
    match searchu32KeyValue locals.nKeyValue fuel fp LDCode module.nLHCodeIdxOfs 12
      module.nLHCodeIdxCnt with
    | none => none
    | some (false, fp) => some { module with fpLHCode := some fp }
    | some (true, fp) =>
      let (HDCodeOfs, fp) := fp.freadWord 4 (u32 locals.HDCodeOfs)
      let (HDCodeCnt, fp) := fp.freadWord 4 (u32 locals.HDCodeCnt)
      let (codes, fp) :=
        File.freadList leWord 4 HDCodeCnt (u32 locals.HDCode) (fp.fseek HDCodeOfs)
      some { module with fpLHCode := some fp, stLHCodeResult := codeSet codes }

-- Each of the searches that are handed on has its own uninitialised variables.
variable (poiLocals : Nat → PoiLocals)

/-- One administrative dong of a law dong. -/
def searchHDongPass (nSidoIdx code1 code2 code3 : Nat) (vars : PoiMap × HelperState)
    (HDCode : Nat) : Option (PoiMap × HelperState) :=
  vars.2.searchPoiCateHDong (poiLocals HDCode) fuel nSidoIdx HDCode code1 code2 code3 vars.1

/-- Keep what a search of the helper with an index left. -/
def keepSearch (nSidoIdx : Nat) (searched : PoiMap × HelperState) : LHCodeModule :=
  { module with um := { module.um with
      helpers := module.um.helpers.set nSidoIdx searched.2.helper
      textMng := searched.2.textMng
      poiHeaders := searched.1 } }

/-- `SearchPoiCateDong`. -/
def searchPoiCateDong (pDong : DongData) (code1 code2 code3 : Nat) (clearData : Bool) :
    Option LHCodeModule :=
  let poiHeaders := if clearData then [] else module.um.poiHeaders
  match module.um.helpers[pDong.nSidoIdx]? with
  | none => none
  | some helper =>
    let DCode := dongCodeOf helper.sidoData.idx pDong.pSigunguF.code pDong.info.code
    let state : HelperState := ⟨helper, module.um.textMng⟩
    if pDong.info.ldongFlag ≠ 0 then
      match module.findLHDCodeList locals fuel DCode with
      | none => none
      | some module =>
        ((module.stLHCodeResult.entries.map Prod.fst).foldlM
          (searchHDongPass fuel poiLocals pDong.nSidoIdx code1 code2 code3)
          (poiHeaders, state)).map (module.keepSearch pDong.nSidoIdx)
    else
      (searchHDongPass fuel poiLocals pDong.nSidoIdx code1 code2 code3 (poiHeaders, state)
        DCode).map (module.keepSearch pDong.nSidoIdx)

end Searching

section Laws

/-- The administrative dongs the record of a law dong lists. -/
def hdCodes (data : List UInt8) (idxOfs index : Nat) : List Nat :=
  File.elementsAt leWord 4 data (wordAt data (idxOfs + index * 12 + 4) 4)
    (wordAt data (idxOfs + index * 12 + 8) 4)

/-- The table of `LHTbl.dat`, with a law dong that lists these administrative dongs. -/
structure LawDongListed (module : LHCodeModule) (LDCode : Nat) (codes : List Nat) : Prop where
  record : ∃ fp index, module.fpLHCode = some fp ∧
    KeyTable fp.data .u32 module.nLHCodeIdxOfs 12 module.nLHCodeIdxCnt ∧
    index < module.nLHCodeIdxCnt ∧ keyAt fp.data .u32 module.nLHCodeIdxOfs 12 index = LDCode ∧
    wordAt fp.data (module.nLHCodeIdxOfs + index * 12 + 4) 4 +
      wordAt fp.data (module.nLHCodeIdxOfs + index * 12 + 8) 4 * 4 ≤ fp.data.length ∧
    codes = hdCodes fp.data module.nLHCodeIdxOfs index

variable {module : LHCodeModule}

/-- The set of a law dong is made of the codes it lists, and the helpers are left alone. -/
theorem findLHDCodeList_listed (locals : LHCodeLocals) {LDCode : Nat} {codes : List Nat}
    (listed : module.LawDongListed LDCode codes) :
    ∃ fp, Loop.Yields (fun fuel => module.findLHDCodeList locals fuel LDCode)
      { module with fpLHCode := some fp, stLHCodeResult := codeSet codes } := by
  obtain ⟨fp, index, opened, table, within, held, inside, rfl⟩ := listed.record
  subst held
  have whole := table.inside
  have addressable := fp.addressable
  refine ⟨fp.moveTo (wordAt fp.data (module.nLHCodeIdxOfs + index * 12 + 4) 4 +
    wordAt fp.data (module.nLHCodeIdxOfs + index * 12 + 8) 4 * 4),
    (searchKeyValue_listed table within locals.nKeyValue).yields.computed ?_⟩
  intro fuel searched
  have searched : searchu32KeyValue locals.nKeyValue fuel fp _ module.nLHCodeIdxOfs 12
      module.nLHCodeIdxCnt = _ := searched
  -- Both words of the record and the whole list lie inside the file.
  have first : (fp.moveTo (module.nLHCodeIdxOfs + index * 12 + 4)).freadWord 4
      (u32 locals.HDCodeOfs) = _ :=
    File.freadWord_inside (by simp only [File.moveTo_pos, File.moveTo_data]; omega)
  have second : (fp.moveTo (module.nLHCodeIdxOfs + index * 12 + 8)).freadWord 4
      (u32 locals.HDCodeCnt) = _ :=
    File.freadWord_inside (by simp only [File.moveTo_pos, File.moveTo_data]; omega)
  have low := File.offset_lt inside
  have list : File.freadList leWord 4 (wordAt fp.data (module.nLHCodeIdxOfs + index * 12 + 8) 4)
      (u32 locals.HDCode)
      (fp.moveTo (wordAt fp.data (module.nLHCodeIdxOfs + index * 12 + 4) 4)) = _ :=
    File.freadList_inside inside
  unfold findLHDCodeList
  simp only [opened]
  rw [searched]
  simp only [KeyWidth.bytes, first, second, list, File.moveTo_data, File.moveTo_pos,
    File.moveTo_moveTo, File.fseek_of_lt low]
  rfl

/-- Searches for administrative dongs one after the other add what each of them adds. -/
theorem searchHDongPass_foldlM (poiLocals : Nat → PoiLocals)
    (nSidoIdx code1 code2 code3 : Nat) (codes : List Nat) (leaf : Nat → Nat × Nat) :
    ∀ (state : HelperState) (poiHeaders : PoiMap),
      KeyTable state.helper.fp.data .u32 state.helper.poiHeader.dongCatePoiIdxOfs 12
        state.helper.poiHeader.dongCatePoiIdxCnt →
      (∀ code ∈ codes, IndexLeaf state.helper.fp.data state.textMng.textFp.data
        state.helper.poiHeader.dongCatePoiIdxOfs state.helper.poiHeader.dongCatePoiIdxCnt code
        code1 code2 code3 (leaf code)) →
      ∃ after, Loop.Yields
        (fun fuel => codes.foldlM (searchHDongPass fuel poiLocals nSidoIdx code1 code2 code3)
          (poiHeaders, state)) after ∧ OnlyRead state after.2 ∧
        after.1.Perm ((codes.flatMap fun code =>
          leafEntries nSidoIdx state.helper.fp.data state.textMng.textFp.data (leaf code)) ++
            poiHeaders) := by
  -- A search leaves the file and the header as they were, so that the next one finds its record.
  induction codes with
  | nil =>
    intro state poiHeaders _ _
    exact ⟨(poiHeaders, state), Loop.yields_of_eq fun _ => rfl, .refl state, List.Perm.refl _⟩
  | cons code rest ih =>
    intro state poiHeaders table listed
    obtain ⟨⟨held, middle⟩, searched, read, inserted⟩ :=
      searchPoiCateHDong_leaf (poiLocals code) nSidoIdx table (listed code List.mem_cons_self)
        poiHeaders
    have header : middle.helper.poiHeader = state.helper.poiHeader := by rw [read.helper]
    dsimp only at read inserted
    obtain ⟨after, others, behind, added⟩ := ih middle held
      (by rw [read.data, header]; exact table)
      (by
        rw [read.data, read.text, header]
        exact fun other member => listed other (List.mem_cons_of_mem code member))
    rw [read.data, read.text] at added
    refine ⟨after, searched.followed ?_ others, read.trans behind, ?_⟩
    · intro fuel here
      have here : searchHDongPass fuel poiLocals nSidoIdx code1 code2 code3 (poiHeaders, state)
        code = some (held, middle) := here
      rw [List.foldlM_cons, here]
      rfl
    · rw [List.flatMap_cons]
      refine added.trans ((inserted.append_left _).trans ?_)
      rw [← List.append_assoc]
      exact List.perm_append_comm.append_right _

/-- A law dong whose administrative dongs are all in the index, each with a leaf of its own. -/
structure LawDongReady (module : LHCodeModule) (pDong : DongData) (helper : SearchHelper)
    (code1 code2 code3 : Nat) (codes : List Nat) (leaf : Nat → Nat × Nat) : Prop where
  installed : module.um.helpers[pDong.nSidoIdx]? = some helper
  law : pDong.info.ldongFlag ≠ 0
  listed : module.LawDongListed
    (dongCodeOf helper.sidoData.idx pDong.pSigunguF.code pDong.info.code) codes
  table : KeyTable helper.fp.data .u32 helper.poiHeader.dongCatePoiIdxOfs 12
    helper.poiHeader.dongCatePoiIdxCnt
  leaves : ∀ code ∈ codes, IndexLeaf helper.fp.data module.um.textMng.textFp.data
    helper.poiHeader.dongCatePoiIdxOfs helper.poiHeader.dongCatePoiIdxCnt code code1 code2 code3
    (leaf code)

variable {pDong : DongData} {helper : SearchHelper} {code1 code2 code3 : Nat}

/-- The search for a law dong adds what its administrative dongs have, each of them once. -/
theorem searchPoiCateDong_law (locals : LHCodeLocals) (poiLocals : Nat → PoiLocals)
    {codes : List Nat} {leaf : Nat → Nat × Nat}
    (ready : module.LawDongReady pDong helper code1 code2 code3 codes leaf) (clearData : Bool) :
    ∃ after, Loop.Yields
      (fun fuel => module.searchPoiCateDong locals fuel poiLocals pDong code1 code2 code3 clearData)
        after ∧
      after.um.poiHeaders.Perm ((codes.dedup.flatMap fun code =>
        leafEntries pDong.nSidoIdx helper.fp.data module.um.textMng.textFp.data (leaf code)) ++
          if clearData then [] else module.um.poiHeaders) := by
  obtain ⟨fp, enough, codeList⟩ := findLHDCodeList_listed locals ready.listed
  have distinct := codeSet_perm codes
  obtain ⟨searched, ⟨more, below⟩, _, added⟩ :=
    searchHDongPass_foldlM poiLocals pDong.nSidoIdx code1 code2 code3
      ((codeSet codes).entries.map Prod.fst) leaf ⟨helper, module.um.textMng⟩
      (if clearData then [] else module.um.poiHeaders) ready.table
      fun code member => ready.leaves code (List.mem_dedup.mp (distinct.mem_iff.mp member))
  refine ⟨keepSearch { module with fpLHCode := some fp, stLHCodeResult := codeSet codes }
    pDong.nSidoIdx searched, ⟨max enough more, fun fuel longer => ?_⟩, ?_⟩
  · unfold searchPoiCateDong
    rw [ready.installed]
    dsimp only
    have codeList : module.findLHDCodeList locals fuel _ = _ := codeList fuel (by omega)
    have below : List.foldlM (searchHDongPass fuel poiLocals pDong.nSidoIdx code1 code2 code3) _ _ =
      _ := below fuel (by omega)
    rw [if_pos ready.law, codeList]
    dsimp only
    rw [below, Option.map_some]
  · -- The set has each code once, in an order of its own.
    exact added.trans ((distinct.flatMap_right _).append_right _)

/-- The search for an administrative dong adds what it has itself. -/
theorem searchPoiCateDong_administrative (locals : LHCodeLocals) (poiLocals : Nat → PoiLocals)
    {leaf : Nat × Nat} (installed : module.um.helpers[pDong.nSidoIdx]? = some helper)
    (administrative : pDong.info.ldongFlag = 0)
    (table : KeyTable helper.fp.data .u32 helper.poiHeader.dongCatePoiIdxOfs 12
      helper.poiHeader.dongCatePoiIdxCnt)
    (listed : IndexLeaf helper.fp.data module.um.textMng.textFp.data
      helper.poiHeader.dongCatePoiIdxOfs helper.poiHeader.dongCatePoiIdxCnt
      (dongCodeOf helper.sidoData.idx pDong.pSigunguF.code pDong.info.code) code1 code2 code3 leaf)
    (clearData : Bool) :
    ∃ after, Loop.Yields
      (fun fuel => module.searchPoiCateDong locals fuel poiLocals pDong code1 code2 code3 clearData)
        after ∧
      after.um.poiHeaders.Perm
        (leafEntries pDong.nSidoIdx helper.fp.data module.um.textMng.textFp.data leaf ++
          if clearData then [] else module.um.poiHeaders) := by
  -- The flag is zero, so that the code of the dong itself is searched for.
  let state : HelperState := ⟨helper, module.um.textMng⟩
  have inserts : Inserts state _ (leafEntries pDong.nSidoIdx state.helper.fp.data
      state.textMng.textFp.data leaf) :=
    searchPoiCateHDong_leaf (poiLocals (dongCodeOf helper.sidoData.idx pDong.pSigunguF.code
      pDong.info.code)) pDong.nSidoIdx table listed
  obtain ⟨searched, ⟨enough, found⟩, _, added⟩ :=
    inserts (if clearData then [] else module.um.poiHeaders)
  refine ⟨module.keepSearch pDong.nSidoIdx searched, ⟨enough, fun fuel longer => ?_⟩, added⟩
  unfold searchPoiCateDong
  rw [installed]
  dsimp only
  rw [if_neg (by simpa using administrative)]
  exact congrArg (Option.map (module.keepSearch pDong.nSidoIdx)) (found fuel longer)

/--
The category searches find what stands at the leaves of the trees, level by level.

Three codes lead to the count and the offset of their leaf, whose named POIs are inserted. For a law
dong this is done for each of its administrative dongs, once, on top of the result it was given.
-/
theorem searchPoiCate_levels (locals : PoiLocals) (lhLocals : LHCodeLocals)
    (poiLocals : Nat → PoiLocals) :
    (∀ (state : HelperState) (endOfs code1 code2 code3 : Nat) (leaf : Nat × Nat),
      CateTree state.helper.fp.data state.textMng.textFp.data endOfs →
      CateLeaf state.helper.fp.data endOfs code1 code2 code3 leaf →
      (∃ after : File, Loop.Yields
        (fun fuel => searchCateInfo locals fuel state.helper.fp endOfs code1 code2 code3)
        (some leaf, after)) ∧
      ∀ nSidoIdx, Inserts state
        (fun fuel poiHeaders =>
          state.searchPoiCate locals fuel nSidoIdx endOfs code1 code2 code3 poiHeaders)
        (leafEntries nSidoIdx state.helper.fp.data state.textMng.textFp.data leaf)) ∧
    ∀ (module : LHCodeModule) (pDong : DongData) (helper : SearchHelper) (code1 code2 code3 : Nat)
      (codes : List Nat) (leaf : Nat → Nat × Nat),
      module.LawDongReady pDong helper code1 code2 code3 codes leaf → ∀ clearData,
      ∃ after, Loop.Yields
        (fun fuel =>
          module.searchPoiCateDong lhLocals fuel poiLocals pDong code1 code2 code3 clearData)
        after ∧
        after.um.poiHeaders.Perm ((codes.dedup.flatMap fun code =>
          leafEntries pDong.nSidoIdx helper.fp.data module.um.textMng.textFp.data (leaf code)) ++
            if clearData then [] else module.um.poiHeaders) := by
  -- The first part is about one helper, and the second about a law dong of the whole module.
  constructor
  · intro state endOfs code1 code2 code3 leaf tree found
    obtain ⟨after, _, searched⟩ := searchCateInfo_leaf locals tree found
    exact ⟨⟨after, searched⟩, fun nSidoIdx => searchPoiCate_leaf locals nSidoIdx tree found⟩
  · intro module pDong helper code1 code2 code3 codes leaf ready clearData
    exact searchPoiCateDong_law lhLocals poiLocals ready clearData

/-- A table with the one law dong 5, whose administrative dongs are 7 and 7 again. -/
def lhTable : File where
  data := leBytes 4 7 ++ leBytes 4 7 ++ leBytes 4 5 ++ leBytes 4 0 ++ leBytes 4 2 ++
    leBytes 4 8 ++ leBytes 4 1
  pos := 0
  addressable := by decide

/-- The module with that table and a sido with the one administrative dong 7. -/
def lhModule : LHCodeModule :=
  load (bareModule [onePartHelper 7 50 1 0 0] oneNameFile) (some lhTable)

/-- The law dong 5. -/
def lawDong : DongData := ⟨0, ⟨0, 0, 0⟩, [], 0, ⟨5, 0, 0, 1, 0, 0, 0⟩⟩

/-- The search for the law dong gives the one POI once, although its dong is listed twice. -/
theorem searchPoiCate_levels_one :
    ∃ after, Loop.Yields
      (fun fuel => lhModule.searchPoiCateDong ⟨0, 0, 0, 0⟩ fuel (fun _ => zeroPoiLocals) lawDong
        1 2 3 true) after ∧
      after.um.poiHeaders.Perm [([0xC11C], ⟨0, ⟨1, 0, 0, 0, 0⟩⟩)] := by
  -- The codes are collected in a set, so that the one that is listed twice is searched for once.
  have ready : lhModule.LawDongReady lawDong (onePartHelper 7 50 1 0 0) 1 2 3 [7, 7]
      (fun _ => (1, 8)) := by
    refine ⟨rfl, by decide, ⟨⟨_, 0, rfl, ?_, ?_, ?_, ?_, ?_⟩⟩, by decide +kernel, ?_⟩
    · decide +kernel
    · decide +kernel
    · decide +kernel
    · decide +kernel
    · decide +kernel
    · intro code member
      have own : code = 7 := by simpa using member
      subst own
      exact ⟨0, by decide, by decide +kernel, by decide +kernel, (1, 22), (1, 12),
        by decide +kernel, by decide +kernel, by decide +kernel⟩
  have found := (searchPoiCate_levels zeroPoiLocals ⟨0, 0, 0, 0⟩ fun _ => zeroPoiLocals).2
    _ _ _ _ _ _ _ _ ready true
  have entries : ([7, 7].dedup.flatMap fun _ => leafEntries lawDong.nSidoIdx
      (onePartHelper 7 50 1 0 0).fp.data lhModule.um.textMng.textFp.data (1, 8)) =
      [([0xC11C], ⟨0, ⟨1, 0, 0, 0, 0⟩⟩)] := by decide +kernel
  rw [entries] at found
  exact found

end Laws

end LHCodeModule

end AndroidApps.Gildroia
