import AndroidApps.Gildroia.KeySearchLaws
import AndroidApps.Gildroia.UmModule

/-! The two numberings of the sidos: places among the files installed, and the numbers in them. -/

namespace AndroidApps.Gildroia

section Construction

/-- The sigungu records linked from an offset on come to an end. -/
inductive SigunguChain (data : List UInt8) : Nat → Prop
  | last {offset : Nat} (inside : offset + 10 ≤ data.length)
    (ends : (SigunguDataF.decode (bytesAt data offset 10)).offset = 0) : SigunguChain data offset
  | link {offset : Nat} (inside : offset + 10 ≤ data.length)
    (links : (SigunguDataF.decode (bytesAt data offset 10)).offset ≠ 0)
    (later : SigunguChain data (SigunguDataF.decode (bytesAt data offset 10)).offset) :
    SigunguChain data offset

/-- The first record of a chain is inside the file. -/
theorem SigunguChain.start_inside {data : List UInt8} {offset : Nat}
    (chain : SigunguChain data offset) : offset + 10 ≤ data.length := by
  cases chain with
  | last inside _ => exact inside
  | link inside _ _ => exact inside

/-- A pass over a sigungu record inside the file follows its link. -/
theorem loadSigunguPass_inside {walk : SigunguWalk} {offset : Nat}
    (placed : walk.sdF.offset = offset) (inside : offset + 10 ≤ walk.fp.data.length) :
    loadSigunguPass walk =
      if (SigunguDataF.decode (bytesAt walk.fp.data offset 10)).offset ≠ 0 then
        .inl ⟨walk.fp.moveTo (offset + 10), SigunguDataF.decode (bytesAt walk.fp.data offset 10),
          walk.loaded ++ [{ SigunguDataF.decode (bytesAt walk.fp.data offset 10) with
            offset := offset }]⟩
      else .inr (walk.fp.moveTo (offset + 10),
        walk.loaded ++ [{ SigunguDataF.decode (bytesAt walk.fp.data offset 10) with
          offset := offset }]) := by
  unfold loadSigunguPass
  rw [placed, File.fread_fseek inside]

/-- The loop over a chain that comes to an end does so, too. -/
theorem SigunguChain.ends {data : List UInt8} {offset : Nat} (chain : SigunguChain data offset) :
    ∀ walk : SigunguWalk, walk.fp.data = data → walk.sdF.offset = offset →
      Loop.Terminates loadSigunguPass walk := by
  -- The induction is on the chain: the last record ends the loop, and any other leads to the next.
  induction chain with
  | last inside ends =>
    intro walk opened placed
    subst opened
    have pass := loadSigunguPass_inside placed inside
    rw [if_neg (not_not.mpr ends)] at pass
    exact ⟨_, Loop.ends_leave pass⟩
  | link inside links later ih =>
    intro walk opened placed
    subst opened
    have pass := loadSigunguPass_inside placed inside
    rw [if_pos links] at pass
    exact (Loop.terminates_continue pass).mpr (ih _ rfl rfl)

/-- The files of a well-formed sido: its number comes first, and its sigungus come to an end. -/
structure SidoFile (data : List UInt8) (idx : Nat) : Prop where
  number : wordAt data 0 1 = idx
  sigungus : SigunguChain data 10

@[simp] theorem readHeaders_data (locals : AddressLocals) (fp : File) :
    (SearchHelper.readHeaders locals fp).fp.data = fp.data := by
  unfold SearchHelper.readHeaders
  dsimp only
  simp only [File.fread_data, File.fseek_data, File.fseekEnd_data]

/-- The number of the sido is the first byte of the file. -/
theorem readHeaders_idx (locals : AddressLocals) {fp : File} (room : 10 ≤ fp.data.length) :
    (SearchHelper.readHeaders locals fp).sidoData.idx = wordAt fp.data 0 1 := by
  unfold SearchHelper.readHeaders
  dsimp only
  rw [File.fread_fseek (by simpa using room)]
  simp only [File.fread_data, File.fseek_data, File.fseekEnd_data, SidoData.decode, wordAt]
  rw [bytesAt_bytesAt (by decide)]

@[simp] theorem loadLDongOffset_sidoData (locals : AddressLocals) (helper : SearchHelper) :
    (helper.loadLDongOffset locals).sidoData = helper.sidoData := rfl

/-- With enough passes the chain of sigungus is loaded, and the number of the sido stays. -/
theorem loadSigunguFDatas_returns (locals : AddressLocals) {helper : SearchHelper}
    (empty : helper.sigunguDataFs = []) (chain : SigunguChain helper.fp.data 10) :
    ∃ enough, ∀ fuel, enough ≤ fuel →
      ∃ next, helper.loadSigunguFDatas locals fuel = some next ∧
        next.sidoData = helper.sidoData := by
  -- The list is empty, so that the records are read; only the list and the file change.
  obtain ⟨⟨after, loaded⟩, enough, ran⟩ :=
    chain.ends ⟨helper.fp, { locals.sigunguF with offset := 10 }, []⟩ rfl rfl
  refine ⟨enough, ?_⟩
  intro fuel longer
  have walked := Loop.run_mono ran longer
  refine ⟨{ helper with fp := after, sigunguDataFs := loaded }, ?_, rfl⟩
  unfold SearchHelper.loadSigunguFDatas
  rw [if_neg (not_not.mpr empty)]
  dsimp only at walked ⊢
  rw [walked]
  rfl

/-- With enough passes the constructor returns, and has read the number of the sido. -/
theorem create_returns (locals : AddressLocals) {fp : File} {idx : Nat}
    (sido : SidoFile fp.data idx) :
    ∃ enough, ∀ fuel, enough ≤ fuel →
      ∃ helper, SearchHelper.create locals fuel fp = some helper ∧ helper.sidoData.idx = idx := by
  -- The number is read with the headers, and neither table that is loaded then touches it.
  have room : 10 ≤ fp.data.length := Nat.le_trans (by decide) sido.sigungus.start_inside
  have opened := readHeaders_data locals fp
  have number := (readHeaders_idx locals room).trans sido.number
  have empty : (SearchHelper.readHeaders locals fp).sigunguDataFs = [] := by
    obtain ⟨_, _, _, _, _, headers⟩ := SearchHelper.readHeaders_lists locals fp
    rw [headers]
  generalize headers : SearchHelper.readHeaders locals fp = helper at opened number empty
  obtain ⟨enough, returns⟩ := loadSigunguFDatas_returns locals empty
    (by rw [opened]; exact sido.sigungus)
  refine ⟨enough, ?_⟩
  intro fuel longer
  obtain ⟨next, loaded, kept⟩ := returns fuel longer
  refine ⟨next.loadLDongOffset locals, ?_, ?_⟩
  · rw [SearchHelper.create, headers, loaded, Option.map_some]
  · rw [loadLDongOffset_sidoData, kept]
    exact number

end Construction

section Installation

variable (fopen : String → Option File) (pPath : String)

/-- Whether the file of a sido can be opened. -/
def installed (idx : Nat) : Bool :=
  (sidoTails[idx]?.bind fun tail => fopen (sidoPath pPath tail)).isSome

/-- The place of a sido among those installed. -/
def placeOf (idx : Nat) : Nat := ((List.range idx).filter (installed fopen pPath)).length

/-- Every file that can be opened is that of a well-formed sido with its own number. -/
def WellInstalled : Prop :=
  ∀ idx tail fp, sidoTails[idx]? = some tail → fopen (sidoPath pPath tail) = some fp →
    SidoFile fp.data idx

variable {fopen pPath}

/-- The loop of `Load` constructs one helper for each file that can be opened, in order. -/
theorem loadHelpers_returns (locals : AddressLocals) (tails : List String) :
    ∀ first, (∀ i tail fp, tails[i]? = some tail → fopen (sidoPath pPath tail) = some fp →
        SidoFile fp.data (first + i)) →
      ∃ enough, ∀ fuel, enough ≤ fuel → ∃ helpers,
        UmSearchModule.loadHelpers locals fuel fopen pPath tails = some helpers ∧
        helpers.map (fun helper => helper.sidoData.idx) =
          ((List.range tails.length).filter fun i =>
            (tails[i]?.bind fun tail => fopen (sidoPath pPath tail)).isSome).map (first + ·) := by
  induction tails with
  | nil =>
    intro first _
    exact ⟨0, fun fuel _ => ⟨[], rfl, rfl⟩⟩
  | cons tail rest ih =>
    intro first sidos
    obtain ⟨enough, returns⟩ := ih (first + 1) (by
      intro i later fp listed opened
      have sido := sidos (i + 1) later fp listed opened
      rwa [Nat.add_comm i 1, ← Nat.add_assoc] at sido)
    -- The places of the rest are those of the whole list, shifted by one.
    have shifted : ((List.range (rest.length + 1)).filter fun i =>
        ((tail :: rest)[i]?.bind fun tail => fopen (sidoPath pPath tail)).isSome) =
        (if (fopen (sidoPath pPath tail)).isSome then [0] else []) ++
          ((List.range rest.length).filter fun i =>
            (rest[i]?.bind fun tail => fopen (sidoPath pPath tail)).isSome).map (· + 1) := by
      rw [List.range_succ_eq_map, List.filter_cons, List.filter_map]
      simp only [List.getElem?_cons_zero, Option.bind_some, Function.comp_def,
        List.getElem?_cons_succ]
      split <;> simp
    have reindex : ∀ i, first + 1 + i = first + (i + 1) := by
      intro i
      omega
    simp only [reindex] at returns
    cases opened : fopen (sidoPath pPath tail) with
    | none =>
      refine ⟨enough, ?_⟩
      intro fuel longer
      obtain ⟨helpers, loaded, numbers⟩ := returns fuel longer
      refine ⟨helpers, ?_, ?_⟩
      · rw [UmSearchModule.loadHelpers_cons, opened]
        exact loaded
      · rw [numbers, List.length_cons, shifted, opened]
        simp [Function.comp_def]
    | some fp =>
      obtain ⟨passes, created⟩ := create_returns locals (sidos 0 tail fp rfl opened)
      refine ⟨max enough passes, ?_⟩
      intro fuel longer
      obtain ⟨helpers, loaded, numbers⟩ := returns fuel (Nat.le_trans (Nat.le_max_left _ _) longer)
      obtain ⟨helper, constructed, number⟩ :=
        created fuel (Nat.le_trans (Nat.le_max_right _ _) longer)
      refine ⟨helper :: helpers, ?_, ?_⟩
      · rw [UmSearchModule.loadHelpers_cons, opened]
        simp only [constructed, loaded, Option.map_some]
      · rw [List.map_cons, numbers, number, List.length_cons, shifted, opened]
        simp [Function.comp_def]

/-- With enough passes `Load` returns, and the helpers bear the numbers of the sidos installed. -/
theorem load_returns (locals : AddressLocals) (textMng : TextMng)
    (sidos : WellInstalled fopen pPath) :
    ∃ enough, ∀ fuel, enough ≤ fuel → ∃ um,
      UmSearchModule.load locals fuel fopen pPath textMng = some um ∧ um.textMng = textMng ∧
      um.helpers.map (fun helper => helper.sidoData.idx) =
        (List.range 16).filter (installed fopen pPath) := by
  -- All sixteen paths are tried in the order of the numbers.
  obtain ⟨enough, returns⟩ := loadHelpers_returns locals sidoTails 0 (by
    intro i tail fp listed opened
    rw [Nat.zero_add]
    exact sidos i tail fp listed opened)
  refine ⟨enough, ?_⟩
  intro fuel longer
  obtain ⟨helpers, loaded, numbers⟩ := returns fuel longer
  refine ⟨⟨helpers, textMng, [], [], []⟩, ?_, rfl, ?_⟩
  · rw [UmSearchModule.load, loaded]
    rfl
  · simp only [Nat.zero_add, List.map_id'] at numbers
    exact numbers

/-- A sido that is installed stands at its place. -/
theorem filter_placeOf {idx : Nat} (here : installed fopen pPath idx = true) (low : idx < 16) :
    ((List.range 16).filter (installed fopen pPath))[placeOf fopen pPath idx]? = some idx := by
  -- Of the sidos before this one, those that are installed stand before it.
  obtain ⟨rest, split⟩ : ∃ rest, List.range 16 = List.range idx ++ idx :: rest := by
    refine ⟨(List.range (16 - (idx + 1))).map (idx + 1 + ·), ?_⟩
    have cut := List.range_add (n := idx + 1) (m := 16 - (idx + 1))
    rw [show idx + 1 + (16 - (idx + 1)) = 16 by omega] at cut
    rw [cut, List.range_succ (n := idx)]
    simp
  rw [split, List.filter_append, placeOf, List.getElem?_append_right (Nat.le_refl _),
    List.filter_cons, if_pos here]
  simp

/-- The place of a sido is its number exactly when all sidos before it are installed. -/
theorem placeOf_eq_iff {idx : Nat} :
    placeOf fopen pPath idx = idx ↔ ∀ earlier, earlier < idx → installed fopen pPath earlier := by
  -- A filtered list keeps its length only if nothing is left out.
  rw [placeOf]
  constructor
  · intro whole earlier before
    have all := List.filter_eq_self.mp
      ((List.filter_sublist).eq_of_length (whole.trans List.length_range.symm))
    exact all earlier (List.mem_range.mpr before)
  · intro all
    rw [List.filter_eq_self.mpr fun earlier member => all earlier (List.mem_range.mp member),
      List.length_range]

end Installation

section Names

/-- The place and the number of entries of the name table of the sidos. -/
def sidoNameCnt (mng : TextMng) : Nat := wordAt mng.nameFp.data mng.sidoOfs 4

/-- The name table of the sidos: numbers in order, each with the packed offset of a text. -/
structure SidoNames (mng : TextMng) : Prop where
  counted : mng.sidoOfs + 4 ≤ mng.nameFp.data.length
  table : KeyTable mng.nameFp.data .u8 (mng.sidoOfs + 4) 5 (sidoNameCnt mng)

/-- The packed offset of an entry of the name table. -/
def sidoTextOfs (mng : TextMng) (entry : Nat) : Nat :=
  wordAt mng.nameFp.data (mng.sidoOfs + 4 + entry * 5 + 1) 4

/-- A sido has a name in the table. -/
def SidoNamed (mng : TextMng) (idx : Nat) (name : List UInt16) : Prop :=
  ∃ entry, entry < sidoNameCnt mng ∧
    keyAt mng.nameFp.data .u8 (mng.sidoOfs + 4) 5 entry = idx ∧
    TextInside mng.textFp.data (sidoTextOfs mng entry) ∧
    name = textAt mng.textFp.data (sidoTextOfs mng entry)

/-- With enough passes the name of a sido in the table is found. -/
theorem getSidoName_named {mng : TextMng} (names : SidoNames mng) {idx : Nat} {name : List UInt16}
    (named : SidoNamed mng idx name) (junk : Nat) :
    ∃ enough, ∀ fuel, enough ≤ fuel → ∃ text after,
      mng.getSidoName junk fuel idx = some (some (text, name.length), after) ∧
        text.take name.length = name := by
  obtain ⟨entry, listed, number, inside, rfl⟩ := named
  have small : idx < 2 ^ 8 := by
    rw [← number]
    exact wordAt_lt mng.nameFp.data _ 1
  have table := names.table
  have behind := table.key_inside listed
  have whole := table.inside
  have record : (entry + 1) * 5 ≤ sidoNameCnt mng * 5 := Nat.mul_le_mul_right 5 listed
  have counted : (mng.nameFp.fseek mng.sidoOfs).freadWord 4 (u32 junk) =
      (sidoNameCnt mng, mng.nameFp.moveTo (mng.sidoOfs + 4)) :=
    File.freadWord_fseek names.counted
  -- The search stops behind the number, in front of the packed offset.
  obtain ⟨enough, found⟩ := searchKeyValue_listed
    (show KeyTable (mng.nameFp.moveTo (mng.sidoOfs + 4)).data .u8 (mng.sidoOfs + 4) 5
      (sidoNameCnt mng) from table) listed junk
  refine ⟨enough, ?_⟩
  intro fuel longer
  have searched : searchKeyValue .u8 junk fuel (mng.nameFp.moveTo (mng.sidoOfs + 4)) idx
      (mng.sidoOfs + 4) (KeyWidth.u8.bytes + 4) (sidoNameCnt mng) =
      some (true, mng.nameFp.moveTo (mng.sidoOfs + 4 + entry * 5 + 1)) := by
    have ended := Loop.run_mono found longer
    rw [File.moveTo_data, number] at ended
    exact ended
  have read : (mng.nameFp.moveTo (mng.sidoOfs + 4 + entry * 5 + 1)).freadWord 4 (sidoNameCnt mng) =
      (sidoTextOfs mng entry, mng.nameFp.moveTo (mng.sidoOfs + 4 + entry * 5 + 1 + 4)) := by
    rw [File.freadWord_inside (by rw [File.moveTo_pos, File.moveTo_data]; omega)]
    rfl
  let moved : TextMng :=
    { mng with nameFp := mng.nameFp.moveTo (mng.sidoOfs + 4 + entry * 5 + 1 + 4) }
  have text : (moved.getTextOfs (sidoTextOfs mng entry) 0).1 =
      textAt mng.textFp.data (sidoTextOfs mng entry) ++
        0 :: (mng.textBuff 0).drop (sidoTextOfs mng entry % 32 + 1) := getTextOfs_text 0 inside
  refine ⟨(moved.getTextOfs (sidoTextOfs mng entry) 0).1,
    (moved.getTextOfs (sidoTextOfs mng entry) 0).2, ?_, ?_⟩
  · unfold TextMng.getSidoName TextMng.getName
    rw [counted, Nat.mod_eq_of_lt small]
    dsimp only
    rw [File.moveTo_pos, searched]
    dsimp only
    rw [read, textAt_length]
  · rw [text, List.take_left]

end Names

section Roads

variable {locals : AddressLocals} {fuel nSidoIdx : Nat} {state after : HelperState}

/-- Every road that `GetRoadData` lists bears the place of its helper. -/
theorem getRoadData_nSidoIdx {sigunguOfs : Nat}
    (called : state.getRoadData locals fuel nSidoIdx sigunguOfs = some after) :
    ∀ road ∈ after.helper.roadDatas, road.nSidoIdx = nSidoIdx := by
  -- Each pass adds roads that were made with the place of the helper.
  unfold HelperState.getRoadData at called
  dsimp only at called
  split at called
  · cases called
  · split at called
    · cases called
      intro road listed
      cases listed
    · split at called
      · rename_i fp textMng roadDatas ran
        cases called
        refine Loop.run_post (fun walk => ∀ road ∈ walk.roadDatas, road.nSidoIdx = nSidoIdx)
          (fun result => ∀ fp textMng roadDatas, result = some (fp, textMng, roadDatas) →
            ∀ road ∈ roadDatas, road.nSidoIdx = nSidoIdx) ?_ ?_
            (by simp) ran fp textMng roadDatas rfl
        · intro walk next listed continues
          unfold roadDataPass at continues
          dsimp only at continues
          split at continues
          · cases continues
          · split at continues
            · cases continues
            · cases continues
              split <;> simpa [or_imp, forall_and] using listed
        · intro walk outcome listed leaves fp textMng roadDatas result
          unfold roadDataPass at leaves
          dsimp only at leaves
          subst result
          split at leaves
          · cases leaves
          · split at leaves
            · cases leaves
              split <;> simpa [or_imp, forall_and] using listed
            · cases leaves
      · cases called

/-- Every road that `SearchRoadName` adds to a result bears the place of its helper. -/
theorem searchRoadName_nSidoIdx {locals : RegionLocals} {roadName : Nat → UInt16}
    {choCode ckCmpHan : Nat} {result found : List RoadData}
    (called : state.searchRoadName locals fuel nSidoIdx roadName choCode ckCmpHan result =
      some (found, after)) : ∀ road ∈ found, road ∈ result ∨ road.nSidoIdx = nSidoIdx := by
  -- The invariant of the outer loop speaks of the result so far, whatever it began with.
  unfold HelperState.searchRoadName at called
  dsimp only at called
  split at called
  · cases called
  · cases called
    intro road listed
    exact .inl listed
  · obtain ⟨final, walked, outcome⟩ := Option.map_eq_some_iff.mp called
    cases outcome
    refine Loop.foldlM_invariant
      (fun vars => ∀ road ∈ vars.result, road ∈ result ∨ road.nSidoIdx = nSidoIdx) ?_ ?_ walked
    · intro vars offset next listed passed
      unfold searchRoadPass at passed
      dsimp only at passed
      split at passed
      · cases passed
      · split at passed
        · cases passed
        · cases passed
          exact listed
        · cases passed
          dsimp only
          split
          · intro road member
            rcases List.mem_append.mp member with before | new
            · exact listed road before
            · rw [List.mem_singleton.mp new]
              exact .inr rfl
          · exact listed
    · intro road listed
      exact .inl listed

end Roads

section Numbering

/--
The two numberings agree on a sido.

Its name is found by every code of its dongs, and its number is the sido part of every code that
is composed for a road listed at its place.
-/
structure SidoConsistent (um : UmSearchModule) (idx place : Nat) (name : List UInt16) : Prop where
  named : ∀ sigungu dong, sigungu < 1000 → dong < 100000 → ∀ junk, ∃ enough, ∀ fuel,
    enough ≤ fuel → ∃ after,
      um.getSidoNameByDCode junk fuel (idx * 100000000 + sigungu * 100000 + dong) =
        some (name, after)
  composed : ∀ road nDCode, road.nSidoIdx = place → road.pSigunguF.code < 1000 →
    nDCode < 100000 → UmSearchModule.roadHoCode road nDCode / 100000000 = idx

/-- The sido part of a code that is composed for a road. -/
theorem roadHoCode_div {road : RoadData} {nDCode : Nat} (low : road.nSidoIdx < 16)
    (three : road.pSigunguF.code < 1000) (five : nDCode < 100000) :
    UmSearchModule.roadHoCode road nDCode / 100000000 = road.nSidoIdx := by
  rw [UmSearchModule.roadHoCode, dongCodeOf, u32_of_lt (by omega)]
  omega

variable {fopen : String → Option File} {pPath : String}

/-- Only the sidos of the table are installed. -/
theorem lt_of_installed {idx : Nat} (here : installed fopen pPath idx = true) : idx < 16 := by
  by_contra high
  have beyond : sidoTails[idx]? = none := List.getElem?_eq_none (Nat.not_lt.mp high)
  simp [installed, beyond] at here

/--
The numberings of a sido that is installed agree exactly when all sidos before it in the table are
installed as well.
-/
theorem sidoConsistent_iff (locals : AddressLocals) {textMng : TextMng}
    (sidos : WellInstalled fopen pPath) (names : SidoNames textMng) {sidoName : Nat → List UInt16}
    (named : ∀ idx, installed fopen pPath idx → SidoNamed textMng idx (sidoName idx)) :
    ∃ enough, ∀ fuel, enough ≤ fuel → ∃ um,
      UmSearchModule.load locals fuel fopen pPath textMng = some um ∧
      ∀ idx, installed fopen pPath idx →
        um.helpers[placeOf fopen pPath idx]?.map (fun helper => helper.sidoData.idx) = some idx ∧
        (SidoConsistent um idx (placeOf fopen pPath idx) (sidoName idx) ↔
          ∀ earlier, earlier < idx → installed fopen pPath earlier) := by
  obtain ⟨enough, returns⟩ := load_returns locals textMng sidos
  refine ⟨enough, ?_⟩
  intro fuel longer
  obtain ⟨um, loaded, texts, numbers⟩ := returns fuel longer
  refine ⟨um, loaded, ?_⟩
  intro idx here
  have low := lt_of_installed here
  have placed : um.helpers[placeOf fopen pPath idx]?.map (fun helper => helper.sidoData.idx) =
      some idx := by
    rw [← List.getElem?_map, numbers]
    exact filter_placeOf here low
  refine ⟨placed, ?_⟩
  rw [← placeOf_eq_iff]
  have few : placeOf fopen pPath idx ≤ idx := by
    rw [placeOf]
    exact Nat.le_trans (List.length_filter_le _ _) (Nat.le_of_eq List.length_range)
  constructor
  · -- The code composed for a road bears the place, and the claim says it bears the number.
    intro consistent
    have code := consistent.composed ⟨placeOf fopen pPath idx, ⟨0, 0, 0⟩, [], 0, ⟨0, 0, 0⟩⟩ 0 rfl
      (show 0 < 1000 by decide) (by decide)
    rw [roadHoCode_div (Nat.lt_of_le_of_lt few low) (show 0 < 1000 by decide) (by decide)] at code
    exact code
  · intro own
    rw [own] at placed ⊢
    obtain ⟨helper, there, number⟩ := Option.map_eq_some_iff.mp placed
    refine ⟨?_, ?_⟩
    · intro sigungu dong three five junk
      obtain ⟨passes, found⟩ := getSidoName_named names (named idx here) junk
      refine ⟨passes, ?_⟩
      intro fuel longer
      obtain ⟨text, after, looked, chars⟩ := found fuel longer
      have index : (idx * 100000000 + sigungu * 100000 + dong) / 100000000 = idx := by omega
      have nIndex : toInt (u32 idx) = idx := by
        rw [u32_of_lt (by omega), toInt_of_lt (by omega)]
      refine ⟨{ um with textMng := after }, ?_⟩
      unfold UmSearchModule.getSidoNameByDCode UmSearchModule.getSidoName
      rw [index, nIndex, if_neg (by omega), Int.toNat_natCast, there]
      simp only [number, texts, looked, chars]
    · intro road nDCode bears three five
      rw [roadHoCode_div (by omega) three five]
      exact bears

end Numbering

section Cities

/-- The file of a sido with one sigungu and nothing else. -/
def cityFile (idx : Nat) : File := ⟨leBytes 1 idx ++ leBytes 19 0, 0, by simp⟩

/-- The second sido is installed, and the first one if it is asked for. -/
def cityFiles (first : Bool) (path : String) : Option File :=
  if first ∧ path = sidoPath "/" "su" then some (cityFile 0)
  else if path = sidoPath "/" "bs" then some (cityFile 1) else none

/-- The names of the first two sidos, one syllable each. -/
def cityNames : TextMng where
  textFp := ⟨[0x1C, 0xC1, 0x80, 0xBD], 0, by decide⟩
  nameFp := ⟨[2, 0, 0, 0, 0, 1, 0, 0, 0, 1, 65, 0, 0, 0], 0, by decide⟩
  sidoOfs := 0
  sigunguOfs := 0
  dongOfs := 0
  roadOfs := 0
  textBuff := fun _ => List.replicate 32 0
  sized := zeros_sized

/-- Files of different sidos have different paths. -/
theorem sidoPath_inj {pPath first second : String}
    (same : sidoPath pPath first = sidoPath pPath second) : first = second := by
  unfold sidoPath at same
  simpa using same

theorem cityFile_first : SidoFile (cityFile 0).data 0 :=
  ⟨by decide +kernel, .last (by decide +kernel) (by decide +kernel)⟩

theorem cityFile_second : SidoFile (cityFile 1).data 1 :=
  ⟨by decide +kernel, .last (by decide +kernel) (by decide +kernel)⟩

theorem cityFiles_wellInstalled (first : Bool) : WellInstalled (cityFiles first) "/" := by
  -- The tails of the two files belong to the numbers 0 and 1 and to no other.
  intro idx tail fp listed opened
  have tailsDiffer : ∀ idx, idx < 16 → (sidoTails[idx]? = some "su" → idx = 0) ∧
      (sidoTails[idx]? = some "bs" → idx = 1) := by decide +kernel
  have low : idx < 16 := (List.getElem?_eq_some_iff.mp listed).1
  unfold cityFiles at opened
  split at opened
  · rename_i path
    cases opened
    rw [sidoPath_inj path.2] at listed
    rw [(tailsDiffer idx low).1 listed]
    exact cityFile_first
  · split at opened
    · rename_i path
      cases opened
      rw [sidoPath_inj path] at listed
      rw [(tailsDiffer idx low).2 listed]
      exact cityFile_second
    · cases opened

theorem cityNames_table : SidoNames cityNames := ⟨by decide, by decide⟩

theorem cityNames_named : ∀ idx, idx < 2 →
    SidoNamed cityNames idx (if idx = 0 then [0xC11C] else [0xBD80]) := by
  intro idx low
  have cases : idx = 0 ∨ idx = 1 := by omega
  rcases cases with rfl | rfl
  · exact ⟨0, by decide, by decide, by decide, by decide⟩
  · exact ⟨1, by decide, by decide, by decide, by decide⟩

/-- With both sidos installed, the numberings of the second one agree. -/
theorem sidoConsistent_iff_both :
    ∃ enough, ∀ fuel, enough ≤ fuel → ∃ um,
      UmSearchModule.load zeroAddressLocals fuel (cityFiles true) "/" cityNames = some um ∧
        SidoConsistent um 1 (placeOf (cityFiles true) "/" 1) [0xBD80] := by
  -- All sidos before the second one are installed, for there is only the first.
  have onlyTwo : ∀ idx, idx < 16 → installed (cityFiles true) "/" idx = true → idx < 2 := by
    decide +kernel
  obtain ⟨enough, returns⟩ := sidoConsistent_iff zeroAddressLocals (cityFiles_wellInstalled true)
    cityNames_table (fun idx here => cityNames_named idx (onlyTwo idx (lt_of_installed here) here))
  refine ⟨enough, ?_⟩
  intro fuel longer
  obtain ⟨um, loaded, agree⟩ := returns fuel longer
  refine ⟨um, loaded, (agree 1 (by decide +kernel)).2.mpr ?_⟩
  intro earlier before
  rw [show earlier = 0 by omega]
  decide +kernel

/--
With only the second sido installed, its helper stands at the place of the first.

Its name is looked for behind the last helper, and codes of its roads begin with the wrong number.
-/
theorem secondAlone_inconsistent :
    WellInstalled (cityFiles false) "/" ∧ SidoNames cityNames ∧
    SidoNamed cityNames 1 [0xBD80] ∧ installed (cityFiles false) "/" 1 = true ∧
    ∃ um, UmSearchModule.load zeroAddressLocals 5 (cityFiles false) "/" cityNames = some um ∧
      (∀ junk fuel, um.getSidoNameByDCode junk fuel 100000000 = none) ∧
      ¬ SidoConsistent um 1 (placeOf (cityFiles false) "/" 1) [0xBD80] := by
  -- One helper is loaded, so that the place of the second sido is behind all helpers.
  refine ⟨cityFiles_wellInstalled false, cityNames_table, cityNames_named 1 (by decide),
    by decide +kernel, ?_⟩
  obtain ⟨um, loaded⟩ := Option.isSome_iff_exists.mp
    (show (UmSearchModule.load zeroAddressLocals 5 (cityFiles false) "/" cityNames).isSome = true by
      decide +kernel)
  have single : um.helpers.length = 1 := by
    have lengths : (UmSearchModule.load zeroAddressLocals 5 (cityFiles false) "/" cityNames).map
        (fun um => um.helpers.length) = some 1 := by decide +kernel
    rw [loaded] at lengths
    exact Option.some.inj lengths
  refine ⟨um, loaded, ?_, ?_⟩
  · intro junk fuel
    have beyond : um.helpers[1]? = none := List.getElem?_eq_none (by omega)
    unfold UmSearchModule.getSidoNameByDCode UmSearchModule.getSidoName
    rw [show toInt (u32 (100000000 / 100000000)) = 1 by decide]
    simp [beyond]
  · intro consistent
    have place : placeOf (cityFiles false) "/" 1 = 0 := by decide +kernel
    have code := consistent.composed ⟨0, ⟨0, 0, 0⟩, [], 0, ⟨0, 0, 0⟩⟩ 0 place.symm (by decide)
      (by decide)
    exact absurd code (by decide)

end Cities

end AndroidApps.Gildroia
