import AndroidApps.Gildroia.Searches
import AndroidApps.Lib.Refinement

/-! Runs of calls on a helper, and what no call but the listing of dongs changes. -/

namespace AndroidApps.Gildroia

/-- The uninitialised variables of one call, whichever it is. -/
structure CallLocals where
  address : AddressLocals
  position : PositionLocals
  region : RegionLocals
  poi : PoiLocals
  poiName : PoiNameLocals

/-- The calls of the public part of `CUmSearchHelper`. -/
inductive HelperCall where
  | getSigunguData
  | getDongData (nSidoIdx sigunguOfs : Nat)
  | getRoadData (nSidoIdx sigunguOfs : Nat)
  | getBunjiData (pDong : Slot) (dong : DongData) (bSan : Bool)
  | getRoadBunjiData (pRoad : Slot) (road : RoadData)
  | getHoData (bunjiOfs : Nat)
  | getNewHoData (bunjiOfs : Nat)
  | getNewHoPos (offset : Nat)
  | getSearchPoiResult (poiHeader : PoiHeaderF)
  | searchDongName (nSidoIdx : Nat) (dongName : Nat → UInt16) (choCode ckCmpHan : Nat)
    (result : List DongData)
  | searchRoadName (nSidoIdx : Nat) (roadName : Nat → UInt16) (choCode ckCmpHan : Nat)
    (result : List RoadData)
  | searchPoiName (nSidoIdx : Nat) (pText : Nat → UInt16) (nLen choCode ckCmpHan : Nat)
    (poiHeaders : PoiMap)
  | searchTelNumberDDD (nSidoIdx telDDD telKUK telNUM : Nat) (poiHeaders : PoiMap)
  | searchTelNumber (nSidoIdx telKUK telNUM : Nat) (poiHeaders : PoiMap)
  | searchPoiCateSido (nSidoIdx code1 code2 code3 : Nat) (poiHeaders : PoiMap)
  | searchPoiCateHDong (nSidoIdx nHCode code1 code2 code3 : Nat) (poiHeaders : PoiMap)
  | searchPoiCateMesh (nSidoIdx nMeshCode code1 code2 code3 : Nat) (poiHeaders : PoiMap)

/-- A call with the values its uninitialised variables happen to have. -/
structure HelperInput where
  locals : CallLocals
  request : HelperCall

/-- The state a call leaves, when it returns within the given number of passes of its loops. -/
def HelperState.after (fuel : Nat) (state : HelperState) (input : HelperInput) :
    Option HelperState :=
  let locals := input.locals
  match input.request with
  | .getSigunguData => state.getSigunguData locals.address fuel
  | .getDongData nSidoIdx sigunguOfs => state.getDongData locals.address fuel nSidoIdx sigunguOfs
  | .getRoadData nSidoIdx sigunguOfs => state.getRoadData locals.address fuel nSidoIdx sigunguOfs
  | .getBunjiData pDong dong bSan => state.getBunjiData locals.address fuel pDong dong bSan
  | .getRoadBunjiData pRoad road =>
    some { state with helper := state.helper.getRoadBunjiData locals.address pRoad road }
  | .getHoData bunjiOfs =>
    some { state with helper := state.helper.getHoData locals.address bunjiOfs }
  | .getNewHoData bunjiOfs =>
    some { state with helper := state.helper.getNewHoData locals.address bunjiOfs }
  | .getNewHoPos offset =>
    (state.helper.getNewHoPos locals.position fuel offset).map fun (_, helper) =>
      { state with helper := helper }
  | .getSearchPoiResult poiHeader =>
    (state.getSearchPoiResult locals.position fuel poiHeader).map Prod.snd
  | .searchDongName nSidoIdx dongName choCode ckCmpHan result =>
    (state.searchDongName locals.region fuel nSidoIdx dongName choCode ckCmpHan result).map Prod.snd
  | .searchRoadName nSidoIdx roadName choCode ckCmpHan result =>
    (state.searchRoadName locals.region fuel nSidoIdx roadName choCode ckCmpHan result).map Prod.snd
  | .searchPoiName nSidoIdx pText nLen choCode ckCmpHan poiHeaders =>
    (state.helper.searchPoiName locals.poiName fuel state.textMng nSidoIdx pText nLen choCode
      ckCmpHan poiHeaders).map fun result => ⟨result.helper, result.textMng⟩
  | .searchTelNumberDDD nSidoIdx telDDD telKUK telNUM poiHeaders =>
    (state.searchTelNumberDDD locals.poi fuel nSidoIdx telDDD telKUK telNUM poiHeaders).map Prod.snd
  | .searchTelNumber nSidoIdx telKUK telNUM poiHeaders =>
    (state.searchTelNumber locals.poi fuel nSidoIdx telKUK telNUM poiHeaders).map Prod.snd
  | .searchPoiCateSido nSidoIdx code1 code2 code3 poiHeaders =>
    (state.searchPoiCateSido locals.poi fuel nSidoIdx code1 code2 code3 poiHeaders).map Prod.snd
  | .searchPoiCateHDong nSidoIdx nHCode code1 code2 code3 poiHeaders =>
    (state.searchPoiCateHDong locals.poi fuel nSidoIdx nHCode code1 code2 code3 poiHeaders).map
      Prod.snd
  | .searchPoiCateMesh nSidoIdx nMeshCode code1 code2 code3 poiHeaders =>
    (state.searchPoiCateMesh locals.poi fuel nSidoIdx nMeshCode code1 code2 code3 poiHeaders).map
      Prod.snd

/-- One call of a run, whose answer is not looked at. -/
def HelperState.call (fuel : Nat) (state : HelperState) (input : HelperInput) :
    Option (Unit × HelperState) :=
  (state.after fuel input).map fun after => ((), after)

/-- The file and what was loaded from it when the helper was constructed. -/
structure SameFile (helper after : SearchHelper) : Prop where
  data : after.fp.data = helper.fp.data
  addrHeader : after.addrHeader = helper.addrHeader
  ldCodeOffset : after.ldCodeOffset = helper.ldCodeOffset

/-- A call leaves the file as it is, and also the dongs listed last. -/
structure Keeps (helper after : SearchHelper) : Prop extends SameFile helper after where
  dongDatas : after.dongDatas = helper.dongDatas

namespace Keeps

variable {helper middle after : SearchHelper}

theorem refl (helper : SearchHelper) : Keeps helper helper := ⟨⟨rfl, rfl, rfl⟩, rfl⟩

theorem trans (first : Keeps helper middle) (second : Keeps middle after) : Keeps helper after where
  data := second.data.trans first.data
  addrHeader := second.addrHeader.trans first.addrHeader
  ldCodeOffset := second.ldCodeOffset.trans first.ldCodeOffset
  dongDatas := second.dongDatas.trans first.dongDatas

/-- Only the position of the file was moved. -/
theorem moved {fp : File} (same : fp.data = helper.fp.data) :
    Keeps helper { helper with fp := fp } := ⟨⟨same, rfl, rfl⟩, rfl⟩

end Keeps

/-- The sido, and its sigungus once they are loaded. -/
structure SameLoads (helper after : SearchHelper) : Prop where
  sidoData : after.sidoData = helper.sidoData
  sigunguDataFs : helper.sigunguDataFs ≠ [] → after.sigunguDataFs = helper.sigunguDataFs

theorem SameLoads.trans {helper middle after : SearchHelper} (first : SameLoads helper middle)
    (second : SameLoads middle after) : SameLoads helper after where
  sidoData := second.sidoData.trans first.sidoData
  sigunguDataFs := by
    intro loaded
    have same := first.sigunguDataFs loaded
    rw [second.sigunguDataFs (same ▸ loaded), same]

/-- A call also leaves what was loaded, and the dongs that were looked up for
administrative ones. -/
structure KeepsDongs (helper after : SearchHelper) : Prop extends Keeps helper after,
    SameLoads helper after where
  dongExDatas : after.dongExDatas = helper.dongExDatas

namespace KeepsDongs

variable {helper middle after : SearchHelper}

theorem refl (helper : SearchHelper) : KeepsDongs helper helper :=
  ⟨.refl helper, ⟨rfl, fun _ => rfl⟩, rfl⟩

theorem trans (first : KeepsDongs helper middle) (second : KeepsDongs middle after) :
    KeepsDongs helper after where
  toKeeps := first.toKeeps.trans second.toKeeps
  toSameLoads := first.toSameLoads.trans second.toSameLoads
  dongExDatas := second.dongExDatas.trans first.dongExDatas

/-- Only the position of the file was moved. -/
theorem moved {fp : File} (same : fp.data = helper.fp.data) :
    KeepsDongs helper { helper with fp := fp } := ⟨.moved same, ⟨rfl, fun _ => rfl⟩, rfl⟩

end KeepsDongs

section Frame

variable {fuel : Nat} {state after : HelperState}

/-- Loading the chain of sigungus only reads the file. -/
theorem loadSigunguFDatas_keeps {locals : AddressLocals} {helper next : SearchHelper}
    (loaded : helper.loadSigunguFDatas locals fuel = some next) : KeepsDongs helper next := by
  -- The invariant of the loop is that the bytes of the file are the same.
  unfold SearchHelper.loadSigunguFDatas at loaded
  split at loaded
  · cases loaded
    exact .refl _
  · rename_i empty
    obtain ⟨result, ran, rfl⟩ := Option.map_eq_some_iff.mp loaded
    refine ⟨⟨⟨?_, rfl, rfl⟩, rfl⟩, ⟨rfl, fun filled => absurd filled empty⟩, rfl⟩
    refine Loop.run_post (fun walk => walk.fp.data = helper.fp.data)
      (fun result => result.1.data = helper.fp.data) ?_ ?_ rfl ran
    · intro walk walked opened continues
      unfold loadSigunguPass at continues
      dsimp only at continues
      split at continues
      · cases continues
        simpa using opened
      · cases continues
    · intro walk outcome opened leaves
      unfold loadSigunguPass at leaves
      dsimp only at leaves
      split at leaves
      · cases leaves
      · cases leaves
        simpa using opened

/-- `GetSigunguData` names the sigungus. -/
theorem getSigunguData_keeps {locals : AddressLocals}
    (called : state.getSigunguData locals fuel = some after) :
    KeepsDongs state.helper after.helper := by
  -- The sigungus are loaded if they were not, and their names go to another list.
  unfold HelperState.getSigunguData at called
  split at called
  · cases called
    exact .refl _
  · split at called
    · cases called
    · rename_i helper loaded
      obtain ⟨named, _, rfl⟩ := Option.map_eq_some_iff.mp called
      exact (loadSigunguFDatas_keeps loaded).trans
        ⟨⟨⟨rfl, rfl, rfl⟩, rfl⟩, ⟨rfl, fun _ => rfl⟩, rfl⟩

/-- Listing dongs leaves the file as it is. -/
theorem getDongData_sameFile {locals : AddressLocals} {nSidoIdx sigunguOfs : Nat}
    (called : state.getDongData locals fuel nSidoIdx sigunguOfs = some after) :
    SameFile state.helper after.helper := by
  -- The invariant of the loop is that the bytes of the file are the same.
  unfold HelperState.getDongData at called
  dsimp only at called
  split at called
  · cases called
  · split at called
    · rename_i fp textMng dongDatas ran
      cases called
      refine ⟨?_, rfl, rfl⟩
      refine Loop.run_post (fun walk => walk.fp.data = state.helper.fp.data)
        (fun result => ∀ fp textMng dongDatas, result = some (fp, textMng, dongDatas) →
          fp.data = state.helper.fp.data) ?_ ?_ (by simp) ran fp textMng dongDatas rfl
      · intro walk walked opened continues
        unfold dongDataPass at continues
        dsimp only at continues
        split at continues
        · cases continues
        · split at continues
          · cases continues
          · cases continues
            simpa using opened
      · intro walk outcome opened leaves fp textMng dongDatas result
        unfold dongDataPass at leaves
        dsimp only at leaves
        subst result
        split at leaves
        · cases leaves
        · split at leaves
          · cases leaves
            simpa using opened
          · cases leaves
    · cases called

/-- Listing dongs leaves what was loaded. -/
theorem getDongData_sameLoads {locals : AddressLocals} {nSidoIdx sigunguOfs : Nat}
    (called : state.getDongData locals fuel nSidoIdx sigunguOfs = some after) :
    SameLoads state.helper after.helper := by
  -- A sigungu that is not found leaves the helper, and the walk over the dongs changes its list
  -- only.
  unfold HelperState.getDongData at called
  dsimp only at called
  split at called
  · cases called
  · split at called
    · cases called
      exact ⟨rfl, fun _ => rfl⟩
    · cases called

/-- `GetRoadData` lists roads. -/
theorem getRoadData_keeps {locals : AddressLocals} {nSidoIdx sigunguOfs : Nat}
    (called : state.getRoadData locals fuel nSidoIdx sigunguOfs = some after) :
    KeepsDongs state.helper after.helper := by
  -- The roads have a list of their own, and their records are only read.
  unfold HelperState.getRoadData at called
  dsimp only at called
  split at called
  · cases called
  · split at called
    · cases called
      exact ⟨⟨⟨rfl, rfl, rfl⟩, rfl⟩, ⟨rfl, fun _ => rfl⟩, rfl⟩
    · split at called
      · rename_i fp textMng roadDatas ran
        cases called
        refine ⟨⟨⟨?_, rfl, rfl⟩, rfl⟩, ⟨rfl, fun _ => rfl⟩, rfl⟩
        refine Loop.run_post (fun walk => walk.fp.data = state.helper.fp.data)
          (fun result => ∀ fp textMng roadDatas, result = some (fp, textMng, roadDatas) →
            fp.data = state.helper.fp.data) ?_ ?_ (by simp) ran fp textMng roadDatas rfl
        · intro walk walked opened continues
          unfold roadDataPass at continues
          dsimp only at continues
          split at continues
          · cases continues
          · split at continues
            · cases continues
            · cases continues
              simpa using opened
        · intro walk outcome opened leaves fp textMng roadDatas result
          unfold roadDataPass at leaves
          dsimp only at leaves
          subst result
          split at leaves
          · cases leaves
          · split at leaves
            · cases leaves
              simpa using opened
            · cases leaves
      · cases called

@[simp] theorem lawDongBunjis_data (pDong : Slot) (bSan : Bool) (count offset bunji hoCnt : Nat)
    (fp : File) : (lawDongBunjis pDong bSan count fp offset bunji hoCnt).2.data = fp.data := by
  induction count generalizing fp offset bunji hoCnt with
  | zero => rfl
  | succ count ih => simp [lawDongBunjis, ih]

@[simp] theorem roadBunjis_data (pRoad : Slot) (count offset bunji hoCnt : Nat) (fp : File) :
    (roadBunjis pRoad count fp offset bunji hoCnt).2.data = fp.data := by
  induction count generalizing fp offset bunji hoCnt with
  | zero => rfl
  | succ count ih => simp [roadBunjis, ih]

/-- The bunjis of a law dong are added to those listed. -/
theorem addLawDongBunjis_keeps (locals : AddressLocals) (helper : SearchHelper) (pDong : Slot)
    (dong : DongData) (bSan : Bool) :
    KeepsDongs helper (helper.addLawDongBunjis locals pDong dong bSan) := by
  refine ⟨⟨⟨?_, rfl, rfl⟩, rfl⟩, ⟨rfl, fun _ => rfl⟩, rfl⟩
  simp [SearchHelper.addLawDongBunjis]

/-- A dong that is not listed is added to the other dongs. -/
theorem getDongDataOfOffset_keeps {locals : AddressLocals} {nSidoIdx dongOfs : Nat}
    {pSigunguF : SigunguDataF} {pDong : Slot} {dong : DongData}
    (called : state.getDongDataOfOffset locals fuel nSidoIdx pSigunguF dongOfs =
      some (pDong, dong, after)) : Keeps state.helper after.helper := by
  -- The two lists of dongs are different fields.
  unfold HelperState.getDongDataOfOffset at called
  dsimp only at called
  split at called
  · cases called
    exact .refl _
  · split at called
    · cases called
      exact .refl _
    · split at called
      · cases called
      · cases called
        exact ⟨⟨by simp, rfl, rfl⟩, rfl⟩

/-- The loop over the law dongs of an administrative dong. -/
theorem addHDongBunjis_keeps {locals : AddressLocals} {nSidoIdx : Nat} {pSigunguF : SigunguDataF}
    {bSan : Bool} {count offset : Nat} {state after : HelperState}
    (called : HelperState.addHDongBunjis locals fuel nSidoIdx pSigunguF bSan count offset state =
      some after) : Keeps state.helper after.helper := by
  induction count generalizing offset state with
  | zero =>
    cases called
    exact .refl _
  | succ count ih =>
    simp only [HelperState.addHDongBunjis] at called
    have read : Keeps state.helper
        { state.helper with fp := (state.helper.fp.freadWord 4 offset).2 } :=
      .moved (by simp)
    split at called
    · split at called
      · cases called
      · rename_i pDong dong next found
        -- The dong is looked up, its bunjis are read, and the position is restored.
        have looked := getDongDataOfOffset_keeps found
        have listed := (addLawDongBunjis_keeps locals next.helper pDong dong bSan).toKeeps
        have restored := ih called
        refine (read.trans looked).trans (listed.trans (Keeps.trans (.moved ?_) restored))
        simp
    · exact read.trans (ih called)

/-- `GetBunjiData` lists the bunjis of one dong, or of several law dongs. -/
theorem getBunjiData_keeps {locals : AddressLocals} {pDong : Slot} {dong : DongData} {bSan : Bool}
    (called : state.getBunjiData locals fuel pDong dong bSan = some after) :
    Keeps state.helper after.helper := by
  -- The list of bunjis is emptied first, and then filled from one dong or from several.
  have cleared : Keeps state.helper { state.helper with bunjiDatas := [] } := ⟨⟨rfl, rfl, rfl⟩, rfl⟩
  unfold HelperState.getBunjiData at called
  dsimp only at called
  split at called
  · cases called
    exact cleared.trans (addLawDongBunjis_keeps locals _ pDong dong bSan).toKeeps
  · have walked := addHDongBunjis_keeps called
    refine (cleared.trans (.moved ?_)).trans walked
    simp

/-- The lookups of law dongs leave what was loaded. -/
theorem addHDongBunjis_sameLoads {locals : AddressLocals} {nSidoIdx : Nat}
    {pSigunguF : SigunguDataF} {bSan : Bool} {count offset : Nat} {state after : HelperState}
    (called : HelperState.addHDongBunjis locals fuel nSidoIdx pSigunguF bSan count offset state =
      some after) : SameLoads state.helper after.helper := by
  induction count generalizing offset state with
  | zero =>
    cases called
    exact ⟨rfl, fun _ => rfl⟩
  | succ count ih =>
    simp only [HelperState.addHDongBunjis] at called
    split at called
    · split at called
      · cases called
      · rename_i pDong dong next found
        -- Of the two helpers in between, only the dongs and the bunjis differ from the first.
        have looked : SameLoads state.helper next.helper := by
          unfold HelperState.getDongDataOfOffset at found
          dsimp only at found
          split at found
          · cases found
            exact ⟨rfl, fun _ => rfl⟩
          · split at found
            · cases found
              exact ⟨rfl, fun _ => rfl⟩
            · split at found
              · cases found
              · cases found
                exact ⟨rfl, fun _ => rfl⟩
        have rest := ih called
        exact looked.trans ⟨rest.sidoData, rest.sigunguDataFs⟩
    · have rest := ih called
      exact ⟨rest.sidoData, rest.sigunguDataFs⟩

/-- `GetBunjiData` leaves what was loaded. -/
theorem getBunjiData_sameLoads {locals : AddressLocals} {pDong : Slot} {dong : DongData}
    {bSan : Bool} (called : state.getBunjiData locals fuel pDong dong bSan = some after) :
    SameLoads state.helper after.helper := by
  -- A law dong reads its own bunjis, and an administrative one those of the law dongs below it.
  unfold HelperState.getBunjiData at called
  dsimp only at called
  split at called
  · cases called
    exact ⟨rfl, fun _ => rfl⟩
  · have walked := addHDongBunjis_sameLoads called
    exact ⟨walked.sidoData, walked.sigunguDataFs⟩

/-- `GetRoadBunjiData` lists the bunjis of a road. -/
theorem getRoadBunjiData_keeps (locals : AddressLocals) (helper : SearchHelper) (pRoad : Slot)
    (road : RoadData) : KeepsDongs helper (helper.getRoadBunjiData locals pRoad road) := by
  refine ⟨⟨⟨?_, rfl, rfl⟩, rfl⟩, ⟨rfl, fun _ => rfl⟩, rfl⟩
  simp [SearchHelper.getRoadBunjiData]

@[simp] theorem readHoCnt_data (locals : AddressLocals) (fp : File) (bunjiOfs : Nat) :
    (readHoCnt locals fp bunjiOfs).2.data = fp.data := by
  simp [readHoCnt]

/-- `GetHoData` moves the position of the file and lists the hos of a bunji. -/
theorem getHoData_moves (locals : AddressLocals) (helper : SearchHelper) (bunjiOfs : Nat) :
    ∃ fp hos, fp.data = helper.fp.data ∧
      helper.getHoData locals bunjiOfs = { helper with fp := fp, hoDatas := hos } := by
  unfold SearchHelper.getHoData
  dsimp only
  exact ⟨_, _, by simp, rfl⟩

theorem getHoData_keeps (locals : AddressLocals) (helper : SearchHelper) (bunjiOfs : Nat) :
    KeepsDongs helper (helper.getHoData locals bunjiOfs) := by
  obtain ⟨fp, hos, same, result⟩ := getHoData_moves locals helper bunjiOfs
  rw [result]
  exact ⟨⟨⟨same, rfl, rfl⟩, rfl⟩, ⟨rfl, fun _ => rfl⟩, rfl⟩

/-- `GetNewHoData` moves the position of the file and lists the hos of a bunji of a road. -/
theorem getNewHoData_moves (locals : AddressLocals) (helper : SearchHelper) (bunjiOfs : Nat) :
    ∃ fp hos, fp.data = helper.fp.data ∧
      helper.getNewHoData locals bunjiOfs = { helper with fp := fp, newHoDatas := hos } := by
  unfold SearchHelper.getNewHoData
  dsimp only
  exact ⟨_, _, by simp, rfl⟩

theorem getNewHoData_keeps (locals : AddressLocals) (helper : SearchHelper) (bunjiOfs : Nat) :
    KeepsDongs helper (helper.getNewHoData locals bunjiOfs) := by
  obtain ⟨fp, hos, same, result⟩ := getNewHoData_moves locals helper bunjiOfs
  rw [result]
  exact ⟨⟨⟨same, rfl, rfl⟩, rfl⟩, ⟨rfl, fun _ => rfl⟩, rfl⟩

/-- Reading a ho record moves the position only. -/
theorem readHo_keeps (helper : SearchHelper) (hoOfs : Nat) (ho : HoData) :
    KeepsDongs helper (helper.readHo hoOfs ho).2 := by
  refine ⟨⟨⟨?_, rfl, rfl⟩, rfl⟩, ⟨rfl, fun _ => rfl⟩, rfl⟩
  simp [SearchHelper.readHo]

/-- Reading a position that is stored elsewhere moves the position of the file only. -/
theorem getPosEx_moves (helper : SearchHelper) (nIndex : Nat) (old : Nat × Nat) :
    ∃ fp, fp.data = helper.fp.data ∧ (helper.getPosEx nIndex old).2 = { helper with fp := fp } := by
  refine ⟨(helper.getPosEx nIndex old).2.fp, ?_, ?_⟩
  · simp [SearchHelper.getPosEx]
  · simp only [SearchHelper.getPosEx]

/-- Reading a position moves the position of the file only. -/
theorem getHoPos_moves (helper : SearchHelper) (ho : HoData) (old : Nat × Nat) :
    ∃ fp, fp.data = helper.fp.data ∧ (helper.getHoPos ho old).2 = { helper with fp := fp } := by
  unfold SearchHelper.getHoPos
  split
  · exact getPosEx_moves helper _ old
  · exact ⟨helper.fp, rfl, rfl⟩

theorem getHoPos_keeps (helper : SearchHelper) (ho : HoData) (old : Nat × Nat) :
    KeepsDongs helper (helper.getHoPos ho old).2 := by
  obtain ⟨fp, same, result⟩ := getHoPos_moves helper ho old
  rw [result]
  exact .moved same

/-- Looking for a dong in the table reads at most its record. -/
theorem findDongOfOffset_keeps {helper next : SearchHelper} {ofs code : Nat}
    {dongF found : DongDataF}
    (called : helper.findDongOfOffset fuel ofs dongF = some (code, found, next)) :
    KeepsDongs helper next := by
  obtain ⟨entry, _, outcome⟩ := Option.map_eq_some_iff.mp called
  simp only [Prod.mk.injEq] at outcome
  rw [← outcome.2.2]
  exact .moved (by simp)

/-- `GetNewHoPos` answers without a change. -/
theorem getNewHoPos_keeps {locals : PositionLocals} {helper next : SearchHelper} {offset : Nat}
    {pos : NewHoPos} (called : helper.getNewHoPos locals fuel offset = some (pos, next)) :
    KeepsDongs helper next := by
  -- On both ways the ho is read, and then its position.
  have first := readHo_keeps helper offset locals.ho
  unfold SearchHelper.getNewHoPos at called
  dsimp only at called
  split at called
  · split at called
    · cases called
    · cases called
      exact first.trans (getHoPos_keeps _ _ _)
  · split at called
    · cases called
    · rename_i found
      cases called
      exact ((first.trans (readHo_keeps _ _ _)).trans (findDongOfOffset_keeps found)).trans
        (getHoPos_keeps _ _ _)

/-- The fixed part of a POI body is read from the file. -/
theorem readPoiInfo_keeps {locals : PositionLocals} {helper next : SearchHelper}
    {poiHeader : PoiHeaderF} {info : PoiBodyF} {hoOfs : Nat}
    (called : helper.readPoiInfo locals fuel poiHeader = some (info, hoOfs, next)) :
    KeepsDongs helper next := by
  -- The body is read at the place that the header names.
  unfold SearchHelper.readPoiInfo at called
  dsimp only at called
  split at called
  · obtain ⟨entry, _, outcome⟩ := Option.map_eq_some_iff.mp called
    simp only [Prod.mk.injEq] at outcome
    rw [← outcome.2.2]
    exact .moved (by simp)
  · simp only [Option.some.injEq, Prod.mk.injEq] at called
    rw [← called.2.2]
    exact .moved (by simp)

/-- The branch name is read from the file and the texts. -/
theorem readBranchName_keeps (locals : PositionLocals) (state : HelperState) (branch : Nat) :
    KeepsDongs state.helper (HelperState.readBranchName locals state branch).2.2.helper := by
  unfold HelperState.readBranchName
  split
  · exact .moved (by simp)
  · exact .refl _

@[simp] theorem readTels_data (count nu8 nu32 : Nat) (fp : File) :
    (readTels count nu8 nu32 fp).2.data = fp.data := by
  induction count generalizing nu8 nu32 fp with
  | zero => rfl
  | succ count ih => simp [readTels, ih]

@[simp] theorem readPosEx_data (posCnt : Nat) (fp : File) :
    (readPosEx posCnt fp).2.data = fp.data := by
  unfold readPosEx
  split <;> simp

/-- The position of a POI is read from the ho record and its dong. -/
theorem placePoi_keeps {locals : PositionLocals} {helper next : SearchHelper} {hoOfs : Nat}
    {info placed : PoiBodyF}
    (called : helper.placePoi locals fuel hoOfs info = some (placed, next)) :
    KeepsDongs helper next := by
  unfold SearchHelper.placePoi at called
  obtain ⟨found, looked, outcome⟩ := Option.map_eq_some_iff.mp called
  simp only [Prod.mk.injEq] at outcome
  rw [← outcome.2]
  exact ((readHo_keeps _ _ _).trans (findDongOfOffset_keeps looked)).trans (getHoPos_keeps _ _ _)

/-- `GetSearchPoiResult` answers without a change. -/
theorem getSearchPoiResult_keeps {locals : PositionLocals} {poiHeader : PoiHeaderF}
    {body : PoiBody}
    (called : state.getSearchPoiResult locals fuel poiHeader = some (body, after)) :
    KeepsDongs state.helper after.helper := by
  unfold HelperState.getSearchPoiResult at called
  split at called
  · cases called
  · rename_i info hoOfs helper read
    have first := readPoiInfo_keeps read
    have second := readBranchName_keeps locals { state with helper := helper } info.branch
    dsimp only at called
    -- The phone numbers and the second position only move the position of the file.
    split at called
    · obtain ⟨placed, looked, outcome⟩ := Option.map_eq_some_iff.mp called
      simp only [Prod.mk.injEq] at outcome
      rw [← outcome.2]
      exact ((first.trans second).trans (.moved (by simp))).trans (placePoi_keeps looked)
    · simp only [Option.some.injEq, Prod.mk.injEq] at called
      rw [← called.2]
      exact (first.trans second).trans (.moved (by simp))

/-- Looking up the bucket of a code moves the position only. -/
theorem findChosungOffsetDong_data {locals : RegionLocals} {fp next : File}
    {choIdxOfs choIdxCnt choCode : Nat} {found : Option (Nat × Nat)}
    (called : findChosungOffsetDong locals fuel fp choIdxOfs choIdxCnt choCode =
      some (found, next)) : next.data = fp.data := by
  -- A search and a read, which leave the bytes of the file.
  unfold findChosungOffsetDong at called
  split at called
  · cases called
  · rename_i searched
    cases called
    exact searchKeyValue_data searched
  · rename_i behind searched
    simp only [Option.some.injEq, Prod.mk.injEq] at called
    rw [← called.2]
    simp [searchKeyValue_data searched]

@[simp] theorem readOffsets_data (locals : RegionLocals) (fp : File) (choOfs choCnt : Nat) :
    (readOffsets locals fp choOfs choCnt).2.data = fp.data := by
  simp [readOffsets]

/-- `SearchDongName` adds to a result outside the helper. -/
theorem searchDongName_keeps {locals : RegionLocals} {nSidoIdx choCode ckCmpHan : Nat}
    {dongName : Nat → UInt16} {result found : List DongData}
    (called : state.searchDongName locals fuel nSidoIdx dongName choCode ckCmpHan result =
      some (found, after)) : KeepsDongs state.helper after.helper := by
  -- The loop over the bucket reads one dong after the other into the result.
  unfold HelperState.searchDongName at called
  dsimp only at called
  split at called
  · cases called
  · rename_i bucket
    cases called
    exact .moved (findChosungOffsetDong_data bucket)
  · rename_i fp bucket
    obtain ⟨final, walked, outcome⟩ := Option.map_eq_some_iff.mp called
    cases outcome
    refine .moved (Loop.foldlM_invariant (fun vars => vars.fp.data = state.helper.fp.data) ?_ ?_
      walked)
    · intro vars offset next opened passed
      unfold searchDongPass at passed
      dsimp only at passed
      split at passed
      · cases passed
      · split at passed
        · cases passed
          simpa using opened
        · cases passed
    · simpa using findChosungOffsetDong_data bucket

/-- `SearchRoadName` adds to a result outside the helper. -/
theorem searchRoadName_keeps {locals : RegionLocals} {nSidoIdx choCode ckCmpHan : Nat}
    {roadName : Nat → UInt16} {result found : List RoadData}
    (called : state.searchRoadName locals fuel nSidoIdx roadName choCode ckCmpHan result =
      some (found, after)) : KeepsDongs state.helper after.helper := by
  -- The loop over the bucket reads one road after the other into the result.
  unfold HelperState.searchRoadName at called
  dsimp only at called
  split at called
  · cases called
  · rename_i bucket
    cases called
    exact .moved (findChosungOffsetDong_data bucket)
  · rename_i fp bucket
    obtain ⟨final, walked, outcome⟩ := Option.map_eq_some_iff.mp called
    cases outcome
    refine .moved (Loop.foldlM_invariant (fun vars => vars.fp.data = state.helper.fp.data) ?_ ?_
      walked)
    · intro vars offset next opened passed
      unfold searchRoadPass at passed
      dsimp only at passed
      split at passed
      · cases passed
      · split at passed
        · cases passed
        · cases passed
          simpa using opened
        · cases passed
          simpa using opened
    · simpa using findChosungOffsetDong_data bucket

/-- The loop over a bucket of POIs only reads the file. -/
theorem poiNameLoop_data (nSidoIdx : Nat) (pText : Nat → UInt16) (nLen ckCmpHan count : Nat)
    (vars : PoiNameVars) :
    (poiNameLoop nSidoIdx pText nLen ckCmpHan count vars).fp.data = vars.fp.data := by
  induction count generalizing vars with
  | zero => rfl
  | succ count ih =>
    rw [poiNameLoop, ih]
    simp [poiNamePass]

/-- `SearchPoiName` adds to a result outside the helper. -/
theorem searchPoiName_keeps {locals : PoiNameLocals} {helper : SearchHelper} {textMng : TextMng}
    {nSidoIdx nLen choCode ckCmpHan : Nat} {pText : Nat → UInt16} {poiHeaders : PoiMap}
    {result : PoiNameResult}
    (called : helper.searchPoiName locals fuel textMng nSidoIdx pText nLen choCode ckCmpHan
      poiHeaders = some result) : KeepsDongs helper result.helper := by
  -- The bucket is found, its headers are read and its names are compared, all by reading.
  have bucketData : ∀ found fp, findChosungOffsetPOI locals fuel helper.fp
      helper.poiHeader.poiChoIdxOfs helper.poiHeader.poiChoIdxCnt choCode = some (found, fp) →
      fp.data = helper.fp.data := by
    intro found fp bucket
    unfold findChosungOffsetPOI at bucket
    split at bucket
    · cases bucket
    · rename_i searched
      cases bucket
      exact searchKeyValue_data searched
    · rename_i searched
      simp only [Option.some.injEq, Prod.mk.injEq] at bucket
      rw [← bucket.2]
      simp [searchKeyValue_data searched]
  unfold SearchHelper.searchPoiName at called
  split at called
  · cases called
  · rename_i bucket
    cases called
    exact .moved (bucketData _ _ bucket)
  · rename_i bucket
    cases called
    refine .moved ?_
    rw [poiNameLoop_data]
    simpa using bucketData _ _ bucket

/-- A search for a key and the pair behind it moves the position only. -/
theorem searchPair_data {locals : PoiLocals} {width : KeyWidth} {fp next : File}
    {key offset recordSize count : Nat} {old : Nat × Nat} {found : Option (Nat × Nat)}
    (called : searchPair locals fuel width fp key offset recordSize count old =
      some (found, next)) : next.data = fp.data := by
  -- Both the search and the read behind it leave the bytes of the file.
  unfold searchPair at called
  split at called
  · cases called
  · rename_i searched
    cases called
    exact searchKeyValue_data searched
  · rename_i searched
    simp only [Option.some.injEq, Prod.mk.injEq] at called
    rw [← called.2]
    simp [searchKeyValue_data searched]

/-- Inserting a POI reads its header. -/
theorem insertPoi_keeps (state : HelperState) (nSidoIdx offset : Nat) (info : PoiHeaderF)
    (poiHeaders : PoiMap) :
    KeepsDongs state.helper (state.insertPoi nSidoIdx offset info poiHeaders).2.2.helper := by
  refine ⟨⟨⟨?_, rfl, rfl⟩, rfl⟩, ⟨rfl, fun _ => rfl⟩, rfl⟩
  simp [HelperState.insertPoi]

/-- The search below one area code. -/
theorem searchTelBelow_keeps {locals : PoiLocals} {nSidoIdx endOfs telKUK telNUM : Nat}
    {old pair : Nat × Nat} {info read : PoiHeaderF} {poiHeaders found : PoiMap}
    (called : state.searchTelBelow locals fuel nSidoIdx endOfs telKUK telNUM old info poiHeaders =
      some (pair, read, found, after)) : KeepsDongs state.helper after.helper := by
  -- The exchange is looked up, then the number below it, and the headers are read last.
  unfold HelperState.searchTelBelow at called
  dsimp only at called
  split at called
  · cases called
  · rename_i exchange
    cases called
    refine .moved ?_
    simpa using searchPair_data exchange
  · rename_i exchange
    have first := searchPair_data exchange
    split at called
    · cases called
    · rename_i number
      cases called
      refine .moved ?_
      simpa [searchKeyValue_data number] using first
    · rename_i number
      simp only [Option.some.injEq, Prod.mk.injEq] at called
      rw [← called.2.2.2]
      refine KeepsDongs.trans ?_ (insertPoi_keeps _ _ _ _ _)
      refine ⟨⟨⟨?_, rfl, rfl⟩, rfl⟩, ⟨rfl, fun _ => rfl⟩, rfl⟩
      simpa [searchKeyValue_data number] using first

/-- `SearchTelNumber` with an area code adds to a result outside the helper. -/
theorem searchTelNumberDDD_keeps {locals : PoiLocals} {nSidoIdx telDDD telKUK telNUM : Nat}
    {poiHeaders found : PoiMap}
    (called : state.searchTelNumberDDD locals fuel nSidoIdx telDDD telKUK telNUM poiHeaders =
      some (found, after)) : KeepsDongs state.helper after.helper := by
  -- Without the area code nothing else is read.
  unfold HelperState.searchTelNumberDDD at called
  dsimp only at called
  split at called
  · cases called
  · rename_i area
    cases called
    exact .moved (searchPair_data area)
  · rename_i area
    obtain ⟨below, searched, outcome⟩ := Option.map_eq_some_iff.mp called
    cases outcome
    exact KeepsDongs.trans (.moved (searchPair_data area)) (searchTelBelow_keeps searched)

@[simp] theorem readAreaEnds_data (locals : PoiLocals) (count i : Nat) (fp : File) :
    (readAreaEnds locals count i fp).2.data = fp.data := by
  induction count generalizing i fp with
  | zero => rfl
  | succ count ih => simp [readAreaEnds, ih]

/-- `SearchTelNumber` without an area code adds to a result outside the helper. -/
theorem searchTelNumber_keeps {locals : PoiLocals} {nSidoIdx telKUK telNUM : Nat}
    {poiHeaders found : PoiMap}
    (called : state.searchTelNumber locals fuel nSidoIdx telKUK telNUM poiHeaders =
      some (found, after)) : KeepsDongs state.helper after.helper := by
  -- The loop over the area codes is a sequence of searches below one of them.
  unfold HelperState.searchTelNumber at called
  dsimp only at called
  split at called
  · cases called
  · obtain ⟨final, walked, outcome⟩ := Option.map_eq_some_iff.mp called
    cases outcome
    refine Loop.foldlM_invariant
      (fun vars : TelVars => KeepsDongs state.helper vars.2.2.2.helper) ?_ ?_
      walked
    · intro vars endOfs next kept passed
      exact kept.trans (searchTelBelow_keeps passed)
    · exact .moved (by simp)

/-- Looking up a category moves the position only. -/
theorem searchCateInfo_data {locals : PoiLocals} {fp next : File}
    {eOffset code1 code2 code3 : Nat} {found : Option (Nat × Nat)}
    (called : searchCateInfo locals fuel fp eOffset code1 code2 code3 = some (found, next)) :
    next.data = fp.data := by
  -- The three codes are looked up one after the other, each in the table of the one before.
  unfold searchCateInfo at called
  dsimp only at called
  split at called
  · cases called
  · rename_i first
    cases called
    simpa using searchPair_data first
  · rename_i first
    have opened := searchPair_data first
    split at called
    · cases called
    · rename_i second
      cases called
      simpa [searchPair_data second] using opened
    · rename_i second
      simpa [searchPair_data called, searchPair_data second] using opened

/-- One POI of a category moves the position only. -/
theorem catePoiPass_keeps (nSidoIdx : Nat) (vars : PoiHeaderF × PoiMap × HelperState)
    (offset : Nat) :
    KeepsDongs vars.2.2.helper (catePoiPass nSidoIdx vars offset).2.2.helper := by
  unfold catePoiPass
  dsimp only
  split
  · exact .moved (by simp)
  · exact .moved (by simp)

/-- `SearchPoiCate` adds to a result outside the helper. -/
theorem searchPoiCate_keeps {locals : PoiLocals} {nSidoIdx endOfs code1 code2 code3 : Nat}
    {poiHeaders found : PoiMap}
    (called : state.searchPoiCate locals fuel nSidoIdx endOfs code1 code2 code3 poiHeaders =
      some (found, after)) : KeepsDongs state.helper after.helper := by
  -- The category is looked up and its headers are read.
  unfold HelperState.searchPoiCate at called
  split at called
  · cases called
  · rename_i category
    cases called
    exact .moved (searchCateInfo_data category)
  · rename_i category
    have opened := searchCateInfo_data category
    simp only [Option.some.injEq, Prod.mk.injEq] at called
    rw [← called.2]
    refine List.foldlRecOn _ (catePoiPass nSidoIdx)
      (motive := fun vars => KeepsDongs state.helper vars.2.2.helper) ?_ ?_
    · refine .moved ?_
      split <;> simpa using opened
    · intro vars kept offset _
      exact kept.trans (catePoiPass_keeps nSidoIdx vars offset)

/-- A category search through an index adds to a result outside the helper. -/
theorem searchPoiCateIndex_keeps {locals : PoiLocals}
    {idxOfs idxCnt nSidoIdx code code1 code2 code3 : Nat} {poiHeaders found : PoiMap}
    (called : state.searchPoiCateIndex locals fuel idxOfs idxCnt nSidoIdx code code1 code2 code3
      poiHeaders = some (found, after)) : KeepsDongs state.helper after.helper := by
  -- The index is searched first, and only a hit leads to the category.
  unfold HelperState.searchPoiCateIndex at called
  dsimp only at called
  split at called
  · cases called
  · rename_i searched
    cases called
    refine .moved ?_
    simpa using searchPair_data searched
  · rename_i searched
    refine KeepsDongs.trans ?_ (searchPoiCate_keeps called)
    refine ⟨⟨⟨?_, rfl, rfl⟩, rfl⟩, ⟨rfl, fun _ => rfl⟩, rfl⟩
    simpa using searchPair_data searched

/-- Every call but the listing of dongs and of bunjis keeps both lists of dongs. -/
theorem after_keepsDongs {input : HelperInput} (called : state.after fuel input = some after)
    (other : ∀ nSidoIdx sigunguOfs, input.request ≠ .getDongData nSidoIdx sigunguOfs)
    (noBunjis : ∀ pDong dong bSan, input.request ≠ .getBunjiData pDong dong bSan) :
    KeepsDongs state.helper after.helper := by
  -- One case for each kind of call, and the lemma of that call.
  unfold HelperState.after at called
  dsimp only at called
  split at called
  · exact getSigunguData_keeps called
  · rename_i asked
    exact absurd asked (other _ _)
  · exact getRoadData_keeps called
  · rename_i asked
    exact absurd asked (noBunjis _ _ _)
  · cases called
    exact getRoadBunjiData_keeps _ _ _ _
  · cases called
    exact getHoData_keeps _ _ _
  · cases called
    exact getNewHoData_keeps _ _ _
  · obtain ⟨answer, answered, rfl⟩ := Option.map_eq_some_iff.mp called
    exact getNewHoPos_keeps answered
  · obtain ⟨answer, answered, rfl⟩ := Option.map_eq_some_iff.mp called
    exact getSearchPoiResult_keeps answered
  · obtain ⟨answer, answered, rfl⟩ := Option.map_eq_some_iff.mp called
    exact searchDongName_keeps answered
  · obtain ⟨answer, answered, rfl⟩ := Option.map_eq_some_iff.mp called
    exact searchRoadName_keeps answered
  · obtain ⟨answer, answered, rfl⟩ := Option.map_eq_some_iff.mp called
    exact searchPoiName_keeps answered
  · obtain ⟨answer, answered, rfl⟩ := Option.map_eq_some_iff.mp called
    exact searchTelNumberDDD_keeps answered
  · obtain ⟨answer, answered, rfl⟩ := Option.map_eq_some_iff.mp called
    exact searchTelNumber_keeps answered
  · obtain ⟨answer, answered, rfl⟩ := Option.map_eq_some_iff.mp called
    exact searchPoiCate_keeps answered
  · obtain ⟨answer, answered, rfl⟩ := Option.map_eq_some_iff.mp called
    exact searchPoiCateIndex_keeps answered
  · obtain ⟨answer, answered, rfl⟩ := Option.map_eq_some_iff.mp called
    unfold HelperState.searchPoiCateMesh at answered
    dsimp only at answered
    split at answered
    · cases answered
      exact .refl _
    · exact searchPoiCateIndex_keeps answered

/-- Every call leaves what was loaded. -/
theorem after_sameLoads {input : HelperInput} (called : state.after fuel input = some after) :
    SameLoads state.helper after.helper := by
  -- The two calls that list something are the only ones with a loop of their own.
  by_cases lists : ∃ nSidoIdx sigunguOfs, input.request = .getDongData nSidoIdx sigunguOfs
  · obtain ⟨nSidoIdx, sigunguOfs, asked⟩ := lists
    unfold HelperState.after at called
    rw [asked] at called
    exact getDongData_sameLoads called
  · by_cases looks : ∃ pDong dong bSan, input.request = .getBunjiData pDong dong bSan
    · obtain ⟨pDong, dong, bSan, asked⟩ := looks
      unfold HelperState.after at called
      rw [asked] at called
      exact getBunjiData_sameLoads called
    · refine (after_keepsDongs called ?_ ?_).toSameLoads
      · intro nSidoIdx sigunguOfs asked
        exact lists ⟨nSidoIdx, sigunguOfs, asked⟩
      · intro pDong dong bSan asked
        exact looks ⟨pDong, dong, bSan, asked⟩

/-- Every call but the listing of dongs keeps the dongs listed last. -/
theorem after_keeps {input : HelperInput} (called : state.after fuel input = some after)
    (other : ∀ nSidoIdx sigunguOfs, input.request ≠ .getDongData nSidoIdx sigunguOfs) :
    Keeps state.helper after.helper := by
  by_cases lists : ∃ pDong dong bSan, input.request = .getBunjiData pDong dong bSan
  · -- The listing of bunjis may look up other dongs, but these have a list of their own.
    obtain ⟨pDong, dong, bSan, asked⟩ := lists
    unfold HelperState.after at called
    rw [asked] at called
    exact getBunjiData_keeps called
  · refine (after_keepsDongs called other ?_).toKeeps
    intro pDong dong bSan asked
    exact lists ⟨pDong, dong, bSan, asked⟩

end Frame

end AndroidApps.Gildroia
