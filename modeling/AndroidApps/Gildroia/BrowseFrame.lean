import AndroidApps.Gildroia.Browse
import AndroidApps.Gildroia.HelperCalls

/-! What each call of browsing leaves of the helpers, and what it writes. -/

namespace AndroidApps.Gildroia

/-- The part of a helper that browsing by dongs reads. -/
structure Shown where
  data : List UInt8
  posExtOfs : Nat
  sigungus : List SigunguDataF
  sigunguDataFs : List SigunguDataF
  dongDatas : List DongData
  dongExDatas : List DongData
  bunjiDatas : List BunjiData
  hoDatas : List HoData

/-- What browsing by dongs reads of a helper. -/
def SearchHelper.shown (helper : SearchHelper) : Shown where
  data := helper.fp.data
  posExtOfs := helper.addrHeader.addrPosExtOfs
  sigungus := helper.sigunguDatas.map SigunguData.pInfo
  sigunguDataFs := helper.sigunguDataFs
  dongDatas := helper.dongDatas
  dongExDatas := helper.dongExDatas
  bunjiDatas := helper.bunjiDatas
  hoDatas := helper.hoDatas

/-- A helper shows the bytes of its file. -/
theorem SearchHelper.shown_data {helper : SearchHelper} {data : List UInt8}
    (opened : helper.fp.data = data) : helper.shown = { helper.shown with data := data } := by
  rw [← opened]
  rfl

section OneHelper

variable {locals : AddressLocals} {fuel : Nat} {state after : HelperState}

/-- The sigungus named are those loaded, one by one. -/
theorem nameSigungus_pInfo {sidoIdx : Nat} {sigungus : List SigunguDataF} :
    ∀ {textMng next : TextMng} {named : List SigunguData},
      nameSigungus locals fuel sidoIdx sigungus textMng = some (named, next) →
      named.map SigunguData.pInfo = sigungus := by
  -- Each round puts one sigungu with its name behind the others, or the whole call fails.
  induction sigungus with
  | nil =>
    intro textMng next named called
    cases called
    rfl
  | cons sdF rest ih =>
    intro textMng next named called
    rw [nameSigungus] at called
    split at called
    · cases called
    · obtain ⟨others, later, outcome⟩ := Option.map_eq_some_iff.mp called
      cases outcome
      rw [List.map_cons, ih later]

/-- `GetSigunguData` leaves the sigungus named, those loaded. -/
theorem getSigunguData_shown (called : state.getSigunguData locals fuel = some after)
    (named : state.helper.sigunguDatas = [] ∨
      state.helper.sigunguDatas.map SigunguData.pInfo = state.helper.sigunguDataFs) :
    ∃ sigungus, after.helper.shown =
      { state.helper.shown with sigungus := sigungus, sigunguDataFs := sigungus } := by
  have kept := getSigunguData_keeps called
  unfold HelperState.getSigunguData at called
  split at called
  · rename_i filled
    cases called
    refine ⟨state.helper.sigunguDataFs, ?_⟩
    rcases named with empty | named
    · exact absurd empty filled
    · simp only [SearchHelper.shown, named]
  · split at called
    · cases called
    · rename_i helper loaded
      obtain ⟨result, walked, rfl⟩ := Option.map_eq_some_iff.mp called
      obtain ⟨names, textMng⟩ := result
      refine ⟨helper.sigunguDataFs, ?_⟩
      -- Apart from the chain itself, loading it moves the position of the file only.
      unfold SearchHelper.loadSigunguFDatas at loaded
      split at loaded
      · cases loaded
        simp only [SearchHelper.shown, nameSigungus_pInfo walked]
      · obtain ⟨chain, _, rfl⟩ := Option.map_eq_some_iff.mp loaded
        have pInfo := nameSigungus_pInfo walked
        rw [SearchHelper.shown_data kept.data]
        simp only [SearchHelper.shown, pInfo]

/-- Every dong of the list that `GetDongData` makes bears the place it was called with. -/
theorem dongWalk_nSidoIdx {nameFuel nSidoIdx sidoIdx : Nat} {pSigunguF : SigunguDataF}
    {start : DongWalk} {fp : File} {textMng : TextMng} {dongDatas : List DongData}
    (listed : ∀ dong ∈ start.dongDatas, dong.nSidoIdx = nSidoIdx)
    (ran : Loop.run (dongDataPass locals nameFuel nSidoIdx sidoIdx pSigunguF) fuel start =
      some (some (fp, textMng, dongDatas))) : ∀ dong ∈ dongDatas, dong.nSidoIdx = nSidoIdx := by
  -- The invariant of the loop is about the dongs listed so far.
  refine Loop.run_post (fun walk => ∀ dong ∈ walk.dongDatas, dong.nSidoIdx = nSidoIdx)
    (fun result => ∀ fp textMng dongDatas, result = some (fp, textMng, dongDatas) →
      ∀ dong ∈ dongDatas, dong.nSidoIdx = nSidoIdx) ?_ ?_ listed ran fp textMng dongDatas rfl
  · intro walk next before continues
    unfold dongDataPass at continues
    dsimp only at continues
    split at continues
    · cases continues
    · split at continues
      · cases continues
      · cases continues
        simpa [or_imp, forall_and] using before
  · intro walk outcome before leaves fp textMng dongDatas result
    unfold dongDataPass at leaves
    dsimp only at leaves
    subst result
    split at leaves
    · cases leaves
    · split at leaves
      · cases leaves
        simpa [or_imp, forall_and] using before
      · cases leaves

/-- `GetDongData` writes the list of dongs, all of which bear the place it was called with. -/
theorem getDongData_shown {nSidoIdx sigunguOfs : Nat}
    (called : state.getDongData locals fuel nSidoIdx sigunguOfs = some after) :
    ∃ dongDatas, after.helper.shown = { state.helper.shown with dongDatas := dongDatas } ∧
      ∀ dong ∈ dongDatas, dong.nSidoIdx = nSidoIdx := by
  -- Of what is shown, only the list of dongs is written behind the loop.
  have same := getDongData_sameFile called
  unfold HelperState.getDongData at called
  dsimp only at called
  split at called
  · cases called
  · split at called
    · rename_i fp textMng dongDatas ran
      cases called
      refine ⟨dongDatas, ?_, dongWalk_nSidoIdx (by simp) ran⟩
      exact SearchHelper.shown_data same.data
    · cases called

/-- `GetRoadData` writes nothing that browsing by dongs reads. -/
theorem getRoadData_shown {nSidoIdx sigunguOfs : Nat}
    (called : state.getRoadData locals fuel nSidoIdx sigunguOfs = some after) :
    after.helper.shown = state.helper.shown := by
  -- The roads are not among what is shown, and the bytes of the file stay.
  have same := getRoadData_keeps called
  unfold HelperState.getRoadData at called
  dsimp only at called
  split at called
  · cases called
  · split at called
    · cases called
      rfl
    · split at called
      · cases called
        exact SearchHelper.shown_data same.data
      · cases called

/-- `SearchDongName` writes nothing that browsing by dongs reads of a helper. -/
theorem searchDongName_shown {locals : RegionLocals} {nSidoIdx choCode ckCmpHan : Nat}
    {dongName : Nat → UInt16} {result found : List DongData}
    (called : state.searchDongName locals fuel nSidoIdx dongName choCode ckCmpHan result =
      some (found, after)) : after.helper.shown = state.helper.shown := by
  -- The dongs found are handed out, and none of them is put into the helper.
  have same := searchDongName_keeps called
  unfold HelperState.searchDongName at called
  dsimp only at called
  split at called
  · cases called
  · cases called
    exact SearchHelper.shown_data same.data
  · obtain ⟨final, _, outcome⟩ := Option.map_eq_some_iff.mp called
    cases outcome
    exact SearchHelper.shown_data same.data

/-- `SearchRoadName` writes nothing that browsing by dongs reads. -/
theorem searchRoadName_shown {locals : RegionLocals} {nSidoIdx choCode ckCmpHan : Nat}
    {roadName : Nat → UInt16} {result found : List RoadData}
    (called : state.searchRoadName locals fuel nSidoIdx roadName choCode ckCmpHan result =
      some (found, after)) : after.helper.shown = state.helper.shown := by
  -- The roads found are handed out, and none of them is put into the helper.
  have same := searchRoadName_keeps called
  unfold HelperState.searchRoadName at called
  dsimp only at called
  split at called
  · cases called
  · cases called
    exact SearchHelper.shown_data same.data
  · obtain ⟨final, _, outcome⟩ := Option.map_eq_some_iff.mp called
    cases outcome
    exact SearchHelper.shown_data same.data

/-- All bunjis of a road refer to it. -/
theorem roadBunjis_pDong (pRoad : Slot) (count offset bunji hoCnt : Nat) (fp : File) :
    ∀ entry ∈ (roadBunjis pRoad count fp offset bunji hoCnt).1, entry.pDong = pRoad := by
  -- Every round of the loop makes its bunji with the same slot.
  induction count generalizing fp offset bunji hoCnt with
  | zero =>
    intro entry listed
    cases listed
  | succ count ih =>
    intro entry listed
    simp only [roadBunjis] at listed
    rcases List.mem_cons.mp listed with rfl | later
    · rfl
    · exact ih _ _ _ _ entry later

/-- `GetRoadBunjiData` writes the list of bunjis, which all refer to the road. -/
theorem getRoadBunjiData_shown (locals : AddressLocals) (helper : SearchHelper) (pRoad : Slot)
    (road : RoadData) : ∃ bunjiDatas, (helper.getRoadBunjiData locals pRoad road).shown =
      { helper.shown with bunjiDatas := bunjiDatas } ∧
      ∀ bunji ∈ bunjiDatas, bunji.pDong = pRoad := by
  have same := getRoadBunjiData_keeps locals helper pRoad road
  exact ⟨_, SearchHelper.shown_data same.data, roadBunjis_pDong _ _ _ _ _ _⟩

/-- `GetHoData` writes the list of hos. -/
theorem getHoData_shown (locals : AddressLocals) (helper : SearchHelper) (bunjiOfs : Nat) :
    (helper.getHoData locals bunjiOfs).shown =
      { helper.shown with hoDatas := (helper.getHoData locals bunjiOfs).hoDatas } := by
  obtain ⟨fp, hos, same, result⟩ := getHoData_moves locals helper bunjiOfs
  rw [result]
  exact SearchHelper.shown_data same

/-- `GetNewHoData` writes nothing that browsing by dongs reads. -/
theorem getNewHoData_shown (locals : AddressLocals) (helper : SearchHelper) (bunjiOfs : Nat) :
    (helper.getNewHoData locals bunjiOfs).shown = helper.shown := by
  obtain ⟨fp, hos, same, result⟩ := getNewHoData_moves locals helper bunjiOfs
  rw [result]
  exact SearchHelper.shown_data same

/-- Reading the position of a ho moves the position of the file only. -/
theorem getHoPos_shown (helper : SearchHelper) (ho : HoData) (old : Nat × Nat) :
    (helper.getHoPos ho old).2.shown = helper.shown := by
  obtain ⟨fp, same, result⟩ := getHoPos_moves helper ho old
  rw [result]
  exact SearchHelper.shown_data same

end OneHelper

section Bunjis

/-- A slot is one of the two vectors of dongs of the helper at a place, and holds a dong. -/
def Shown.Refers (shown : Shown) (sido : Nat) (slot : Slot) : Prop :=
  ∃ index dong, (slot = .dong sido index ∧ shown.dongDatas[index]? = some dong) ∨
    (slot = .dongEx sido index ∧ shown.dongExDatas[index]? = some dong)

/-- A step that lists bunjis only adds, to the bunjis and to the dongs outside the list. -/
structure Adds (sido : Nat) (before after : Shown) (dongs : List DongData)
    (bunjis : List BunjiData) : Prop where
  shown : after = { before with
    dongExDatas := before.dongExDatas ++ dongs, bunjiDatas := before.bunjiDatas ++ bunjis }
  placed : ∀ dong ∈ dongs, dong.nSidoIdx = sido
  refers : ∀ bunji ∈ bunjis, after.Refers sido bunji.pDong

/-- A slot still holds its dong after a step that only adds. -/
theorem Shown.Refers.adds {before after : Shown} {sido : Nat} {dongs : List DongData}
    {bunjis : List BunjiData} {slot : Slot} (refers : before.Refers sido slot)
    (adds : Adds sido before after dongs bunjis) : after.Refers sido slot := by
  -- The old dongs stand at their old places, in front of those added.
  obtain ⟨index, dong, ⟨rfl, held⟩ | ⟨rfl, held⟩⟩ := refers
  · refine ⟨index, dong, .inl ⟨rfl, ?_⟩⟩
    rw [adds.shown]
    exact held
  · refine ⟨index, dong, .inr ⟨rfl, ?_⟩⟩
    rw [adds.shown]
    obtain ⟨bound, _⟩ := List.getElem?_eq_some_iff.mp held
    exact (List.getElem?_append_left bound).trans held

namespace Adds

variable {sido : Nat} {before middle after : Shown} {dongs others : List DongData}
  {bunjis later : List BunjiData}

/-- A step that shows no change adds nothing. -/
theorem refl (sido : Nat) (shown : Shown) : Adds sido shown shown [] [] :=
  ⟨by simp, by simp, by simp⟩

theorem trans (first : Adds sido before middle dongs bunjis)
    (second : Adds sido middle after others later) :
    Adds sido before after (dongs ++ others) (bunjis ++ later) where
  shown := by
    rw [second.shown, first.shown]
    simp only [List.append_assoc]
  placed := by
    intro dong added
    rcases List.mem_append.mp added with early | late
    · exact first.placed dong early
    · exact second.placed dong late
  refers := by
    intro bunji listed
    rcases List.mem_append.mp listed with early | late
    · exact (first.refers bunji early).adds second
    · exact second.refers bunji late

end Adds

variable {locals : AddressLocals} {fuel : Nat} {state after : HelperState}

/-- The index and the element that two searches for the same element find belong together. -/
theorem getElem?_of_findIdx? {dongs : List DongData} {here : DongData → Bool} {index : Nat}
    {dong : DongData} (place : dongs.findIdx? here = some index)
    (found : dongs.find? here = some dong) : dongs[index]? = some dong := by
  rw [List.find?_eq_bind_findIdx?_getElem?, place] at found
  exact found

/-- `GetDongDataOfOffset` refers to a dong known, or to one it adds. -/
theorem getDongDataOfOffset_adds {nSidoIdx dongOfs : Nat} {pSigunguF : SigunguDataF} {pDong : Slot}
    {dong : DongData} (called : state.getDongDataOfOffset locals fuel nSidoIdx pSigunguF dongOfs =
      some (pDong, dong, after)) :
    ∃ dongs, Adds nSidoIdx state.helper.shown after.helper.shown dongs [] ∧
      after.helper.shown.Refers nSidoIdx pDong := by
  -- The two lists are searched first; a dong that is in neither is read and added.
  have same := getDongDataOfOffset_keeps called
  unfold HelperState.getDongDataOfOffset at called
  dsimp only at called
  split at called
  · rename_i index dd place found
    cases called
    exact ⟨[], .refl _ _, index, dong, .inl ⟨rfl, getElem?_of_findIdx? place found⟩⟩
  · split at called
    · rename_i index dd place found
      cases called
      exact ⟨[], .refl _ _, index, dong, .inr ⟨rfl, getElem?_of_findIdx? place found⟩⟩
    · split at called
      · cases called
      · simp only [Option.some.injEq, Prod.mk.injEq] at called
        obtain ⟨rfl, own, outcome⟩ := called
        rw [own] at outcome
        subst outcome
        refine ⟨[dong], ⟨?_, ?_, by simp⟩, state.helper.dongExDatas.length, dong, .inr ⟨rfl, ?_⟩⟩
        · rw [SearchHelper.shown_data same.data, List.append_nil]
          rfl
        · intro added member
          rw [List.mem_singleton.mp member, ← own]
        · exact List.getElem?_concat_length

/-- All bunjis of a law dong refer to it. -/
theorem lawDongBunjis_pDong (pDong : Slot) (bSan : Bool) (count offset bunji hoCnt : Nat)
    (fp : File) : ∀ entry ∈ (lawDongBunjis pDong bSan count fp offset bunji hoCnt).1,
      entry.pDong = pDong := by
  -- Every round of the loop that keeps its bunji makes it with the same slot.
  induction count generalizing fp offset bunji hoCnt with
  | zero =>
    intro entry listed
    cases listed
  | succ count ih =>
    intro entry listed
    simp only [lawDongBunjis] at listed
    split at listed
    · rcases List.mem_cons.mp listed with rfl | later
      · rfl
      · exact ih _ _ _ _ entry later
    · exact ih _ _ _ _ entry listed

/-- The bunjis of a law dong are added behind those listed, and all refer to it. -/
theorem addLawDongBunjis_shown (locals : AddressLocals) (helper : SearchHelper) (pDong : Slot)
    (dong : DongData) (bSan : Bool) :
    ∃ bunjis, (helper.addLawDongBunjis locals pDong dong bSan).shown =
        { helper.shown with bunjiDatas := helper.bunjiDatas ++ bunjis } ∧
      ∀ bunji ∈ bunjis, bunji.pDong = pDong := by
  have same := addLawDongBunjis_keeps locals helper pDong dong bSan
  exact ⟨_, SearchHelper.shown_data same.data, lawDongBunjis_pDong _ _ _ _ _ _ _⟩

/-- The law dongs of an administrative dong each add their bunjis. -/
theorem addHDongBunjis_adds {nSidoIdx : Nat} {pSigunguF : SigunguDataF} {bSan : Bool}
    {count : Nat} :
    ∀ {offset : Nat} {state after : HelperState},
      HelperState.addHDongBunjis locals fuel nSidoIdx pSigunguF bSan count offset state =
        some after →
      ∃ dongs bunjis, Adds nSidoIdx state.helper.shown after.helper.shown dongs bunjis := by
  induction count with
  | zero =>
    intro offset state after called
    cases called
    exact ⟨[], [], .refl _ _⟩
  | succ count ih =>
    intro offset state after called
    simp only [HelperState.addHDongBunjis] at called
    -- Reading the offset moves the position of the file only.
    have read : ({ state.helper with fp := (state.helper.fp.freadWord 4 offset).2 } :
        SearchHelper).shown = state.helper.shown := SearchHelper.shown_data (by simp)
    split at called
    · split at called
      · cases called
      · rename_i pDong dong next found
        obtain ⟨dongs, looked, refers⟩ := getDongDataOfOffset_adds found
        obtain ⟨bunjis, listed, own⟩ :=
          addLawDongBunjis_shown locals next.helper pDong dong bSan
        obtain ⟨others, later, rest⟩ := ih called
        have adds : Adds nSidoIdx next.helper.shown
            (next.helper.addLawDongBunjis locals pDong dong bSan).shown [] bunjis := by
          refine ⟨by rw [listed, List.append_nil]; rfl, by simp, ?_⟩
          intro bunji member
          rw [own bunji member, listed]
          exact refers
        rw [read] at looked
        -- Going back to the next offset moves the position of the file only.
        have back : ({ next.helper.addLawDongBunjis locals pDong dong bSan with
            fp := (next.helper.addLawDongBunjis locals pDong dong bSan).fp.fseek
              (state.helper.fp.freadWord 4 offset).2.pos } : SearchHelper).shown =
            (next.helper.addLawDongBunjis locals pDong dong bSan).shown :=
          SearchHelper.shown_data (by simp)
        rw [back] at rest
        exact ⟨_, _, (looked.trans adds).trans rest⟩
    · obtain ⟨others, later, rest⟩ := ih called
      rw [read] at rest
      exact ⟨others, later, rest⟩

/-- `GetBunjiData` writes the list of bunjis, which refer to its dong or to dongs of its helper. -/
theorem getBunjiData_shown {pDong : Slot} {dong : DongData} {bSan : Bool}
    (called : state.getBunjiData locals fuel pDong dong bSan = some after) :
    ∃ dongs bunjis, after.helper.shown = { state.helper.shown with
        dongExDatas := state.helper.dongExDatas ++ dongs, bunjiDatas := bunjis } ∧
      (∀ added ∈ dongs, added.nSidoIdx = dong.nSidoIdx) ∧
      ∀ bunji ∈ bunjis, bunji.pDong = pDong ∨
        after.helper.shown.Refers dong.nSidoIdx bunji.pDong := by
  -- A law dong lists its own bunjis, and any other dong those of its law dongs.
  unfold HelperState.getBunjiData at called
  dsimp only at called
  split at called
  · cases called
    obtain ⟨bunjis, listed, own⟩ := addLawDongBunjis_shown locals
      { state.helper with bunjiDatas := [] } pDong dong bSan
    refine ⟨[], bunjis, ?_, by simp, fun bunji member => .inl (own bunji member)⟩
    rw [listed, List.append_nil]
    rfl
  · obtain ⟨dongs, bunjis, adds⟩ := addHDongBunjis_adds called
    have cleared : ({ state.helper with
        fp := state.helper.fp.fseek (u32 (dong.info.offset + 18)), bunjiDatas := [] } :
        SearchHelper).shown = { state.helper.shown with bunjiDatas := [] } :=
      SearchHelper.shown_data (by simp [SearchHelper.shown])
    rw [cleared] at adds
    exact ⟨dongs, bunjis, adds.shown, adds.placed, fun bunji member =>
      .inr (adds.refers bunji member)⟩

end Bunjis

namespace UmSearchModule

variable {um next : UmSearchModule} {fuel : Nat}

/-- What browsing by dongs reads of all helpers. -/
def shown (um : UmSearchModule) : List Shown := um.helpers.map SearchHelper.shown

/-- The helper at a place shows its part. -/
theorem shown_getElem? {sido : Nat} {helper : SearchHelper}
    (there : um.helpers[sido]? = some helper) : um.shown[sido]? = some helper.shown := by
  rw [shown, List.getElem?_map, there]
  rfl

/-- A call handed on to a helper changes this helper and the text manager. -/
theorem onHelper_some {sido : Nat} {call : HelperState → Option HelperState}
    (called : um.onHelper sido call = some next) :
    ∃ helper after, um.helpers[sido]? = some helper ∧ call ⟨helper, um.textMng⟩ = some after ∧
      next = { um with helpers := um.helpers.set sido after.helper, textMng := after.textMng } := by
  -- There is a helper at this place, and the call on it has an outcome.
  unfold onHelper at called
  split at called
  · cases called
  · rename_i helper there
    obtain ⟨after, returned, rfl⟩ := Option.map_eq_some_iff.mp called
    exact ⟨helper, after, there, returned, rfl⟩

/-- With another helper at a place, the module shows what that helper shows there. -/
theorem shown_set (um : UmSearchModule) (sido : Nat) (helper : SearchHelper) (textMng : TextMng) :
    shown { um with helpers := um.helpers.set sido helper, textMng := textMng } =
      um.shown.set sido helper.shown := by
  simp only [shown, List.map_set]

/-- A helper that shows what it did leaves what the module shows. -/
theorem shown_set_same {sido : Nat} {helper after : SearchHelper}
    (there : um.helpers[sido]? = some helper) (same : after.shown = helper.shown)
    (textMng : TextMng) :
    shown { um with helpers := um.helpers.set sido after, textMng := textMng } = um.shown := by
  obtain ⟨bound, held⟩ := List.getElem?_eq_some_iff.mp (shown_getElem? there)
  rw [shown_set, same, ← held, List.set_getElem_self]

/-- A search through all helpers that leaves each of them leaves all of them. -/
theorem searchFrom_shown {α : Type}
    {search : Nat → HelperState → List α → Option (List α × HelperState)}
    (leaves : ∀ nSidoIdx state result found after,
      search nSidoIdx state result = some (found, after) →
        after.helper.shown = state.helper.shown) {helpers : List SearchHelper} :
    ∀ {nSidoIdx : Nat} {textMng next : TextMng} {result found : List α}
      {after : List SearchHelper},
      searchFrom search nSidoIdx helpers textMng result = some (after, next, found) →
        after.map SearchHelper.shown = helpers.map SearchHelper.shown := by
  -- One helper after the other is searched and put back.
  induction helpers with
  | nil =>
    intro nSidoIdx textMng next result found after called
    cases called
    rfl
  | cons helper rest ih =>
    intro nSidoIdx textMng next result found after called
    rw [searchFrom] at called
    split at called
    · cases called
    · rename_i searched
      obtain ⟨others, later, outcome⟩ := Option.map_eq_some_iff.mp called
      cases outcome
      rw [List.map_cons, List.map_cons, ih later, leaves _ _ _ _ _ searched]

/-- The result of a search for dongs is all that browsing sees of it. -/
theorem searchDongName_shown {locals : Nat → RegionLocals} {dongName : Nat → UInt16} {nLen : Nat}
    (called : um.searchDongName locals fuel dongName nLen = some next) : next.shown = um.shown := by
  -- The dongs found are handed out, and none of them is put into the helper.
  unfold searchDongName at called
  obtain ⟨outcome, searched, rfl⟩ := Option.map_eq_some_iff.mp called
  exact searchFrom_shown (fun _ _ _ _ _ => Gildroia.searchDongName_shown) searched

/-- A search for roads does not touch what browsing by dongs reads. -/
theorem searchRoadName_shown {locals : Nat → RegionLocals} {roadName : Nat → UInt16} {nLen : Nat}
    (called : um.searchRoadName locals fuel roadName nLen = some next) :
    next.shown = um.shown ∧ next.dongNameResult = um.dongNameResult := by
  -- The roads found are handed out, and none of them is put into the helper.
  unfold searchRoadName at called
  obtain ⟨outcome, searched, rfl⟩ := Option.map_eq_some_iff.mp called
  exact ⟨searchFrom_shown (fun _ _ _ _ _ => Gildroia.searchRoadName_shown) searched, rfl⟩

/-- A dong listed by a helper is among what the helper shows. -/
theorem dongOf_dong (um : UmSearchModule) (sido index : Nat) :
    um.dongOf (.dong sido index) = um.shown[sido]?.bind fun shown => shown.dongDatas[index]? := by
  rw [dongOf, shown, List.getElem?_map, Option.bind_map]
  rfl

/-- So is a dong that a helper knows besides. -/
theorem dongOf_dongEx (um : UmSearchModule) (sido index : Nat) :
    um.dongOf (.dongEx sido index) =
      um.shown[sido]?.bind fun shown => shown.dongExDatas[index]? := by
  rw [dongOf, shown, List.getElem?_map, Option.bind_map]
  rfl

/-- The dong in a slot depends on what the helpers show and on the names found. -/
theorem dongOf_congr (same : next.shown = um.shown)
    (names : next.dongNameResult = um.dongNameResult) (slot : Slot) :
    next.dongOf slot = um.dongOf slot := by
  -- A slot leads into one of the lists of a helper, or into the names found.
  cases slot with
  | dong sido index => rw [dongOf_dong, dongOf_dong, same]
  | dongEx sido index => rw [dongOf_dongEx, dongOf_dongEx, same]
  | dongName index => simp only [dongOf, names]
  | road sido index => rfl
  | roadName index => rfl

end UmSearchModule

end AndroidApps.Gildroia
