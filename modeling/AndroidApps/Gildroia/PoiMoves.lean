import AndroidApps.Gildroia.AddressRows

/-! The calls for POIs only read: the lists of the address search are left as they are. -/

namespace AndroidApps.Gildroia

section Helpers

/-- A helper of which only the position of the file was moved. -/
structure Moves (helper after : SearchHelper) : Prop where
  rest : after = { helper with fp := after.fp }
  data : after.fp.data = helper.fp.data

namespace Moves

variable {helper middle after : SearchHelper}

theorem refl (helper : SearchHelper) : Moves helper helper := ⟨rfl, rfl⟩

theorem trans (first : Moves helper middle) (second : Moves middle after) : Moves helper after where
  rest := by rw [second.rest, first.rest]
  data := second.data.trans first.data

theorem file {fp : File} (same : fp.data = helper.fp.data) :
    Moves helper { helper with fp := fp } :=
  ⟨rfl, same⟩

/-- The lists hold the rows they did. -/
theorem rows (moves : Moves helper after) (kind : ListKind) :
    after.rows kind = helper.rows kind := by
  rw [moves.rest, SearchHelper.rows_fp]

/-- What the browsing is about is the same. -/
theorem shown (moves : Moves helper after) : after.shown = helper.shown := by
  rw [moves.rest]
  exact SearchHelper.shown_data moves.data

end Moves

variable {fuel : Nat} {state after : HelperState}

/-- What only reads moves the position of the file. -/
theorem OnlyRead.moves (read : OnlyRead state after) : Moves state.helper after.helper :=
  ⟨read.helper, read.data⟩

/-- `SearchPoiCate` looks up a category and reads the headers of its POIs. -/
theorem searchPoiCate_moves {locals : PoiLocals} {nSidoIdx endOfs code1 code2 code3 : Nat}
    {poiHeaders found : PoiMap}
    (called : state.searchPoiCate locals fuel nSidoIdx endOfs code1 code2 code3 poiHeaders =
      some (found, after)) : Moves state.helper after.helper := by
  unfold HelperState.searchPoiCate at called
  split at called
  · cases called
  · rename_i category
    cases called
    exact .file (searchCateInfo_data category)
  · rename_i category
    have opened := searchCateInfo_data category
    simp only [Option.some.injEq, Prod.mk.injEq] at called
    rw [← called.2]
    -- Each header is read behind the one before, so that only the position goes on.
    refine List.foldlRecOn _ (catePoiPass nSidoIdx)
      (motive := fun vars => Moves state.helper vars.2.2.helper) ?_ ?_
    · refine .file ?_
      split <;> simpa using opened
    · intro vars kept offset _
      exact kept.trans (catePoiPass_onlyRead nSidoIdx _ _ _ offset).moves

/-- A search through an index reads the index first. -/
theorem searchPoiCateIndex_moves {locals : PoiLocals}
    {idxOfs idxCnt nSidoIdx code code1 code2 code3 : Nat} {poiHeaders found : PoiMap}
    (called : state.searchPoiCateIndex locals fuel idxOfs idxCnt nSidoIdx code code1 code2 code3
      poiHeaders = some (found, after)) : Moves state.helper after.helper := by
  unfold HelperState.searchPoiCateIndex at called
  dsimp only at called
  split at called
  · cases called
  · rename_i searched
    cases called
    refine .file ?_
    simpa using searchPair_data searched
  · rename_i searched
    have below := searchPoiCate_moves called
    refine Moves.trans ⟨rfl, ?_⟩ below
    simpa using searchPair_data searched

/-- So does a search through the administrative dongs of a law dong. -/
theorem searchHDongPass_moves {poiLocals : Nat → PoiLocals} {nSidoIdx code1 code2 code3 : Nat}
    {codes : List Nat} {poiHeaders found : PoiMap}
    (called : codes.foldlM
      (LHCodeModule.searchHDongPass fuel poiLocals nSidoIdx code1 code2 code3)
      (poiHeaders, state) = some (found, after)) : Moves state.helper after.helper := by
  induction codes generalizing poiHeaders state with
  | nil =>
    cases called
    exact .refl _
  -- One dong after the other is searched for in the same file.
  | cons code rest ih =>
    rw [List.foldlM_cons] at called
    obtain ⟨⟨held, middle⟩, searched, later⟩ := Option.bind_eq_some_iff.mp called
    exact (searchPoiCateIndex_moves searched).trans (ih later)

/-- The fixed part of a POI is read. -/
theorem readPoiInfo_moves {locals : PositionLocals} {helper next : SearchHelper}
    {poiHeader : PoiHeaderF} {info : PoiBodyF} {hoOfs : Nat}
    (called : helper.readPoiInfo locals fuel poiHeader = some (info, hoOfs, next)) :
    Moves helper next := by
  refine ⟨?_, (readPoiInfo_keeps called).data⟩
  unfold SearchHelper.readPoiInfo at called
  dsimp only at called
  -- The body is stored as it is, or its ho is looked up.
  split at called
  · obtain ⟨entry, _, outcome⟩ := Option.map_eq_some_iff.mp called
    simp only [Prod.mk.injEq] at outcome
    rw [← outcome.2.2]
  · simp only [Option.some.injEq, Prod.mk.injEq] at called
    rw [← called.2.2]

/-- Its branch name is read. -/
theorem readBranchName_moves (locals : PositionLocals) (state : HelperState) (branch : Nat) :
    Moves state.helper (HelperState.readBranchName locals state branch).2.2.helper := by
  refine ⟨?_, (readBranchName_keeps locals state branch).data⟩
  unfold HelperState.readBranchName
  split <;> rfl

/-- Its position is read from the ho record and its dong. -/
theorem placePoi_moves {locals : PositionLocals} {helper next : SearchHelper} {hoOfs : Nat}
    {info placed : PoiBodyF}
    (called : helper.placePoi locals fuel hoOfs info = some (placed, next)) :
    Moves helper next := by
  refine ⟨?_, (placePoi_keeps called).data⟩
  unfold SearchHelper.placePoi at called
  obtain ⟨⟨code, dong, middle⟩, looked, outcome⟩ := Option.map_eq_some_iff.mp called
  obtain ⟨entry, _, same⟩ := Option.map_eq_some_iff.mp looked
  simp only [Prod.mk.injEq] at outcome same
  obtain ⟨fp, _, moved⟩ := getHoPos_moves middle _ _
  rw [← outcome.2, moved, ← same.2.2]

/-- `GetSearchPoiResult` reads all parts of a POI. -/
theorem getSearchPoiResult_moves {locals : PositionLocals} {poiHeader : PoiHeaderF}
    {body : PoiBody}
    (called : state.getSearchPoiResult locals fuel poiHeader = some (body, after)) :
    Moves state.helper after.helper := by
  unfold HelperState.getSearchPoiResult at called
  split at called
  · cases called
  · rename_i info hoOfs helper read
    have first := readPoiInfo_moves read
    have second := readBranchName_moves locals { state with helper := helper } info.branch
    dsimp only at called
    -- The phone numbers and the second position only move the position of the file.
    split at called
    · obtain ⟨placed, looked, outcome⟩ := Option.map_eq_some_iff.mp called
      simp only [Prod.mk.injEq] at outcome
      rw [← outcome.2]
      exact ((first.trans second).trans (.file (by simp))).trans (placePoi_moves looked)
    · simp only [Option.some.injEq, Prod.mk.injEq] at called
      rw [← called.2]
      exact (first.trans second).trans (.file (by simp))

end Helpers

section Module

namespace UmSearchModule.OnlyMoved

variable {um middle next : UmSearchModule}

theorem trans (first : OnlyMoved um middle) (second : OnlyMoved middle next) :
    OnlyMoved um next where
  writes other different := (second.writes other different).trans (first.writes other different)
  shown := second.shown.trans first.shown
  names := second.names.trans first.names

/-- The texts and the result belong to no list of the address search. -/
theorem texts (textMng : TextMng) (poiHeaders : PoiMap) :
    OnlyMoved um { um with textMng := textMng, poiHeaders := poiHeaders } where
  writes other _ := funext fun place => by cases place <;> cases other <;> rfl
  shown := rfl
  names := rfl

/-- A helper may be moved, too. -/
theorem helper {sido : Nat} {helper after : SearchHelper}
    (there : um.helpers[sido]? = some helper) (moves : Moves helper after) (textMng : TextMng)
    (poiHeaders : PoiMap) :
    OnlyMoved um { um with
      helpers := um.helpers.set sido after
      textMng := textMng
      poiHeaders := poiHeaders } := by
  have moved : OnlyMoved um
      { um with helpers := um.helpers.set sido after, textMng := textMng } :=
    ⟨writes_set there (fun other _ => moves.rows other) textMng,
      shown_set_same there moves.shown textMng, rfl⟩
  exact moved.trans (texts textMng poiHeaders)

end UmSearchModule.OnlyMoved

open UmSearchModule (OnlyMoved)

variable {fuel : Nat} {module found : LHCodeModule}

/-- `SearchPoiCateDong` reads the table of law dongs, the index and the categories. -/
theorem searchPoiCateDong_moved {locals : LHCodeLocals} {poiLocals : Nat → PoiLocals}
    {pDong : DongData} {code1 code2 code3 : Nat} {clearData : Bool}
    (called : module.searchPoiCateDong locals fuel poiLocals pDong code1 code2 code3 clearData =
      some found) : OnlyMoved module.um found.um := by
  unfold LHCodeModule.searchPoiCateDong at called
  dsimp only at called
  split at called
  · cases called
  · rename_i helper there
    split at called
    · split at called
      · cases called
      · rename_i listed codes
        obtain ⟨⟨poiHeaders, state⟩, searched, rfl⟩ := Option.map_eq_some_iff.mp called
        -- The codes of the administrative dongs are read from a file of their own.
        have same : listed.um = module.um := by
          unfold LHCodeModule.findLHDCodeList at codes
          dsimp only at codes
          split at codes
          · cases codes
            rfl
          · split at codes
            · cases codes
            · cases codes
              rfl
            · cases codes
              rfl
        unfold LHCodeModule.keepSearch
        rw [same]
        exact .helper there (searchHDongPass_moves searched) _ _
    -- An administrative dong is searched for by its own code.
    · obtain ⟨⟨poiHeaders, state⟩, searched, rfl⟩ := Option.map_eq_some_iff.mp called
      exact .helper there (searchPoiCateIndex_moves searched) _ _

/-- `GetSearchPoiResult` reads the POI. -/
theorem getSearchPoiResult_moved {locals : PositionLocals} {poiHeader : PoiHeader} {body : PoiBody}
    (called : module.getSearchPoiResult fuel locals poiHeader = some (body, found)) :
    OnlyMoved module.um found.um := by
  unfold LHCodeModule.getSearchPoiResult at called
  split at called
  · cases called
  · rename_i helper there
    obtain ⟨⟨body', after⟩, read, same⟩ := Option.map_eq_some_iff.mp called
    cases same
    exact .helper there (getSearchPoiResult_moves read) _ _

/-- `GetSidoName` reads the texts. -/
theorem getSidoName_moved {junk : Nat} {um next : UmSearchModule} {nIndex : Int} {text : JString}
    (called : um.getSidoName junk fuel nIndex = some (text, next)) : OnlyMoved um next := by
  unfold UmSearchModule.getSidoName at called
  split at called
  · cases called
  · split at called
    · cases called
    -- The name is found, and the position in the texts is behind it.
    · split at called
      · cases called
        exact .texts _ _
      · cases called

/-- The names of a POI are read from the texts. -/
theorem placeNames_moved {locals : PoiNativeLocals} {um next : UmSearchModule}
    {sidoIdx dCode : Nat} {names : JString × JString × JString}
    (called : PoiNative.placeNames locals fuel um sidoIdx dCode = some (names, next)) :
    OnlyMoved um next := by
  simp only [PoiNative.placeNames, Option.bind_eq_bind, Option.bind_eq_some_iff, Option.pure_def,
    Option.some.injEq, Prod.mk.injEq] at called
  obtain ⟨⟨sidoName, middle⟩, sido, ⟨sigunguName, textMng⟩, _, ⟨dongName, textMng'⟩, _, _, rfl⟩ :=
    called
  exact (getSidoName_moved sido).trans (.texts _ _)

end Module

section Calls

open UmSearchModule (OnlyMoved)

variable {locals : PoiNativeLocals} {fuel : Nat} {native after : PoiNative}

/-- Reading a POI into the module leaves the result. -/
theorem loadAt_moved {poiIdx : Nat} {module : LHCodeModule} (held : native.module = some module)
    (called : native.loadAt locals fuel poiIdx = some after) :
    ∃ next, after.module = some next ∧ OnlyMoved module.um next.um ∧
      after.cursor.poiDatas = native.cursor.poiDatas := by
  unfold PoiNative.loadAt at called
  split at called
  -- Another POI than the last one is read from its file.
  · obtain ⟨read, opened, rfl⟩ := Option.map_eq_some_iff.mp called
    unfold PoiNative.readAt at opened
    rw [held] at opened
    split at opened
    · rename_i module' entry same _
      obtain rfl := Option.some.inj same
      obtain ⟨⟨body, next⟩, returned, rfl⟩ := Option.map_eq_some_iff.mp opened
      exact ⟨next, rfl, getSearchPoiResult_moved returned, rfl⟩
    · cases opened
  -- The POI is the one that was read last.
  · cases called
    exact ⟨module, held, ⟨fun _ _ => rfl, rfl, rfl⟩, rfl⟩

/-- `GetPoiData` leaves the result it reads. -/
theorem getPoiData_moved {poiIdx : Nat} {poi : Option PoiData} {module : LHCodeModule}
    (held : native.module = some module)
    (called : native.getPoiData locals fuel poiIdx = some (poi, after)) :
    ∃ next, after.module = some next ∧ OnlyMoved module.um next.um ∧
      after.cursor.poiDatas = native.cursor.poiDatas := by
  unfold PoiNative.getPoiData at called
  rw [held] at called
  split at called
  · rename_i _ poiDatas _ listed
    split at called
    · cases called
      exact ⟨module, held, ⟨fun _ _ => rfl, rfl, rfl⟩, rfl⟩
    -- The POI is read into the module, and then its names.
    · simp only [Option.bind_eq_bind, Option.bind_eq_some_iff] at called
      obtain ⟨loaded, read, later, same, values, _, branch, _, phone, _, outcome⟩ := called
      obtain ⟨next, opened, moved, cursor⟩ := loadAt_moved held read
      obtain rfl := Option.some.inj (opened.symm.trans same)
      split at outcome
      · simp only [Option.bind_eq_some_iff, Option.pure_def, Option.some.injEq,
          Prod.mk.injEq] at outcome
        obtain ⟨⟨names, um⟩, named, _, rfl⟩ := outcome
        exact ⟨_, rfl, moved.trans (placeNames_moved named), cursor⟩
      · cases outcome
  · cases called

end Calls

end AndroidApps.Gildroia
