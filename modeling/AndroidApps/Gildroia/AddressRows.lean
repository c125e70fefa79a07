import AndroidApps.Gildroia.AddressScreens

/-! The rows that the lists of the native side hold, and which of them a call writes. -/

namespace AndroidApps.Gildroia

/-- The kinds of lists that the views of the address search show. -/
inductive ListKind where
  | sigungu
  | dong
  | road
  | bunji
  | ho
  | roadHo
  deriving DecidableEq

/-- The kind of the list that a call reads a row of. -/
def RowCall.kind : RowCall → ListKind
  | getSigunguName => .sigungu
  | getDongName => .dong
  | getRoadName => .road
  | getBunjiValue | getRoadBunjiValue => .bunji
  | getHoValue => .ho
  | getRoadHoValue => .roadHo

section Rows

/-- The rows of the lists of a helper. -/
def SearchHelper.rows (helper : SearchHelper) : ListKind → List ListRow
  | .sigungu => helper.sigunguDatas.map fun sigungu => .name (sigungu.name.take sigungu.nameLen)
  | .dong => helper.dongDatas.map fun dong => .name (dong.name.take dong.nameLen)
  | .road => helper.roadDatas.map fun road => .name (road.name.take road.nameLen)
  | .bunji => helper.bunjiDatas.map fun bunji => .number bunji.bunji
  | .ho => helper.hoDatas.map fun ho => .number (getHoValue ho)
  | .roadHo => helper.newHoDatas.map fun newHo => .number newHo.ho

/-- The rows of the lists of a module. -/
def UmSearchModule.rows (um : UmSearchModule) : ListKind → RegionList → Option (List ListRow)
  | kind, .helper sido => um.helpers[sido]?.map fun helper => helper.rows kind
  | .dong, .names => some (um.dongNameResult.map fun dong => .name (dong.name.take dong.nameLen))
  | .road, .names => some (um.roadNameResult.map fun road => .name (road.name.take road.nameLen))
  | .sigungu, .names | .bunji, .names | .ho, .names | .roadHo, .names => none

/-- The lists of the helper at a place are its own. -/
@[simp] theorem UmSearchModule.rows_helper (um : UmSearchModule) (kind : ListKind) (sido : Nat) :
    um.rows kind (.helper sido) = um.helpers[sido]?.map fun helper => helper.rows kind := by
  cases kind <;> rfl

/-- The position of the file is no matter of the rows. -/
@[simp] theorem SearchHelper.rows_fp (helper : SearchHelper) (fp : File) (kind : ListKind) :
    SearchHelper.rows { helper with fp := fp } kind = helper.rows kind := by
  cases kind <;> rfl

/-- What a pointer to a vector of a helper leads to, element by element. -/
theorem UmSearchModule.row_of_helper (um : UmSearchModule) (kind : ListKind) {α : Type}
    {elements : SearchHelper → List α} {shown : α → ListRow}
    (rows : ∀ helper : SearchHelper, helper.rows kind = (elements helper).map shown)
    (pointer : Option Nat) (idx : Nat) :
    (pointer.bind fun sido => um.helpers[sido]?.bind fun helper =>
        (elements helper)[idx]?.bind fun element => some (shown element)) =
      ((pointer.map RegionList.helper).bind fun place => um.rows kind place).bind
        fun rows => rows[idx]? := by
  cases pointer with
  | none => rfl
  | some sido =>
    cases there : um.helpers[sido]? with
    | none => simp [there]
    | some helper => simp [there, rows, Option.map_eq_bind]

namespace Browser

variable (browser : Browser)

/-- The list that the variable of a kind points to. -/
def list : ListKind → Option RegionList
  | .sigungu => browser.pSigunguData.map .helper
  | .dong => browser.pDongData
  | .road => browser.pRoadData
  | .bunji => browser.pBunjiData.map .helper
  | .ho => browser.pHoData.map .helper
  | .roadHo => browser.pNewHoData.map .helper

/-- The rows of the list that the variable of a kind points to. -/
def rows (kind : ListKind) : Option (List ListRow) :=
  (browser.list kind).bind fun place => browser.um.rows kind place

/-- The call that reads a row. -/
def row : ListKind → Nat → Option ListRow
  | .sigungu => browser.getSigunguName
  | .dong => browser.getDongName
  | .road => browser.getRoadName
  | .bunji => browser.getBunjiValue
  | .ho => browser.getHoValue
  | .roadHo => browser.getRoadHoValue

/-- A call reads the list of its kind. -/
theorem rowOf_eq (call : RowCall) : browser.rowOf call = browser.row call.kind := by
  cases call <;> rfl

/-- A dong that is listed is named by a row. -/
theorem getDongName_eq (idx : Nat) :
    browser.getDongName idx = (browser.rows .dong).bind fun rows => rows[idx]? := by
  unfold getDongName rows list
  cases browser.pDongData with
  | none => rfl
  | some place =>
    cases place with
    -- The dongs may be those that were found by name.
    | names => simp [UmSearchModule.rows, RegionList.dongSlot, UmSearchModule.dongOf,
        Option.map_eq_bind]
    | helper sido =>
      have own := browser.um.row_of_helper .dong (fun _ => rfl) (some sido) idx
      simpa [RegionList.dongSlot, UmSearchModule.dongOf, Option.bind_assoc] using own

/-- A road that is listed is named by a row. -/
theorem getRoadName_eq (idx : Nat) :
    browser.getRoadName idx = (browser.rows .road).bind fun rows => rows[idx]? := by
  unfold getRoadName rows list
  cases browser.pRoadData with
  | none => rfl
  | some place =>
    cases place with
    | names => simp [UmSearchModule.rows, RegionList.roadSlot, UmSearchModule.roadOf,
        Option.map_eq_bind]
    | helper sido =>
      have own := browser.um.row_of_helper .road (fun _ => rfl) (some sido) idx
      simpa [RegionList.roadSlot, UmSearchModule.roadOf, Option.bind_assoc] using own

/-- A row that is read is that of the list. -/
theorem row_eq (kind : ListKind) (idx : Nat) :
    browser.row kind idx = (browser.rows kind).bind fun rows => rows[idx]? := by
  -- Dongs and roads may be those found by name, and the other lists are always of a helper.
  cases kind with
  | sigungu => exact browser.um.row_of_helper .sigungu (fun _ => rfl) browser.pSigunguData idx
  | dong => exact browser.getDongName_eq idx
  | road => exact browser.getRoadName_eq idx
  | bunji => exact browser.um.row_of_helper .bunji (fun _ => rfl) browser.pBunjiData idx
  | ho => exact browser.um.row_of_helper .ho (fun _ => rfl) browser.pHoData idx
  | roadHo => exact browser.um.row_of_helper .roadHo (fun _ => rfl) browser.pNewHoData idx

end Browser

/-- The rows read one by one, as many as there are, are those of the list. -/
theorem rows_of_range {rows list : List ListRow}
    (read : List.Forall₂ (fun idx row => rows[idx]? = some row) (List.range rows.length) list) :
    list = rows := by
  refine List.ext_getElem (by simpa using read.length_eq.symm) fun idx first second => ?_
  have here := (List.forall₂_iff_get.mp read).2 idx (by simpa using second) first
  simpa [List.getElem?_eq_getElem second] using here.symm

end Rows

section Helpers

variable {locals : AddressLocals} {fuel : Nat} {state after : HelperState} {kind : ListKind}

/-- `GetSigunguData` writes the sigungus. -/
theorem getSigunguData_rows (called : state.getSigunguData locals fuel = some after)
    (other : kind ≠ .sigungu) : after.helper.rows kind = state.helper.rows kind := by
  -- The chain of the sigungus is read once, and only their names are among the rows.
  unfold HelperState.getSigunguData at called
  split at called
  · cases called
    rfl
  · split at called
    · cases called
    · rename_i helper loaded
      obtain ⟨result, _, rfl⟩ := Option.map_eq_some_iff.mp called
      unfold SearchHelper.loadSigunguFDatas at loaded
      split at loaded
      · cases loaded
        cases kind <;> first | rfl | exact absurd rfl other
      · obtain ⟨chain, _, rfl⟩ := Option.map_eq_some_iff.mp loaded
        cases kind <;> first | rfl | exact absurd rfl other

/-- `GetDongData` writes the dongs. -/
theorem getDongData_rows {nSidoIdx sigunguOfs : Nat}
    (called : state.getDongData locals fuel nSidoIdx sigunguOfs = some after)
    (other : kind ≠ .dong) : after.helper.rows kind = state.helper.rows kind := by
  unfold HelperState.getDongData at called
  dsimp only at called
  split at called
  · cases called
  · split at called
    -- The list of dongs is filled anew, and no other one.
    · cases called
      cases kind <;> first | rfl | exact absurd rfl other
    · cases called

/-- `GetRoadData` writes the roads. -/
theorem getRoadData_rows {nSidoIdx sigunguOfs : Nat}
    (called : state.getRoadData locals fuel nSidoIdx sigunguOfs = some after)
    (other : kind ≠ .road) : after.helper.rows kind = state.helper.rows kind := by
  unfold HelperState.getRoadData at called
  dsimp only at called
  split at called
  · cases called
  · split at called
    -- A sigungu without roads empties the list, and any other fills it.
    · cases called
      cases kind <;> first | rfl | exact absurd rfl other
    · split at called
      · cases called
        cases kind <;> first | rfl | exact absurd rfl other
      · cases called

/-- The bunjis of a law dong are added to the bunjis. -/
theorem addLawDongBunjis_rows (helper : SearchHelper) (pDong : Slot) (dong : DongData)
    (bSan : Bool) (other : kind ≠ .bunji) :
    (helper.addLawDongBunjis locals pDong dong bSan).rows kind = helper.rows kind := by
  cases kind <;> first | rfl | exact absurd rfl other

/-- A dong that is not listed is added to no list that is shown. -/
theorem getDongDataOfOffset_rows {nSidoIdx dongOfs : Nat} {pSigunguF : SigunguDataF} {pDong : Slot}
    {dong : DongData} (called : state.getDongDataOfOffset locals fuel nSidoIdx pSigunguF dongOfs =
      some (pDong, dong, after)) : after.helper.rows kind = state.helper.rows kind := by
  unfold HelperState.getDongDataOfOffset at called
  dsimp only at called
  split at called
  -- It is listed already, or it is read into a slot beside the list.
  · cases called
    rfl
  · split at called
    · cases called
      rfl
    · split at called
      · cases called
      · cases called
        cases kind <;> rfl

/-- So are the bunjis of the law dongs below an administrative dong. -/
theorem addHDongBunjis_rows {nSidoIdx : Nat} {pSigunguF : SigunguDataF} {bSan : Bool}
    {count offset : Nat} {state after : HelperState}
    (called : HelperState.addHDongBunjis locals fuel nSidoIdx pSigunguF bSan count offset state =
      some after) (other : kind ≠ .bunji) :
    after.helper.rows kind = state.helper.rows kind := by
  induction count generalizing offset state with
  | zero =>
    cases called
    rfl
  | succ count ih =>
    -- A law dong is looked up, its bunjis are added, and the loop goes on with the next one.
    simp only [HelperState.addHDongBunjis] at called
    split at called
    · split at called
      · cases called
      · rename_i pDong dong next found
        have looked : next.helper.rows kind = state.helper.rows kind :=
          (getDongDataOfOffset_rows found).trans (SearchHelper.rows_fp _ _ kind)
        have listed : (next.helper.addLawDongBunjis locals pDong dong bSan).rows kind =
            next.helper.rows kind := addLawDongBunjis_rows next.helper pDong dong bSan other
        exact (ih called).trans ((SearchHelper.rows_fp _ _ kind).trans (listed.trans looked))
    · exact (ih called).trans (SearchHelper.rows_fp _ _ kind)

/-- `GetBunjiData` writes the bunjis. -/
theorem getBunjiData_rows {pDong : Slot} {dong : DongData} {bSan : Bool}
    (called : state.getBunjiData locals fuel pDong dong bSan = some after)
    (other : kind ≠ .bunji) : after.helper.rows kind = state.helper.rows kind := by
  have cleared : SearchHelper.rows { state.helper with bunjiDatas := [] } kind =
      state.helper.rows kind := by
    cases kind <;> first | rfl | exact absurd rfl other
  unfold HelperState.getBunjiData at called
  dsimp only at called
  -- A law dong has its own bunjis, and an administrative one those of its law dongs.
  split at called
  · cases called
    exact (addLawDongBunjis_rows _ pDong dong bSan other).trans cleared
  · exact (addHDongBunjis_rows called other).trans ((SearchHelper.rows_fp _ _ kind).trans cleared)

/-- `GetRoadBunjiData` writes the bunjis. -/
theorem getRoadBunjiData_rows (helper : SearchHelper) (pRoad : Slot) (road : RoadData)
    (other : kind ≠ .bunji) :
    (helper.getRoadBunjiData locals pRoad road).rows kind = helper.rows kind := by
  cases kind <;> first | rfl | exact absurd rfl other

/-- `GetHoData` writes the hos. -/
theorem getHoData_rows (helper : SearchHelper) (bunjiOfs : Nat) (other : kind ≠ .ho) :
    (helper.getHoData locals bunjiOfs).rows kind = helper.rows kind := by
  cases kind <;> first | rfl | exact absurd rfl other

/-- `GetNewHoData` writes the hos of roads. -/
theorem getNewHoData_rows (helper : SearchHelper) (bunjiOfs : Nat) (other : kind ≠ .roadHo) :
    (helper.getNewHoData locals bunjiOfs).rows kind = helper.rows kind := by
  cases kind <;> first | rfl | exact absurd rfl other

/-- Reading a position moves the position of the file only. -/
theorem getHoPos_rows (helper : SearchHelper) (ho : HoData) (old : Nat × Nat) :
    (helper.getHoPos ho old).2.rows kind = helper.rows kind := by
  obtain ⟨fp, _, result⟩ := getHoPos_moves helper ho old
  rw [result, SearchHelper.rows_fp]

/-- So does reading the position of a ho of a road. -/
theorem getNewHoPos_moves {locals : PositionLocals} {helper next : SearchHelper} {offset : Nat}
    {pos : NewHoPos} (called : helper.getNewHoPos locals fuel offset = some (pos, next)) :
    ∃ fp, fp.data = helper.fp.data ∧ next = { helper with fp := fp } := by
  -- The ho is read, perhaps the record of its dong, and then the position.
  have same := (getNewHoPos_keeps called).data
  unfold SearchHelper.getNewHoPos at called
  dsimp only at called
  split at called
  · split at called
    · cases called
    · rename_i dong _
      obtain ⟨fp, _, result⟩ := getHoPos_moves (helper.readHo offset locals.ho).2
        (helper.readHo offset locals.ho).1 locals.pos
      cases called
      rw [result] at same ⊢
      exact ⟨fp, same, rfl⟩
  · split at called
    · cases called
    · rename_i found
      obtain ⟨entry, _, outcome⟩ := Option.map_eq_some_iff.mp found
      simp only [Prod.mk.injEq] at outcome
      cases called
      rename_i middle _
      obtain ⟨fp, _, result⟩ := getHoPos_moves middle
        ((helper.readHo offset locals.ho).2.readHo offset (helper.readHo offset locals.ho).1).1
        locals.pos
      rw [result, ← outcome.2.2] at same ⊢
      exact ⟨fp, same, rfl⟩

/-- `SearchDongName` hands out the dongs found. -/
theorem searchDongName_rows {locals : RegionLocals} {nSidoIdx choCode ckCmpHan : Nat}
    {dongName : Nat → UInt16} {result found : List DongData}
    (called : state.searchDongName locals fuel nSidoIdx dongName choCode ckCmpHan result =
      some (found, after)) : after.helper.rows kind = state.helper.rows kind := by
  unfold HelperState.searchDongName at called
  dsimp only at called
  split at called
  · cases called
  -- Without a table nothing is found, and with one its entries are read.
  · cases called
    exact SearchHelper.rows_fp _ _ kind
  · obtain ⟨final, _, outcome⟩ := Option.map_eq_some_iff.mp called
    cases outcome
    exact SearchHelper.rows_fp _ _ kind

/-- `SearchRoadName` hands out the roads found. -/
theorem searchRoadName_rows {locals : RegionLocals} {nSidoIdx choCode ckCmpHan : Nat}
    {roadName : Nat → UInt16} {result found : List RoadData}
    (called : state.searchRoadName locals fuel nSidoIdx roadName choCode ckCmpHan result =
      some (found, after)) : after.helper.rows kind = state.helper.rows kind := by
  unfold HelperState.searchRoadName at called
  dsimp only at called
  split at called
  · cases called
  · cases called
    exact SearchHelper.rows_fp _ _ kind
  · obtain ⟨final, _, outcome⟩ := Option.map_eq_some_iff.mp called
    cases outcome
    exact SearchHelper.rows_fp _ _ kind

end Helpers

section Module

namespace UmSearchModule

variable {um next : UmSearchModule} {fuel : Nat}

/-- The lists of all kinds but one hold what they did. -/
def Writes (kind : Option ListKind) (um next : UmSearchModule) : Prop :=
  ∀ other, some other ≠ kind → next.rows other = um.rows other

/-- With another helper at a place, the lists hold what they did but for those of the helper. -/
theorem writes_set {kind : Option ListKind} {sido : Nat} {helper after : SearchHelper}
    (there : um.helpers[sido]? = some helper)
    (rows : ∀ other, some other ≠ kind → after.rows other = helper.rows other)
    (textMng : TextMng) :
    Writes kind um { um with helpers := um.helpers.set sido after, textMng := textMng } := by
  intro other different
  funext place
  cases place with
  | names => cases other <;> rfl
  -- Only the rows at this place can differ.
  | helper place =>
    rw [rows_helper, rows_helper]
    by_cases here : sido = place
    · subst here
      obtain ⟨bound, _⟩ := List.getElem?_eq_some_iff.mp there
      rw [List.getElem?_set_self bound, there, Option.map_some, Option.map_some,
        rows other different]
    · rw [List.getElem?_set_ne here]

/-- A call that is handed on to a helper writes what it writes there. -/
theorem writes_of_helper {kind : Option ListKind} {sido : Nat}
    {call : HelperState → Option HelperState} (called : um.onHelper sido call = some next)
    (writes : ∀ state after, call state = some after → ∀ other, some other ≠ kind →
      after.helper.rows other = state.helper.rows other) : Writes kind um next := by
  obtain ⟨helper, after, there, returned, rfl⟩ := onHelper_some called
  exact writes_set there (writes _ _ returned) _

/-- The helpers behind a search through all of them show the rows they did. -/
theorem searchFrom_rows {α : Type}
    {search : Nat → HelperState → List α → Option (List α × HelperState)}
    (leaves : ∀ nSidoIdx state result found after,
      search nSidoIdx state result = some (found, after) →
        after.helper.rows = state.helper.rows) {helpers : List SearchHelper} :
    ∀ {nSidoIdx : Nat} {textMng next : TextMng} {result found : List α}
      {after : List SearchHelper},
      searchFrom search nSidoIdx helpers textMng result = some (after, next, found) →
        after.map SearchHelper.rows = helpers.map SearchHelper.rows := by
  -- One helper after the other is searched and put back.
  induction helpers with
  | nil =>
    intro nSidoIdx textMng next result found after called
    cases called
    rfl
  | cons helper rest ih =>
    intro nSidoIdx textMng next result found after called
    rw [searchFrom] at called
    split at called
    · cases called
    · rename_i searched
      obtain ⟨others, later, outcome⟩ := Option.map_eq_some_iff.mp called
      cases outcome
      rw [List.map_cons, List.map_cons, ih later, leaves _ _ _ _ _ searched]

/-- Helpers with the same rows are the same to every list of a helper. -/
theorem rows_of_helpers {helpers after : List SearchHelper}
    (same : after.map SearchHelper.rows = helpers.map SearchHelper.rows) (kind : ListKind)
    (sido : Nat) :
    (after[sido]?.map fun helper => helper.rows kind) =
      helpers[sido]?.map fun helper => helper.rows kind := by
  have here := congrArg (fun rows => rows[sido]?.map fun row => row kind) same
  simpa [List.getElem?_map, Option.map_map, Function.comp_def] using here

/-- A search for dongs writes the dongs found by name. -/
theorem searchDongName_writes {locals : Nat → RegionLocals} {dongName : Nat → UInt16} {nLen : Nat}
    (called : um.searchDongName locals fuel dongName nLen = some next) :
    Writes (some .dong) um next := by
  unfold searchDongName at called
  obtain ⟨outcome, searched, rfl⟩ := Option.map_eq_some_iff.mp called
  have same := searchFrom_rows
    (fun _ _ _ _ _ found => funext fun _ => Gildroia.searchDongName_rows found) searched
  intro other different
  funext place
  -- The result is a list of its own, and the helpers hold what they did.
  cases place with
  | names => cases other <;> first | rfl | exact absurd rfl different
  | helper place =>
    rw [rows_helper, rows_helper]
    exact rows_of_helpers same other place

/-- A search for roads writes the roads found by name. -/
theorem searchRoadName_writes {locals : Nat → RegionLocals} {roadName : Nat → UInt16} {nLen : Nat}
    (called : um.searchRoadName locals fuel roadName nLen = some next) :
    Writes (some .road) um next := by
  unfold searchRoadName at called
  obtain ⟨outcome, searched, rfl⟩ := Option.map_eq_some_iff.mp called
  have same := searchFrom_rows
    (fun _ _ _ _ _ found => funext fun _ => Gildroia.searchRoadName_rows found) searched
  intro other different
  funext place
  cases place with
  | names => cases other <;> first | rfl | exact absurd rfl different
  | helper place =>
    rw [rows_helper, rows_helper]
    exact rows_of_helpers same other place

/-- Of the module only positions of files and the result of the searches for POIs may change. -/
structure OnlyMoved (um next : UmSearchModule) : Prop where
  writes : Writes none um next
  shown : next.shown = um.shown
  names : next.dongNameResult = um.dongNameResult

end UmSearchModule

end Module

section Calls

namespace Browser

variable {locals : BrowseLocals} {fuel : Nat} {browser next : Browser} {answer : BrowseAnswer}

/-- A call writes the lists of one kind, and answers how many rows there are in its list. -/
structure Fills (kind : ListKind) (browser next : Browser) (answer : BrowseAnswer) : Prop where
  writes : UmSearchModule.Writes (some kind) browser.um next.um
  filled : ∃ rows, next.rows kind = some rows ∧ answer = .count rows.length

/-- `GetSigunguCount` fills the list of sigungus. -/
theorem getSigunguCount_fills {sidoIdx : Nat}
    (called : browser.getSigunguCount locals fuel sidoIdx = some (answer, next)) :
    Fills .sigungu browser next answer ∧
      next = { browser with
        um := next.um, sidoIdx := some sidoIdx, pSigunguData := some sidoIdx } := by
  simp only [getSigunguCount, Option.bind_eq_bind, Option.bind_eq_some_iff, Option.pure_def,
    Option.some.injEq, Prod.mk.injEq] at called
  obtain ⟨um, got, helper, there, rfl, rfl⟩ := called
  refine ⟨⟨UmSearchModule.writes_of_helper got fun state after returned other different =>
    getSigunguData_rows returned fun same => different (congrArg some same), ?_⟩, rfl⟩
  -- The count is the length of the list that was filled.
  exact ⟨helper.rows .sigungu, by simp [rows, list, there], by simp [SearchHelper.rows]⟩

/-- `GetDongCount` fills the list of dongs, if sigungus are listed. -/
theorem getDongCount_fills {sigunguIdx : Nat} (set : browser.pSigunguData ≠ none)
    (called : browser.getDongCount locals fuel sigunguIdx = some (answer, next)) :
    Fills .dong browser next answer ∧ ∃ sidoIdx, browser.sidoIdx = some sidoIdx ∧
      next = { browser with
        um := next.um, sigunguIdx := some sigunguIdx, pDongData := some (.helper sidoIdx) } := by
  obtain ⟨pSigunguData, pointer⟩ := Option.ne_none_iff_exists'.mp set
  simp only [getDongCount, pointer, Option.bind_eq_bind, Option.bind_eq_some_iff, Option.pure_def,
    Option.some.injEq, Prod.mk.injEq] at called
  -- The dongs are read into the helper of the sido that was chosen last.
  obtain ⟨_, _, sigungu, _, sidoIdx, selected, um, got, helper, there, rfl, rfl⟩ := called
  refine ⟨⟨UmSearchModule.writes_of_helper got fun state after returned other different =>
    getDongData_rows returned fun same => different (congrArg some same), ?_⟩,
    sidoIdx, selected, by simp [pointer]⟩
  exact ⟨helper.rows .dong, by simp [rows, list, there], by simp [SearchHelper.rows]⟩

/-- `GetSearchDongCount` fills the list of dongs. -/
theorem getSearchDongCount_fills {text : Nat → UInt16} {nLen : Nat}
    (called : browser.getSearchDongCount locals fuel text nLen = some (answer, next)) :
    Fills .dong browser next answer ∧
      next = { browser with um := next.um, pDongData := some .names } := by
  simp only [getSearchDongCount, Option.bind_eq_bind, Option.bind_eq_some_iff, Option.pure_def,
    Option.some.injEq, Prod.mk.injEq] at called
  obtain ⟨um, searched, rfl, rfl⟩ := called
  refine ⟨⟨UmSearchModule.searchDongName_writes searched, ?_⟩, rfl⟩
  exact ⟨_, rfl, by rw [List.length_map]⟩

/-- `GetRoadCount` fills the list of roads, if sigungus are listed. -/
theorem getRoadCount_fills (sigunguIdx : Nat) (set : browser.pSigunguData ≠ none)
    (called : browser.getRoadCount locals fuel sigunguIdx = some (answer, next)) :
    Fills .road browser next answer ∧ ∃ sidoIdx, browser.sidoIdx = some sidoIdx ∧
      next = { browser with um := next.um, pRoadData := some (.helper sidoIdx) } := by
  obtain ⟨pSigunguData, pointer⟩ := Option.ne_none_iff_exists'.mp set
  simp only [getRoadCount, pointer, Option.bind_eq_bind, Option.bind_eq_some_iff, Option.pure_def,
    Option.some.injEq, Prod.mk.injEq] at called
  obtain ⟨_, _, _, _, _, _, sidoIdx, selected, um, got, helper, there, rfl, rfl⟩ := called
  refine ⟨⟨UmSearchModule.writes_of_helper got fun state after returned other different =>
    getRoadData_rows returned fun same => different (congrArg some same), ?_⟩,
    sidoIdx, selected, by simp [pointer]⟩
  exact ⟨helper.rows .road, by simp [rows, list, there], by simp [SearchHelper.rows]⟩

/-- `GetSearchRoadCount` fills the list of roads. -/
theorem getSearchRoadCount_fills {text : Nat → UInt16} {nLen : Nat}
    (called : browser.getSearchRoadCount locals fuel text nLen = some (answer, next)) :
    Fills .road browser next answer ∧
      next = { browser with um := next.um, pRoadData := some .names } := by
  simp only [getSearchRoadCount, Option.bind_eq_bind, Option.bind_eq_some_iff, Option.pure_def,
    Option.some.injEq, Prod.mk.injEq] at called
  obtain ⟨um, searched, rfl, rfl⟩ := called
  refine ⟨⟨UmSearchModule.searchRoadName_writes searched, ?_⟩, rfl⟩
  exact ⟨_, rfl, by rw [List.length_map]⟩

/-- `GetBunjiCount` fills the list of bunjis, if dongs are listed. -/
theorem getBunjiCount_fills {dongIdx : Nat} (set : browser.pDongData ≠ none)
    (called : browser.getBunjiCount locals fuel dongIdx = some (answer, next)) :
    Fills .bunji browser next answer ∧ ∃ sido,
      next = { browser with
        um := next.um, dongIdx := some dongIdx, pBunjiData := some sido } := by
  obtain ⟨pDongData, pointer⟩ := Option.ne_none_iff_exists'.mp set
  simp only [getBunjiCount, pointer, Option.bind_eq_bind, Option.bind_eq_some_iff, Option.pure_def,
    Option.some.injEq, Prod.mk.injEq] at called
  obtain ⟨dong, _, um, got, helper, there, rfl, rfl⟩ := called
  refine ⟨⟨UmSearchModule.writes_of_helper got fun state after returned other different =>
    getBunjiData_rows returned fun same => different (congrArg some same), ?_⟩,
    dong.nSidoIdx, by simp [pointer]⟩
  exact ⟨helper.rows .bunji, by simp [rows, list, there], by simp [SearchHelper.rows]⟩

/-- `GetRoadBunjiCount` fills the list of bunjis, if roads are listed. -/
theorem getRoadBunjiCount_fills {roadIdx : Nat} (set : browser.pRoadData ≠ none)
    (called : browser.getRoadBunjiCount locals roadIdx = some (answer, next)) :
    Fills .bunji browser next answer ∧ ∃ sido,
      next = { browser with
        um := next.um, roadIdx := some roadIdx, pBunjiData := some sido } := by
  obtain ⟨pRoadData, pointer⟩ := Option.ne_none_iff_exists'.mp set
  simp only [getRoadBunjiCount, pointer, Option.bind_eq_bind, Option.bind_eq_some_iff,
    Option.pure_def, Option.some.injEq, Prod.mk.injEq] at called
  obtain ⟨road, _, um, got, helper, there, rfl, rfl⟩ := called
  refine ⟨⟨UmSearchModule.writes_of_helper got fun state after returned other different => ?_, ?_⟩,
    road.nSidoIdx, by simp [pointer]⟩
  · cases returned
    exact getRoadBunjiData_rows _ _ _ fun same => different (congrArg some same)
  · exact ⟨helper.rows .bunji, by simp [rows, list, there], by simp [SearchHelper.rows]⟩

/-- `GetHoCount` fills the list of hos, if bunjis are listed. -/
theorem getHoCount_fills {bunjiIdx : Nat} (set : browser.pBunjiData ≠ none)
    (called : browser.getHoCount locals bunjiIdx = some (answer, next)) :
    Fills .ho browser next answer ∧ ∃ sido,
      next = { browser with
        um := next.um, bunjiIdx := some bunjiIdx, pHoData := some sido } := by
  obtain ⟨pBunjiData, pointer⟩ := Option.ne_none_iff_exists'.mp set
  simp only [getHoCount, pointer, Option.bind_eq_bind, Option.bind_eq_some_iff, Option.pure_def,
    Option.some.injEq, Prod.mk.injEq] at called
  obtain ⟨_, _, bunji, _, sido, _, um, got, helper, there, rfl, rfl⟩ := called
  refine ⟨⟨UmSearchModule.writes_of_helper got fun state after returned other different => ?_, ?_⟩,
    sido, by simp [pointer]⟩
  · cases returned
    exact getHoData_rows _ _ fun same => different (congrArg some same)
  · exact ⟨helper.rows .ho, by simp [rows, list, there], by simp [SearchHelper.rows]⟩

/-- `GetRoadHoCount` fills the list of hos of roads, if bunjis are listed. -/
theorem getRoadHoCount_fills {roadBunjiIdx : Nat} (set : browser.pBunjiData ≠ none)
    (called : browser.getRoadHoCount locals roadBunjiIdx = some (answer, next)) :
    Fills .roadHo browser next answer ∧ ∃ sido,
      next = { browser with
        um := next.um, roadBunjiIdx := some roadBunjiIdx, pNewHoData := some sido } := by
  obtain ⟨pBunjiData, pointer⟩ := Option.ne_none_iff_exists'.mp set
  simp only [getRoadHoCount, pointer, Option.bind_eq_bind, Option.bind_eq_some_iff,
    Option.pure_def, Option.some.injEq, Prod.mk.injEq] at called
  obtain ⟨_, _, _, _, road, _, _, _, bunji, _, um, got, helper, there, rfl, rfl⟩ := called
  refine ⟨⟨UmSearchModule.writes_of_helper got fun state after returned other different => ?_, ?_⟩,
    road.nSidoIdx, by simp [pointer]⟩
  · cases returned
    exact getNewHoData_rows _ _ fun same => different (congrArg some same)
  · exact ⟨helper.rows .roadHo, by simp [rows, list, there], by simp [SearchHelper.rows]⟩

/-- `JNI_GetHoData` writes no list. -/
theorem jniGetHoData_writes {hoIdx : Nat}
    (called : browser.jniGetHoData locals hoIdx = some (answer, next)) :
    UmSearchModule.Writes none browser.um next.um ∧ next = { browser with um := next.um } := by
  unfold jniGetHoData at called
  split at called
  · cases called
    exact ⟨fun _ _ => rfl, rfl⟩
  · simp only [Option.bind_eq_bind, Option.bind_eq_some_iff, Option.pure_def] at called
    obtain ⟨_, _, _, _, _, _, bunji, _, _, _, outcome⟩ := called
    split at outcome
    · cases outcome
      exact ⟨fun _ _ => rfl, rfl⟩
    -- The corner of the dong is added, and the helper is put back.
    · simp only [Option.bind_eq_some_iff, Option.some.injEq, Prod.mk.injEq] at outcome
      obtain ⟨dong, _, helper, there, _, rfl⟩ := outcome
      refine ⟨UmSearchModule.writes_set there (fun _ _ => getHoPos_rows helper _ _) _, rfl⟩

/-- `JNI_GetRoadHoData` moves the position of a file only. -/
theorem jniGetRoadHoData_moves {locals : PositionLocals} {roadHoIdx : Nat}
    {values : Option (List Int)}
    (called : browser.jniGetRoadHoData locals fuel roadHoIdx = some (values, next)) :
    UmSearchModule.OnlyMoved browser.um next.um ∧ next = { browser with um := next.um } := by
  unfold jniGetRoadHoData at called
  split at called
  · cases called
    exact ⟨⟨fun _ _ => rfl, rfl, rfl⟩, rfl⟩
  · simp only [Option.bind_eq_bind, Option.bind_eq_some_iff, Option.pure_def] at called
    obtain ⟨_, _, outcome⟩ := called
    split at outcome
    · cases outcome
      exact ⟨⟨fun _ _ => rfl, rfl, rfl⟩, rfl⟩
    · simp only [Option.bind_eq_some_iff, Option.some.injEq, Prod.mk.injEq] at outcome
      obtain ⟨_, _, _, _, road, _, ⟨list, um⟩, read, _, rfl⟩ := outcome
      -- The ho of the road is placed by the helper of the road.
      unfold UmSearchModule.roadHoData at read
      split at read
      · cases read
      · rename_i helper there
        obtain ⟨⟨pos, after⟩, moved, same⟩ := Option.map_eq_some_iff.mp read
        obtain ⟨fp, opened, rfl⟩ := getNewHoPos_moves moved
        have shown : SearchHelper.shown { helper with fp := fp } = helper.shown :=
          SearchHelper.shown_data opened
        cases same
        exact ⟨⟨UmSearchModule.writes_set there (fun other _ => SearchHelper.rows_fp _ fp other) _,
          UmSearchModule.shown_set_same there shown _, rfl⟩, rfl⟩

end Browser

end Calls

end AndroidApps.Gildroia
