import AndroidApps.Lib.Events
import AndroidApps.Lib.Select
import AndroidApps.Lib.Utf8

/-! The screens of the search by category: which lists are opened, and which codes are found. -/

namespace AndroidApps.Gildroia

section Source

/-- A row of the table `CateData`, whose codes `Cursor.getInt` reads as they are. -/
structure CateData where
  lv1Code : Int32
  lv1Name : JString
  lv2Code : Int32
  lv2Name : JString
  lv3Code : Int32
  lv3Name : JString
  code : JString
  deriving DecidableEq

namespace CateData

/-- A column that a query is ordered by. -/
def order (column : CateData → Int32) (row : CateData) : Int := (column row).toInt

/-- `select distinct lv1Code, lv1Name from CateData order by lv1Code`. -/
def lv1Query : Select.Query CateData (Int32 × JString) :=
  ⟨fun row => (row.lv1Code, row.lv1Name), fun _ => true, [order lv1Code]⟩

/-- `select distinct lv2Code, lv2Name … where lv1Code=%d order by lv2Code`. -/
def lv2Query (cateCode1 : Int32) : Select.Query CateData (Int32 × JString) :=
  ⟨fun row => (row.lv2Code, row.lv2Name), fun row => row.lv1Code = cateCode1, [order lv2Code]⟩

/-- `select distinct lv3Code, lv3Name … where lv1Code=%d and lv2Code=%d order by lv3Code`. -/
def lv3Query (cateCode1 cateCode2 : Int32) : Select.Query CateData (Int32 × JString) :=
  ⟨fun row => (row.lv3Code, row.lv3Name),
    fun row => row.lv1Code = cateCode1 ∧ row.lv2Code = cateCode2, [order lv3Code]⟩

/-- `select distinct code … where lv1Code=%d order by lv2Code, lv3Code`. -/
def codesOfLv1 (cateCode1 : Int32) : Select.Query CateData JString :=
  ⟨code, fun row => row.lv1Code = cateCode1, [order lv2Code, order lv3Code]⟩

/-- `select distinct code … where lv1Code=%d and lv2Code=%d order by` the given columns. -/
def codesOfLv2 (cateCode1 cateCode2 : Int32) (keys : List (CateData → Int32)) :
    Select.Query CateData JString :=
  ⟨code, fun row => row.lv1Code = cateCode1 ∧ row.lv2Code = cateCode2, keys.map order⟩

/-- `select distinct code … where lv1Code=%d and lv2Code=%d and lv3Code=%d order by lv3Code`. -/
def codesOfLv3 (cateCode1 cateCode2 cateCode3 : Int32) : Select.Query CateData JString :=
  ⟨code, fun row => row.lv1Code = cateCode1 ∧ row.lv2Code = cateCode2 ∧ row.lv3Code = cateCode3,
    [order lv3Code]⟩

end CateData

open CateData

/-- The fields of a `SearchPoiCategory`, with what its cursor holds. -/
structure SearchPoiCategory where
  allRows : List (Int32 × JString)
  parentTitle : JString := []
  cateCode1 : Int32 := 0
  cateCode2 : Int32 := 0
  cateCode3 : Int32 := 0
  cateLevel : Nat := 0
  dbOpened : Bool := false
  list : List JString := []
  cateCodeTbl : List Int32 := []

/-- A screen of the search: a list of categories, or the codes whose POIs are listed. -/
inductive CateScreen where
  | category (view : SearchPoiCategory)
  | result (dbCursor : List JString)

namespace SearchPoiCategory

/-- `SetListData`: the rows of the cursor, below one that stands for all of them. -/
def setListData (view : SearchPoiCategory) : SearchPoiCategory :=
  if view.allRows.isEmpty then view
  else
    let view :=
      if view.cateLevel > 0 then
        { view with
          list := view.list ++ [view.parentTitle ++ JString.ofString " 전부"]
          cateCodeTbl := view.cateCodeTbl ++ [-1] }
      else view
    { view with
      list := view.list ++ view.allRows.map Prod.snd
      cateCodeTbl := view.cateCodeTbl ++ view.allRows.map Prod.fst }

variable {table : List CateData}

/-- A query, which throws once the database is closed. -/
def rawQuery {Col : Type} [DecidableEq Col] (sqlite : Select.Database table) (opened : Bool)
    (query : Select.Query CateData Col) : Option (List Col) :=
  if opened then some (sqlite.rawQuery query) else none

/-- The screen of a list of codes that has more than a number of them. -/
def resultOf (few : Nat) (cur : List JString) : Option CateScreen :=
  if cur.length > few then some (.result cur) else none

/--
What a click does behind the query for the categories below.

One category below is none to choose from: on the second level the codes themselves are looked up.
-/
def openBelow (sqlite : Select.Database table) (opened : Bool) (view : SearchPoiCategory)
    (position : Nat) (cur : List (Int32 × JString)) :
    Option (SearchPoiCategory × Option CateScreen) :=
  if cur.length > 1 then do
    let parentTitle ← view.list[position]?
    return (view, some (.category (setListData
      { allRows := cur
        parentTitle := parentTitle
        cateCode1 := view.cateCode1
        cateCode2 := view.cateCode2
        cateCode3 := view.cateCode3
        cateLevel := view.cateLevel + 1 })))
  else
    match view.cateLevel with
    | 1 => do
      let cur ← rawQuery sqlite opened
        (codesOfLv2 view.cateCode1 view.cateCode2 [lv2Code, lv3Code])
      return (view, resultOf 0 cur)
    | _ => some (view, none)

/--
`onItemClick`: the fields of the view, and the screen it changes to.

An exception is thrown for a position behind the list, for a query of a closed database, and for
the query that is empty because the level has none.
-/
def onItemClick (sqlite : Select.Database table) (opened : Bool) (view : SearchPoiCategory)
    (position : Nat) : Option (SearchPoiCategory × Option CateScreen) := do
  let cateCode ← view.cateCodeTbl[position]?
  if cateCode = -1 then
    match view.cateLevel with
    | 1 =>
      let cur ← rawQuery sqlite opened (codesOfLv1 view.cateCode1)
      return (view, resultOf 1 cur)
    | 2 =>
      let cur ← rawQuery sqlite opened (codesOfLv2 view.cateCode1 view.cateCode2 [lv3Code])
      return (view, resultOf 1 cur)
    | _ => some (view, none)
  else
    match view.cateLevel with
    | 0 =>
      let view := { view with cateCode1 := cateCode }
      let cur ← rawQuery sqlite opened (lv2Query cateCode)
      openBelow sqlite opened view position cur
    | 1 =>
      let view := { view with cateCode2 := cateCode }
      let cur ← rawQuery sqlite opened (lv3Query view.cateCode1 cateCode)
      openBelow sqlite opened view position cur
    | 2 =>
      let view := { view with cateCode3 := cateCode }
      let cur ← rawQuery sqlite opened
        (codesOfLv3 view.cateCode1 view.cateCode2 view.cateCode3)
      return (view, resultOf 0 cur)
    | _ => none

/-- `onCreate` of the first screen, which opens the database. -/
def onCreate (sqlite : Select.Database table) : SearchPoiCategory :=
  setListData { allRows := sqlite.rawQuery lv1Query, dbOpened := true }

end SearchPoiCategory

/-- The screens of the search, the one that is shown first, and whether the database is open. -/
structure CateSearch where
  screens : List CateScreen
  opened : Bool

/-- What a user does: a click on a row of the screen that is shown, or a step back. -/
inductive CateInput where
  | click (position : Nat)
  | back
  deriving DecidableEq

namespace CateSearch

/-- The search is opened. -/
def start {table : List CateData} (sqlite : Select.Database table) : CateSearch :=
  ⟨[.category (SearchPoiCategory.onCreate sqlite)], true⟩

/-- `onDestroy` of a screen closes the database if the screen has opened it. -/
def destroyed (opened : Bool) : CateScreen → Bool
  | .category view => opened && !view.dbOpened
  | .result _ => opened

/-- What an input does, where an exception ends the run. A click on a POI leaves the screens. -/
def step {table : List CateData} (sqlite : Select.Database table) (search : CateSearch) :
    CateInput → Option CateSearch
  | .click position =>
    match search.screens with
    | .category view :: below => do
      let (view, next) ← view.onItemClick sqlite search.opened position
      return ⟨next.toList ++ .category view :: below, search.opened⟩
    | _ => some search
  | .back =>
    match search.screens with
    | [] => some search
    | screen :: below => some ⟨below, destroyed search.opened screen⟩

end CateSearch

end Source

section Paths

open CateData

/-- The rows below a category of some level. -/
inductive Under where
  | lv1 (lv1Code : Int32)
  | lv2 (lv1Code lv2Code : Int32)
  | lv3 (lv1Code lv2Code lv3Code : Int32)
  deriving DecidableEq

/-- Whether a row lies below a category. -/
def Under.Holds (row : CateData) : Under → Prop
  | .lv1 lv1Code => row.lv1Code = lv1Code
  | .lv2 lv1Code lv2Code => row.lv1Code = lv1Code ∧ row.lv2Code = lv2Code
  | .lv3 lv1Code lv2Code lv3Code =>
    row.lv1Code = lv1Code ∧ row.lv2Code = lv2Code ∧ row.lv3Code = lv3Code

instance (row : CateData) : (under : Under) → Decidable (under.Holds row)
  | .lv1 _ => inferInstanceAs (Decidable (_ = _))
  | .lv2 _ _ => inferInstanceAs (Decidable (_ ∧ _))
  | .lv3 _ _ _ => inferInstanceAs (Decidable (_ ∧ _ ∧ _))

/-- What a screen is about: the categories below a chosen one, or the codes below it. -/
inductive CatePath where
  | top
  | lv1 (lv1Code : Int32)
  | lv2 (lv1Code lv2Code : Int32)
  | result (under : Under)
  deriving DecidableEq

/-- Two rows below a category differ in a column. -/
def Several {Col : Type} (table : List CateData) (under : Under) (column : CateData → Col) :
    Prop :=
  ∃ row ∈ table, under.Holds row ∧ ∃ other ∈ table, under.Holds other ∧ column row ≠ column other

instance {Col : Type} [DecidableEq Col] (table : List CateData) (under : Under)
    (column : CateData → Col) : Decidable (Several table under column) :=
  inferInstanceAs (Decidable (∃ row ∈ table, _))

namespace CatePath

/-- The codes that can be chosen: those of the categories below, and -1 for all of them. -/
def Entry (table : List CateData) : CatePath → Int32 → Prop
  | top, code => ∃ row ∈ table, row.lv1Code = code
  | lv1 lv1Code, code => code = -1 ∨ ∃ row ∈ table, row.lv1Code = lv1Code ∧ row.lv2Code = code
  | lv2 lv1Code lv2Code, code =>
    code = -1 ∨ ∃ row ∈ table, (row.lv1Code = lv1Code ∧ row.lv2Code = lv2Code) ∧ row.lv3Code = code
  | result _, _ => False

/-- What is opened for a code that can be chosen, if anything is. -/
def next (table : List CateData) : CatePath → Int32 → Option CatePath
  | top, code =>
    if code ≠ -1 ∧ Several table (.lv1 code) (fun row => (row.lv2Code, row.lv2Name)) then
      some (lv1 code)
    else none
  | lv1 lv1Code, code =>
    if code = -1 then
      if Several table (.lv1 lv1Code) CateData.code then some (result (.lv1 lv1Code)) else none
    else if Several table (.lv2 lv1Code code) (fun row => (row.lv3Code, row.lv3Name)) then
      some (lv2 lv1Code code)
    else some (result (.lv2 lv1Code code))
  | lv2 lv1Code lv2Code, code =>
    if code = -1 then
      if Several table (.lv2 lv1Code lv2Code) CateData.code then
        some (result (.lv2 lv1Code lv2Code))
      else none
    else some (result (.lv3 lv1Code lv2Code code))
  | result _, _ => none

end CatePath

/-- The screens from the first one on, each of them opened from the one before. -/
inductive Trail (table : List CateData) : List CatePath → Prop
  | start : Trail table [.top]
  | deeper {path deeper : CatePath} {below : List CatePath} {code : Int32} :
    Trail table (path :: below) → path.Entry table code → path.next table code = some deeper →
      Trail table (deeper :: path :: below)

/-- A view lists what a query finds, below the rows that stand for all of it. -/
structure ListsRows (table : List CateData) (query : Select.Query CateData (Int32 × JString))
    (all : JString → List (Int32 × JString)) (view : SearchPoiCategory) : Prop where
  answers : Select.Answers table query view.allRows
  codes : view.cateCodeTbl = (all view.parentTitle ++ view.allRows).map Prod.fst
  names : view.list = (all view.parentTitle ++ view.allRows).map Prod.snd

/-- The row of a list that stands for all of it. -/
def allOf (parentTitle : JString) : List (Int32 × JString) :=
  [(-1, parentTitle ++ JString.ofString " 전부")]

/-- A screen shows what it is about. -/
inductive Shows (table : List CateData) : CatePath → CateScreen → Prop
  | top {view : SearchPoiCategory} (level : view.cateLevel = 0) (opener : view.dbOpened = true)
      (listed : ListsRows table lv1Query (fun _ => []) view) : Shows table .top (.category view)
  | lv1 {view : SearchPoiCategory} (level : view.cateLevel = 1) (opener : view.dbOpened = false)
      (listed : ListsRows table (lv2Query view.cateCode1) allOf view) :
      Shows table (.lv1 view.cateCode1) (.category view)
  | lv2 {view : SearchPoiCategory} (level : view.cateLevel = 2) (opener : view.dbOpened = false)
      (listed : ListsRows table (lv3Query view.cateCode1 view.cateCode2) allOf view) :
      Shows table (.lv2 view.cateCode1 view.cateCode2) (.category view)
  | result {under : Under} {dbCursor : List JString} (distinct : dbCursor.Nodup)
      (occupied : 0 < dbCursor.length)
      (codes : ∀ code, code ∈ dbCursor ↔ ∃ row ∈ table, under.Holds row ∧ row.code = code) :
      Shows table (.result under) (.result dbCursor)

end Paths

section Clicks

open CateData SearchPoiCategory

variable {table : List CateData}

/-- The columns of a query differ when those of the rows below a category do. -/
theorem several_of (sqlite : Select.Database table) {Col : Type} [DecidableEq Col]
    {query : Select.Query CateData Col} {under : Under}
    (keeps : ∀ row, query.keeps row = true ↔ under.Holds row) :
    (sqlite.rawQuery query).length > 1 ↔ Several table under query.column := by
  simp only [Several, ← keeps]
  exact (sqlite.answers query).several_iff

/-- The codes of the rows below a category are shown, when they are more than a number of them. -/
theorem resultOf_shows (sqlite : Select.Database table) {query : Select.Query CateData JString}
    {under : Under} (keeps : ∀ row, query.keeps row = true ↔ under.Holds row)
    (column : query.column = CateData.code) {few : Nat} (shown : Prop) [Decidable shown]
    (many : (sqlite.rawQuery query).length > few ↔ shown) :
    Option.Rel (Shows table) (if shown then some (.result under) else none)
      (resultOf few (sqlite.rawQuery query)) := by
  unfold resultOf
  by_cases held : shown
  · have long := many.mpr held
    rw [if_pos held, if_pos long]
    refine Option.Rel.some (Shows.result (sqlite.answers query).distinct (by omega) ?_)
    -- The codes of the answer are those of the rows that the query keeps.
    intro code
    simp only [(sqlite.answers query).mem_iff, keeps, column]
  · rw [if_neg held, if_neg fun long => held (many.mp long)]
    exact Option.Rel.none

/-- A new list of categories below another one lists what its cursor holds. -/
theorem setListData_listed {query : Select.Query CateData (Int32 × JString)}
    (view : SearchPoiCategory) (answers : Select.Answers table query view.allRows)
    (occupied : 0 < view.allRows.length) (level : 0 < view.cateLevel) (noList : view.list = [])
    (noTbl : view.cateCodeTbl = []) : ListsRows table query allOf view.setListData ∧
      ∃ list cateCodeTbl,
        view.setListData = { view with list := list, cateCodeTbl := cateCodeTbl } := by
  have rows : view.allRows.isEmpty = false := by
    rw [List.isEmpty_eq_false_iff]
    exact List.ne_nil_of_length_pos occupied
  unfold setListData
  rw [rows, if_neg Bool.false_ne_true, if_pos level]
  refine ⟨⟨answers, ?_, ?_⟩, _, _, rfl⟩
  · simp [noTbl, allOf]
  · simp [noList, allOf]

/-- What a click opens behind the query for the categories below, if there are several. -/
theorem openBelow_several (sqlite : Select.Database table) (view : SearchPoiCategory)
    {position : Nat} {name : JString} {query : Select.Query CateData (Int32 × JString)}
    (named : view.list[position]? = some name) (several : (sqlite.rawQuery query).length > 1) :
    ∃ child, openBelow sqlite true view position (sqlite.rawQuery query) =
        some (view, some (.category child)) ∧ ListsRows table query allOf child ∧
      child.cateLevel = view.cateLevel + 1 ∧ child.dbOpened = false ∧
      child.cateCode1 = view.cateCode1 ∧ child.cateCode2 = view.cateCode2 := by
  obtain ⟨listed, list, cateCodeTbl, same⟩ := setListData_listed
    { allRows := sqlite.rawQuery query
      parentTitle := name
      cateCode1 := view.cateCode1
      cateCode2 := view.cateCode2
      cateCode3 := view.cateCode3
      cateLevel := view.cateLevel + 1 }
    (sqlite.answers query) (Nat.lt_of_succ_lt several) (Nat.succ_pos _) rfl rfl
  refine ⟨_, ?_, listed, ?_⟩
  · rw [openBelow, if_pos several, named]
    rfl
  · rw [same]
    exact ⟨rfl, rfl, rfl, rfl⟩

/-- The code of a row of a list is the one for all of it, or one that the query finds. -/
theorem ListsRows.code_cases {query : Select.Query CateData (Int32 × JString)}
    {all : JString → List (Int32 × JString)} {view : SearchPoiCategory} {position : Nat}
    {code : Int32}
    (listed : ListsRows table query all view) (chosen : view.cateCodeTbl[position]? = some code) :
    code ∈ (all view.parentTitle).map Prod.fst ∨
      ∃ row ∈ table, query.keeps row = true ∧ (query.column row).1 = code := by
  have member := List.mem_of_getElem? chosen
  rw [listed.codes, List.map_append, List.mem_append] at member
  refine member.imp_right fun found => ?_
  obtain ⟨pair, among, same⟩ := List.mem_map.mp found
  obtain ⟨row, stored, kept, column⟩ := listed.answers.mem_iff.mp among
  exact ⟨row, stored, kept, (congrArg Prod.fst column).trans same⟩

/-- Each row of a list has a name. -/
theorem ListsRows.name_there {query : Select.Query CateData (Int32 × JString)}
    {all : JString → List (Int32 × JString)} {view : SearchPoiCategory} {position : Nat}
    {code : Int32}
    (listed : ListsRows table query all view) (chosen : view.cateCodeTbl[position]? = some code) :
    ∃ name, view.list[position]? = some name := by
  rw [listed.codes, List.getElem?_map, Option.map_eq_some_iff] at chosen
  obtain ⟨pair, there, _⟩ := chosen
  exact ⟨pair.2, by rw [listed.names, List.getElem?_map, there, Option.map_some]⟩

/-- What a click on a row comes to: the screen stays, and what its code leads to is opened. -/
def Opens (sqlite : Select.Database table) (path : CatePath) (view : SearchPoiCategory)
    (position : Nat) (code : Int32) : Prop :=
  ∃ fields next, view.onItemClick sqlite true position = some (fields, next) ∧
    Shows table path (.category fields) ∧ Option.Rel (Shows table) (path.next table code) next

variable (sqlite : Select.Database table) {view : SearchPoiCategory} {position : Nat} {code : Int32}

/-- A click on the first screen. -/
theorem top_opens (shows : Shows table .top (.category view))
    (chosen : view.cateCodeTbl[position]? = some code) :
    CatePath.top.Entry table code ∧ Opens sqlite .top view position code := by
  cases shows with
  | top level opener listed =>
    constructor
    · obtain all | ⟨row, stored, _, same⟩ := listed.code_cases chosen
      · cases all
      · exact ⟨row, stored, same⟩
    · by_cases every : code = -1
      · -- There is no row for all categories, and a category of this code would be taken for it.
        refine ⟨view, none, ?_, .top level opener listed, ?_⟩
        · simp [onItemClick, chosen, every, level]
        · simp only [CatePath.next, every, ne_eq, not_true_eq_false, false_and, if_false]
          exact Option.Rel.none
      -- The query for the categories below has several answers when two rows below differ in them.
      · have below : (sqlite.rawQuery (lv2Query code)).length > 1 ↔
            Several table (.lv1 code) fun row => (row.lv2Code, row.lv2Name) :=
          several_of sqlite fun row => by simp [lv2Query, Under.Holds]
        -- The code that was chosen is kept in the view, which lists what it listed.
        have after : Shows table .top (.category { view with cateCode1 := code }) :=
          .top level opener ⟨listed.answers, listed.codes, listed.names⟩
        have called : view.onItemClick sqlite true position =
            openBelow sqlite true { view with cateCode1 := code } position
              (sqlite.rawQuery (lv2Query code)) := by
          simp [onItemClick, chosen, every, level, SearchPoiCategory.rawQuery]
        rw [Opens, called]
        by_cases several : (sqlite.rawQuery (lv2Query code)).length > 1
        · obtain ⟨name, named⟩ := listed.name_there chosen
          obtain ⟨child, opened, lists, deeper, closed, code1, _⟩ :=
            openBelow_several sqlite { view with cateCode1 := code } named several
          refine ⟨_, _, opened, after, ?_⟩
          have code1 : child.cateCode1 = code := code1
          rw [CatePath.next, if_pos ⟨every, below.mp several⟩]
          refine Option.Rel.some ?_
          rw [← code1] at lists ⊢
          -- The list that is opened is the one below the chosen category.
          refine Shows.lv1 ?_ closed lists
          rw [deeper, level]
        · -- With one category below, or none, the first screen opens nothing.
          refine ⟨_, none, ?_, after, ?_⟩
          · rw [openBelow, if_neg several]
            simp [level]
          · rw [CatePath.next, if_neg fun both => several (below.mpr both.2)]
            exact Option.Rel.none

/-- A click on the list of the second level. -/
theorem lv1_opens (level : view.cateLevel = 1) (opener : view.dbOpened = false)
    (listed : ListsRows table (lv2Query view.cateCode1) allOf view)
    (chosen : view.cateCodeTbl[position]? = some code) :
    (CatePath.lv1 view.cateCode1).Entry table code ∧
      Opens sqlite (.lv1 view.cateCode1) view position code := by
  by_cases every : code = -1
  · -- The row for all of it leads to the codes below the category, if there are two or more.
    refine ⟨Or.inl every, view, resultOf 1 (sqlite.rawQuery (codesOfLv1 view.cateCode1)), ?_,
      .lv1 level opener listed, ?_⟩
    · simp only [onItemClick, chosen, every, level, SearchPoiCategory.rawQuery, if_true,
        Option.bind_eq_bind, Option.bind_some, Option.pure_def]
    · rw [CatePath.next, if_pos every]
      refine resultOf_shows sqlite (fun row => by simp [codesOfLv1, Under.Holds]) rfl _ ?_
      exact several_of sqlite fun row => by simp [codesOfLv1, Under.Holds]
  · have below : (sqlite.rawQuery (lv3Query view.cateCode1 code)).length > 1 ↔
        Several table (.lv2 view.cateCode1 code) fun row => (row.lv3Code, row.lv3Name) :=
      several_of sqlite fun row => by simp [lv3Query, Under.Holds]
    have after : Shows table (.lv1 view.cateCode1) (.category { view with cateCode2 := code }) :=
      @Shows.lv1 table { view with cateCode2 := code } level opener
        ⟨listed.answers, listed.codes, listed.names⟩
    have called : view.onItemClick sqlite true position =
        openBelow sqlite true { view with cateCode2 := code } position
          (sqlite.rawQuery (lv3Query view.cateCode1 code)) := by
      simp [onItemClick, chosen, every, level, SearchPoiCategory.rawQuery]
    -- The row of the code is one that lies below the category.
    have entry : ∃ row ∈ table, row.lv1Code = view.cateCode1 ∧ row.lv2Code = code := by
      obtain all | ⟨row, stored, kept, same⟩ := listed.code_cases chosen
      · exact absurd (List.mem_singleton.mp all) every
      · exact ⟨row, stored, of_decide_eq_true kept, same⟩
    refine ⟨Or.inr entry, ?_⟩
    rw [Opens, called]
    by_cases several : (sqlite.rawQuery (lv3Query view.cateCode1 code)).length > 1
    · obtain ⟨name, named⟩ := listed.name_there chosen
      obtain ⟨child, opened, lists, deeper, closed, code1, code2⟩ :=
        openBelow_several sqlite { view with cateCode2 := code } named several
      refine ⟨_, _, opened, after, ?_⟩
      have code1 : child.cateCode1 = view.cateCode1 := code1
      have code2 : child.cateCode2 = code := code2
      rw [CatePath.next, if_neg every, if_pos (below.mp several)]
      refine Option.Rel.some ?_
      rw [← code1, ← code2] at lists ⊢
      -- There are several categories below, and they are listed.
      refine Shows.lv2 ?_ closed lists
      rw [deeper, level]
    · refine ⟨_, resultOf 0
        (sqlite.rawQuery (codesOfLv2 view.cateCode1 code [lv2Code, lv3Code])), ?_, after, ?_⟩
      · simp only [openBelow, if_neg several, level, SearchPoiCategory.rawQuery, if_true,
          Option.bind_eq_bind, Option.bind_some, Option.pure_def]
      · rw [CatePath.next, if_neg every, if_neg fun held => several (below.mpr held)]
        -- There is a row below the category, so that its code is shown.
        refine resultOf_shows sqlite (fun row => by simp [codesOfLv2, Under.Holds]) rfl True
          (iff_true_intro ?_)
        obtain ⟨row, stored, held⟩ := entry
        refine (sqlite.answers _).occupied_iff.mpr ⟨row, stored, ?_⟩
        simpa [codesOfLv2] using held

/-- A click on the list of the third level. -/
theorem lv2_opens (level : view.cateLevel = 2) (opener : view.dbOpened = false)
    (listed : ListsRows table (lv3Query view.cateCode1 view.cateCode2) allOf view)
    (chosen : view.cateCodeTbl[position]? = some code) :
    (CatePath.lv2 view.cateCode1 view.cateCode2).Entry table code ∧
      Opens sqlite (.lv2 view.cateCode1 view.cateCode2) view position code := by
  by_cases every : code = -1
  · -- As on the second level, with one more category in the path.
    refine ⟨Or.inl every, view,
      resultOf 1 (sqlite.rawQuery (codesOfLv2 view.cateCode1 view.cateCode2 [lv3Code])), ?_,
      .lv2 level opener listed, ?_⟩
    · simp only [onItemClick, chosen, every, level, SearchPoiCategory.rawQuery, if_true,
        Option.bind_eq_bind, Option.bind_some, Option.pure_def]
    · rw [CatePath.next, if_pos every]
      refine resultOf_shows sqlite (fun row => by simp [codesOfLv2, Under.Holds]) rfl _ ?_
      exact several_of sqlite fun row => by simp [codesOfLv2, Under.Holds]
  · have after : Shows table (.lv2 view.cateCode1 view.cateCode2)
        (.category { view with cateCode3 := code }) :=
      @Shows.lv2 table { view with cateCode3 := code } level opener
        ⟨listed.answers, listed.codes, listed.names⟩
    -- There is nothing below the third level, so that a click shows the codes themselves.
    have entry : ∃ row ∈ table,
        (row.lv1Code = view.cateCode1 ∧ row.lv2Code = view.cateCode2) ∧ row.lv3Code = code := by
      obtain all | ⟨row, stored, kept, same⟩ := listed.code_cases chosen
      · exact absurd (List.mem_singleton.mp all) every
      · exact ⟨row, stored, of_decide_eq_true kept, same⟩
    refine ⟨Or.inr entry, _,
      resultOf 0 (sqlite.rawQuery (codesOfLv3 view.cateCode1 view.cateCode2 code)), ?_, after, ?_⟩
    · simp only [onItemClick, chosen, if_neg every, level, SearchPoiCategory.rawQuery, if_true,
        Option.bind_eq_bind, Option.bind_some, Option.pure_def]
    · rw [CatePath.next, if_neg every]
      refine resultOf_shows sqlite (fun row => by simp [codesOfLv3, Under.Holds]) rfl True
        (iff_true_intro ?_)
      obtain ⟨row, stored, ⟨held1, held2⟩, held3⟩ := entry
      refine (sqlite.answers _).occupied_iff.mpr ⟨row, stored, ?_⟩
      simpa [codesOfLv3] using ⟨held1, held2, held3⟩

/-- A click on a row leaves the list, and opens what the path and the code of the row lead to. -/
theorem onItemClick_opens {path : CatePath} (shows : Shows table path (.category view))
    (chosen : view.cateCodeTbl[position]? = some code) :
    path.Entry table code ∧ Opens sqlite path view position code := by
  cases shows with
  | top level opener listed => exact top_opens sqlite (.top level opener listed) chosen
  | lv1 level opener listed => exact lv1_opens sqlite level opener listed chosen
  | lv2 level opener listed => exact lv2_opens sqlite level opener listed chosen

end Clicks

section Runs

open CateSearch

variable {table : List CateData}

/--
The screens show the paths of a trail, or the search has been left.

The database is open as long as there are screens.
-/
structure OnTrail (table : List CateData) (search : CateSearch) (paths : List CatePath) : Prop where
  trail : paths = [] ∨ Trail table paths
  shown : List.Forall₂ (Shows table) paths search.screens
  opened : search.opened = !paths.isEmpty

/-- Nothing leads back to the first screen. -/
theorem CatePath.next_ne_top {path deeper : CatePath} {code : Int32}
    (leads : path.next table code = some deeper) : deeper ≠ .top := by
  rintro rfl
  cases path with
  | result under => cases leads
  | _ =>
    simp only [next] at leads
    split_ifs at leads <;> cases leads

/-- What a code leads to makes the trail longer, and a code that leads nowhere leaves it. -/
theorem Trail.chosen {path : CatePath} {below : List CatePath} {code : Int32}
    (trail : Trail table (path :: below)) (entry : path.Entry table code) :
    Trail table ((path.next table code).toList ++ path :: below) := by
  cases leads : path.next table code with
  | none => exact trail
  | some deeper => exact .deeper trail entry leads

/-- The search begins on the first screen. -/
theorem start_onTrail (sqlite : Select.Database table) : OnTrail table (start sqlite) [.top] := by
  refine ⟨Or.inr .start, List.Forall₂.cons ?_ .nil, rfl⟩
  -- An empty table leaves the list empty, and another one fills it.
  unfold SearchPoiCategory.onCreate SearchPoiCategory.setListData
  dsimp only
  by_cases empty : (sqlite.rawQuery CateData.lv1Query).isEmpty
  · rw [if_pos empty]
    rw [List.isEmpty_iff] at empty
    exact .top rfl rfl ⟨sqlite.answers _, by simp [empty], by simp [empty]⟩
  · rw [if_neg empty, if_neg (Nat.lt_irrefl 0)]
    exact .top rfl rfl ⟨sqlite.answers _, rfl, rfl⟩

/-- A click on a row of the list that is shown goes along the trail. -/
theorem click_onTrail (sqlite : Select.Database table) {view : SearchPoiCategory}
    {screens : List CateScreen} {opened : Bool} {path : CatePath} {below : List CatePath}
    {position : Nat} {code : Int32}
    (on : OnTrail table ⟨.category view :: screens, opened⟩ (path :: below))
    (chosen : view.cateCodeTbl[position]? = some code) :
    path.Entry table code ∧ ∃ next,
      step sqlite ⟨.category view :: screens, opened⟩ (.click position) = some next ∧
        OnTrail table next ((path.next table code).toList ++ path :: below) := by
  obtain ⟨trail, shown, rfl⟩ := on
  have trail := trail.resolve_left (List.cons_ne_nil _ _)
  obtain ⟨shows, others⟩ := List.forall₂_cons.mp shown
  obtain ⟨entry, fields, next, called, stays, leads⟩ := onItemClick_opens sqlite shows chosen
  refine ⟨entry, ⟨next.toList ++ .category fields :: screens, true⟩, ?_, ?_⟩
  · simp only [step, List.isEmpty_cons, Bool.not_false, called, Option.bind_eq_bind,
      Option.bind_some, Option.pure_def]
  · refine ⟨Or.inr (trail.chosen entry), ?_, ?_⟩
    · have kept : List.Forall₂ (Shows table) (path :: below) (.category fields :: screens) :=
        .cons stays others
      -- What was opened, if anything was, lies on the screen that was clicked.
      generalize path.next table code = after at leads
      cases leads with
      | none => exact kept
      | some deeper => exact .cons deeper kept
    · cases path.next table code <;> rfl

/-- A step back goes back on the trail. -/
theorem back_onTrail (sqlite : Select.Database table) {search : CateSearch}
    {paths : List CatePath} (on : OnTrail table search paths) :
    ∃ next, step sqlite search .back = some next ∧ OnTrail table next paths.tail := by
  obtain ⟨trail, shown, opened⟩ := on
  obtain ⟨screens, open'⟩ := search
  dsimp only at shown opened
  cases shown with
  -- Where no screen is left, a step back does nothing.
  | nil => exact ⟨⟨[], open'⟩, rfl, Or.inl rfl, .nil, opened⟩
  | cons shows others =>
    refine ⟨_, rfl, ?_⟩
    subst opened
    -- The first screen closes the database, and no other one does.
    cases trail.resolve_left (List.cons_ne_nil _ _) with
    | start =>
      refine ⟨Or.inl rfl, others, ?_⟩
      cases shows with
      | top level opener listed => simp [destroyed, opener]
    | deeper before entry leads =>
      refine ⟨Or.inr before, others, ?_⟩
      cases shows with
      | top => exact absurd rfl (CatePath.next_ne_top leads)
      | lv1 level opener listed => simp [destroyed, opener]
      | lv2 level opener listed => simp [destroyed, opener]
      | result => rfl

/-- What a search on a trail does is on a trail. -/
theorem step_onTrail (sqlite : Select.Database table) {search next : CateSearch}
    {input : CateInput} (on : ∃ paths, OnTrail table search paths)
    (taken : step sqlite search input = some next) : ∃ paths, OnTrail table next paths := by
  obtain ⟨paths, on⟩ := on
  cases input with
  | back =>
    obtain ⟨after, taken', on'⟩ := back_onTrail sqlite on
    cases taken.symm.trans taken'
    exact ⟨_, on'⟩
  | click position =>
    obtain ⟨screens, opened⟩ := search
    cases screens with
    | nil =>
      cases taken
      exact ⟨paths, on⟩
    | cons screen screens =>
      cases screen with
      | result dbCursor =>
        cases taken
        exact ⟨paths, on⟩
      | category view =>
        -- Behind the list an exception is thrown, and there is a screen for the path on top.
        cases chosen : view.cateCodeTbl[position]? with
        | none =>
          have thrown : view.onItemClick sqlite opened position = none := by
            simp [SearchPoiCategory.onItemClick, chosen]
          simp [step, thrown] at taken
        | some code =>
          cases paths with
          | nil => cases on.shown
          | cons path below =>
            obtain ⟨_, after, taken', on'⟩ := click_onTrail sqlite on chosen
            cases taken.symm.trans taken'
            exact ⟨_, on'⟩

/-- A code that can be chosen stands in the list. -/
theorem entry_listed {path : CatePath} {view : SearchPoiCategory} {code : Int32}
    (shows : Shows table path (.category view)) (entry : path.Entry table code) :
    ∃ position : Nat, view.cateCodeTbl[position]? = some code := by
  apply List.mem_iff_getElem?.mp
  -- The code for all comes first, and the others come from a row that the query keeps.
  cases shows with
  | top level opener listed =>
    obtain ⟨row, stored, rfl⟩ := entry
    rw [listed.codes]
    exact List.mem_map_of_mem (listed.answers.complete row stored rfl)
  | lv1 level opener listed =>
    rw [listed.codes, List.map_append, List.mem_append]
    refine entry.imp (fun all => List.mem_singleton.mpr all) ?_
    rintro ⟨row, stored, held, rfl⟩
    exact List.mem_map_of_mem (listed.answers.complete row stored (decide_eq_true held))
  | lv2 level opener listed =>
    rw [listed.codes, List.map_append, List.mem_append]
    refine entry.imp (fun all => List.mem_singleton.mpr all) ?_
    rintro ⟨row, stored, held, rfl⟩
    exact List.mem_map_of_mem (listed.answers.complete row stored (decide_eq_true held))

/-- Each trail is shown behind some inputs. -/
theorem trail_shown (sqlite : Select.Database table) {paths : List CatePath}
    (trail : Trail table paths) : ∃ inputs search,
      Events.run (step sqlite) (start sqlite) inputs = some search ∧
        OnTrail table search paths := by
  induction trail with
  | start => exact ⟨[], start sqlite, rfl, start_onTrail sqlite⟩
  | @deeper path deeper below code before entry leads ih =>
    obtain ⟨inputs, ⟨screens, opened⟩, ran, on⟩ := ih
    cases screens with
    | nil => cases on.shown
    | cons screen screens =>
      obtain ⟨shows, _⟩ := List.forall₂_cons.mp on.shown
      cases screen with
      | result dbCursor =>
        cases shows
        cases entry
      | category view =>
        -- The code stands somewhere in the list, and a click there goes on.
        obtain ⟨position, chosen⟩ := entry_listed shows entry
        obtain ⟨_, next, taken, on'⟩ := click_onTrail sqlite on chosen
        rw [leads] at on'
        refine ⟨inputs ++ [.click position], next, Events.run_append ran ?_, on'⟩
        rw [Events.run, taken]
        rfl

/-- A list has a name for each code. -/
theorem Shows.lengths {path : CatePath} {view : SearchPoiCategory}
    (shows : Shows table path (.category view)) : view.list.length = view.cateCodeTbl.length := by
  cases shows with
  | _ level opener listed => rw [listed.codes, listed.names, List.length_map, List.length_map]

/-- An exception is thrown for a click behind the list, and for nothing else. -/
theorem thrown_iff (sqlite : Select.Database table) {search : CateSearch} {paths : List CatePath}
    (on : OnTrail table search paths) (input : CateInput) :
    step sqlite search input = none ↔ ∃ view below position,
      search.screens = .category view :: below ∧ input = .click position ∧
        view.list.length ≤ position := by
  constructor
  · intro thrown
    cases input with
    | back =>
      obtain ⟨next, taken, _⟩ := back_onTrail sqlite on
      cases thrown.symm.trans taken
    | click position =>
      obtain ⟨screens, opened⟩ := search
      cases on.shown with
      | nil => cases thrown
      | @cons path screen below screens shows others =>
        cases screen with
        | result dbCursor => cases thrown
        | category view =>
          refine ⟨view, screens, position, rfl, rfl, ?_⟩
          rw [shows.lengths]
          -- A code at the position would be chosen, and the step taken.
          by_contra inside
          have chosen := List.getElem?_eq_getElem (Nat.lt_of_not_le inside)
          obtain ⟨_, next, taken, _⟩ := click_onTrail sqlite on chosen
          cases thrown.symm.trans taken
  · rintro ⟨view, below, position, screens, rfl, behind⟩
    obtain ⟨path, shows⟩ : ∃ path, Shows table path (.category view) := by
      have shown := on.shown
      rw [screens] at shown
      obtain ⟨path, _, shows, _⟩ := List.forall₂_cons_right_iff.mp shown
      exact ⟨path, shows⟩
    have none : view.cateCodeTbl[position]? = none :=
      List.getElem?_eq_none (by rwa [← shows.lengths])
    simp [step, screens, SearchPoiCategory.onItemClick, none]

/-- A category of the first level that has several categories below it. -/
def Divided (table : List CateData) (lv1Code : Int32) : Prop :=
  Several table (.lv1 lv1Code) fun row => (row.lv2Code, row.lv2Name)

instance (table : List CateData) (lv1Code : Int32) : Decidable (Divided table lv1Code) :=
  inferInstanceAs (Decidable (Several table _ _))

/-- The category of the first level that rows lie below. -/
def Under.first : Under → Int32
  | .lv1 lv1Code => lv1Code
  | .lv2 lv1Code _ => lv1Code
  | .lv3 lv1Code _ _ => lv1Code

/-- Rows below a category lie below its category of the first level. -/
theorem Under.Holds.first {row : CateData} {under : Under} (holds : under.Holds row) :
    row.lv1Code = under.first := by
  cases under with
  | lv1 => exact holds
  | lv2 => exact holds.1
  | lv3 => exact holds.1

/-- The category of the first level that was chosen for a screen is divided. -/
def CatePath.Entered (table : List CateData) : CatePath → Prop
  | top => True
  | lv1 lv1Code => Divided table lv1Code
  | lv2 lv1Code _ => Divided table lv1Code
  | result under => Divided table under.first

/-- What is opened from a list was entered by way of a divided category. -/
theorem CatePath.Entered.next {path deeper : CatePath} {code : Int32} (entered : path.Entered table)
    (leads : path.next table code = some deeper) : deeper.Entered table := by
  cases path with
  | top =>
    simp only [CatePath.next] at leads
    split_ifs at leads with divided
    cases leads
    exact divided.2
  | lv1 lv1Code =>
    -- Whatever is opened lies below the same category of the first level.
    simp only [CatePath.next] at leads
    split_ifs at leads <;> cases leads <;> exact entered
  | lv2 lv1Code lv2Code =>
    simp only [CatePath.next] at leads
    split_ifs at leads <;> cases leads <;> exact entered
  | result under => cases leads

/-- All screens of a trail were entered by way of a divided category. -/
theorem Trail.entered {paths : List CatePath} (trail : Trail table paths) :
    ∀ path ∈ paths, path.Entered table := by
  induction trail with
  | start =>
    intro path member
    rw [List.mem_singleton.mp member]
    trivial
  | @deeper path deeper below code _ _ leads ih =>
    intro other member
    rcases List.mem_cons.mp member with rfl | behind
    · exact (ih path List.mem_cons_self).next leads
    · exact ih other behind

/-- Each screen shows one of the paths. -/
theorem shown_among {paths : List CatePath} {screens : List CateScreen} {screen : CateScreen}
    (shown : List.Forall₂ (Shows table) paths screens) (member : screen ∈ screens) :
    ∃ path ∈ paths, Shows table path screen := by
  induction shown with
  | nil => cases member
  | cons shows others ih =>
    rcases List.mem_cons.mp member with rfl | behind
    · exact ⟨_, List.mem_cons_self, shows⟩
    · obtain ⟨path, among, shows⟩ := ih behind
      exact ⟨path, List.mem_cons_of_mem _ among, shows⟩

/-- A trail leads to a row below a divided category, if no code is the one for all rows. -/
theorem trail_to {row : CateData} (stored : row ∈ table) (divided : Divided table row.lv1Code)
    (marked : row.lv1Code ≠ -1 ∧ row.lv2Code ≠ -1 ∧ row.lv3Code ≠ -1) :
    ∃ under below, Trail table (.result under :: below) ∧ under.Holds row := by
  obtain ⟨mark1, mark2, mark3⟩ := marked
  have first : Trail table [.lv1 row.lv1Code, .top] :=
    .deeper .start ⟨row, stored, rfl⟩ (if_pos ⟨mark1, divided⟩)
  have second : (CatePath.lv1 row.lv1Code).Entry table row.lv2Code :=
    Or.inr ⟨row, stored, rfl, rfl⟩
  -- One category on the third level is passed over, and several are listed.
  by_cases several : Several table (.lv2 row.lv1Code row.lv2Code)
      fun row => (row.lv3Code, row.lv3Name)
  · have third : Trail table [.lv2 row.lv1Code row.lv2Code, .lv1 row.lv1Code, .top] := by
      refine .deeper first second ?_
      rw [CatePath.next, if_neg mark2, if_pos several]
    exact ⟨.lv3 row.lv1Code row.lv2Code row.lv3Code, _,
      .deeper third (Or.inr ⟨row, stored, ⟨rfl, rfl⟩, rfl⟩) (if_neg mark3), rfl, rfl, rfl⟩
  · refine ⟨.lv2 row.lv1Code row.lv2Code, _, .deeper first second ?_, rfl, rfl⟩
    rw [CatePath.next, if_neg mark2, if_neg several]

/--
Which codes can be found: those of the rows below a category with several categories below it.

A category of the first level that has only one category below it opens nothing when it is chosen,
so that the codes of its rows are not found at all.
-/
theorem code_found_iff (sqlite : Select.Database table)
    (marked : ∀ row ∈ table, row.lv1Code ≠ -1 ∧ row.lv2Code ≠ -1 ∧ row.lv3Code ≠ -1)
    (code : JString) :
    (∃ inputs search dbCursor, Events.run (step sqlite) (start sqlite) inputs = some search ∧
      CateScreen.result dbCursor ∈ search.screens ∧ code ∈ dbCursor) ↔
    ∃ row ∈ table, row.code = code ∧ Divided table row.lv1Code := by
  constructor
  · rintro ⟨inputs, search, dbCursor, ran, shown, member⟩
    obtain ⟨paths, on⟩ := Events.run_invariant (fun search => ∃ paths, OnTrail table search paths)
      (fun _ _ _ => step_onTrail sqlite) ⟨_, start_onTrail sqlite⟩ ran
    obtain ⟨path, among, shows⟩ := shown_among on.shown shown
    cases shows with
    | result distinct occupied codes =>
      obtain ⟨row, stored, holds, same⟩ := (codes code).mp member
      refine ⟨row, stored, same, ?_⟩
      -- There is a screen, so that the search has not been left.
      rcases on.trail with rfl | trail
      · cases among
      · rw [holds.first]
        exact trail.entered _ among
  · rintro ⟨row, stored, rfl, divided⟩
    obtain ⟨under, below, trail, holds⟩ := trail_to stored divided (marked row stored)
    obtain ⟨inputs, ⟨screens, opened⟩, ran, on⟩ := trail_shown sqlite trail
    cases on.shown with
    | cons shows others =>
      cases shows with
      | result distinct occupied codes =>
        refine ⟨inputs, _, _, ran, List.mem_cons_self, ?_⟩
        exact (codes row.code).mpr ⟨row, stored, holds, rfl⟩

/-- Two rows below one category of the first level, and a row that is alone below its category. -/
def someRows : List CateData :=
  [⟨1, [], 1, [], 0, [], [0x4d, 0x2d, 0x31]⟩, ⟨1, [], 2, [], 0, [], [0x4d, 0x2d, 0x32]⟩,
    ⟨31, [], 31, [], 31, [], [0x4e, 0x2d, 0x32, 0x35]⟩]

/-- The code of the row that is alone is not found, and that of one of the others is. -/
theorem code_found_iff_alone :
    (∃ inputs search dbCursor,
      Events.run (step (Select.Database.plain someRows))
        (start (Select.Database.plain someRows)) inputs = some search ∧
      CateScreen.result dbCursor ∈ search.screens ∧ [0x4d, 0x2d, 0x31] ∈ dbCursor) ∧
    ¬ ∃ inputs search dbCursor,
      Events.run (step (Select.Database.plain someRows))
        (start (Select.Database.plain someRows)) inputs = some search ∧
      CateScreen.result dbCursor ∈ search.screens ∧ [0x4e, 0x2d, 0x32, 0x35] ∈ dbCursor := by
  constructor
  · rw [code_found_iff (Select.Database.plain someRows) (by decide)]
    decide
  · rw [code_found_iff (Select.Database.plain someRows) (by decide)]
    decide

end Runs

end AndroidApps.Gildroia
