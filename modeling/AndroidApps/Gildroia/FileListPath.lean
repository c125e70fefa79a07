import AndroidApps.Lib.Events
import AndroidApps.Lib.JavaTextLaws
import AndroidApps.Lib.Utf8
import Mathlib.Data.List.Basic

/-! The directories of a server that a file list goes into and out of, and the files it opens. -/

namespace AndroidApps.Gildroia

section Model

/-- What a click needs to know of an item of the list. -/
structure FileInfo where
  isFile : Bool
  name : JString
  deriving DecidableEq

/-- The extras of a `GPS_LOGFILE_URL` broadcast. -/
structure LogFileIntent where
  logFileServer : JString
  logFileUrl : JString
  deriving DecidableEq

/-- The fields of the list that its clicks change, and what it has sent. -/
structure GPSFileList where
  /-- The stack, whose last element is on top. -/
  pageHistory : List JString
  currentDirectoryUrl : JString
  broadcasts : List LogFileIntent
  /-- Whether an exception has ended the application. -/
  thrown : Bool
  deriving DecidableEq

namespace GPSFileList

/-- `FILE_LIST_URL`. -/
def fileListUrl : JString := JString.ofString "http://192.168.2.131/"

/-- A list as it is made. -/
def new : GPSFileList := ⟨[], [], [], false⟩

/-- `onItemClick`, with the encoder for the names of directories. -/
def onItemClick (encode : JString → JString) (list : GPSFileList) (item : FileInfo) :
    GPSFileList :=
  if !item.isFile then
    { list with
      pageHistory := list.pageHistory ++ [list.currentDirectoryUrl]
      currentDirectoryUrl :=
        if list.currentDirectoryUrl.length > 0 then
          list.currentDirectoryUrl ++ 0x2F :: encode item.name
        else encode item.name }
  else
    match JString.substring list.currentDirectoryUrl 1 list.currentDirectoryUrl.length with
    | none => { list with thrown := true }
    | some rest =>
      let logFileUrl :=
        if rest = [0x2F] then rest ++ 0x2F :: item.name
        else list.currentDirectoryUrl ++ 0x2F :: item.name
      { list with broadcasts := list.broadcasts ++ [⟨fileListUrl, logFileUrl⟩] }

/-- `goBack`, which leaves an empty history to the view above. -/
def goBack (list : GPSFileList) : GPSFileList :=
  match list.pageHistory.getLast? with
  | some last =>
    { list with pageHistory := list.pageHistory.dropLast, currentDirectoryUrl := last }
  | none => list

end GPSFileList

/-- What is done with the list. -/
inductive FileListEvent where
  | itemClick (item : FileInfo)
  | goBack
  deriving DecidableEq

end Model

section Watching

/-- A list, with the directories that were entered and not left, and the files clicked in them. -/
structure Visit where
  list : GPSFileList
  entered : List JString
  clicked : List (List JString × JString)

/-- A list at its root. -/
def Visit.start : Visit := ⟨GPSFileList.new, [], []⟩

/-- An event, which cannot happen behind an exception. -/
def Visit.step (encode : JString → JString) (visit : Visit) (event : FileListEvent) :
    Option Visit :=
  if visit.list.thrown then none
  else match event with
    | .itemClick item =>
      let list := visit.list.onItemClick encode item
      if item.isFile then some ⟨list, visit.entered, visit.clicked ++ [(visit.entered, item.name)]⟩
      else some ⟨list, visit.entered ++ [item.name], visit.clicked⟩
    | .goBack => some ⟨visit.list.goBack, visit.entered.dropLast, visit.clicked⟩

variable (encode : JString → JString)

/-- The names of directories, encoded and joined. -/
def pathOf (directories : List JString) : JString := [0x2F].intercalate (directories.map encode)

/-- What a click on a file is to send. -/
def intentOf (file : List JString × JString) : LogFileIntent :=
  ⟨GPSFileList.fileListUrl, pathOf encode file.1 ++ 0x2F :: file.2⟩

/-- The paths of the directories above, from the root on. -/
def above (directories : List JString) : List JString :=
  (List.range directories.length).map fun depth => pathOf encode (directories.take depth)

/-- The list stands where its user has gone, and has sent what its user has clicked. -/
structure Visit.Right (visit : Visit) : Prop where
  current : visit.list.currentDirectoryUrl = pathOf encode visit.entered
  history : visit.list.pageHistory = above encode visit.entered
  sent : visit.list.broadcasts = visit.clicked.map (intentOf encode)
  runs : visit.list.thrown = false

/-- Nothing is empty that a click takes for the root or looks into. -/
def Visit.Safe (visit : Visit) : FileListEvent → Prop
  | .itemClick ⟨false, _⟩ =>
    visit.list.currentDirectoryUrl = [] → visit.list.pageHistory = []
  | .itemClick ⟨true, _⟩ =>
    visit.list.currentDirectoryUrl ≠ [] ∧ visit.list.currentDirectoryUrl.drop 1 ≠ [0x2F]
  | .goBack => True

end Watching

section Paths

variable {encode : JString → JString}

/-- A directory is the last piece of its path. -/
theorem pathOf_snoc (directories : List JString) (name : JString) :
    pathOf encode (directories ++ [name]) =
      if directories = [] then encode name
      else pathOf encode directories ++ 0x2F :: encode name := by
  -- The last piece goes behind a slash if there is a piece in front of it.
  induction directories with
  | nil => simp [pathOf]
  | cons first others ih =>
    rw [if_neg (by simp)]
    cases others with
    | nil => simp [pathOf, List.intercalate_cons_cons]
    | cons second others =>
      rw [if_neg (by simp)] at ih
      simp only [pathOf, List.cons_append, List.map_cons, List.intercalate_cons_cons] at ih ⊢
      rw [ih]
      simp

/-- Above a directory is the one that holds it, and what is above that. -/
theorem above_snoc (directories : List JString) (name : JString) :
    above encode (directories ++ [name]) =
      above encode directories ++ [pathOf encode directories] := by
  -- Every path above that holds none but the directories in front of the last one.
  rw [above, List.length_append, List.length_singleton, List.range_succ, List.map_append,
    List.map_singleton, List.take_left]
  congr 1
  refine List.map_congr_left fun depth below => ?_
  rw [List.take_append_of_le_length (by have := List.mem_range.mp below; omega)]

/-- Only at the root there is nothing above. -/
theorem above_eq_nil (directories : List JString) :
    above encode directories = [] ↔ directories = [] := by
  simp [above]

end Paths

section Clicks

variable {encode : JString → JString} {visit : Visit}

/-- Going back takes the list to where it was before a directory was entered. -/
theorem goBack_enter (list : GPSFileList) (name : JString) :
    (list.onItemClick encode ⟨false, name⟩).goBack = list := by
  simp [GPSFileList.onItemClick, GPSFileList.goBack]

/-- Entering a directory is right unless a path in front of it is empty. -/
theorem enter_right_iff (right : visit.Right encode) (name : JString) :
    Visit.Right encode ⟨visit.list.onItemClick encode ⟨false, name⟩, visit.entered ++ [name],
      visit.clicked⟩ ↔ visit.Safe (.itemClick ⟨false, name⟩) := by
  -- Only the path can be wrong, and it is joined without a slash behind an empty one.
  have history : (visit.list.onItemClick encode ⟨false, name⟩).pageHistory =
      above encode (visit.entered ++ [name]) := by
    rw [above_snoc, ← right.history, ← right.current]
    rfl
  have current : (visit.list.onItemClick encode ⟨false, name⟩).currentDirectoryUrl =
      pathOf encode (visit.entered ++ [name]) ↔ visit.Safe (.itemClick ⟨false, name⟩) := by
    rw [pathOf_snoc, ← right.current, Visit.Safe, right.history, above_eq_nil]
    by_cases root : visit.entered = []
    · have empty : visit.list.currentDirectoryUrl = [] := by simp [right.current, root, pathOf]
      simp [GPSFileList.onItemClick, root, empty]
    · by_cases empty : visit.list.currentDirectoryUrl = []
      · simp [GPSFileList.onItemClick, root, empty]
      · have filled : 0 < visit.list.currentDirectoryUrl.length := List.length_pos_of_ne_nil empty
        simp [GPSFileList.onItemClick, root, empty]
  exact ⟨fun next => current.mp next.current,
    fun safe => ⟨current.mpr safe, history, right.sent, right.runs⟩⟩

/-- Opening a file is right unless its directory has no path to look into. -/
theorem open_right_iff (right : visit.Right encode) (name : JString) :
    Visit.Right encode ⟨visit.list.onItemClick encode ⟨true, name⟩, visit.entered,
      visit.clicked ++ [(visit.entered, name)]⟩ ↔ visit.Safe (.itemClick ⟨true, name⟩) := by
  rw [Visit.Safe]
  cases here : visit.list.currentDirectoryUrl with
  | nil =>
    -- There is no unit to leave out, so that the click throws.
    have throws : (visit.list.onItemClick encode ⟨true, name⟩).thrown = true := by
      simp [GPSFileList.onItemClick, here, JString.substring]
    constructor
    · intro next
      cases throws.symm.trans next.runs
    · intro safe
      exact absurd rfl safe.1
  | cons unit rest =>
    -- What is behind the first unit is compared with a slash.
    have cut : JString.substring visit.list.currentDirectoryUrl 1
        visit.list.currentDirectoryUrl.length = some rest := by
      rw [here]
      exact JString.substring_middle (show unit :: rest = [unit] ++ (rest ++ []) by simp) rfl
        (by rw [List.length_cons, List.length_singleton, Nat.add_comm])
    have opens : visit.list.onItemClick encode ⟨true, name⟩ = { visit.list with
        broadcasts := visit.list.broadcasts ++ [⟨GPSFileList.fileListUrl,
          if rest = [0x2F] then rest ++ 0x2F :: name
          else visit.list.currentDirectoryUrl ++ 0x2F :: name⟩] } := by
      rw [GPSFileList.onItemClick, cut]
      rfl
    have sends : (visit.list.onItemClick encode ⟨true, name⟩).broadcasts =
        (visit.clicked ++ [(visit.entered, name)]).map (intentOf encode) ↔ rest ≠ [0x2F] := by
      rw [List.map_append, ← right.sent, List.map_singleton, intentOf, ← right.current, opens, here]
      by_cases slash : rest = [0x2F]
      · -- The first unit of the directory is missing from what is sent.
        simp [slash]
      · simp [slash]
    constructor
    · intro next
      exact ⟨List.cons_ne_nil _ _, sends.mp next.sent⟩
    · intro safe
      have sent := sends.mpr safe.2
      rw [opens] at sent ⊢
      exact ⟨right.current, right.history, sent, right.runs⟩

/-- Going back leaves the directory that was entered last. -/
theorem goBack_right (right : visit.Right encode) :
    Visit.Right encode ⟨visit.list.goBack, visit.entered.dropLast, visit.clicked⟩ := by
  obtain root | ⟨front, name, entered⟩ := List.eq_nil_or_concat' visit.entered
  · -- At the root there is no page to go back to.
    have history : visit.list.pageHistory = [] := by
      rw [right.history, root]
      rfl
    have same : visit.list.goBack = visit.list := by
      simp [GPSFileList.goBack, history]
    rw [same, root]
    exact ⟨right.current.trans (by rw [root]; rfl), history, right.sent, right.runs⟩
  · -- The path on top of the history is the one in front of the last directory.
    have history : visit.list.pageHistory = above encode front ++ [pathOf encode front] := by
      rw [right.history, entered, above_snoc]
    have back : visit.list.goBack = { visit.list with
        pageHistory := above encode front, currentDirectoryUrl := pathOf encode front } := by
      simp [GPSFileList.goBack, history]
    rw [back, entered, List.dropLast_concat]
    exact ⟨rfl, rfl, right.sent, right.runs⟩

/-- The list is right all along a run exactly if each click finds a path it can handle. -/
theorem fileList_right_iff (encode : JString → JString) (events : List FileListEvent) :
    Events.Always (Visit.step encode) (Visit.Right encode) Visit.start events ↔
      Events.Along (Visit.step encode) Visit.Safe Visit.start events := by
  -- No invariant is needed: that all is right in front of an event decides whether it is behind it.
  have start : Visit.Right encode Visit.start := ⟨rfl, rfl, rfl, rfl⟩
  refine Events.always_iff_along (fun _ => True) (fun _ _ _ _ _ _ => trivial) ?_ trivial start
  intro visit event next _ right taken
  unfold Visit.step at taken
  rw [right.runs, if_neg Bool.false_ne_true] at taken
  match event with
  | .itemClick ⟨false, name⟩ =>
    cases taken
    exact enter_right_iff right name
  | .itemClick ⟨true, name⟩ =>
    cases taken
    exact open_right_iff right name
  | .goBack =>
    cases taken
    exact iff_of_true (goBack_right right) trivial

/-- A file at the root is not opened. -/
theorem fileList_root :
    ¬ Events.Always (Visit.step id) (Visit.Right id) Visit.start
      [.itemClick ⟨true, [0x61]⟩] := by
  intro always
  -- The click throws, so that the state behind it is not right.
  have stays := (always.2 _ rfl).runs
  contradiction

end Clicks

end AndroidApps.Gildroia
