import AndroidApps.CommonLib.HdmiRules
import AndroidApps.Lib.Columns
import AndroidApps.Lib.JavaTextLaws

/-! When the lists of rules stay aligned, and when the stored lines are those of the server. -/

namespace AndroidApps.CommonLib

namespace WdhcTables

section Columns

/-- The columns of an info line. -/
def columns (line : JString) : List JString :=
  if logFilterWord.isPrefixOf line then JString.split 0x2C (line.drop logFilterWord.length) else []

/-- What an info line adds to `logConnectionsDir`. -/
def modeOf (line : JString) : Option UInt16 := (columns line)[1]?.bind List.head?

/-- What an info line adds to `logConnections` or `logDisconnections`, from one of its columns. -/
def patternOf (index : Nat) (line : JString) : Option JString :=
  (columns line)[index]?.filter fun text => 5 < text.length

/-- A line that adds a row to all three lists of rules or to none of them. -/
def Balanced (line : JString) : Prop :=
  (modeOf line).isSome = (patternOf 2 line).isSome ∧
    (patternOf 2 line).isSome = (patternOf 3 line).isSome

instance (line : JString) : Decidable (Balanced line) := by
  unfold Balanced
  infer_instance

/-- An info line adds its columns to the lists. -/
theorem addWdhcInfos_rows (tables : WdhcTables) (line : JString) :
    (tables.addWdhcInfos line).logConnectionsDir =
        tables.logConnectionsDir ++ (modeOf line).toList ∧
      (tables.addWdhcInfos line).logConnections =
        tables.logConnections ++ (patternOf 2 line).toList ∧
      (tables.addWdhcInfos line).logDisconnections =
        tables.logDisconnections ++ (patternOf 3 line).toList := by
  -- A line is cut once, and the number of its columns decides how far the nested checks go.
  unfold addWdhcInfos modeOf patternOf columns
  by_cases begins : logFilterWord.isPrefixOf line
  · rw [if_pos begins, if_pos begins]
    -- The nested checks of the source look for one more column each.
    rcases JString.split 0x2C (line.drop logFilterWord.length) with
      _ | ⟨tag, _ | ⟨mode, _ | ⟨plugged, _ | ⟨unplugged, rest⟩⟩⟩⟩
    · simp
    · by_cases long : 3 < tag.length <;> simp [long, addFilter]
    · cases mode <;> by_cases long : 3 < tag.length <;> simp [long, addFilter, addDir]
    · cases mode <;> by_cases long : 3 < tag.length <;> by_cases first : 5 < plugged.length <;>
        simp [long, first, addFilter, addDir, addConnection, Option.filter_some]
    · cases mode <;> by_cases long : 3 < tag.length <;> by_cases first : 5 < plugged.length <;>
        by_cases second : 5 < unplugged.length <;>
        simp [long, first, second, addFilter, addDir, addConnection, addDisconnection,
          Option.filter_some]
  · rw [if_neg begins, if_neg begins]
    simp

/-- Lines add their columns one after the other. -/
theorem foldl_rows (lines : List JString) : ∀ tables : WdhcTables,
    (lines.foldl addWdhcInfos tables).logConnectionsDir =
        tables.logConnectionsDir ++ lines.filterMap modeOf ∧
      (lines.foldl addWdhcInfos tables).logConnections =
        tables.logConnections ++ lines.filterMap (patternOf 2) ∧
      (lines.foldl addWdhcInfos tables).logDisconnections =
        tables.logDisconnections ++ lines.filterMap (patternOf 3) := by
  -- The first line adds its cells, and the others add theirs behind them.
  induction lines with
  | nil => simp
  | cons line lines ih =>
    intro tables
    obtain ⟨dirs, connections, disconnections⟩ := addWdhcInfos_rows tables line
    obtain ⟨moreDirs, moreConnections, moreDisconnections⟩ := ih (tables.addWdhcInfos line)
    have columnOf {β : Type} (cell : JString → Option β) :
        (line :: lines).filterMap cell = (cell line).toList ++ lines.filterMap cell := by
      cases given : cell line with
      | none => simp [given]
      | some value => simp [given]
    rw [List.foldl_cons, moreDirs, moreConnections, moreDisconnections, dirs, connections,
      disconnections]
    simp only [columnOf, List.append_assoc, and_self]

/-- The lists after some info lines. -/
def ofLines (lines : List JString) : WdhcTables := lines.foldl addWdhcInfos empty

theorem ofLines_dirs (lines : List JString) :
    (ofLines lines).logConnectionsDir = lines.filterMap modeOf := (foldl_rows lines empty).1

theorem ofLines_connections (lines : List JString) :
    (ofLines lines).logConnections = lines.filterMap (patternOf 2) := (foldl_rows lines empty).2.1

theorem ofLines_disconnections (lines : List JString) :
    (ofLines lines).logDisconnections = lines.filterMap (patternOf 3) :=
  (foldl_rows lines empty).2.2

end Columns

section Comparing

variable {tables : WdhcTables} {stringSet : List JString}

/-- The loop of `compareTo` over rows that both lists have looks at their pairs. -/
theorem compareFrom_zip (data : JString) (remaining : Nat) : ∀ row : Nat,
    row + remaining ≤ tables.logConnectionsDir.length → row + remaining ≤ stringSet.length →
    compareFrom tables stringSet data row remaining =
      some ((((tables.logConnectionsDir.zip stringSet).drop row).take remaining).any
        fun rule => ruleMatches data rule.1 rule.2) := by
  -- The induction is on the rows that are left; each pass looks at one pair of the two lists.
  induction remaining with
  | zero => simp [compareFrom]
  | succ remaining ih =>
    intro row dirs texts
    have first : row < tables.logConnectionsDir.length := by omega
    have second : row < stringSet.length := by omega
    have paired : row < (tables.logConnectionsDir.zip stringSet).length := by
      rw [List.length_zip]
      omega
    rw [compareFrom, List.getElem?_eq_getElem first, List.getElem?_eq_getElem second,
      List.drop_eq_getElem_cons paired, List.take_succ_cons, List.any_cons, List.getElem_zip]
    cases found : ruleMatches data tables.logConnectionsDir[row] stringSet[row] with
    | true => simp [found]
    | false =>
      simp only [found, Bool.false_eq_true, if_false, Bool.false_or]
      exact ih (row + 1) (by omega) (by omega)

/-- Lists of one length are compared pair by pair. -/
theorem compareTo_zip (same : tables.logConnectionsDir.length = stringSet.length) (data : JString) :
    compareTo tables tables.logConnectionsDir.length stringSet data =
      some ((tables.logConnectionsDir.zip stringSet).any
        fun rule => ruleMatches data rule.1 rule.2) := by
  -- All rows are there, so that the loop from the first row on sees the whole of the paired list.
  have all : (tables.logConnectionsDir.zip stringSet).length ≤ tables.logConnectionsDir.length := by
    rw [List.length_zip]
    omega
  rw [compareTo, compareFrom_zip data _ 0 (by omega) (by omega), List.drop_zero,
    List.take_of_length_le all]

end Comparing

section Alignment

/-- Whether the mode and a pattern of one info line apply to a line of the log. -/
def lineMatches (index : Nat) (data line : JString) : Bool :=
  match modeOf line, patternOf index line with
  | some dir, some src => ruleMatches data dir src
  | _, _ => false

/-- A row of a list comes from this info line: it is there behind the line and not before it. -/
def RowFrom (rows : WdhcTables → Nat) (lines : List JString) (row line : Nat) : Prop :=
  rows (ofLines (lines.take line)) ≤ row ∧ row < rows (ofLines (lines.take (line + 1)))

/--
The three lists, filled by some info lines, hold the same rules.

So a line of the log is compared with the mode and the pattern of one info line at a time.
-/
structure Aligned (lines : List JString) (tables : WdhcTables) : Prop where
  dirs_length : tables.logConnectionsDir.length = tables.logConnections.length
  connections_length : tables.logConnections.length = tables.logDisconnections.length
  dirs_row : ∀ row line, RowFrom (fun tables => tables.logConnectionsDir.length) lines row line ↔
    RowFrom (fun tables => tables.logConnections.length) lines row line
  connections_row : ∀ row line,
    RowFrom (fun tables => tables.logConnections.length) lines row line ↔
      RowFrom (fun tables => tables.logDisconnections.length) lines row line
  compares : ∀ data,
    compareTo tables tables.logConnectionsDir.length tables.logConnections data =
        some (lines.any (lineMatches 2 data)) ∧
      compareTo tables tables.logConnectionsDir.length tables.logDisconnections data =
        some (lines.any (lineMatches 3 data))

/-- The rows of a list are those of the column it is filled from. -/
theorem rowFrom_iff {β : Type} {rows : WdhcTables → Nat} {cell : JString → Option β}
    (filled : ∀ lines, rows (ofLines lines) = (lines.filterMap cell).length)
    (lines : List JString) (row line : Nat) :
    RowFrom rows lines row line ↔ Columns.AddedBy cell lines row line := by
  rw [RowFrom, filled, filled]
  rfl

/-- Lists of rules from the same lines are compared line by line. -/
theorem compareTo_lines {index : Nat} {lines : List JString} {tables : WdhcTables}
    {stringSet : List JString}
    (dirs : tables.logConnectionsDir = lines.filterMap modeOf)
    (texts : stringSet = lines.filterMap (patternOf index))
    (agree : ∀ line ∈ lines, (modeOf line).isSome = (patternOf index line).isSome)
    (data : JString) :
    compareTo tables tables.logConnectionsDir.length stringSet data =
      some (lines.any (lineMatches index data)) := by
  -- The lists get their rows from the same lines, so that their pairs are the lines with both
  -- cells.
  have same : tables.logConnectionsDir.length = stringSet.length := by
    rw [dirs, texts, Columns.length_congr agree]
  rw [compareTo_zip same, dirs, texts, Columns.zip_filterMap agree, List.any_filterMap]
  congr 2
  funext line
  unfold lineMatches
  cases modeOf line with
  | none => rfl
  | some dir =>
    cases patternOf index line with
    | none => rfl
    | some src => rfl

/-- The lists are aligned exactly when every info line is balanced. -/
theorem aligned_iff (lines : List JString) :
    Aligned lines (ofLines lines) ↔ ∀ line ∈ lines, Balanced line := by
  -- The rows of each list are those of one column, and columns share rows when the lines fill both.
  have dirs (row line : Nat) :
      RowFrom (fun tables => tables.logConnectionsDir.length) lines row line ↔
        Columns.AddedBy modeOf lines row line :=
    rowFrom_iff (fun lines => congrArg List.length (ofLines_dirs lines)) lines row line
  have connections (row line : Nat) :
      RowFrom (fun tables => tables.logConnections.length) lines row line ↔
        Columns.AddedBy (patternOf 2) lines row line :=
    rowFrom_iff (fun lines => congrArg List.length (ofLines_connections lines)) lines row line
  have disconnections (row line : Nat) :
      RowFrom (fun tables => tables.logDisconnections.length) lines row line ↔
        Columns.AddedBy (patternOf 3) lines row line :=
    rowFrom_iff (fun lines => congrArg List.length (ofLines_disconnections lines)) lines row line
  constructor
  · intro aligned line member
    constructor
    · refine Columns.addedBy_iff.mp (fun row line => ?_) line member
      exact (dirs row line).symm.trans ((aligned.dirs_row row line).trans (connections row line))
    · refine Columns.addedBy_iff.mp (fun row line => ?_) line member
      exact (connections row line).symm.trans
        ((aligned.connections_row row line).trans (disconnections row line))
  · intro balanced
    have first : ∀ line ∈ lines, (modeOf line).isSome = (patternOf 2 line).isSome :=
      fun line member => (balanced line member).1
    have second : ∀ line ∈ lines, (patternOf 2 line).isSome = (patternOf 3 line).isSome :=
      fun line member => (balanced line member).2
    refine ⟨?_, ?_, ?_, ?_, ?_⟩
    · rw [ofLines_dirs, ofLines_connections]
      exact Columns.length_congr first
    · rw [ofLines_connections, ofLines_disconnections]
      exact Columns.length_congr second
    · intro row line
      rw [dirs, connections]
      exact Columns.addedBy_iff.mpr first row line
    · intro row line
      rw [connections, disconnections]
      exact Columns.addedBy_iff.mpr second row line
    · intro data
      exact ⟨compareTo_lines (ofLines_dirs lines) (ofLines_connections lines) first data,
        compareTo_lines (ofLines_dirs lines) (ofLines_disconnections lines)
          (fun line member => (first line member).trans (second line member)) data⟩

end Alignment

end WdhcTables

section Loading

open WdhcTables

/-- The line stored under a number. -/
def storedLine (storage : Preferences) (i : Nat) : JString :=
  (LocalStorage.getValue storage (JString.decimal i) (some [])).getD []

/-- The lines that the server sends, or that are stored when it sends none. -/
def infoLines (digits : JString.CharacterDigit) (wdhcInfo : Option JString)
    (storage : Preferences) : List JString :=
  match wdhcInfo with
  | some payload => (JString.splitText lineBreak payload).drop 1
  | none =>
    match storedCount digits storage with
    | none => []
    | some nCnt => (List.range nCnt.toNat).map (storedLine storage)

/-- What the loop over the lines of a payload stores from `wdhc_infos[i]` on. -/
def storeFrom (storage : Preferences) : Nat → List JString → Preferences
  | _, [] => storage
  | i, line :: rest =>
    storeFrom (LocalStorage.setValue storage (JString.decimal (i - 1 : Int)) line) (i + 1) rest

/-- Lines are fed one after the other. -/
theorem foldl_feed (lines : List JString) : ∀ reading : WdhcReading,
    lines.foldl WdhcReading.feed reading =
      ⟨lines.foldl addWdhcInfos reading.tables, reading.storage, reading.fed ++ lines⟩ := by
  -- The reading keeps its tables and its lines apart, so that both are folded on their own.
  induction lines with
  | nil => simp
  | cons line lines ih =>
    intro reading
    rw [List.foldl_cons, ih]
    simp [WdhcReading.feed]

/-- The lines of a payload are stored and fed. -/
theorem readServer_eq (lines : List JString) : ∀ (i : Nat) (reading : WdhcReading),
    reading.readServer i lines =
      ⟨lines.foldl addWdhcInfos reading.tables, storeFrom reading.storage i lines,
        reading.fed ++ lines⟩ := by
  -- Storing a line and feeding it concern different fields, so that the passes add up separately.
  induction lines with
  | nil => simp [WdhcReading.readServer, storeFrom]
  | cons line lines ih =>
    intro i reading
    rw [WdhcReading.readServer, ih]
    simp [WdhcReading.feed, WdhcReading.setValue, storeFrom]

/-- The stored lines are fed. -/
theorem readStored_eq (remaining : Nat) : ∀ (i : Nat) (reading : WdhcReading),
    reading.readStored i remaining =
      ⟨((List.range' i remaining).map (storedLine reading.storage)).foldl addWdhcInfos
          reading.tables, reading.storage,
        reading.fed ++ (List.range' i remaining).map (storedLine reading.storage)⟩ := by
  -- No pass stores anything, so that all lines are read from the storage of the beginning.
  induction remaining with
  | zero => simp [WdhcReading.readStored]
  | succ remaining ih =>
    intro i reading
    rw [WdhcReading.readStored, ih]
    simp [WdhcReading.feed, List.range'_succ, storedLine]

variable (digits : JString.CharacterDigit)

/-- A call reads the built-in lines and then those it is given. -/
theorem readWdhcInfo_fed (wdhcInfo : Option JString) (tables : WdhcTables)
    (storage : Preferences) :
    (readWdhcInfo digits wdhcInfo tables storage).1.fed =
        staticInfo ++ infoLines digits wdhcInfo storage ∧
      (readWdhcInfo digits wdhcInfo tables storage).1.tables =
        (staticInfo ++ infoLines digits wdhcInfo storage).foldl addWdhcInfos tables := by
  -- The built-in lines come first; behind them stand the lines of the server or of the storage.
  unfold readWdhcInfo infoLines
  rw [foldl_feed, List.foldl_append]
  cases wdhcInfo with
  | some payload =>
    simp only [readServer_eq, WdhcReading.setValue, WdhcReading.start, List.nil_append, and_self]
  | none =>
    simp only [WdhcReading.start, List.nil_append]
    cases storedCount digits storage with
    | none => simp
    | some nCnt =>
      simp only [readStored_eq, List.range_eq_range', and_self]

/-- The built-in lines are balanced. -/
theorem staticInfo_balanced : ∀ line ∈ staticInfo, Balanced line := by
  -- With its characters listed, each line is cut and measured.
  unfold staticInfo
  repeat rw [JString.ofString_ofList]
  decide +kernel

/--
The lists stay aligned exactly when the lines given are balanced.

The lines fed by earlier calls on the same object are arbitrary.
-/
theorem readWdhcInfo_aligned_iff (earlier : List JString) (wdhcInfo : Option JString)
    (storage : Preferences) :
    Aligned (earlier ++ (readWdhcInfo digits wdhcInfo (ofLines earlier) storage).1.fed)
        (readWdhcInfo digits wdhcInfo (ofLines earlier) storage).1.tables ↔
      ∀ line ∈ earlier ++ infoLines digits wdhcInfo storage, Balanced line := by
  -- All lines ever fed have to be balanced, and the built-in ones are.
  obtain ⟨fed, tables⟩ := readWdhcInfo_fed digits wdhcInfo (ofLines earlier) storage
  have whole : (staticInfo ++ infoLines digits wdhcInfo storage).foldl addWdhcInfos
      (ofLines earlier) = ofLines (earlier ++ (staticInfo ++ infoLines digits wdhcInfo storage)) :=
    List.foldl_append.symm
  rw [fed, tables, whole, aligned_iff]
  constructor
  · intro all line member
    refine all line ?_
    rcases List.mem_append.mp member with before | given
    · exact List.mem_append_left _ before
    · exact List.mem_append_right _ (List.mem_append_right _ given)
  · intro given line member
    rcases List.mem_append.mp member with before | later
    · exact given line (List.mem_append_left _ before)
    · rcases List.mem_append.mp later with builtIn | line'
      · exact staticInfo_balanced line builtIn
      · exact given line (List.mem_append_right _ line')

/-- An answer with a rule whose patterns are short. -/
def shortPatterns : JString := JString.ofString "1\r\nlogFilter:hdmid:D,c,on,off"

/-- A line with short patterns adds a mode and no pattern. -/
theorem readWdhcInfo_shortPatterns :
    ¬ Aligned (readWdhcInfo .ascii (some shortPatterns) .empty noPreferences).1.fed
      (readWdhcInfo .ascii (some shortPatterns) .empty noPreferences).1.tables := by
  -- The line is among those that are read, and its modes and patterns are not the same in number.
  intro aligned
  obtain ⟨fed, tables⟩ := readWdhcInfo_fed .ascii (some shortPatterns) .empty noPreferences
  rw [fed, tables] at aligned
  have given : JString.ofString "logFilter:hdmid:D,c,on,off" ∈
      infoLines .ascii (some shortPatterns) noPreferences := by decide +kernel
  have balanced := (aligned_iff _).mp aligned _ (List.mem_append_right staticInfo given)
  exact absurd balanced (by decide +kernel)

/-- The objects and the storage behind some loads for which the server has answered. -/
def onlineLoads (tables : WdhcTables) (storage : Preferences) (payloads : List JString) :
    WdhcTables × Preferences :=
  payloads.foldl (fun state payload =>
    let reading := (readWdhcInfo digits (some payload) state.1 state.2).1
    (reading.tables, reading.storage)) (tables, storage)

/-- What a load stores when the server has answered. -/
theorem readWdhcInfo_storage (payload : JString) (tables : WdhcTables) (storage : Preferences) :
    (readWdhcInfo digits (some payload) tables storage).1.storage =
      storeFrom (LocalStorage.setValue storage cntKey
        (JString.decimal (JString.splitText lineBreak payload).length)) 1
        ((JString.splitText lineBreak payload).drop 1) := by
  unfold readWdhcInfo
  rw [foldl_feed]
  simp only [readServer_eq, WdhcReading.setValue, WdhcReading.start]

/-- No number is stored under the key of the count. -/
theorem cntKey_ne_decimal (value : Int) : cntKey ≠ JString.decimal value := by
  -- The key has a letter, and a decimal number has none.
  intro same
  have letter : (0x63 : UInt16) ∈ JString.decimal value := same ▸ by decide
  exact absurd (JString.mem_decimal letter) (by decide)

/-- Storing lines does not change the count. -/
theorem storeFrom_cntKey (lines : List JString) : ∀ (i : Nat) (storage : Preferences),
    storeFrom storage i lines cntKey = storage cntKey := by
  induction lines with
  | nil => intro i storage; rfl
  | cons line lines ih =>
    intro i storage
    rw [storeFrom, ih, LocalStorage.setValue, Function.update_of_ne (cntKey_ne_decimal _)]

/-- A line is stored under its number, and the lines behind the last one are left as they were. -/
theorem storeFrom_decimal (lines : List JString) : ∀ (i : Nat) (storage : Preferences) (k : Nat),
    storeFrom storage (i + 1) lines (JString.decimal k) =
      if i ≤ k ∧ k < i + lines.length then lines[k - i]? else storage (JString.decimal k) := by
  -- The first line goes under its own number, and the numbers behind it are those of the others.
  induction lines with
  | nil =>
    intro i storage k
    rw [if_neg (by simp only [List.length_nil]; omega)]
    rfl
  | cons line lines ih =>
    intro i storage k
    have key : ((i + 1 : Nat) : Int) - 1 = (i : Nat) := by omega
    rw [storeFrom, ih, key, LocalStorage.setValue]
    by_cases own : k = i
    · subst own
      rw [if_neg (by omega), if_pos (by simp), Function.update_self, Nat.sub_self]
      rfl
    · have other : JString.decimal k ≠ JString.decimal i :=
        fun same => own (JString.decimal_inj same)
      rw [Function.update_of_ne other]
      by_cases later : i + 1 ≤ k ∧ k < i + 1 + lines.length
      · have behind : k - i = k - (i + 1) + 1 := by omega
        rw [if_pos later, if_pos (by simp only [List.length_cons]; omega), behind,
          List.getElem?_cons_succ]
      · rw [if_neg later, if_neg (by simp only [List.length_cons]; omega)]

/-- The count that a load has stored is read back, if it fits. -/
theorem storedCount_stored (payload : JString) (tables : WdhcTables) (storage : Preferences) :
    storedCount digits (readWdhcInfo digits (some payload) tables storage).1.storage =
      JString.checked (JString.splitText lineBreak payload).length := by
  rw [storedCount, LocalStorage.getValue, readWdhcInfo_storage, storeFrom_cntKey,
    LocalStorage.setValue, Function.update_self]
  exact JString.parseInt_decimal_checked _

/-- What is stored under a number behind a load for which the server has answered. -/
theorem storedLine_stored (payload : JString) (tables : WdhcTables) (storage : Preferences)
    (k : Nat) :
    storedLine (readWdhcInfo digits (some payload) tables storage).1.storage k =
      (((JString.splitText lineBreak payload).drop 1)[k]?).getD (storedLine storage k) := by
  -- What this answer does not reach is still there from the answers before it.
  rw [storedLine, LocalStorage.getValue, readWdhcInfo_storage, storeFrom_decimal]
  by_cases stored : k < ((JString.splitText lineBreak payload).drop 1).length
  · rw [if_pos (by omega), Nat.sub_zero, List.getElem?_eq_getElem stored]
    rfl
  · rw [if_neg (by omega), List.getElem?_eq_none_iff.mpr (by omega), LocalStorage.setValue,
      Function.update_of_ne (cntKey_ne_decimal _).symm]
    rfl

/-- A load without the server feeds one line more: what an earlier and longer answer has left. -/
theorem infoLines_stored (payload : JString) (tables : WdhcTables) (storage : Preferences)
    (filled : JString.splitText lineBreak payload ≠ [])
    (fits : (JString.splitText lineBreak payload).length < 2 ^ 31) :
    infoLines digits none (readWdhcInfo digits (some payload) tables storage).1.storage =
      infoLines digits (some payload) storage ++
        [storedLine storage ((JString.splitText lineBreak payload).length - 1)] := by
  -- The stored count includes the first line of the answer, which is not stored as a line.
  have count := storedCount_stored digits payload tables storage
  have lines := storedLine_stored digits payload tables storage
  obtain ⟨first, rest, split⟩ := List.exists_cons_of_ne_nil filled
  simp only [split, List.length_cons, List.drop_succ_cons, List.drop_zero] at count lines fits
  rw [JString.checked, if_pos (by omega)] at count
  simp only [infoLines, count, split, Int.toNat_natCast, List.range_succ, List.map_append,
    List.map_cons, List.map_nil, List.length_cons, List.drop_succ_cons, List.drop_zero,
    Nat.add_sub_cancel]
  congr 1
  · refine List.ext_getElem (by simp) fun k listed _ => ?_
    rw [List.length_map, List.length_range] at listed
    rw [List.getElem_map, List.getElem_range, lines, List.getElem?_eq_getElem listed]
    rfl
  · rw [lines, List.getElem?_eq_none_iff.mpr le_rfl]
    rfl

/--
A load without the server feeds the lines of the last load with it only if there were none.

That is the case for an answer of line breaks alone.
-/
theorem offline_feeds_iff (storage : Preferences) (tables : WdhcTables) (payloads : List JString)
    (last : JString) (others : WdhcTables) :
    (readWdhcInfo digits none others
        (onlineLoads digits tables storage (payloads ++ [last])).2).1.fed =
      (readWdhcInfo digits (some last) (onlineLoads digits tables storage payloads).1
        (onlineLoads digits tables storage payloads).2).1.fed ↔
    ∃ count, last = (List.replicate (count + 1) lineBreak).flatten := by
  -- The loads before the last one only matter through the storage that they leave.
  rw [onlineLoads, List.foldl_append, List.foldl_cons, List.foldl_nil, ← onlineLoads]
  generalize onlineLoads digits tables storage payloads = state
  rw [(readWdhcInfo_fed ..).1, (readWdhcInfo_fed ..).1, List.append_right_inj,
    ← JString.splitText_eq_nil (by decide)]
  have count := storedCount_stored digits last state.1 state.2
  constructor
  · intro same
    by_contra filled
    have positive := List.length_pos_iff.mpr filled
    by_cases fits : (JString.splitText lineBreak last).length < 2 ^ 31
    · -- One more line is read than was stored.
      rw [infoLines_stored digits last state.1 state.2 filled fits] at same
      have lengths := congrArg List.length same
      rw [List.length_append, List.length_singleton] at lengths
      omega
    · -- A count that does not fit is not read at all.
      rw [JString.checked, if_neg (by omega)] at count
      simp only [infoLines, count] at same
      have lengths := congrArg List.length same
      rw [List.length_nil, List.length_drop] at lengths
      omega
  · intro noLine
    rw [noLine] at count
    simp only [infoLines, count, noLine]
    rfl

/-- An answer with two rules. -/
def longerAnswer : JString :=
  JString.ofString
    "1\r\nlogFilter:hdmid:D,c,hdmi on,hdmi off\r\nlogFilter:tvout:D,c,tvout on,tvout off"

/-- An answer with the first of them. -/
def shorterAnswer : JString := JString.ofString "2\r\nlogFilter:hdmid:D,c,hdmi on,hdmi off"

/-- The rule that is left of the longer answer comes back behind the shorter one. -/
theorem offline_feeds_stale :
    (readWdhcInfo .ascii none .empty
        (onlineLoads .ascii .empty noPreferences ([longerAnswer] ++ [shorterAnswer])).2).1.fed ≠
      (readWdhcInfo .ascii (some shorterAnswer)
        (onlineLoads .ascii .empty noPreferences [longerAnswer]).1
        (onlineLoads .ascii .empty noPreferences [longerAnswer]).2).1.fed := by
  rw [(readWdhcInfo_fed ..).1, (readWdhcInfo_fed ..).1, ne_eq, List.append_right_inj]
  decide +kernel

end Loading

end AndroidApps.CommonLib
