import Mathlib.Data.List.Sort

/-! What a database answers to `select distinct … where … order by …`, and what follows from it. -/

namespace AndroidApps.Select

variable {Row Col : Type}

/-- A query for the distinct columns of the rows that meet a condition, in order of some keys. -/
structure Query (Row Col : Type) where
  column : Row → Col
  keeps : Row → Bool
  keys : List (Row → Int)

/-- Whether a row may stand in front of another one: the first key that differs decides. -/
def inOrder : List (Row → Int) → Row → Row → Bool
  | [], _, _ => true
  | key :: keys, row, other =>
    decide (key row < key other) || decide (key row = key other) && inOrder keys row other

/--
What may be answered to a query.

Each column comes from a row that is kept, and comes once. Where several rows have the same column,
nothing is said of the one that gives it its place.
-/
structure Answers (table : List Row) (query : Query Row Col) (cursor : List Col) : Prop where
  drawn : ∃ rows : List Row, (∀ row ∈ rows, row ∈ table ∧ query.keeps row = true) ∧
    rows.Pairwise (fun row other => inOrder query.keys row other = true) ∧
    cursor = rows.map query.column
  distinct : cursor.Nodup
  complete : ∀ row ∈ table, query.keeps row = true → query.column row ∈ cursor

/-- A database that holds a table. -/
structure Database (table : List Row) where
  rawQuery : {Col : Type} → [DecidableEq Col] → Query Row Col → List Col
  answers : ∀ {Col : Type} [DecidableEq Col] (query : Query Row Col),
    Answers table query (rawQuery query)

section Answered

variable {table : List Row} {query : Query Row Col} {cursor : List Col}

/-- The columns of an answer are those of the rows that are kept. -/
theorem Answers.mem_iff (answers : Answers table query cursor) {col : Col} :
    col ∈ cursor ↔ ∃ row ∈ table, query.keeps row = true ∧ query.column row = col := by
  constructor
  · intro member
    obtain ⟨rows, kept, _, same⟩ := answers.drawn
    rw [same] at member
    obtain ⟨row, among, column⟩ := List.mem_map.mp member
    exact ⟨row, (kept row among).1, (kept row among).2, column⟩
  · rintro ⟨row, stored, kept, rfl⟩
    exact answers.complete row stored kept

/-- An answer is not empty when a row is kept. -/
theorem Answers.occupied_iff (answers : Answers table query cursor) :
    0 < cursor.length ↔ ∃ row ∈ table, query.keeps row = true := by
  rw [List.length_pos_iff_exists_mem]
  constructor
  · rintro ⟨col, member⟩
    obtain ⟨row, stored, kept, _⟩ := answers.mem_iff.mp member
    exact ⟨row, stored, kept⟩
  · rintro ⟨row, stored, kept⟩
    exact ⟨query.column row, answers.complete row stored kept⟩

/-- An answer has several columns when two of the rows that are kept differ in theirs. -/
theorem Answers.several_iff (answers : Answers table query cursor) :
    1 < cursor.length ↔ ∃ row ∈ table, query.keeps row = true ∧
      ∃ other ∈ table, query.keeps other = true ∧ query.column row ≠ query.column other := by
  constructor
  · intro long
    -- The first two columns of the answer come from rows of their own.
    have differ : cursor[0] ≠ cursor[1] :=
      fun same => absurd ((answers.distinct.getElem_inj_iff).mp same) (by decide)
    obtain ⟨row, stored, kept, column⟩ := answers.mem_iff.mp (List.getElem_mem (n := 0) (by omega))
    obtain ⟨other, stored', kept', column'⟩ := answers.mem_iff.mp (List.getElem_mem long)
    refine ⟨row, stored, kept, other, stored', kept', ?_⟩
    rw [column, column']
    exact differ
  · rintro ⟨row, stored, kept, other, stored', kept', differ⟩
    have first := answers.complete row stored kept
    have second := answers.complete other stored' kept'
    -- A list of one column would have both columns the same.
    by_contra short
    cases cursor with
    | nil => cases first
    | cons col rest =>
      rw [List.length_cons, Nat.lt_add_left_iff_pos, Nat.pos_iff_ne_zero, not_not] at short
      rw [List.length_eq_zero_iff.mp short, List.mem_singleton] at first second
      exact differ (first.trans second.symm)

end Answered

section Plain

/-- The first row of each column. -/
def firstOf [DecidableEq Col] (column : Row → Col) : List Row → List Row
  | [] => []
  | row :: rest => row :: (firstOf column rest).filter fun other => column other ≠ column row

/-- The rows are taken from the list, in their order. -/
theorem firstOf_sublist [DecidableEq Col] (column : Row → Col) (rows : List Row) :
    (firstOf column rows).Sublist rows := by
  induction rows with
  | nil => exact List.Sublist.slnil
  | cons row rest ih => exact (List.filter_sublist.trans ih).cons_cons row

/-- No column comes twice. -/
theorem firstOf_nodup [DecidableEq Col] (column : Row → Col) (rows : List Row) :
    ((firstOf column rows).map column).Nodup := by
  induction rows with
  | nil => exact List.nodup_nil
  | cons row rest ih =>
    rw [firstOf, List.map_cons, List.nodup_cons]
    constructor
    · -- The rows with the column of the first one are filtered out behind it.
      intro again
      obtain ⟨other, kept, same⟩ := List.mem_map.mp again
      exact of_decide_eq_true (List.mem_filter.mp kept).2 same
    · exact ih.sublist (List.filter_sublist.map column)

/-- No column is left out. -/
theorem firstOf_complete [DecidableEq Col] (column : Row → Col) {rows : List Row} {row : Row}
    (member : row ∈ rows) : column row ∈ (firstOf column rows).map column := by
  induction rows with
  | nil => cases member
  | cons first rest ih =>
    rw [firstOf, List.map_cons, List.mem_cons]
    by_cases same : column row = column first
    · exact Or.inl same
    · right
      have behind : row ∈ rest := by
        refine (List.mem_cons.mp member).resolve_left ?_
        rintro rfl
        exact same rfl
      obtain ⟨other, kept, column'⟩ := List.mem_map.mp (ih behind)
      refine List.mem_map.mpr ⟨other, List.mem_filter.mpr ⟨kept, ?_⟩, column'⟩
      rw [column']
      exact decide_eq_true same

/-- Rows that differ in no key may stand in any order, and others in one. -/
theorem inOrder_total (keys : List (Row → Int)) (row other : Row) :
    (inOrder keys row other || inOrder keys other row) = true := by
  induction keys with
  | nil => rfl
  | cons key keys ih =>
    simp only [inOrder, Bool.or_eq_true, Bool.and_eq_true, decide_eq_true_eq] at ih ⊢
    -- The key decides, unless it is the same in both rows.
    rcases lt_trichotomy (key row) (key other) with less | same | more
    · exact Or.inl (Or.inl less)
    · exact ih.imp (fun held => Or.inr ⟨same, held⟩) (fun held => Or.inr ⟨same.symm, held⟩)
    · exact Or.inr (Or.inl more)

/-- The order of the keys is carried over. -/
theorem inOrder_trans (keys : List (Row → Int)) {row other third : Row}
    (first : inOrder keys row other = true) (second : inOrder keys other third = true) :
    inOrder keys row third = true := by
  induction keys with
  | nil => rfl
  | cons key keys ih =>
    simp only [inOrder, Bool.or_eq_true, Bool.and_eq_true, decide_eq_true_eq] at *
    -- As long as the keys are the same, the keys behind them decide.
    rcases first with less | ⟨same, first⟩
    · left
      omega
    · rcases second with less | ⟨same', second⟩
      · left
        omega
      · exact Or.inr ⟨same.trans same', ih first second⟩

/-- The rows that are kept, sorted, and the first one of each column. -/
def run [DecidableEq Col] (table : List Row) (query : Query Row Col) : List Col :=
  (firstOf query.column
    ((table.filter query.keeps).mergeSort (inOrder query.keys))).map query.column

/-- Sorting and dropping repeated columns answers the query. -/
theorem run_answers [DecidableEq Col] (table : List Row) (query : Query Row Col) :
    Answers table query (run table query) := by
  have sorted : ((table.filter query.keeps).mergeSort (inOrder query.keys)).Pairwise
      (inOrder query.keys · ·) :=
    @List.pairwise_mergeSort _ (inOrder query.keys)
      (fun _ _ _ => inOrder_trans query.keys) (inOrder_total query.keys) (table.filter query.keeps)
  refine ⟨⟨_, ?_, sorted.sublist (firstOf_sublist _ _), rfl⟩, firstOf_nodup _ _, ?_⟩
  · intro row member
    have kept := List.mem_mergeSort.mp ((firstOf_sublist _ _).subset member)
    exact List.mem_filter.mp kept
  · intro row stored kept
    exact firstOf_complete _ (List.mem_mergeSort.mpr (List.mem_filter.mpr ⟨stored, kept⟩))

/-- The database that answers every query so. -/
def Database.plain (table : List Row) : Database table where
  rawQuery := run table
  answers := run_answers table

end Plain

end AndroidApps.Select
