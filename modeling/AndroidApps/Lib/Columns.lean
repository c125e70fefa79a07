import Mathlib.Data.List.Basic

/-! Columns that one pass over some items fills side by side, each item adding a row or none. -/

namespace AndroidApps.Columns

variable {α β γ : Type}

/-- The rows that the first items have added to a column. -/
def rowsAfter (cell : α → Option β) (items : List α) (count : Nat) : Nat :=
  ((items.take count).filterMap cell).length

/-- A row of a column was added by this item: it is there behind the item and not before it. -/
def AddedBy (cell : α → Option β) (items : List α) (row item : Nat) : Prop :=
  rowsAfter cell items item ≤ row ∧ row < rowsAfter cell items (item + 1)

variable {first : α → Option β} {second : α → Option γ} {items : List α}

/-- An item adds a row exactly when it has a cell for the column. -/
theorem rowsAfter_succ (cell : α → Option β) {count : Nat} {item : α}
    (listed : items[count]? = some item) :
    rowsAfter cell items (count + 1) =
      rowsAfter cell items count + if (cell item).isSome then 1 else 0 := by
  -- Taking one item more adds its cell at the end of what the items before it have given.
  rw [rowsAfter, rowsAfter, List.take_add_one, listed, List.filterMap_append, List.length_append]
  cases given : cell item with
  | none => simp [given]
  | some value => simp [given]

/-- Behind the last item no more rows are added. -/
theorem rowsAfter_of_le (cell : α → Option β) {count : Nat} (all : items.length ≤ count) :
    rowsAfter cell items count = (items.filterMap cell).length := by
  rw [rowsAfter, List.take_of_length_le all]

/-- Columns of one length stay of one length behind an item that fills both or neither. -/
theorem rowsAfter_succ_congr {count : Nat}
    (equal : rowsAfter first items count = rowsAfter second items count)
    (agree : ∀ item, items[count]? = some item → (first item).isSome = (second item).isSome) :
    rowsAfter first items (count + 1) = rowsAfter second items (count + 1) := by
  -- Behind the last item nothing is added; before it both columns grow by the same number of rows.
  cases listed : items[count]? with
  | none =>
    have all : items.length ≤ count := List.getElem?_eq_none_iff.mp listed
    rw [rowsAfter_of_le first all, rowsAfter_of_le second all] at equal
    rw [rowsAfter_of_le first (by omega), rowsAfter_of_le second (by omega), equal]
  | some item =>
    rw [rowsAfter_succ first listed, rowsAfter_succ second listed, equal, agree item listed]

/-- Columns that get their rows from the same items have the same number of rows all along. -/
theorem rowsAfter_congr (agree : ∀ item ∈ items, (first item).isSome = (second item).isSome)
    (count : Nat) : rowsAfter first items count = rowsAfter second items count := by
  induction count with
  | zero => rfl
  | succ count ih =>
    exact rowsAfter_succ_congr ih fun item listed => agree item (List.mem_of_getElem? listed)

/-- Columns that get their rows from the same items have one length at the end. -/
theorem length_congr (agree : ∀ item ∈ items, (first item).isSome = (second item).isSome) :
    (items.filterMap first).length = (items.filterMap second).length := by
  rw [← rowsAfter_of_le first (Nat.le_refl _), ← rowsAfter_of_le second (Nat.le_refl _),
    rowsAfter_congr agree]

/-- Columns whose rows come from the same items agree on each item. -/
theorem agree_of_addedBy
    (same : ∀ row item, AddedBy first items row item ↔ AddedBy second items row item)
    (count : Nat) : rowsAfter first items count = rowsAfter second items count ∧
      ∀ item, items[count]? = some item → (first item).isSome = (second item).isSome := by
  -- Where two columns of one length stop growing together, the next row shows it.
  have grows {index : Nat} (equal : rowsAfter first items index = rowsAfter second items index)
      (item : α) (listed : items[index]? = some item) :
      (first item).isSome = (second item).isSome := by
    have row := same (rowsAfter first items index) index
    have one := rowsAfter_succ first listed
    have other := rowsAfter_succ second listed
    unfold AddedBy at row
    by_contra differ
    cases left : (first item).isSome with
    | true =>
      have right : (second item).isSome = false :=
        Bool.eq_false_iff.mpr fun both => differ (left.trans both.symm)
      rw [left, if_pos rfl] at one
      rw [right, if_neg Bool.false_ne_true] at other
      omega
    | false =>
      have right : (second item).isSome = true :=
        Bool.ne_false_iff.mp fun neither => differ (left.trans neither.symm)
      rw [left, if_neg Bool.false_ne_true] at one
      rw [right, if_pos rfl] at other
      omega
  induction count with
  | zero => exact ⟨rfl, grows rfl⟩
  | succ count ih =>
    obtain ⟨equal, agree⟩ := ih
    have next := rowsAfter_succ_congr equal agree
    exact ⟨next, grows next⟩

/-- Two columns get each row from the same item exactly when every item fills both or neither. -/
theorem addedBy_iff :
    (∀ row item, AddedBy first items row item ↔ AddedBy second items row item) ↔
      ∀ item ∈ items, (first item).isSome = (second item).isSome := by
  -- The first row that only one of two columns has would come from different items.
  constructor
  · intro same item member
    obtain ⟨count, listed⟩ := List.mem_iff_getElem?.mp member
    exact (agree_of_addedBy same count).2 item listed
  · intro agree row item
    rw [AddedBy, AddedBy, rowsAfter_congr agree, rowsAfter_congr agree]

/-- Columns with the same rows are read side by side as one column of pairs. -/
theorem zip_filterMap (agree : ∀ item ∈ items, (first item).isSome = (second item).isSome) :
    (items.filterMap first).zip (items.filterMap second) =
      items.filterMap fun item => (first item).bind fun left =>
        (second item).map fun right => (left, right) := by
  -- At each item both columns go on or neither does.
  induction items with
  | nil => rfl
  | cons item rest ih =>
    obtain ⟨here, later⟩ := List.forall_mem_cons.mp agree
    cases one : first item with
    | none =>
      cases other : second item with
      | none => simp [one, other, ih later]
      | some right => simp [one, other] at here
    | some left =>
      cases other : second item with
      | none => simp [one, other] at here
      | some right => simp [one, other, ih later]

end AndroidApps.Columns
