import AndroidApps.Lib.Loop
import AndroidApps.Lib.Stdio

/-! The binary searches over sorted index tables: `searchu8KeyValue` and its 16 and
32-bit copies. -/

namespace AndroidApps.Gildroia

/-- The key types the three searches are written for. -/
inductive KeyWidth where
  | u8
  | u16
  | u32
  deriving DecidableEq

/-- The size of a key in the file. -/
def KeyWidth.bytes : KeyWidth → Nat
  | .u8 => 1
  | .u16 => 2
  | .u32 => 4

/-- The local variables of a search, with the file they are read from. -/
structure SearchVars where
  fp : File
  left : Nat
  right : Nat
  mid : Nat
  nKeyValue : Nat

/-- Read the key of one record, at an offset computed in unsigned 32-bit arithmetic. -/
def readKey (width : KeyWidth) (offset recordSize index : Nat) (fp : File) (old : Nat) :
    Nat × File :=
  (fp.fseek (u32 (offset + index * recordSize))).freadWord width.bytes old

/-- Read the key of one record into `nKeyValue`. -/
def SearchVars.probe (width : KeyWidth) (offset recordSize : Nat) (vars : SearchVars)
    (index : Nat) : Nat × File :=
  readKey width offset recordSize index vars.fp vars.nKeyValue

/-- One pass of the `while` loop, or what follows the loop once its condition fails. -/
def searchPass (width : KeyWidth) (key offset recordSize : Nat) (vars : SearchVars) :
    SearchVars ⊕ (Bool × File) :=
  if vars.left < vars.right then
    let (nKeyValue, fp) := vars.probe width offset recordSize vars.mid
    if key = nKeyValue then .inr (true, fp)
    else
      let left := if nKeyValue < key then u32 (vars.mid + 1) else vars.left
      -- The bound is unsigned, so `mid - 1` wraps to the largest value when `mid` is zero.
      let right := if nKeyValue < key then vars.right else u32 (vars.mid + (2 ^ 32 - 1))
      .inl ⟨fp, left, right, u32 (left + right) / 2, nKeyValue⟩
  else if vars.left = vars.right then
    let (nKeyValue, fp) := vars.probe width offset recordSize vars.left
    .inr (decide (key = nKeyValue), fp)
  else .inr (false, vars.fp)

/-- The variables when the loop is entered, `nKeyValue` still being uninitialised. -/
def searchStart (width : KeyWidth) (fp : File) (recordCnt junk : Nat) : SearchVars :=
  ⟨fp, 0, recordCnt, u32 (0 + recordCnt) / 2, junk % 256 ^ width.bytes⟩

/-- The search shared by the three key types, cut off after a number of passes. -/
def searchKeyValue (width : KeyWidth) (junk fuel : Nat) (fp : File)
    (key offset recordSize recordCnt : Nat) : Option (Bool × File) :=
  Loop.run (searchPass width key offset recordSize) fuel (searchStart width fp recordCnt junk)

/-- `searchu8KeyValue`. -/
def searchu8KeyValue := searchKeyValue .u8

/-- `searchu16KeyValue`. -/
def searchu16KeyValue := searchKeyValue .u16

/-- `searchu32KeyValue`. -/
def searchu32KeyValue := searchKeyValue .u32

/-- The key of a record of a table. -/
def keyAt (data : List UInt8) (width : KeyWidth) (offset recordSize index : Nat) : Nat :=
  wordAt data (offset + index * recordSize) width.bytes

/-- A table of fixed-size records inside a file, led by strictly increasing keys. -/
structure KeyTable (data : List UInt8) (width : KeyWidth) (offset recordSize cnt : Nat) :
    Prop where
  wide : width.bytes ≤ recordSize
  inside : offset + cnt * recordSize ≤ data.length
  increasing : ∀ i j, i < j → j < cnt →
    keyAt data width offset recordSize i < keyAt data width offset recordSize j

instance (data : List UInt8) (width : KeyWidth) (offset recordSize cnt : Nat) :
    Decidable (KeyTable data width offset recordSize cnt) :=
  decidable_of_iff
    (width.bytes ≤ recordSize ∧ offset + cnt * recordSize ≤ data.length ∧
      ∀ j, j < cnt → ∀ i, i < j →
        keyAt data width offset recordSize i < keyAt data width offset recordSize j)
    ⟨fun ⟨wide, inside, increasing⟩ => ⟨wide, inside, fun i j before listed =>
        increasing j listed i before⟩,
      fun table => ⟨table.wide, table.inside, fun j listed i before =>
        table.increasing i j before listed⟩⟩

/-- The search has an outcome. -/
def SearchReturns (width : KeyWidth) (junk : Nat) (fp : File)
    (key offset recordSize recordCnt : Nat) : Prop :=
  ∃ fuel result, searchKeyValue width junk fuel fp key offset recordSize recordCnt = some result

/-- The search returns exactly when its loop ends. -/
theorem searchReturns_iff {width : KeyWidth} {junk : Nat} {fp : File}
    {key offset recordSize cnt : Nat} :
    SearchReturns width junk fp key offset recordSize cnt ↔
      Loop.Terminates (searchPass width key offset recordSize) (searchStart width fp cnt junk) :=
  exists_comm

theorem KeyWidth.bytes_pos (width : KeyWidth) : 0 < width.bytes := by
  cases width <;> decide

section Pass

variable {width : KeyWidth} {key offset recordSize cnt : Nat} {vars : SearchVars}

/-- The record the current pass reads. -/
def SearchVars.index (vars : SearchVars) : Nat :=
  if vars.left < vars.right then vars.mid else vars.left

/-- A pass that meets the key leaves the loop with success. -/
theorem searchPass_found (more : vars.left < vars.right)
    (found : key = (vars.probe width offset recordSize vars.mid).1) :
    searchPass width key offset recordSize vars =
      .inr (true, (vars.probe width offset recordSize vars.mid).2) := by
  simp only [searchPass, if_pos more]
  rw [if_pos found]

/-- A pass that meets a smaller key continues to the right of it. -/
theorem searchPass_right (more : vars.left < vars.right)
    (smaller : (vars.probe width offset recordSize vars.mid).1 < key) :
    searchPass width key offset recordSize vars =
      .inl ⟨(vars.probe width offset recordSize vars.mid).2, u32 (vars.mid + 1), vars.right,
        u32 (u32 (vars.mid + 1) + vars.right) / 2,
        (vars.probe width offset recordSize vars.mid).1⟩ := by
  have differs : key ≠ (vars.probe width offset recordSize vars.mid).1 := by omega
  simp only [searchPass, if_pos more]
  rw [if_neg differs]
  simp only [if_pos smaller]

/-- A pass that meets a larger key continues to the left of it. -/
theorem searchPass_left (more : vars.left < vars.right)
    (larger : key < (vars.probe width offset recordSize vars.mid).1) :
    searchPass width key offset recordSize vars =
      .inl ⟨(vars.probe width offset recordSize vars.mid).2, vars.left,
        u32 (vars.mid + (2 ^ 32 - 1)),
        u32 (vars.left + u32 (vars.mid + (2 ^ 32 - 1))) / 2,
        (vars.probe width offset recordSize vars.mid).1⟩ := by
  have differs : key ≠ (vars.probe width offset recordSize vars.mid).1 := by omega
  have other : ¬ (vars.probe width offset recordSize vars.mid).1 < key := by omega
  simp only [searchPass, if_pos more]
  rw [if_neg differs]
  simp only [if_neg other]

/-- When the bounds meet, the last record decides. -/
theorem searchPass_last (met : vars.left = vars.right) :
    searchPass width key offset recordSize vars =
      .inr (decide (key = (vars.probe width offset recordSize vars.left).1),
        (vars.probe width offset recordSize vars.left).2) := by
  have done : ¬ vars.left < vars.right := by omega
  simp only [searchPass, if_neg done, if_pos met]

/-- When the bounds have crossed, the search fails without another read. -/
theorem searchPass_crossed (crossed : vars.right < vars.left) :
    searchPass width key offset recordSize vars = .inr (false, vars.fp) := by
  have done : ¬ vars.left < vars.right := by omega
  have apart : vars.left ≠ vars.right := by omega
  simp only [searchPass, if_neg done, if_neg apart]

@[simp] theorem probe_data (index : Nat) :
    (vars.probe width offset recordSize index).2.data = vars.fp.data := by
  simp [SearchVars.probe, readKey]

/-- A pass only moves the position of the file. -/
theorem searchPass_data :
    (∀ next, searchPass width key offset recordSize vars = .inl next →
      next.fp.data = vars.fp.data) ∧
    ∀ result, searchPass width key offset recordSize vars = .inr result →
      result.2.data = vars.fp.data := by
  -- Where the bounds have not met, the key is right of the middle, at the middle or left of it.
  rcases Nat.lt_trichotomy vars.left vars.right with more | met | crossed
  · rcases Nat.lt_trichotomy (vars.probe width offset recordSize vars.mid).1 key with
      smaller | same | larger
    · rw [searchPass_right more smaller]
      simp
    · rw [searchPass_found more same.symm]
      simp
    · rw [searchPass_left more larger]
      simp
  · rw [searchPass_last met]
    simp
  · rw [searchPass_crossed crossed]
    simp

/-- The results of a search are final. -/
theorem searchKeyValue_final (width : KeyWidth) (junk : Nat) (fp : File)
    (key offset recordSize cnt : Nat) :
    Loop.Final fun fuel => searchKeyValue width junk fuel fp key offset recordSize cnt :=
  Loop.final_run _ _

/-- A search only moves the position of the file. -/
theorem searchKeyValue_data {junk fuel : Nat} {fp : File} {found : Bool} {after : File}
    (searched : searchKeyValue width junk fuel fp key offset recordSize cnt =
      some (found, after)) : after.data = fp.data := by
  -- The invariant is the contents of the file.
  refine Loop.run_post (fun vars => vars.fp.data = fp.data) (fun result => result.2.data = fp.data)
    ?_ ?_ rfl searched
  · intro vars next opened continues
    exact (searchPass_data.1 next continues).trans opened
  · intro vars result opened leaves
    exact (searchPass_data.2 result leaves).trans opened

/-- Every record of a table has its whole key inside the file. -/
theorem KeyTable.key_inside {data : List UInt8}
    (table : KeyTable data width offset recordSize cnt) {index : Nat} (listed : index < cnt) :
    offset + index * recordSize + width.bytes ≤ data.length := by
  -- The record ends before the next one begins, and the table ends inside the file.
  have below : (index + 1) * recordSize ≤ cnt * recordSize := Nat.mul_le_mul_right _ listed
  have room := table.wide
  have inside := table.inside
  rw [Nat.add_mul, Nat.one_mul] at below
  omega

/-- Reading a record inside the file gives its key and leaves the position behind that key. -/
theorem probe_inside {data : List UInt8} (opened : vars.fp.data = data) {index : Nat}
    (inside : offset + index * recordSize + width.bytes ≤ data.length) :
    vars.probe width offset recordSize index =
      (keyAt data width offset recordSize index,
        vars.fp.moveTo (offset + index * recordSize + width.bytes)) := by
  -- The record is inside the file, so that its place does not wrap and its key is read.
  subst opened
  have small : offset + index * recordSize < 2 ^ 32 := by
    have := vars.fp.addressable
    omega
  rw [SearchVars.probe, readKey, u32_of_lt small]
  exact File.freadWord_fseek inside

/-- Reading a record of the table gives its key and leaves the position behind that key. -/
theorem KeyTable.probe_listed {data : List UInt8}
    (table : KeyTable data width offset recordSize cnt) (opened : vars.fp.data = data)
    {index : Nat} (listed : index < cnt) :
    vars.probe width offset recordSize index =
      (keyAt data width offset recordSize index,
        vars.fp.moveTo (offset + index * recordSize + width.bytes)) :=
  probe_inside opened (table.key_inside listed)

/-- Keys of a table determine their record. -/
theorem KeyTable.key_inj {data : List UInt8}
    (table : KeyTable data width offset recordSize cnt) {i j : Nat} (left : i < cnt)
    (right : j < cnt)
    (same : keyAt data width offset recordSize i = keyAt data width offset recordSize j) :
    i = j := by
  -- Of two different records, the earlier one has the smaller key.
  rcases Nat.lt_trichotomy i j with before | equal | after
  · have := table.increasing i j before right
    omega
  · exact equal
  · have := table.increasing j i after left
    omega

end Pass

end AndroidApps.Gildroia
