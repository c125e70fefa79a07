import AndroidApps.Gildroia.KeySearch

/-! What the index searches find, which wrong answers they give, and when they run for ever. -/

namespace AndroidApps.Gildroia

section Bounds

variable {fp : File} {width : KeyWidth} {key offset recordSize cnt : Nat} {vars : SearchVars}

/-- A table that fits a file has fewer records than a `long` can count. -/
theorem KeyTable.cnt_lt (table : KeyTable fp.data width offset recordSize cnt) :
    cnt < 2 ^ 31 := by
  -- Each record holds at least one byte of the file.
  have positive : 1 ≤ recordSize := Nat.le_trans width.bytes_pos table.wide
  have room : cnt * 1 ≤ cnt * recordSize := Nat.mul_le_mul_left cnt positive
  have inside := table.inside
  have small := fp.addressable
  omega

/-- The pass begun here reads a record of the table. -/
def ReadsListed (cnt : Nat) (vars : SearchVars) : Prop :=
  -- Once the bounds have crossed, nothing is read any more.
  vars.left ≤ vars.right → vars.index < cnt

/-- No unsigned computation of the pass begun here, nor of the bounds it works on, wraps. -/
def ComputesExactly (width : KeyWidth) (key offset recordSize : Nat) (vars : SearchVars) : Prop :=
  vars.left + vars.right < 2 ^ 32 ∧ vars.mid = (vars.left + vars.right) / 2 ∧
  (vars.left ≤ vars.right → offset + vars.index * recordSize < 2 ^ 32) ∧
  (vars.left < vars.right → vars.mid + 1 < 2 ^ 32 ∧
    (key < (vars.probe width offset recordSize vars.mid).1 → 1 ≤ vars.mid))

/-- The search is still closing in on a record of the table. -/
structure ClosesIn (fp : File) (cnt target : Nat) (vars : SearchVars) : Prop where
  opened : vars.fp.data = fp.data
  lower : vars.left ≤ target
  upper : target ≤ vars.right
  bounded : vars.right ≤ cnt
  middle : vars.mid = (vars.left + vars.right) / 2

/-- The search starts with the whole table, and one record more, between its bounds. -/
theorem closesIn_start (table : KeyTable fp.data width offset recordSize cnt) {target : Nat}
    (listed : target < cnt) (junk : Nat) :
    ClosesIn fp cnt target (searchStart width fp cnt junk) := by
  have small := table.cnt_lt
  refine ⟨rfl, Nat.zero_le _, Nat.le_of_lt listed, Nat.le_refl _, ?_⟩
  simp only [searchStart, Nat.zero_add]
  rw [u32_of_lt (by omega)]

/-- Every pass that continues stays around the record and narrows the bounds. -/
theorem ClosesIn.pass {target : Nat} (table : KeyTable fp.data width offset recordSize cnt)
    (listed : target < cnt) (closing : ClosesIn fp cnt target vars) {next : SearchVars}
    (continues : searchPass width (keyAt fp.data width offset recordSize target) offset recordSize
      vars = .inl next) :
    ClosesIn fp cnt target next ∧ next.right - next.left < vars.right - vars.left := by
  obtain ⟨opened, lower, upper, bounded, middle⟩ := closing
  have small := table.cnt_lt
  -- Only an open interval lets the loop continue.
  rcases Nat.lt_trichotomy vars.left vars.right with more | met | crossed
  · have inTable : vars.mid < cnt := by omega
    have read := table.probe_listed opened inTable
    rcases Nat.lt_trichotomy vars.mid target with before | same | after
    · -- A record before the target has a smaller key, so the target stays on the right.
      have smaller := table.increasing _ _ before listed
      rw [searchPass_right more (by rw [read]; exact smaller)] at continues
      cases continues
      rw [u32_of_lt (show vars.mid + 1 < 2 ^ 32 by omega),
        u32_of_lt (show vars.mid + 1 + vars.right < 2 ^ 32 by omega)]
      refine ⟨⟨by simpa using opened, by simp only; omega, upper, bounded, rfl⟩, ?_⟩
      simp only
      omega
    · -- The target itself ends the loop.
      subst same
      rw [searchPass_found more (by rw [read])] at continues
      cases continues
    · -- A record behind the target is not the first one, so `mid - 1` is exact.
      have larger := table.increasing _ _ after inTable
      rw [searchPass_left more (by rw [read]; exact larger)] at continues
      cases continues
      have exact : u32 (vars.mid + (2 ^ 32 - 1)) = vars.mid - 1 := by
        unfold u32
        omega
      rw [exact, u32_of_lt (show vars.left + (vars.mid - 1) < 2 ^ 32 by omega)]
      refine ⟨⟨by simpa using opened, lower, by simp only; omega, by simp only; omega, rfl⟩, ?_⟩
      simp only
      omega
  · rw [searchPass_last met] at continues
    cases continues
  · rw [searchPass_crossed crossed] at continues
    cases continues

/-- The loop can only leave at the record it closes in on. -/
theorem ClosesIn.leave {target : Nat} (table : KeyTable fp.data width offset recordSize cnt)
    (listed : target < cnt) (closing : ClosesIn fp cnt target vars) {result : Bool × File}
    (leaves : searchPass width (keyAt fp.data width offset recordSize target) offset recordSize
      vars = .inr result) :
    result = (true, fp.moveTo (offset + target * recordSize + width.bytes)) := by
  obtain ⟨opened, lower, upper, bounded, middle⟩ := closing
  have moved := File.moveTo_eq_of_data opened (offset + target * recordSize + width.bytes)
  rcases Nat.lt_trichotomy vars.left vars.right with more | met | crossed
  · have inTable : vars.mid < cnt := by omega
    have read := table.probe_listed opened inTable
    rcases Nat.lt_trichotomy vars.mid target with before | same | after
    · have smaller := table.increasing _ _ before listed
      rw [searchPass_right more (by rw [read]; exact smaller)] at leaves
      cases leaves
    · subst same
      rw [searchPass_found more (by rw [read]), read] at leaves
      cases leaves
      rw [← moved]
    · have larger := table.increasing _ _ after inTable
      rw [searchPass_left more (by rw [read]; exact larger)] at leaves
      cases leaves
  · -- Met bounds enclose nothing but the target.
    have same : vars.left = target := by omega
    rw [searchPass_last met, same, table.probe_listed opened listed] at leaves
    cases leaves
    simp [← moved]
  · omega

/-- While the search closes in on a record, it reads inside the table and computes exactly. -/
theorem ClosesIn.safe {target : Nat} (table : KeyTable fp.data width offset recordSize cnt)
    (listed : target < cnt) (closing : ClosesIn fp cnt target vars) :
    ReadsListed cnt vars ∧
      ComputesExactly width (keyAt fp.data width offset recordSize target) offset recordSize
        vars := by
  obtain ⟨opened, lower, upper, bounded, middle⟩ := closing
  have small := table.cnt_lt
  have inTable : vars.index < cnt := by
    unfold SearchVars.index
    split <;> omega
  have addressed := table.key_inside inTable
  have file := fp.addressable
  refine ⟨fun _ => inTable, by omega, middle, fun _ => by omega, ?_⟩
  intro more
  refine ⟨by omega, ?_⟩
  intro larger
  rw [table.probe_listed opened (by omega)] at larger
  -- The first record is not behind the target, so its key is not larger.
  by_contra first
  have zero : vars.mid = 0 := by omega
  rw [zero] at larger
  rcases Nat.eq_zero_or_pos target with head | later
  · subst head
    exact absurd larger (Nat.lt_irrefl _)
  · exact absurd larger (Nat.lt_asymm (table.increasing 0 target later listed))

/-- A key of the table is found, at its own record. -/
theorem searchKeyValue_listed (table : KeyTable fp.data width offset recordSize cnt) {target : Nat}
    (listed : target < cnt) (junk : Nat) :
    Loop.Ends (searchPass width (keyAt fp.data width offset recordSize target) offset recordSize)
      (searchStart width fp cnt junk)
      (true, fp.moveTo (offset + target * recordSize + width.bytes)) := by
  -- The interval closes in on the record until the middle hits it.
  obtain ⟨result, ended, found⟩ := Loop.ends_of_variant (ClosesIn fp cnt target)
    (fun vars => vars.right - vars.left) _
    (fun _ _ closing continues => closing.pass table listed continues)
    (fun _ _ closing leaves => closing.leave table listed leaves)
    (closesIn_start table listed junk)
  rwa [found] at ended

/--
Every key that occurs in a table is found.

The search returns with the file position behind the key of the record that holds it.
On the way it reads nothing but records of the table, and none of its unsigned computations wraps.
-/
theorem searchKeyValue_complete (table : KeyTable fp.data width offset recordSize cnt)
    {target : Nat} (listed : target < cnt)
    (held : keyAt fp.data width offset recordSize target = key) (junk : Nat) :
    (∃ fuel, searchKeyValue width junk fuel fp key offset recordSize cnt =
      some (true, fp.moveTo (offset + target * recordSize + width.bytes))) ∧
    ∀ vars, Loop.Reaches (searchPass width key offset recordSize)
      (searchStart width fp cnt junk) vars →
        ReadsListed cnt vars ∧ ComputesExactly width key offset recordSize vars := by
  subst held
  refine ⟨searchKeyValue_listed table listed junk, ?_⟩
  intro vars reached
  -- Every state the loop passes through still encloses the record.
  have closing := reached.invariant (ClosesIn fp cnt target)
    (fun _ _ closing continues => (closing.pass table listed continues).1)
    (closesIn_start table listed junk)
  exact closing.safe table listed

/-- Two records of a 32-bit key and a 32-bit payload, with four more bytes behind them. -/
def twoRecords : File :=
  ⟨[10, 0, 0, 0, 1, 1, 1, 1, 20, 0, 0, 0, 2, 2, 2, 2, 30, 0, 0, 0], 0, by decide⟩

/-- The second of two records is found, and the payload behind its key is the next to be read. -/
theorem searchKeyValue_complete_two :
    (∃ fuel, searchKeyValue .u32 0 fuel twoRecords 20 0 8 2 = some (true, twoRecords.moveTo 12)) ∧
    ∀ vars, Loop.Reaches (searchPass .u32 20 0 8) (searchStart .u32 twoRecords 2 0) vars →
      ReadsListed 2 vars ∧ ComputesExactly .u32 20 0 8 vars :=
  searchKeyValue_complete (show KeyTable twoRecords.data .u32 0 8 2 by decide)
    (show 1 < 2 by decide) (by decide) 0

/-- Halving the upper bound again and again from here ends with bounds zero and one. -/
def Underflows (right : Nat) : Prop :=
  ∃ level, 3 * 2 ^ level ≤ right + 2 ∧ right + 2 < 4 * 2 ^ level

theorem not_underflows_zero : ¬ Underflows 0 := by
  rintro ⟨level, low, _⟩
  have := Nat.one_le_two_pow (n := level)
  omega

theorem underflows_one : Underflows 1 := ⟨0, by decide, by decide⟩

/-- Moving the upper bound below the middle neither starts nor avoids the underflow. -/
theorem underflows_half {right : Nat} (more : 2 ≤ right) :
    Underflows (right / 2 - 1) ↔ Underflows right := by
  -- Halving goes down one level of the numbers just below the powers of two.
  constructor
  · rintro ⟨level, low, high⟩
    refine ⟨level + 1, ?_, ?_⟩ <;> rw [Nat.pow_succ] <;> omega
  · rintro ⟨level, low, high⟩
    cases level with
    | zero => omega
    | succ level =>
      rw [Nat.pow_succ] at low high
      exact ⟨level, by omega, by omega⟩

/-- The place a key would have in a table that does not list it. -/
structure KeyGap (fp : File) (width : KeyWidth) (key offset recordSize cnt place : Nat) :
    Prop where
  bounded : place ≤ cnt
  below : ∀ i, i < place → keyAt fp.data width offset recordSize i < key
  above : ∀ i, place ≤ i → i < cnt → key < keyAt fp.data width offset recordSize i

/-- A key is either listed or has a place between two records, or at one of the ends. -/
theorem KeyTable.listed_or_gap (table : KeyTable fp.data width offset recordSize cnt) (key : Nat) :
    (∃ i, i < cnt ∧ keyAt fp.data width offset recordSize i = key) ∨
      ∃ place, KeyGap fp width key offset recordSize cnt place := by
  -- The place is the number of leading records with smaller keys, found by walking the table.
  suffices walk : ∀ upTo, upTo ≤ cnt →
      (∃ i, i < cnt ∧ keyAt fp.data width offset recordSize i = key) ∨
      (∃ place, KeyGap fp width key offset recordSize cnt place) ∨
      ∀ i, i < upTo → keyAt fp.data width offset recordSize i < key by
    rcases walk cnt (Nat.le_refl _) with listed | gap | below
    · exact Or.inl listed
    · exact Or.inr gap
    · exact Or.inr ⟨cnt, Nat.le_refl _, below, fun i low high => by omega⟩
  intro upTo
  induction upTo with
  | zero => exact fun _ => Or.inr (Or.inr fun i low => by omega)
  | succ upTo ih =>
    intro within
    rcases ih (by omega) with listed | gap | below
    · exact Or.inl listed
    · exact Or.inr (Or.inl gap)
    · rcases Nat.lt_trichotomy (keyAt fp.data width offset recordSize upTo) key with
        less | same | more
      · refine Or.inr (Or.inr fun i low => ?_)
        rcases Nat.lt_or_eq_of_le (Nat.le_of_lt_succ low) with earlier | last
        · exact below i earlier
        · exact last ▸ less
      · exact Or.inl ⟨upTo, by omega, same⟩
      · -- The first larger key closes the gap, and all later ones are larger still.
        refine Or.inr (Or.inl ⟨upTo, by omega, below, fun i low high => ?_⟩)
        rcases Nat.lt_or_eq_of_le low with later | here
        · exact Nat.lt_trans more (table.increasing upTo i later high)
        · exact here ▸ more

/-- A key with a place in the table is not listed there. -/
theorem KeyGap.not_listed {place : Nat} (gap : KeyGap fp width key offset recordSize cnt place)
    {index : Nat} (listed : index < cnt) : keyAt fp.data width offset recordSize index ≠ key := by
  rcases Nat.lt_or_ge index place with before | behind
  · exact Nat.ne_of_lt (gap.below index before)
  · exact Nat.ne_of_gt (gap.above index behind listed)

/-- What the variable holds in front of a record: the key before it, or nothing that was read. -/
def keyBefore (data : List UInt8) (width : KeyWidth) (junk offset recordSize : Nat) : Nat → Nat
  | 0 => junk % 256 ^ width.bytes
  | index + 1 => keyAt data width offset recordSize index

/--
The bytes behind the table pass for the key.

Those that are behind the end of the file are the bytes of the last key, or of the uninitialised
variable where there is none.
-/
def StrayHit (fp : File) (width : KeyWidth) (junk key offset recordSize cnt : Nat) : Prop :=
  (∀ i, i < cnt → keyAt fp.data width offset recordSize i < key) ∧
    fp.wordOver (offset + cnt * recordSize) width.bytes
      (keyBefore fp.data width junk offset recordSize cnt) = key

/-- The search is narrowing the bounds around the place of a key that is not listed. -/
structure Narrows (fp : File) (width : KeyWidth) (junk offset recordSize cnt place : Nat)
    (vars : SearchVars) : Prop where
  opened : vars.fp.data = fp.data
  lower : vars.left ≤ place
  upper : place ≤ vars.right + 1
  bounded : vars.right ≤ cnt
  middle : vars.mid = (vars.left + vars.right) / 2
  first : place = 0 → ¬ Underflows vars.right
  last : place = cnt → vars.right = cnt
  read : place = cnt → vars.nKeyValue = keyBefore fp.data width junk offset recordSize vars.left

theorem narrows_start {place : Nat} (table : KeyTable fp.data width offset recordSize cnt)
    (gap : KeyGap fp width key offset recordSize cnt place)
    (tame : place = 0 → ¬ Underflows cnt) (junk : Nat) :
    Narrows fp width junk offset recordSize cnt place (searchStart width fp cnt junk) := by
  -- In the beginning the interval is the whole table.
  have small := table.cnt_lt
  have bounded := gap.bounded
  refine ⟨rfl, Nat.zero_le _, by simp only [searchStart]; omega, Nat.le_refl _, ?_, tame,
    fun _ => rfl, fun _ => rfl⟩
  simp only [searchStart, Nat.zero_add]
  rw [u32_of_lt (by omega)]

/-- Every pass that continues keeps the place between the bounds and narrows them. -/
theorem Narrows.pass {place junk : Nat} (table : KeyTable fp.data width offset recordSize cnt)
    (gap : KeyGap fp width key offset recordSize cnt place)
    (narrows : Narrows fp width junk offset recordSize cnt place vars)
    {next : SearchVars} (continues : searchPass width key offset recordSize vars = .inl next) :
    Narrows fp width junk offset recordSize cnt place next ∧
      next.right + 1 - next.left < vars.right + 1 - vars.left := by
  obtain ⟨opened, lower, upper, bounded, middle, first, last, read⟩ := narrows
  have small := table.cnt_lt
  rcases Nat.lt_trichotomy vars.left vars.right with more | met | crossed
  · have inTable : vars.mid < cnt := by omega
    have probed := table.probe_listed opened inTable
    rcases Nat.lt_or_ge vars.mid place with before | behind
    · -- Records before the place have smaller keys.
      have smaller := gap.below _ before
      rw [searchPass_right more (by rw [probed]; exact smaller), probed] at continues
      cases continues
      rw [u32_of_lt (show vars.mid + 1 < 2 ^ 32 by omega),
        u32_of_lt (show vars.mid + 1 + vars.right < 2 ^ 32 by omega)]
      refine ⟨⟨opened, by simp only; omega, upper, bounded, rfl,
        fun head => by simp only at *; omega, last, fun _ => rfl⟩, ?_⟩
      simp only
      omega
    · -- Records from the place on have larger keys; the first of them is read only above zero.
      have larger := gap.above _ behind inTable
      have positive : 1 ≤ vars.mid := by
        by_contra zero
        have head : place = 0 := by omega
        have single : vars.right = 1 := by omega
        exact first head (single ▸ underflows_one)
      rw [searchPass_left more (by rw [probed]; exact larger), probed] at continues
      cases continues
      have exact : u32 (vars.mid + (2 ^ 32 - 1)) = vars.mid - 1 := by
        unfold u32
        omega
      rw [exact, u32_of_lt (show vars.left + (vars.mid - 1) < 2 ^ 32 by omega)]
      refine ⟨⟨opened, lower, by simp only; omega, by simp only; omega, rfl, ?_,
        fun full => by simp only; omega, fun full => by omega⟩, by simp only; omega⟩
      intro head
      have half : vars.mid - 1 = vars.right / 2 - 1 := by omega
      simp only [half]
      rw [underflows_half (by omega)]
      exact first head
  · rw [searchPass_last met] at continues
    cases continues
  · rw [searchPass_crossed crossed] at continues
    cases continues

/-- A place before the end leaves a larger key behind it, so that nothing stray can be meant. -/
theorem KeyGap.not_strayHit {place junk : Nat}
    (gap : KeyGap fp width key offset recordSize cnt place) (inner : place < cnt) :
    ¬ StrayHit fp width junk key offset recordSize cnt := by
  rintro ⟨largest, _⟩
  have := gap.above place (Nat.le_refl _) inner
  have := largest place inner
  omega

/-- A probe of the slot behind the table gives the key on a stray hit only. -/
theorem probe_end_iff {junk : Nat} (table : KeyTable fp.data width offset recordSize cnt)
    (largest : ∀ i, i < cnt → keyAt fp.data width offset recordSize i < key)
    (opened : vars.fp.data = fp.data)
    (read : vars.nKeyValue = keyBefore fp.data width junk offset recordSize cnt) :
    key = (vars.probe width offset recordSize cnt).1 ↔
      StrayHit fp width junk key offset recordSize cnt := by
  have file := fp.addressable
  have inside := table.inside
  -- The slot has an offset that can be sought, and what is read there is what a stray hit is about.
  rw [SearchVars.probe, readKey, u32_of_lt (show offset + cnt * recordSize < 2 ^ 32 by omega),
    File.fseek_of_lt (by omega), File.moveTo_eq_of_data opened, read]
  exact ⟨fun same => ⟨largest, same.symm⟩, fun stray => stray.2.symm⟩

/-- The loop leaves without success, unless the bytes behind the table pass for the key. -/
theorem Narrows.leave {place junk : Nat} (table : KeyTable fp.data width offset recordSize cnt)
    (gap : KeyGap fp width key offset recordSize cnt place)
    (narrows : Narrows fp width junk offset recordSize cnt place vars) {result : Bool × File}
    (leaves : searchPass width key offset recordSize vars = .inr result) :
    result.1 = true ↔ StrayHit fp width junk key offset recordSize cnt := by
  obtain ⟨opened, lower, upper, bounded, middle, first, last, read⟩ := narrows
  have room := gap.bounded
  rcases Nat.lt_trichotomy vars.left vars.right with more | met | crossed
  · have inTable : vars.mid < cnt := by omega
    have probed := table.probe_listed opened inTable
    rcases Nat.lt_or_ge vars.mid place with before | behind
    · rw [searchPass_right more (by rw [probed]; exact gap.below _ before)] at leaves
      cases leaves
    · rw [searchPass_left more (by rw [probed]; exact gap.above _ behind inTable)] at leaves
      cases leaves
  · rw [searchPass_last met] at leaves
    cases leaves
    simp only [decide_eq_true_eq]
    rcases Nat.lt_or_ge vars.left cnt with inTable | atEnd
    · -- The last record read is one of the table, which does not list the key.
      rw [table.probe_listed opened inTable]
      have differs := gap.not_listed inTable
      refine ⟨fun same => absurd same.symm differs, fun stray => ?_⟩
      rcases Nat.lt_or_ge place cnt with inner | full
      · exact absurd stray (gap.not_strayHit inner)
      · have := last (by omega)
        omega
    · -- Both bounds have reached the slot behind the table.
      have slot : vars.left = cnt := by omega
      rw [slot] at read ⊢
      exact probe_end_iff table (fun i low => gap.below i (by omega)) opened (read (by omega))
  · rw [searchPass_crossed crossed] at leaves
    cases leaves
    refine ⟨fun impossible => absurd impossible (by simp), fun stray => ?_⟩
    rcases Nat.lt_or_ge place cnt with inner | full
    · exact absurd stray (gap.not_strayHit inner)
    · have := last (by omega)
      omega

/-- A search for a key that is not listed returns, and with success only on a stray hit. -/
theorem searchKeyValue_gap {place : Nat} (table : KeyTable fp.data width offset recordSize cnt)
    (gap : KeyGap fp width key offset recordSize cnt place)
    (tame : place = 0 → ¬ Underflows cnt) (junk : Nat) :
    ∃ result, Loop.Ends (searchPass width key offset recordSize)
        (searchStart width fp cnt junk) result ∧
      (result.1 = true ↔ StrayHit fp width junk key offset recordSize cnt) := by
  exact Loop.ends_of_variant (Narrows fp width junk offset recordSize cnt place)
    (fun vars => vars.right + 1 - vars.left) _
    (fun _ _ narrows continues => narrows.pass table gap continues)
    (fun _ _ narrows leaves => narrows.leave table gap leaves)
    (narrows_start table gap tame junk)

/-- A search that reports success stands behind the key of a record of the table. -/
def FindsListed (fp : File) (width : KeyWidth) (junk key offset recordSize cnt : Nat) : Prop :=
  ∀ fuel fp', searchKeyValue width junk fuel fp key offset recordSize cnt = some (true, fp') →
    ∃ index, index < cnt ∧ keyAt fp.data width offset recordSize index = key ∧
      fp'.pos = offset + index * recordSize + width.bytes

/-- Without an underflow and a stray hit nothing is reported but listed keys. -/
theorem KeyTable.findsListed (table : KeyTable fp.data width offset recordSize cnt) {junk : Nat}
    (tame : ¬ ((∀ i, i < cnt → key < keyAt fp.data width offset recordSize i) ∧ Underflows cnt))
    (noStray : ¬ StrayHit fp width junk key offset recordSize cnt) :
    FindsListed fp width junk key offset recordSize cnt := by
  intro fuel fp' ended
  rcases table.listed_or_gap key with ⟨target, listed, held⟩ | ⟨place, gap⟩
  · -- A listed key is found where it stands.
    subst held
    have found := Loop.Ends.unique ⟨fuel, ended⟩ (searchKeyValue_listed table listed junk)
    cases found
    exact ⟨target, listed, rfl, rfl⟩
  · -- An unlisted key cannot be reported at all.
    have room : place = 0 → ¬ Underflows cnt := by
      intro head wraps
      exact tame ⟨fun i low => gap.above i (by omega) low, wraps⟩
    obtain ⟨result, found, success⟩ := searchKeyValue_gap table gap room junk
    cases Loop.Ends.unique ⟨fuel, ended⟩ found
    exact absurd (success.mp rfl) noStray

/--
Success means a record of the table, unless the bounds underflow or the bytes behind the table
match.

The bounds underflow for keys below the whole table, at the sizes that halve down to one record.
A match behind the table is always reported as a success.
-/
theorem searchKeyValue_sound (table : KeyTable fp.data width offset recordSize cnt)
    (key junk : Nat) :
    ((¬ ((∀ i, i < cnt → key < keyAt fp.data width offset recordSize i) ∧ Underflows cnt) ∧
        ¬ StrayHit fp width junk key offset recordSize cnt) →
      FindsListed fp width junk key offset recordSize cnt) ∧
    (StrayHit fp width junk key offset recordSize cnt →
      ¬ FindsListed fp width junk key offset recordSize cnt) := by
  refine ⟨fun ⟨tame, noStray⟩ => table.findsListed tame noStray, fun stray finds => ?_⟩
  rcases table.listed_or_gap key with ⟨target, listed, held⟩ | ⟨place, gap⟩
  · -- A listed key has no stray copy above all keys.
    exact absurd (stray.1 target listed) (by omega)
  · have room : place = 0 → ¬ Underflows cnt := by
      intro head wraps
      have none : cnt = 0 := by
        by_contra some
        have := gap.above 0 (by omega) (by omega)
        have := stray.1 0 (by omega)
        omega
      exact not_underflows_zero (none ▸ wraps)
    obtain ⟨⟨success, fp'⟩, ⟨fuel, ended⟩, hit⟩ := searchKeyValue_gap table gap room junk
    have reported : success = true := hit.mpr stray
    subst reported
    obtain ⟨index, listed, held, _⟩ := finds fuel fp' ended
    exact gap.not_listed listed held

/-- A key between the two records is not reported. -/
theorem searchKeyValue_sound_between :
    KeyTable twoRecords.data .u32 0 8 2 ∧ FindsListed twoRecords .u32 0 15 0 8 2 := by
  -- The key is neither smaller than all keys nor greater than all of them.
  have table : KeyTable twoRecords.data .u32 0 8 2 := by decide
  refine ⟨table, (searchKeyValue_sound table 15 0).1 ⟨?_, ?_⟩⟩
  · rintro ⟨smallest, _⟩
    exact absurd (smallest 0 (by decide)) (by decide)
  · rintro ⟨largest, _⟩
    exact absurd (largest 1 (by decide)) (by decide)

/-- The bytes behind the two records pass for a third one with the key 30. -/
theorem searchKeyValue_stray :
    KeyTable twoRecords.data .u32 0 8 2 ∧ ¬ FindsListed twoRecords .u32 0 30 0 8 2 := by
  -- The search reports a hit, and neither of the two records has the key.
  refine ⟨by decide, fun finds => ?_⟩
  obtain ⟨index, listed, held, _⟩ := finds 3 (twoRecords.moveTo 20) (by decide)
  have cases : index = 0 ∨ index = 1 := by omega
  rcases cases with rfl | rfl
  · exact absurd held (by decide)
  · exact absurd held (by decide)

end Bounds

section Unsorted

/--
Where halving between two bounds ends for a key, in whatever order the keys stand.

It stops at a record with the key, or nowhere. A step to the left of the first record is none of
its steps.
-/
inductive HalvesTo (keys : Nat → Nat) (key : Nat) : Nat → Nat → Option Nat → Prop
  | found {left right : Nat} (more : left < right) (same : keys ((left + right) / 2) = key) :
    HalvesTo keys key left right (some ((left + right) / 2))
  | right {left right : Nat} {stop : Option Nat} (more : left < right)
    (smaller : keys ((left + right) / 2) < key)
    (later : HalvesTo keys key ((left + right) / 2 + 1) right stop) :
    HalvesTo keys key left right stop
  | left {left right : Nat} {stop : Option Nat} (more : left < right)
    (larger : key < keys ((left + right) / 2)) (room : 0 < (left + right) / 2)
    (later : HalvesTo keys key left ((left + right) / 2 - 1) stop) :
    HalvesTo keys key left right stop
  | last {bound : Nat} (same : keys bound = key) : HalvesTo keys key bound bound (some bound)
  | differs {bound : Nat} (differs : keys bound ≠ key) : HalvesTo keys key bound bound none
  | crossed {left right : Nat} (crossed : right < left) : HalvesTo keys key left right none

variable {fp : File} {width : KeyWidth} {key offset recordSize cnt : Nat}

/-- Over records inside the file, the search ends where halving does. -/
theorem HalvesTo.ends {left right : Nat} {stop : Option Nat}
    (halves : HalvesTo (keyAt fp.data width offset recordSize) key left right stop)
    (inside : ∀ index, index ≤ cnt →
      offset + index * recordSize + width.bytes ≤ fp.data.length)
    (few : cnt < 2 ^ 31) :
    ∀ vars : SearchVars, vars.fp.data = fp.data → vars.left = left → vars.right = right →
      vars.left ≤ cnt + 1 → vars.right ≤ cnt → vars.mid = (left + right) / 2 →
      ∃ after : File, after.data = fp.data ∧
        (∀ index ∈ stop, index ≤ cnt ∧
          after = fp.moveTo (offset + index * recordSize + width.bytes)) ∧
        Loop.Ends (searchPass width key offset recordSize) vars (stop.isSome, after) := by
  -- Each step of halving is one pass, which leaves the file behind the key it read.
  have probed : ∀ (vars : SearchVars) index, vars.fp.data = fp.data → index ≤ cnt →
      vars.probe width offset recordSize index =
        (keyAt fp.data width offset recordSize index,
          fp.moveTo (offset + index * recordSize + width.bytes)) := by
    intro vars index opened listed
    rw [probe_inside opened (inside index listed), File.moveTo_eq_of_data opened]
  induction halves with
  | found more same =>
    rintro vars opened rfl rfl low high middle
    rw [← middle] at same ⊢
    have here := probed vars vars.mid opened (by omega)
    have pass := searchPass_found more (same.symm.trans (congrArg Prod.fst here).symm)
    rw [here] at pass
    refine ⟨fp.moveTo (offset + vars.mid * recordSize + width.bytes), rfl, ?_,
      Loop.ends_leave pass⟩
    rintro index ⟨⟩
    exact ⟨by omega, rfl⟩
  | right more smaller later ih =>
    rintro vars opened rfl rfl low high middle
    rw [← middle] at smaller ih
    have pass := searchPass_right more (by rw [probed vars _ opened (by omega)]; exact smaller)
    rw [probed vars _ opened (by omega), u32_of_lt (show vars.mid + 1 < 2 ^ 32 by omega),
      u32_of_lt (show vars.mid + 1 + vars.right < 2 ^ 32 by omega)] at pass
    obtain ⟨after, same, stops, ended⟩ := ih
      ⟨fp.moveTo (offset + vars.mid * recordSize + width.bytes), vars.mid + 1, vars.right, _,
        keyAt fp.data width offset recordSize vars.mid⟩
      rfl rfl rfl (show vars.mid + 1 ≤ cnt + 1 by omega) high rfl
    exact ⟨after, same, stops, (Loop.ends_continue pass).mpr ended⟩
  | left more larger room later ih =>
    rintro vars opened rfl rfl low high middle
    rw [← middle] at larger ih room
    have pass := searchPass_left more (by rw [probed vars _ opened (by omega)]; exact larger)
    have exact : u32 (vars.mid + (2 ^ 32 - 1)) = vars.mid - 1 := by
      unfold u32
      omega
    rw [probed vars _ opened (by omega), exact,
      u32_of_lt (show vars.left + (vars.mid - 1) < 2 ^ 32 by omega)] at pass
    obtain ⟨after, same, stops, ended⟩ := ih
      ⟨fp.moveTo (offset + vars.mid * recordSize + width.bytes), vars.left, vars.mid - 1, _,
        keyAt fp.data width offset recordSize vars.mid⟩
      rfl rfl rfl low (show vars.mid - 1 ≤ cnt by omega) rfl
    exact ⟨after, same, stops, (Loop.ends_continue pass).mpr ended⟩
  | @last bound same =>
    rintro vars opened met other low high middle
    have pass : searchPass width key offset recordSize vars = _ :=
      searchPass_last (met.trans other.symm)
    rw [probed vars _ opened (by omega), met, decide_eq_true same.symm] at pass
    refine ⟨fp.moveTo (offset + bound * recordSize + width.bytes), rfl, ?_, Loop.ends_leave pass⟩
    rintro index ⟨⟩
    exact ⟨by omega, rfl⟩
  | @differs bound differs =>
    rintro vars opened met other low high middle
    have pass : searchPass width key offset recordSize vars = _ :=
      searchPass_last (met.trans other.symm)
    rw [probed vars _ opened (by omega), met, decide_eq_false (Ne.symm differs)] at pass
    exact ⟨fp.moveTo (offset + bound * recordSize + width.bytes), rfl, by simp,
      Loop.ends_leave pass⟩
  | crossed crossed =>
    rintro vars opened rfl rfl low high middle
    exact ⟨vars.fp, opened, by simp, Loop.ends_leave (searchPass_crossed crossed)⟩

/-- The whole search ends where halving the whole table does. -/
theorem searchKeyValue_halves {stop : Option Nat}
    (halves : HalvesTo (keyAt fp.data width offset recordSize) key 0 cnt stop)
    (inside : ∀ index, index ≤ cnt →
      offset + index * recordSize + width.bytes ≤ fp.data.length)
    (few : cnt < 2 ^ 31) (junk : Nat) :
    ∃ after : File, after.data = fp.data ∧
      (∀ index ∈ stop, index ≤ cnt ∧
        after = fp.moveTo (offset + index * recordSize + width.bytes)) ∧
      Loop.Yields (fun fuel => searchKeyValue width junk fuel fp key offset recordSize cnt)
        (stop.isSome, after) := by
  have middle : (searchStart width fp cnt junk).mid = (0 + cnt) / 2 := by
    simp only [searchStart]
    rw [u32_of_lt (by omega)]
  obtain ⟨after, same, stops, ended⟩ := halves.ends inside few (searchStart width fp cnt junk) rfl
    rfl rfl (Nat.zero_le _) (Nat.le_refl _) middle
  exact ⟨after, same, stops, ended.yields⟩

end Unsorted

end AndroidApps.Gildroia
