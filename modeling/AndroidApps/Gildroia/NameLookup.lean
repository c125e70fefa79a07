import AndroidApps.Gildroia.ChainWalks

/-! When the search for the name of a region finds one, whatever the text manager did before. -/

namespace AndroidApps.Gildroia

section Finding

variable {mng other : TextMng} {width : KeyWidth} {nBufIdx : Fin 4} {junk fuel tableOfs key : Nat}

/-- Whether the search for a key in a table of names finds it, if the search comes back. -/
def TextMng.finds (mng : TextMng) (width : KeyWidth) (nBufIdx : Fin 4)
    (junk fuel tableOfs key : Nat) : Option Bool :=
  (mng.getName width nBufIdx junk fuel tableOfs key).map fun outcome => outcome.1.isSome

/-- It is the search behind the number of entries that decides. -/
theorem finds_eq :
    mng.finds width nBufIdx junk fuel tableOfs key =
      let counted := (mng.nameFp.fseek tableOfs).freadWord 4 (u32 junk)
      (searchKeyValue width junk fuel counted.2 key counted.2.pos (width.bytes + 4) counted.1).map
        Prod.fst := by
  -- Copying the text behind a hit does not decide whether there was one.
  unfold TextMng.finds TextMng.getName
  dsimp only
  cases searchKeyValue width junk fuel ((mng.nameFp.fseek tableOfs).freadWord 4 (u32 junk)).2 key
    ((mng.nameFp.fseek tableOfs).freadWord 4 (u32 junk)).2.pos (width.bytes + 4)
    ((mng.nameFp.fseek tableOfs).freadWord 4 (u32 junk)).1 with
  | none => rfl
  | some outcome =>
    obtain ⟨hit, fp⟩ := outcome
    cases hit <;> rfl

/-- What is found in a table inside the file does not depend on what was read before. -/
theorem finds_of_data (same : mng.nameFp.data = other.nameFp.data) (placed : tableOfs < 2 ^ 31) :
    mng.finds width nBufIdx junk fuel tableOfs key =
      other.finds width nBufIdx junk fuel tableOfs key := by
  rw [finds_eq, finds_eq, File.fseek_of_lt placed, File.fseek_of_lt placed,
    File.moveTo_eq_of_data same]

/-- What is found is final. -/
theorem finds_final (mng : TextMng) (width : KeyWidth) (nBufIdx : Fin 4)
    (junk tableOfs key : Nat) :
    Loop.Final fun fuel => mng.finds width nBufIdx junk fuel tableOfs key := by
  -- The search behind the number of entries is all that takes passes.
  simp only [finds_eq]
  exact (searchKeyValue_final width junk _ key _ (width.bytes + 4) _).map Prod.fst

/-- A table of names with this number of entries, in the order of their keys. -/
structure NameTable (mng : TextMng) (width : KeyWidth) (tableOfs count : Nat) : Prop where
  inside : tableOfs + 4 ≤ mng.nameFp.data.length
  counted : wordAt mng.nameFp.data tableOfs 4 = count
  table : KeyTable mng.nameFp.data width (tableOfs + 4) (width.bytes + 4) count

/-- The key of an entry of a table of names. -/
def TextMng.nameKey (mng : TextMng) (width : KeyWidth) (tableOfs index : Nat) : Nat :=
  keyAt mng.nameFp.data width (tableOfs + 4) (width.bytes + 4) index

/-- In a table of names it is the search over its entries that decides. -/
theorem NameTable.finds_eq {count : Nat} (names : NameTable mng width tableOfs count) :
    mng.finds width nBufIdx junk fuel tableOfs key =
      (searchKeyValue width junk fuel (mng.nameFp.moveTo (tableOfs + 4)) key (tableOfs + 4)
        (width.bytes + 4) count).map Prod.fst := by
  -- The number of entries stands in front of them and is read first.
  obtain ⟨inside, counted, _⟩ := names
  have read : (mng.nameFp.fseek tableOfs).freadWord 4 (u32 junk) =
      (count, mng.nameFp.moveTo (tableOfs + 4)) := by
    rw [File.freadWord_fseek inside, counted]
  rw [AndroidApps.Gildroia.finds_eq, read]
  rfl

/-- The keys of a table are found. -/
theorem NameTable.finds {count index : Nat} (names : NameTable mng width tableOfs count)
    (listed : index < count) (nBufIdx : Fin 4) (junk : Nat) :
    ∃ enough, ∀ fuel, enough ≤ fuel →
      mng.finds width nBufIdx junk fuel tableOfs (mng.nameKey width tableOfs index) =
        some true := by
  -- The search over the entries finds a listed key, and the number of entries is read in front.
  have table : KeyTable (mng.nameFp.moveTo (tableOfs + 4)).data width (tableOfs + 4)
    (width.bytes + 4) count := names.table
  obtain ⟨enough, found⟩ := searchKeyValue_listed table listed junk
  refine ⟨enough, fun fuel longer => ?_⟩
  rw [names.finds_eq]
  exact congrArg (Option.map Prod.fst) (Loop.run_mono found longer)

/-- A key that falls into a gap of the table is missed, unless what is behind passes for it. -/
theorem NameTable.misses {count place : Nat} (names : NameTable mng width tableOfs count)
    (gap : KeyGap mng.nameFp width key (tableOfs + 4) (width.bytes + 4) count place)
    (tame : place = 0 → ¬ Underflows count)
    (stray : ¬ StrayHit mng.nameFp width junk key (tableOfs + 4) (width.bytes + 4) count)
    (nBufIdx : Fin 4) :
    ∃ enough, ∀ fuel, enough ≤ fuel →
      mng.finds width nBufIdx junk fuel tableOfs key = some false := by
  -- The gap is the same wherever the file stands.
  have table : KeyTable (mng.nameFp.moveTo (tableOfs + 4)).data width (tableOfs + 4)
    (width.bytes + 4) count := names.table
  have gap : KeyGap (mng.nameFp.moveTo (tableOfs + 4)) width key (tableOfs + 4) (width.bytes + 4)
    count place := ⟨gap.bounded, gap.below, gap.above⟩
  obtain ⟨result, ⟨enough, found⟩, hits⟩ := searchKeyValue_gap table gap tame junk
  have missed : result.1 = false := Bool.eq_false_iff.mpr fun hit => stray (hits.mp hit)
  refine ⟨enough, fun fuel longer => ?_⟩
  rw [names.finds_eq, ← missed]
  exact congrArg (Option.map Prod.fst) (Loop.run_mono found longer)

end Finding

section Dongs

variable {textMng next : TextMng} {junk fuel code : Nat}

/-- A name that is copied leaves the names as they are. -/
theorem copiedName_sameNames {nLen : Nat} {name : List UInt16}
    (copied : copiedName (textMng.getDongName junk fuel code) = some (name, nLen, next)) :
    next.SameNames textMng := by
  -- Only a lookup that found a name goes on to copy it.
  unfold copiedName at copied
  split at copied
  · rename_i looked
    cases copied
    exact getName_sameNames looked
  · cases copied

/-- A dong has a name: its code is found within the given number of passes. -/
def TextMng.Names (textMng : TextMng) (junk fuel code : Nat) : Prop :=
  (copiedName (textMng.getDongName junk fuel code)).isSome = true

/-- A name is copied when its code is found. -/
theorem names_iff_finds :
    textMng.Names junk fuel code ↔
      textMng.finds .u32 2 junk fuel textMng.dongOfs code = some true := by
  -- Copying the name cannot fail, so that finding it is all there is to naming.
  unfold TextMng.Names copiedName TextMng.finds TextMng.getDongName
  cases textMng.getName .u32 2 junk fuel textMng.dongOfs code with
  | none => simp
  | some outcome =>
    obtain ⟨found, after⟩ := outcome
    cases found with
    | none => simp
    | some name => simp

/-- Whether a code has a name does not depend on what was read before. -/
theorem names_iff (same : next.SameNames textMng) (placed : textMng.dongOfs < 2 ^ 31)
    (junk code : Nat) : next.Names junk fuel code ↔ textMng.Names junk fuel code := by
  rw [names_iff_finds, names_iff_finds, same.dongOfs, finds_of_data same.nameFp placed]

/-- A dong has a name when the search for its code comes back with one in the present state. -/
theorem dongNamed_iff (placed : textMng.dongOfs < 2 ^ 31) (code : Nat) :
    DongNamed textMng code ↔
      ∀ junk, ∃ enough, ∀ fuel, enough ≤ fuel → textMng.Names junk fuel code := by
  -- All states with the same names look the same up.
  refine forall_congr' fun junk => exists_congr fun enough => forall₂_congr fun fuel _ => ?_
  constructor
  · intro named
    exact named textMng ⟨rfl, rfl, rfl⟩
  · intro named mng same
    exact (names_iff same placed junk code).mpr named

/-- A code that the table of dong names lists has a name. -/
theorem dongNamed_listed {count index : Nat} (names : NameTable textMng .u32 textMng.dongOfs count)
    (listed : index < count) :
    DongNamed textMng (textMng.nameKey .u32 textMng.dongOfs index) := by
  rw [dongNamed_iff (File.offset_lt names.inside)]
  intro junk
  obtain ⟨enough, found⟩ := names.finds listed 2 junk
  exact ⟨enough, fun fuel longer => names_iff_finds.mpr (found fuel longer)⟩

end Dongs

end AndroidApps.Gildroia
