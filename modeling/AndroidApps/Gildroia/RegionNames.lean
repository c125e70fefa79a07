import AndroidApps.Gildroia.ChainListing
import AndroidApps.Gildroia.NameMatchLaws
import AndroidApps.Gildroia.UmModule
import AndroidApps.Gildroia.PoiNameComplete
import AndroidApps.Lib.Latch

/-! What the searches for dongs and roads by name return, over all files. -/

namespace AndroidApps.Gildroia

section Buckets

/-- Where the bucket of an index record begins. -/
def choStart (data : List UInt8) (choIdxOfs index : Nat) : Nat :=
  wordAt data (choIdxOfs + index * 8 + 4) 4

/-- How many offsets it holds: the next bucket begins where it ends. -/
def choCount (data : List UInt8) (choIdxOfs index : Nat) : Nat :=
  u32Sub (choStart data choIdxOfs (index + 1)) (choStart data choIdxOfs index) / 4

/-- The offsets in the bucket of a code: that of the index record with the code, or none. -/
def regionBucket (data : List UInt8) (choIdxOfs choIdxCnt choCode : Nat) : List Nat :=
  match (List.range choIdxCnt).find? fun index =>
    keyAt data .u32 choIdxOfs 8 index == choCode with
  | none => []
  | some index =>
    File.elementsAt leWord 4 data (choStart data choIdxOfs index) (choCount data choIdxOfs index)

/--
A chosung index with its buckets inside the file, in which the search for a code does not wrap.

The record behind the index holds the end of the last bucket, and no code that is looked up.
-/
structure RegionIndex (data : List UInt8) (choIdxOfs choIdxCnt choCode : Nat) : Prop where
  table : KeyTable data .u32 choIdxOfs 8 choIdxCnt
  closed : choIdxOfs + choIdxCnt * 8 + 8 ≤ data.length
  buckets : ∀ index, index < choIdxCnt →
    choStart data choIdxOfs index + choCount data choIdxOfs index * 4 ≤ data.length
  tame : (∀ index, index < choIdxCnt → choCode < keyAt data .u32 choIdxOfs 8 index) →
    ¬ Underflows choIdxCnt
  fenced : keyAt data .u32 choIdxOfs 8 choIdxCnt ≠ choCode

variable {locals : RegionLocals} {fp : File} {choIdxOfs choIdxCnt choCode fuel : Nat}

/-- Behind a key that was found, the lookup reads the begin of its bucket and that of the next. -/
theorem findChosungOffsetDong_found {index : Nat}
    (searched : searchu32KeyValue locals.nKeyValue fuel fp choCode choIdxOfs 8 choIdxCnt =
      some (true, fp.moveTo (choIdxOfs + index * 8 + 4)))
    (room : choIdxOfs + index * 8 + 16 ≤ fp.data.length) :
    findChosungOffsetDong locals fuel fp choIdxOfs choIdxCnt choCode =
      some (some (choStart fp.data choIdxOfs index, choCount fp.data choIdxOfs index),
        fp.moveTo (choIdxOfs + index * 8 + 16)) := by
  -- Of the three words that are read, the second one is a key and is overwritten.
  unfold findChosungOffsetDong
  rw [searched]
  dsimp only
  rw [File.freadWord_moveTo (by omega)]
  dsimp only
  rw [File.freadWord_moveTo (by omega)]
  dsimp only
  rw [File.freadWord_moveTo (by omega)]
  rw [choCount, choStart, choStart, show choIdxOfs + (index + 1) * 8 + 4 =
    choIdxOfs + index * 8 + 4 + 4 + 4 by omega]

/-- The lookup of a code leads to its bucket, or tells that there is none. -/
theorem findChosungOffsetDong_yields (locals : RegionLocals)
    (index : RegionIndex fp.data choIdxOfs choIdxCnt choCode) :
    ∃ found next,
      Loop.Yields (fun fuel => findChosungOffsetDong locals fuel fp choIdxOfs choIdxCnt choCode)
        (found, next) ∧
      next.data = fp.data ∧
      (∀ bucket, found = some bucket → bucket.1 + bucket.2 * 4 ≤ fp.data.length) ∧
      regionBucket fp.data choIdxOfs choIdxCnt choCode =
        found.elim [] fun bucket => File.elementsAt leWord 4 fp.data bucket.1 bucket.2 := by
  have closed := index.closed
  unfold regionBucket
  cases listed : (List.range choIdxCnt).find? fun index =>
    keyAt fp.data .u32 choIdxOfs 8 index == choCode with
  | some place =>
    -- The key of the record is found, and the words behind it are inside the file.
    have inside := List.mem_range.mp (List.mem_of_find?_eq_some listed)
    have same := List.find?_some listed
    obtain ⟨enough, found⟩ := searchKeyValue_listed index.table inside locals.nKeyValue
    rw [beq_iff_eq.mp same] at found
    refine ⟨some (choStart fp.data choIdxOfs place, choCount fp.data choIdxOfs place),
      fp.moveTo (choIdxOfs + place * 8 + 16), ⟨enough, fun fuel longer => ?_⟩, rfl, ?_, rfl⟩
    · exact findChosungOffsetDong_found (Loop.run_mono found longer) (by omega)
    · rintro bucket same
      obtain rfl := Option.some.inj same
      exact index.buckets place inside
  | none =>
    -- The code falls into a gap, and what stands behind the index does not pass for it.
    have absent : ∀ place, place < choIdxCnt →
        keyAt fp.data .u32 choIdxOfs 8 place ≠ choCode := by
      intro place inside key
      exact List.find?_eq_none.mp listed place (List.mem_range.mpr inside) (beq_iff_eq.mpr key)
    rcases index.table.listed_or_gap choCode with ⟨place, inside, key⟩ | ⟨place, gap⟩
    · exact absurd key (absent place inside)
    · have room : place = 0 → ¬ Underflows choIdxCnt := by
        rintro rfl
        exact index.tame fun i inside => gap.above i (Nat.zero_le i) inside
      obtain ⟨⟨hit, next⟩, ⟨enough, missed⟩, stray⟩ :=
        searchKeyValue_gap index.table gap room locals.nKeyValue
      -- A stray hit would have to be the key behind the index, which is no code.
      have no : hit = false := by
        rw [Bool.eq_false_iff]
        intro yes
        have behind := (stray.mp yes).2
        rw [File.wordOver, File.freadWord_moveTo (by simp only [KeyWidth.bytes]; omega)] at behind
        exact index.fenced behind
      subst no
      have same := searchKeyValue_data (show searchKeyValue .u32 locals.nKeyValue enough fp choCode
        choIdxOfs 8 choIdxCnt = some (false, next) from missed)
      refine ⟨none, next, ⟨enough, fun fuel longer => ?_⟩, same, ?_, rfl⟩
      · have ended : searchu32KeyValue locals.nKeyValue fuel fp choCode choIdxOfs 8 choIdxCnt =
          some (false, next) := Loop.run_mono missed longer
        show findChosungOffsetDong locals fuel fp choIdxOfs choIdxCnt choCode = _
        unfold findChosungOffsetDong
        rw [ended]
      · rintro bucket found
        cases found

/-- The offsets of a bucket inside the file are all read. -/
theorem readOffsets_inside {choOfs choCnt : Nat} (inside : choOfs + choCnt * 4 ≤ fp.data.length) :
    readOffsets locals fp choOfs choCnt =
      (File.elementsAt leWord 4 fp.data choOfs choCnt, fp.moveTo (choOfs + choCnt * 4)) := by
  -- No slot of the array keeps what it held before.
  unfold readOffsets
  rw [File.fseek_of_lt (File.offset_lt inside), File.freadArray_inside (by simpa using inside)]
  simp

end Buckets

section Texts

/-- The same names and the same texts: a text manager, whatever it was asked before. -/
structure TextMng.SameTexts (mng other : TextMng) : Prop extends mng.SameNames other where
  textFp : mng.textFp.data = other.textFp.data

theorem TextMng.SameTexts.trans {first second third : TextMng} (one : first.SameTexts second)
    (two : second.SameTexts third) : first.SameTexts third :=
  ⟨one.toSameNames.trans two.toSameNames, one.textFp.trans two.textFp⟩

theorem TextMng.SameTexts.refl (mng : TextMng) : mng.SameTexts mng := ⟨⟨rfl, rfl, rfl⟩, rfl⟩

variable {textMng mng : TextMng} {tableOfs count key : Nat}

/-- The packed offset a table of names has for a key. -/
def TextMng.packedOf (textMng : TextMng) (tableOfs count key : Nat) : Option Nat :=
  ((List.range count).find? fun index => textMng.nameKey .u32 tableOfs index == key).map
    fun index => wordAt textMng.nameFp.data (tableOfs + 4 + index * 8 + 4) 4

/-- A table of names whose texts are inside the file of texts, without terminators of their own. -/
structure TextTable (textMng : TextMng) (tableOfs count : Nat) : Prop where
  names : NameTable textMng .u32 tableOfs count
  texts : ∀ key packed, textMng.packedOf tableOfs count key = some packed →
    TextInside textMng.textFp.data packed ∧ 0 ∉ textAt textMng.textFp.data packed

/-- The search for a code neither wraps nor takes what is behind the table for it. -/
structure TextMng.LooksUp (textMng : TextMng) (tableOfs count key : Nat) : Prop where
  tame : (∀ index, index < count → key < textMng.nameKey .u32 tableOfs index) → ¬ Underflows count
  stray : ∀ junk, ¬ StrayHit textMng.nameFp .u32 junk key (tableOfs + 4) 8 count

/-- A lookup leaves the texts as they are. -/
theorem getName_textFp {width : KeyWidth} {nBufIdx : Fin 4} {junk fuel : Nat} {after : TextMng}
    {found : Option (List UInt16 × Nat)}
    (looked : mng.getName width nBufIdx junk fuel tableOfs key = some (found, after)) :
    after.textFp.data = mng.textFp.data := by
  unfold TextMng.getName at looked
  simp only at looked
  split at looked
  · cases looked
  · cases looked
    rfl
  · cases looked
    simp

/-- The characters of a name that was read stand in front of what was left in its buffer. -/
theorem getTextOfs_take {packed : Nat} {nBufIdx : Fin 4}
    (inside : TextInside mng.textFp.data packed) :
    (mng.getTextOfs packed nBufIdx).1.take (packed % 32) = textAt mng.textFp.data packed := by
  rw [getTextOfs_text nBufIdx inside, List.take_left' (textAt_length _ _)]

/-- A lookup that meets its key goes on to the text of the word behind it. -/
theorem getName_found {nBufIdx : Fin 4} {junk fuel place : Nat} {fp : File}
    (counted : (mng.nameFp.fseek tableOfs).freadWord 4 (u32 junk) =
      (count, fp.moveTo (tableOfs + 4)))
    (ended : searchKeyValue .u32 junk fuel (fp.moveTo (tableOfs + 4)) key (tableOfs + 4) 8 count =
      some (true, fp.moveTo place)) (room : place + 4 ≤ fp.data.length) :
    mng.getName .u32 nBufIdx junk fuel tableOfs key =
      let packed := wordAt fp.data place 4
      let read := TextMng.getTextOfs { mng with nameFp := fp.moveTo (place + 4) } packed nBufIdx
      some (some (read.1, packed % 32), read.2) := by
  -- The count is read, the key is met, and the packed offset stands behind it.
  unfold TextMng.getName
  rw [counted]
  dsimp only [KeyWidth.bytes, File.moveTo_pos]
  rw [ended]
  dsimp only
  rw [File.freadWord_moveTo room]

/-- A code with a name is looked up, whatever the text manager was asked before. -/
theorem TextTable.getName_yields (table : TextTable textMng tableOfs count) {packed : Nat}
    (named : textMng.packedOf tableOfs count key = some packed) (nBufIdx : Fin 4) (junk : Nat) :
    ∃ enough, ∀ fuel, enough ≤ fuel → ∀ mng : TextMng, mng.SameTexts textMng →
      ∃ text after, mng.getName .u32 nBufIdx junk fuel tableOfs key =
          some (some (text, packed % 32), after) ∧
        text.take (packed % 32) = textAt textMng.textFp.data packed ∧
        cString text = textAt textMng.textFp.data packed ∧ after.SameTexts textMng := by
  obtain ⟨inside, plain⟩ := table.texts key packed named
  obtain ⟨index, found, rfl⟩ := Option.map_eq_some_iff.mp named
  have listed := List.mem_range.mp (List.mem_of_find?_eq_some found)
  have held := List.find?_some found
  -- The search finds the key, and the word behind it is the packed offset.
  have keys : KeyTable (textMng.nameFp.moveTo (tableOfs + 4)).data .u32 (tableOfs + 4) 8 count :=
    table.names.table
  have room : tableOfs + 4 + index * 8 + 4 + 4 ≤ textMng.nameFp.data.length := by
    have whole := keys.inside
    rw [File.moveTo_data] at whole
    omega
  obtain ⟨enough, searched⟩ := searchKeyValue_listed keys listed junk
  rw [show keyAt (textMng.nameFp.moveTo (tableOfs + 4)).data .u32 (tableOfs + 4) 8 index = key
    from beq_iff_eq.mp held] at searched
  -- Any state of the text manager reads the same count and meets the same key.
  refine ⟨enough, fun fuel longer mng same => ?_⟩
  have counted : (mng.nameFp.fseek tableOfs).freadWord 4 (u32 junk) =
      (count, textMng.nameFp.moveTo (tableOfs + 4)) := by
    rw [File.freadWord_fseek (by rw [same.nameFp]; exact table.names.inside), same.nameFp,
      table.names.counted, File.moveTo_eq_of_data same.nameFp]
  have ended : searchKeyValue .u32 junk fuel (textMng.nameFp.moveTo (tableOfs + 4)) key
      (tableOfs + 4) 8 count =
      some (true, textMng.nameFp.moveTo (tableOfs + 4 + index * 8 + 4)) :=
    Loop.run_mono searched longer
  rw [← same.textFp] at inside plain ⊢
  refine ⟨_, _, getName_found counted ended room, ?_, ?_, ⟨rfl, same.dongOfs, same.roadOfs⟩, ?_⟩
  · exact getTextOfs_take inside
  · exact (cString_getTextOfs nBufIdx inside).trans (cString_eq_self plain)
  · exact (getTextOfs_data _ _ _).trans same.textFp

/-- The lookup of a code that the table does not list comes back without a name. -/
theorem TextTable.getName_misses (table : TextTable textMng tableOfs count)
    (unnamed : textMng.packedOf tableOfs count key = none)
    (tame : (∀ index, index < count → key < textMng.nameKey .u32 tableOfs index) →
      ¬ Underflows count)
    (junk : Nat)
    (stray : ¬ StrayHit textMng.nameFp .u32 junk key (tableOfs + 4) 8 count) (nBufIdx : Fin 4) :
    ∃ enough, ∀ fuel, enough ≤ fuel → ∀ mng : TextMng, mng.SameTexts textMng →
      ∃ after, mng.getName .u32 nBufIdx junk fuel tableOfs key = some (none, after) ∧
        after.SameTexts textMng := by
  have absent : ∀ index, index < count → textMng.nameKey .u32 tableOfs index ≠ key := by
    intro index inside held
    rw [TextMng.packedOf, Option.map_eq_none_iff] at unnamed
    exact List.find?_eq_none.mp unnamed index (List.mem_range.mpr inside) (beq_iff_eq.mpr held)
  -- The code falls into a gap of the table, where the search comes back empty.
  rcases table.names.table.listed_or_gap key with ⟨index, inside, held⟩ | ⟨place, gap⟩
  · exact absurd held (absent index inside)
  · have room : place = 0 → ¬ Underflows count := by
      rintro rfl
      exact tame fun i inside => gap.above i (Nat.zero_le i) inside
    obtain ⟨enough, missed⟩ := table.names.misses gap room stray nBufIdx
    refine ⟨enough, fun fuel longer mng same => ?_⟩
    -- Another state of the same text manager misses it, too.
    have here := missed fuel longer
    rw [← finds_of_data same.nameFp (File.offset_lt table.names.inside)] at here
    obtain ⟨⟨found, after⟩, looked, none⟩ := Option.map_eq_some_iff.mp here
    cases found with
    | some name => cases none
    | none =>
      exact ⟨after, looked, (getName_sameNames looked).trans same.toSameNames,
        (getName_textFp looked).trans same.textFp⟩

end Texts

section Matching

variable {pText : Nat → UInt16} {nLen : Nat}

instance (pText strName : Nat → UInt16) (nLen bound : Nat) :
    Decidable (agreesUpTo pText strName nLen bound) :=
  inferInstanceAs (Decidable (∀ j, j < bound → compared pText nLen j → _))

/-- What the matchers of dongs and roads say about a name, if they compare it at all. -/
def ownVerdict (pText : Nat → UInt16) (nLen : Nat) (name : List UInt16) : Option Bool :=
  if checkCompletHangul pText nLen ≠ 0 ∨ name.length > 2 then
    some (decide (agreesUpTo pText (fun j => name.getD j 0) nLen name.length))
  else none

/-- A matcher adds a name by its own verdict, or else by the flag it is left with. -/
theorem matchPass_flag (pText : Nat → UInt16) (nLen : Nat) {name : List UInt16} (plain : 0 ∉ name)
    (vars : MatchVars) :
    (matchPass pText (checkCompletHangul pText nLen) name.length vars name).2.bAddData =
      (ownVerdict pText nLen name).getD vars.bAddData := by
  unfold ownVerdict
  -- A name that is compared is judged, and one that is not leaves the flag.
  by_cases compares : checkCompletHangul pText nLen ≠ 0 ∨ name.length > 2
  · have accepts : _ ↔ agreesUpTo pText (u16cpy vars.name name) nLen name.length :=
      matchPass_accepts pText nLen name.length name (Or.inr compares)
    have whole : ∀ ch ∈ name, ch ≠ 0 := by
      intro ch member zero
      exact plain (zero ▸ member)
    rw [agreesUpTo_u16cpy _ whole (by omega)] at accepts
    rw [if_pos compares, Option.getD_some, Bool.eq_iff_iff, decide_eq_true_iff]
    exact accepts
  · rw [if_neg compares, matchPass, if_neg compares]
    rfl

/-- The flag a matcher is left with is that of the name it decided last. -/
theorem matchPass_kept (ckCmpHan length : Nat) (pText : Nat → UInt16) (vars : MatchVars)
    (name : List UInt16) :
    (matchPass pText ckCmpHan length vars name).1.bAddData =
      (matchPass pText ckCmpHan length vars name).2.bAddData := by
  unfold matchPass
  split
  · rfl
  · rfl

end Matching

section Helpers

variable {textMng : TextMng} {helper : SearchHelper} {count choCode nSidoIdx nLen : Nat}
  {pText : Nat → UInt16} {locals : RegionLocals}

/-- The dong at an offset, with the name the table has for its code. -/
def dongFound (textMng : TextMng) (helper : SearchHelper) (count nSidoIdx offset : Nat) :
    Option DongData :=
  (helper.findSigunguOfOffset offset false).bind fun pSigunguF =>
    (textMng.packedOf textMng.dongOfs count (dongCodeOf helper.sidoData.idx pSigunguF.code
      (dongAt helper.fp.data offset).code)).map fun packed =>
        ⟨nSidoIdx, pSigunguF, textAt textMng.textFp.data packed, packed % 32,
          dongAt helper.fp.data offset⟩

/-- The road at an offset, with the name the table has for its code. -/
def roadFound (textMng : TextMng) (helper : SearchHelper) (count nSidoIdx offset : Nat) :
    Option RoadData :=
  (helper.findSigunguOfOffset offset true).bind fun pSigunguF =>
    (textMng.packedOf textMng.roadOfs count (dongCodeOf helper.sidoData.idx pSigunguF.code
      (roadAt helper.fp.data offset).code)).map fun packed =>
        ⟨nSidoIdx, pSigunguF, textAt textMng.textFp.data packed, packed % 32,
          roadAt helper.fp.data offset⟩

/-- The dongs in the bucket of a code, in the order of the bucket. -/
def dongsOf (textMng : TextMng) (helper : SearchHelper) (count choCode nSidoIdx : Nat) :
    List DongData :=
  (regionBucket helper.fp.data helper.addrHeader.addrChoIdxOfs helper.addrHeader.addrChoIdxCnt
    choCode).filterMap (dongFound textMng helper count nSidoIdx)

/-- The roads with a name in the bucket of a code, in the order of the bucket. -/
def roadsOf (textMng : TextMng) (helper : SearchHelper) (count choCode nSidoIdx : Nat) :
    List RoadData :=
  (regionBucket helper.fp.data helper.addrHeader.roadChoIdxOfs helper.addrHeader.roadChoIdxCnt
    choCode).filterMap (roadFound textMng helper count nSidoIdx)

/-- A file whose dongs in the bucket of a code are inside the file, in a sigungu, and named. -/
structure DongsStored (textMng : TextMng) (helper : SearchHelper) (count choCode : Nat) :
    Prop where
  index : RegionIndex helper.fp.data helper.addrHeader.addrChoIdxOfs
    helper.addrHeader.addrChoIdxCnt choCode
  stored : ∀ offset ∈ regionBucket helper.fp.data helper.addrHeader.addrChoIdxOfs
    helper.addrHeader.addrChoIdxCnt choCode,
    offset + 18 ≤ helper.fp.data.length ∧ (dongFound textMng helper count 0 offset).isSome = true

/--
A file whose roads in the bucket of a code are inside the file and in a sigungu.

The search for the name of a road neither wraps nor takes what is behind the table for it.
-/
structure RoadsStored (textMng : TextMng) (helper : SearchHelper) (count choCode : Nat) :
    Prop where
  index : RegionIndex helper.fp.data helper.addrHeader.roadChoIdxOfs
    helper.addrHeader.roadChoIdxCnt choCode
  stored : ∀ offset ∈ regionBucket helper.fp.data helper.addrHeader.roadChoIdxOfs
    helper.addrHeader.roadChoIdxCnt choCode,
    offset + 10 ≤ helper.fp.data.length ∧
    ∃ pSigunguF, helper.findSigunguOfOffset offset true = some pSigunguF ∧
      textMng.LooksUp textMng.roadOfs count
        (dongCodeOf helper.sidoData.idx pSigunguF.code (roadAt helper.fp.data offset).code)

/-- The loop over a bucket, with the flag of its matcher and the result so far. -/
structure RegionLoop {info data : Type} (textMng : TextMng) (helper : SearchHelper) (flag : Bool)
    (result : List data) (state : RegionVars info data) : Prop where
  fp : state.fp.data = helper.fp.data
  texts : state.textMng.SameTexts textMng
  flag : state.vars.bAddData = flag
  result : state.result = result

/-- A region whose name was read is added when the matcher says so. -/
theorem RegionLoop.decide {info data : Type} {flag : Bool} {result : List data}
    {state : RegionVars info data} (here : RegionLoop textMng helper flag result state)
    {name : List UInt16} (plain : 0 ∉ name) {fp : File} (same : fp.data = state.fp.data)
    {after : TextMng} (texts : after.SameTexts textMng) (read : info) (region : data) :
    let decided := matchPass pText (checkCompletHangul pText nLen) name.length state.vars name
    RegionLoop textMng helper ((ownVerdict pText nLen name).getD flag)
      (result ++ if (ownVerdict pText nLen name).getD flag then [region] else [])
      ⟨fp, after, read, decided.1,
        if decided.2.bAddData then state.result ++ [region] else state.result⟩ := by
  -- The flag is the verdict on the name, or that of the pass before.
  have decided := matchPass_flag pText nLen plain state.vars
  have kept := matchPass_kept (checkCompletHangul pText nLen) name.length pText state.vars name
  rw [here.flag] at decided
  refine ⟨same.trans here.fp, texts, kept.trans decided, ?_⟩
  rw [← here.result]
  dsimp only
  rw [decided]
  split
  · rfl
  · exact (List.append_nil _).symm

/-- What a pass of such a loop does: nothing where no region is found, or it is left to the flag. -/
structure PassesOver {info data : Type} (textMng : TextMng) (helper : SearchHelper)
    (verdict : data → Option Bool) (found : Nat → Option data)
    (pass : RegionVars info data → Nat → Option (RegionVars info data)) (offset : Nat) :
    Prop where
  skips : found offset = none → ∀ flag result state, RegionLoop textMng helper flag result state →
    ∃ next, pass state offset = some next ∧ RegionLoop textMng helper flag result next
  adds : ∀ region, found offset = some region → ∀ flag result state,
    RegionLoop textMng helper flag result state →
      ∃ next, pass state offset = some next ∧
        RegionLoop textMng helper ((verdict region).getD flag)
          (result ++ if (verdict region).getD flag then [region] else []) next

/-- A dong of a bucket is read with its name, and is added when the matcher says so. -/
theorem searchDongPass_passes (locals : RegionLocals) (pText : Nat → UInt16) (nLen : Nat)
    (table : TextTable textMng textMng.dongOfs count) {offset : Nat}
    (inside : offset + 18 ≤ helper.fp.data.length)
    (named : (dongFound textMng helper count nSidoIdx offset).isSome = true) :
    ∃ enough, ∀ fuel, enough ≤ fuel →
      PassesOver textMng helper (fun dong => ownVerdict pText nLen dong.name)
        (dongFound textMng helper count nSidoIdx)
        (searchDongPass locals fuel helper nSidoIdx pText (checkCompletHangul pText nLen))
        offset := by
  obtain ⟨dong, found⟩ := Option.isSome_iff_exists.mp named
  obtain ⟨pSigunguF, sigungu, named⟩ := Option.bind_eq_some_iff.mp found
  obtain ⟨packed, listed, rfl⟩ := Option.map_eq_some_iff.mp named
  obtain ⟨enough, looked⟩ := table.getName_yields listed 2 locals.nKeyValue
  obtain ⟨_, plain⟩ := table.texts _ packed listed
  -- The dong is named, so that it is never passed over.
  refine ⟨enough, fun fuel longer => ⟨fun none => ?_, ?_⟩⟩
  · rw [found] at none
    cases none
  · rintro dong same flag result state here
    obtain rfl := Option.some.inj (found.symm.trans same)
    obtain ⟨text, after, name, chars, whole, texts⟩ := looked fuel longer state.textMng here.texts
    -- The record is read, then the sigungu is found, then the name is looked up.
    have record : (state.fp.fseek offset).fread DongDataF.decode 18 state.info = _ :=
      File.fread_fseek (by rw [here.fp]; exact inside)
    have read : state.textMng.getDongName locals.nKeyValue fuel (dongCodeOf helper.sidoData.idx
        pSigunguF.code (dongAt helper.fp.data offset).code) =
          some (some (text, packed % 32), after) := by
      unfold TextMng.getDongName
      rw [here.texts.dongOfs]
      exact name
    unfold searchDongPass
    rw [record, here.fp]
    dsimp only
    rw [sigungu]
    dsimp only
    rw [show (DongDataF.decode (bytesAt helper.fp.data offset 18)).code =
      (dongAt helper.fp.data offset).code from rfl, read]
    dsimp only
    rw [chars, whole]
    exact ⟨_, rfl, here.decide plain (state.fp.moveTo_data _) texts _ _⟩

section Roads

variable {offset : Nat} {pSigunguF : SigunguDataF}

/-- The code under which the name of the road at an offset is looked up. -/
def SearchHelper.roadCode (helper : SearchHelper) (pSigunguF : SigunguDataF) (offset : Nat) : Nat :=
  dongCodeOf helper.sidoData.idx pSigunguF.code (roadAt helper.fp.data offset).code

/-- The road at an offset is found where the table has its code. -/
theorem roadFound_eq (sigungu : helper.findSigunguOfOffset offset true = some pSigunguF) :
    roadFound textMng helper count nSidoIdx offset =
      (textMng.packedOf textMng.roadOfs count (helper.roadCode pSigunguF offset)).map fun packed =>
        ⟨nSidoIdx, pSigunguF, textAt textMng.textFp.data packed, packed % 32,
          roadAt helper.fp.data offset⟩ := by
  unfold roadFound
  rw [sigungu]
  rfl

/-- A pass over a road inside the file reads its record, and then looks for its name. -/
theorem searchRoadPass_read {fuel : Nat} (inside : offset + 10 ≤ helper.fp.data.length)
    (sigungu : helper.findSigunguOfOffset offset true = some pSigunguF) {flag : Bool}
    {result : List RoadData} {state : RegionVars RoadDataF RoadData}
    (here : RegionLoop textMng helper flag result state) :
    searchRoadPass locals fuel helper nSidoIdx pText (checkCompletHangul pText nLen) state offset =
      match state.textMng.getName .u32 3 locals.nKeyValue fuel textMng.roadOfs
        (helper.roadCode pSigunguF offset) with
      | none => none
      | some (none, after) => some ⟨state.fp.moveTo (offset + 10), after,
          roadAt helper.fp.data offset, state.vars, state.result⟩
      | some (some (text, length), after) =>
        let decided := roadPass pText (checkCompletHangul pText nLen) state.vars (text.take length)
        some ⟨state.fp.moveTo (offset + 10), after, roadAt helper.fp.data offset, decided.1,
          if decided.2.bAddData then
            state.result ++
              [⟨nSidoIdx, pSigunguF, cString text, length, roadAt helper.fp.data offset⟩]
          else state.result⟩ := by
  -- The record of a road has ten bytes, which are inside the file.
  have record : (state.fp.fseek offset).fread RoadDataF.decode 10 state.info = _ :=
    File.fread_fseek (by rw [here.fp]; exact inside)
  unfold searchRoadPass TextMng.getRoadName
  rw [record, here.fp, here.texts.roadOfs]
  dsimp only
  rw [sigungu]
  rfl

/-- A road whose code is not in the table is passed over. -/
theorem searchRoadPass_unnamed (pText : Nat → UInt16) (nLen nSidoIdx : Nat)
    (table : TextTable textMng textMng.roadOfs count) (inside : offset + 10 ≤ helper.fp.data.length)
    (sigungu : helper.findSigunguOfOffset offset true = some pSigunguF)
    (looksUp : textMng.LooksUp textMng.roadOfs count (helper.roadCode pSigunguF offset))
    (unlisted : textMng.packedOf textMng.roadOfs count (helper.roadCode pSigunguF offset) = none) :
    ∃ enough, ∀ fuel, enough ≤ fuel →
      PassesOver textMng helper (fun road => ownVerdict pText nLen road.name)
        (roadFound textMng helper count nSidoIdx)
        (searchRoadPass locals fuel helper nSidoIdx pText (checkCompletHangul pText nLen))
        offset := by
  have found : roadFound textMng helper count nSidoIdx offset = none := by
    rw [roadFound_eq sigungu, unlisted, Option.map_none]
  obtain ⟨enough, looked⟩ := table.getName_misses unlisted looksUp.tame locals.nKeyValue
    (looksUp.stray _) 3
  refine ⟨enough, fun fuel longer => ⟨fun _ flag result state here => ?_, fun road some => ?_⟩⟩
  -- The result and the flag are those of the pass before.
  · obtain ⟨after, missed, texts⟩ := looked fuel longer state.textMng here.texts
    rw [searchRoadPass_read inside sigungu here, missed]
    exact ⟨_, rfl, here.fp, texts, here.flag, here.result⟩
  · rw [found] at some
    cases some

/-- A road whose code is in the table is read with its name, and left to the matcher. -/
theorem searchRoadPass_named (pText : Nat → UInt16) (nLen nSidoIdx : Nat)
    (table : TextTable textMng textMng.roadOfs count) (inside : offset + 10 ≤ helper.fp.data.length)
    (sigungu : helper.findSigunguOfOffset offset true = some pSigunguF) {packed : Nat}
    (listed : textMng.packedOf textMng.roadOfs count (helper.roadCode pSigunguF offset) =
      some packed) :
    ∃ enough, ∀ fuel, enough ≤ fuel →
      PassesOver textMng helper (fun road => ownVerdict pText nLen road.name)
        (roadFound textMng helper count nSidoIdx)
        (searchRoadPass locals fuel helper nSidoIdx pText (checkCompletHangul pText nLen))
        offset := by
  have found : roadFound textMng helper count nSidoIdx offset = _ := roadFound_eq sigungu
  rw [listed, Option.map_some] at found
  obtain ⟨enough, looked⟩ := table.getName_yields listed 3 locals.nKeyValue
  obtain ⟨_, plain⟩ := table.texts _ packed listed
  refine ⟨enough, fun fuel longer => ⟨fun none => ?_, ?_⟩⟩
  · rw [found] at none
    cases none
  -- The name is read, and the matcher decides whether the road is added.
  · rintro road same flag result state here
    obtain rfl := Option.some.inj (found.symm.trans same)
    obtain ⟨text, after, name, chars, whole, texts⟩ := looked fuel longer state.textMng here.texts
    rw [searchRoadPass_read inside sigungu here, name]
    dsimp only
    rw [chars, whole]
    exact ⟨_, rfl, here.decide plain (state.fp.moveTo_data _) texts _ _⟩

/-- A road of a bucket is left to the matcher, or passed over if it has no name. -/
theorem searchRoadPass_passes (locals : RegionLocals) (pText : Nat → UInt16) (nLen nSidoIdx : Nat)
    (table : TextTable textMng textMng.roadOfs count) (inside : offset + 10 ≤ helper.fp.data.length)
    (sigungu : helper.findSigunguOfOffset offset true = some pSigunguF)
    (looksUp : textMng.LooksUp textMng.roadOfs count (helper.roadCode pSigunguF offset)) :
    ∃ enough, ∀ fuel, enough ≤ fuel →
      PassesOver textMng helper (fun road => ownVerdict pText nLen road.name)
        (roadFound textMng helper count nSidoIdx)
        (searchRoadPass locals fuel helper nSidoIdx pText (checkCompletHangul pText nLen))
        offset := by
  cases listed : textMng.packedOf textMng.roadOfs count (helper.roadCode pSigunguF offset) with
  | none => exact searchRoadPass_unnamed pText nLen nSidoIdx table inside sigungu looksUp listed
  | some packed => exact searchRoadPass_named pText nLen nSidoIdx table inside sigungu listed

end Roads

/-- Whether a dong is named does not depend on the place of its file. -/
theorem dongFound_isSome (nSidoIdx other offset : Nat) :
    (dongFound textMng helper count nSidoIdx offset).isSome =
      (dongFound textMng helper count other offset).isSome := by
  unfold dongFound
  cases helper.findSigunguOfOffset offset false with
  | none => rfl
  | some pSigunguF => simp only [Option.bind_some, Option.isSome_map]

/-- A loop over the bucket of a code adds the regions that are found there and accepted. -/
theorem bucket_yields (locals : RegionLocals) {info data : Type} {choIdxOfs choIdxCnt : Nat}
    (verdict : data → Option Bool) {found : Nat → Option data}
    {pass : Nat → RegionVars info data → Nat → Option (RegionVars info data)}
    (index : RegionIndex helper.fp.data choIdxOfs choIdxCnt choCode)
    (passes : ∀ offset ∈ regionBucket helper.fp.data choIdxOfs choIdxCnt choCode,
      ∃ enough, ∀ fuel, enough ≤ fuel →
        PassesOver textMng helper verdict found (pass fuel) offset) :
    let adds := Latch.choose verdict true
      ((regionBucket helper.fp.data choIdxOfs choIdxCnt choCode).filterMap found)
    ∃ enough, ∀ fuel, enough ≤ fuel →
      (∃ next, findChosungOffsetDong locals fuel helper.fp choIdxOfs choIdxCnt choCode =
        some (none, next) ∧ adds = []) ∨
      ∃ choOfs choCnt next,
        findChosungOffsetDong locals fuel helper.fp choIdxOfs choIdxCnt choCode =
          some (some (choOfs, choCnt), next) ∧
        (readOffsets locals next choOfs choCnt).2.data = helper.fp.data ∧
        ∀ result start, RegionLoop textMng helper true result start →
          ∃ final, (readOffsets locals next choOfs choCnt).1.foldlM (pass fuel) start =
              some final ∧
            ∃ flag, RegionLoop textMng helper flag (result ++ adds) final := by
  intro adds
  obtain ⟨lookup, next, ⟨enough, looked⟩, same, inside, bucket⟩ :=
    findChosungOffsetDong_yields locals index
  obtain ⟨more, passes⟩ := Loop.enough_forall_mem passes
  refine ⟨max enough more, fun fuel longer => ?_⟩
  have looked := looked fuel ((Nat.le_max_left _ _).trans longer)
  have passes := passes fuel ((Nat.le_max_right _ _).trans longer)
  dsimp only at looked
  cases lookup with
  | none =>
    -- There is no bucket for the code, so nothing is added.
    refine .inl ⟨next, looked, ?_⟩
    show Latch.choose verdict true (List.filterMap found _) = []
    rw [bucket]
    rfl
  | some lookup =>
    obtain ⟨choOfs, choCnt⟩ := lookup
    have room : choOfs + choCnt * 4 ≤ next.data.length := by
      rw [same]
      exact inside _ rfl
    have read : readOffsets locals next choOfs choCnt =
        (regionBucket helper.fp.data choIdxOfs choIdxCnt choCode,
          next.moveTo (choOfs + choCnt * 4)) := by
      rw [readOffsets_inside room, same, bucket]
      rfl
    -- The offsets of the bucket are read, and the loop goes over them.
    refine .inr ⟨choOfs, choCnt, next, looked, by rw [readOffsets_data, same], ?_⟩
    intro result start here
    rw [read]
    exact Latch.foldlM_choose found (RegionLoop textMng helper)
      (fun offset member none => (passes offset member).skips none)
      (fun offset member => (passes offset member).adds) here

/-- `SearchDongName` adds the dongs of its bucket that the matcher accepts, in their order. -/
theorem searchDongName_yields (locals : RegionLocals) (nSidoIdx : Nat) (pText : Nat → UInt16)
    (nLen : Nat) (table : TextTable textMng textMng.dongOfs count)
    (stored : DongsStored textMng helper count choCode) :
    ∃ enough, ∀ fuel, enough ≤ fuel → ∀ mng : TextMng, mng.SameTexts textMng → ∀ result,
      ∃ after, HelperState.searchDongName locals fuel ⟨helper, mng⟩ nSidoIdx pText choCode
          (checkCompletHangul pText nLen) result =
            some (result ++ Latch.choose (fun dong => ownVerdict pText nLen dong.name) true
              (dongsOf textMng helper count choCode nSidoIdx), after) ∧
        after.textMng.SameTexts textMng := by
  obtain ⟨enough, bucket⟩ := bucket_yields locals
    (fun dong : DongData => ownVerdict pText nLen dong.name) stored.index
    fun offset member =>
      have here := stored.stored offset member
      searchDongPass_passes locals pText nLen table here.1
        ((dongFound_isSome nSidoIdx 0 offset).trans here.2)
  refine ⟨enough, fun fuel longer mng same result => ?_⟩
  unfold HelperState.searchDongName dongsOf
  dsimp only
  rcases bucket fuel longer with ⟨next, looked, empty⟩ | ⟨choOfs, choCnt, next, looked, data, walk⟩
  -- Without a bucket the result is handed on.
  · rw [looked, empty, List.append_nil]
    exact ⟨_, rfl, same⟩
  · rw [looked]
    -- With one, the loop begins with the flag of a name that agrees.
    obtain ⟨final, ended, flag, here⟩ := walk result
      ⟨(readOffsets locals next choOfs choCnt).2, mng, locals.dongF, matchStart locals.name,
        result⟩ ⟨data, same, rfl, rfl⟩
    dsimp only
    rw [ended, Option.map_some, here.result]
    exact ⟨_, rfl, here.texts⟩

/-- `SearchRoadName` adds the roads of its bucket with a name that the matcher accepts. -/
theorem searchRoadName_yields (locals : RegionLocals) (nSidoIdx : Nat) (pText : Nat → UInt16)
    (nLen : Nat) (table : TextTable textMng textMng.roadOfs count)
    (stored : RoadsStored textMng helper count choCode) :
    ∃ enough, ∀ fuel, enough ≤ fuel → ∀ mng : TextMng, mng.SameTexts textMng → ∀ result,
      ∃ after, HelperState.searchRoadName locals fuel ⟨helper, mng⟩ nSidoIdx pText choCode
          (checkCompletHangul pText nLen) result =
            some (result ++ Latch.choose (fun road => ownVerdict pText nLen road.name) true
              (roadsOf textMng helper count choCode nSidoIdx), after) ∧
        after.textMng.SameTexts textMng := by
  obtain ⟨enough, bucket⟩ := bucket_yields locals
    (fun road : RoadData => ownVerdict pText nLen road.name) stored.index
    fun offset member =>
      have here := stored.stored offset member
      here.2.elim fun pSigunguF found =>
        searchRoadPass_passes locals pText nLen nSidoIdx table here.1 found.1 found.2
  refine ⟨enough, fun fuel longer mng same result => ?_⟩
  unfold HelperState.searchRoadName roadsOf
  dsimp only
  rcases bucket fuel longer with ⟨next, looked, empty⟩ | ⟨choOfs, choCnt, next, looked, data, walk⟩
  -- So it is with the roads: no bucket, or the loop over it.
  · rw [looked, empty, List.append_nil]
    exact ⟨_, rfl, same⟩
  · rw [looked]
    obtain ⟨final, ended, flag, here⟩ := walk result
      ⟨(readOffsets locals next choOfs choCnt).2, mng, locals.roadF, matchStart locals.name,
        result⟩ ⟨data, same, rfl, rfl⟩
    dsimp only
    rw [ended, Option.map_some, here.result]
    exact ⟨_, rfl, here.texts⟩

end Helpers

section Module

/--
A search through all helpers from an index on adds what each of them has, one after the other.

It is enough that each helper does so whatever the text manager was asked before.
-/
theorem searchFrom_yields (textMng : TextMng) {α : Type} (has : SearchHelper → Nat → List α)
    (search : Nat → Nat → HelperState → List α → Option (List α × HelperState))
    {helpers : List SearchHelper} :
    ∀ first : Nat, (∀ place helper, helpers[place]? = some helper →
      ∃ enough, ∀ fuel, enough ≤ fuel → ∀ mng : TextMng, mng.SameTexts textMng → ∀ result,
        ∃ after, search fuel (first + place) ⟨helper, mng⟩ result =
            some (result ++ has helper (first + place), after) ∧
          after.textMng.SameTexts textMng) →
      ∃ enough, ∀ fuel, enough ≤ fuel → ∀ mng : TextMng, mng.SameTexts textMng → ∀ result,
        ∃ after, UmSearchModule.searchFrom (search fuel) first helpers mng result = some after ∧
          after.2.2 = result ++ (helpers.zipIdx first).flatMap fun sido => has sido.1 sido.2 := by
  induction helpers with
  | nil =>
    intro first _
    refine ⟨0, fun fuel _ mng _ result => ⟨_, rfl, ?_⟩⟩
    simp
  | cons helper rest ih =>
    intro first each
    obtain ⟨enough, here⟩ := each 0 helper rfl
    obtain ⟨more, later⟩ := ih (first + 1) fun place other installed => by
      rw [show first + 1 + place = first + (place + 1) by omega]
      exact each (place + 1) other installed
    refine ⟨max enough more, fun fuel longer mng same result => ?_⟩
    -- The head adds its own, and the others start from the result with that.
    obtain ⟨after, searched, kept⟩ := here fuel ((Nat.le_max_left _ _).trans longer) mng same result
    obtain ⟨final, ended, added⟩ :=
      later fuel ((Nat.le_max_right _ _).trans longer) after.textMng kept
        (result ++ has helper (first + 0))
    refine ⟨(after.helper :: final.1, final.2.1, final.2.2), ?_, ?_⟩
    · rw [UmSearchModule.searchFrom, ← Nat.add_zero first, searched]
      dsimp only
      rw [Nat.add_zero, ended]
      rfl
    · rw [List.zipIdx_cons, List.flatMap_cons, ← List.append_assoc, ← Nat.add_zero first]
      exact added

/--
The searches for dongs and roads return exactly what the buckets of the query's code have.

All sidos are gone through in order, and in each of them its bucket.
A name is added by the verdict of its own matcher; one that is not compared, because neither the
query nor the name has anything to compare, is added with the verdict on the name before it.
Of the roads only those with a name are looked at.
-/
theorem searchRegionName_exact (locals : Nat → RegionLocals) (um : UmSearchModule)
    (dongCount roadCount : Nat) (pText : Nat → UInt16) (nLen : Nat)
    (dongNames : TextTable um.textMng um.textMng.dongOfs dongCount)
    (roadNames : TextTable um.textMng um.textMng.roadOfs roadCount)
    (dongs : ∀ helper ∈ um.helpers,
      DongsStored um.textMng helper dongCount (tranChosungText pText nLen))
    (roads : ∀ helper ∈ um.helpers,
      RoadsStored um.textMng helper roadCount (tranChosungText pText nLen)) :
    Loop.Yields
        (fun fuel => (um.searchDongName locals fuel pText nLen).map fun after =>
          after.dongNameResult)
        (um.helpers.zipIdx.flatMap fun sido =>
          Latch.choose (fun dong => ownVerdict pText nLen dong.name) true
            (dongsOf um.textMng sido.1 dongCount (tranChosungText pText nLen) sido.2)) ∧
      Loop.Yields
        (fun fuel => (um.searchRoadName locals fuel pText nLen).map fun after =>
          after.roadNameResult)
        (um.helpers.zipIdx.flatMap fun sido =>
          Latch.choose (fun road => ownVerdict pText nLen road.name) true
            (roadsOf um.textMng sido.1 roadCount (tranChosungText pText nLen) sido.2)) := by
  have installed : ∀ place helper, um.helpers[place]? = some helper → helper ∈ um.helpers :=
    fun place helper here => List.mem_iff_getElem?.mpr ⟨place, here⟩
  -- The dongs and the roads are searched for in the same way, with their own buckets.
  constructor
  · obtain ⟨enough, searched⟩ := searchFrom_yields um.textMng
      (fun helper sido => Latch.choose (fun dong => ownVerdict pText nLen dong.name) true
        (dongsOf um.textMng helper dongCount (tranChosungText pText nLen) sido))
      (fun fuel sido state result => state.searchDongName (locals sido) fuel sido pText
        (tranChosungText pText nLen) (checkCompletHangul pText nLen) result) 0
      fun place helper here => searchDongName_yields (locals (0 + place)) (0 + place) pText nLen
        dongNames (dongs helper (installed place helper here))
    refine ⟨enough, fun fuel longer => ?_⟩
    obtain ⟨after, ran, content⟩ := searched fuel longer um.textMng (.refl _) []
    unfold UmSearchModule.searchDongName
    dsimp only
    rw [ran, Option.map_some, Option.map_some, content, List.nil_append]
  · obtain ⟨enough, searched⟩ := searchFrom_yields um.textMng
      (fun helper sido => Latch.choose (fun road => ownVerdict pText nLen road.name) true
        (roadsOf um.textMng helper roadCount (tranChosungText pText nLen) sido))
      (fun fuel sido state result => state.searchRoadName (locals sido) fuel sido pText
        (tranChosungText pText nLen) (checkCompletHangul pText nLen) result) 0
      fun place helper here => searchRoadName_yields (locals (0 + place)) (0 + place) pText nLen
        roadNames (roads helper (installed place helper here))
    refine ⟨enough, fun fuel longer => ?_⟩
    obtain ⟨after, ran, content⟩ := searched fuel longer um.textMng (.refl _) []
    unfold UmSearchModule.searchRoadName
    dsimp only
    rw [ran, Option.map_some, Option.map_some, content, List.nil_append]

/-- A file with a dong and a road of one syllable, both of them in the bucket of its consonant. -/
def syllableFile : File where
  data := [0, 0, 0, 0, 0, 0, 0, 0, 0, 0, 0, 0, 1, 0, 0, 0, 0, 0, 0, 0, 0, 0, 0, 0, 0, 0, 0, 0] ++
    [0, 0, 0, 0, 18, 0, 0, 0] ++
    [1, 1, 0, 0, 28, 0, 0, 0, 0, 0, 0, 0, 32, 0, 0, 0] ++
    [1, 1, 0, 0, 32, 0, 0, 0, 0, 0, 0, 0, 36, 0, 0, 0]
  pos := 0
  addressable := by decide

/-- The helper of this file, whose only sigungu begins in front of both. -/
def syllableHelper : SearchHelper :=
  { bareHelper syllableFile 0 0 with
    addrHeader := ⟨0, 36, 1, 0, 52, 1, 0, 0, 0⟩
    sidoData := ⟨1, 1, 0, 0, 0, 0⟩
    sigunguDataFs := [⟨0, 18, 0⟩] }

/-- The text of one syllable is a file that can be addressed. -/
theorem syllable_addressable : ([0x00, 0xAC] : List UInt8).length < 2 ^ 31 := by decide

/-- The name of both, which is the syllable `0xAC00`. -/
def syllableNames : TextMng where
  textFp := ⟨[0x00, 0xAC], 0, syllable_addressable⟩
  nameFp := ⟨[1, 0, 0, 0, 0x00, 0xE1, 0xF5, 0x05, 1, 0, 0, 0], 0, by decide⟩
  sidoOfs := 0
  sigunguOfs := 0
  dongOfs := 0
  roadOfs := 0
  textBuff := fun _ => List.replicate 32 0
  sized := zeros_sized

/-- Its only name is inside the file of texts. -/
theorem syllableNames_table : TextTable syllableNames 0 1 where
  names := ⟨by decide, by decide, by decide⟩
  texts := by
    intro key packed named
    obtain ⟨index, found, rfl⟩ := Option.map_eq_some_iff.mp named
    -- The table has one entry.
    have first : index = 0 := by
      have inside := List.mem_range.mp (List.mem_of_find?_eq_some found)
      omega
    subst first
    decide

/-- Both indices of the file have one record, and the word behind it ends the bucket. -/
theorem syllable_index {choIdxOfs : Nat} (either : choIdxOfs = 36 ∨ choIdxOfs = 52) :
    RegionIndex syllableFile.data choIdxOfs 1 257 := by
  rcases either with rfl | rfl
  · exact ⟨by decide, by decide, by decide, fun below => absurd (below 0 (by decide)) (by decide),
      by decide⟩
  · exact ⟨by decide, by decide, by decide, fun below => absurd (below 0 (by decide)) (by decide),
      by decide⟩

/-- The search for a dong or a road of this file returns it. -/
theorem searchRegionName_exact_syllable :
    let um : UmSearchModule := ⟨[syllableHelper], syllableNames, [], [], []⟩
    let locals : RegionLocals := ⟨0, 0, 0, fun _ => 0, fun _ => 0, ⟨0, 0, 0, 0, 0, 0, 0⟩, ⟨0, 0, 0⟩⟩
    Loop.Yields
        (fun fuel => (um.searchDongName (fun _ => locals) fuel (fun _ => 0xAC00) 1).map fun after =>
          after.dongNameResult)
        [⟨0, ⟨0, 18, 0⟩, [0xAC00], 1, ⟨0, 0, 0, 1, 0, 0, 0⟩⟩] ∧
      Loop.Yields
        (fun fuel => (um.searchRoadName (fun _ => locals) fuel (fun _ => 0xAC00) 1).map fun after =>
          after.roadNameResult)
        [⟨0, ⟨0, 18, 0⟩, [0xAC00], 1, ⟨0, 0, 18⟩⟩] := by
  intro um locals
  have code : tranChosungText (fun _ => 0xAC00) 1 = 257 := by decide
  -- Both indices have the code, and both regions are named.
  have exact := searchRegionName_exact (fun _ => locals) um 1 1 (fun _ => 0xAC00) 1
    syllableNames_table syllableNames_table
    (by
      intro helper member
      obtain rfl := List.mem_singleton.mp member
      rw [code]
      exact ⟨syllable_index (.inl rfl), by decide⟩)
    (by
      intro helper member
      obtain rfl := List.mem_singleton.mp member
      rw [code]
      refine ⟨syllable_index (.inr rfl), ?_⟩
      intro offset listed
      have only : offset = 18 := by
        have bucket : regionBucket syllableFile.data 52 1 257 = [18] := by decide
        exact List.mem_singleton.mp (bucket ▸ listed)
      subst only
      refine ⟨by decide, ⟨0, 18, 0⟩, by decide, ?_, ?_⟩
      · intro below
        exact absurd (below 0 (by decide)) (by decide)
      · intro junk stray
        exact absurd (stray.1 0 (by decide)) (by decide))
  have dongs : Latch.choose (fun dong => ownVerdict (fun _ => 0xAC00) 1 dong.name) true
      (dongsOf syllableNames syllableHelper 1 257 0) =
        [⟨0, ⟨0, 18, 0⟩, [0xAC00], 1, ⟨0, 0, 0, 1, 0, 0, 0⟩⟩] := by decide
  have roads : Latch.choose (fun road => ownVerdict (fun _ => 0xAC00) 1 road.name) true
      (roadsOf syllableNames syllableHelper 1 257 0) =
        [⟨0, ⟨0, 18, 0⟩, [0xAC00], 1, ⟨0, 0, 18⟩⟩] := by decide
  have sidos : um.helpers.zipIdx = [(syllableHelper, 0)] := rfl
  rw [code, sidos, List.flatMap_singleton, List.flatMap_singleton] at exact
  rw [← dongs, ← roads]
  exact exact

end Module

end AndroidApps.Gildroia
