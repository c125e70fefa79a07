import AndroidApps.Gildroia.PoiName

/-! What a name search inserts, from one POI of a bucket up to all installed sidos. -/

namespace AndroidApps.Gildroia

variable {nSidoIdx nLen : Nat} {pText : Nat → UInt16}

/-- Copying stops at the terminator, so a buffer and its string are copied alike. -/
theorem u16cpy_cString (stale : Nat → UInt16) (text : List UInt16) :
    u16cpy stale (cString text) = u16cpy stale text := by
  unfold u16cpy cString
  rw [List.takeWhile_idem]

/-- No character of a string is its terminator. -/
theorem cString_plain {text : List UInt16} : ∀ ch ∈ cString text, ch ≠ 0 := by
  intro ch listed
  have nonzero := List.mem_takeWhile_imp listed
  simpa using nonzero

/-- A name that matches a query agrees with it wherever a matcher compares. -/
theorem Matches.agrees {name : List UInt16} (plain : ∀ ch ∈ name, ch ≠ 0)
    (matched : Matches pText nLen name) (stale : Nat → UInt16) :
    agreesUpTo pText (u16cpy stale name) nLen nLen := by
  intro j below _
  obtain ⟨ch, held, same⟩ := matched j below
  obtain ⟨inside, value⟩ := List.getElem?_eq_some_iff.mp held
  rw [u16cpy_of_lt plain inside, value]
  exact same

/-- A search compares every candidate, or it compares none and keeps its flag set. -/
def Fresh (pText : Nat → UInt16) (nLen : Nat) (vars : MatchVars) : Prop :=
  vars.bAddData = true ∨ checkCompletHangul pText nLen ≠ 0 ∨ nLen > 2

/-- The header one pass reads. -/
def PoiNameVars.next (state : PoiNameVars) : PoiHeaderF :=
  (state.fp.fread PoiHeaderF.decode 8 state.info).1

/-- The text one pass reads. -/
def PoiNameVars.text (state : PoiNameVars) : List UInt16 :=
  (state.textMng.getTextOfs state.next.nameOfs 0).1

/-- One pass inserts its POI exactly when the name agrees with the query. -/
theorem poiNamePass_insert {state : PoiNameVars} (fresh : Fresh pText nLen state.vars)
    (agree : agreesUpTo pText (u16cpy state.vars.name state.text) nLen nLen) :
    (poiNamePass nSidoIdx pText nLen (checkCompletHangul pText nLen) state).poiHeaders =
      state.poiHeaders.insert (cString state.text, ⟨nSidoIdx, state.next⟩) := by
  have accepts := (matchPass_accepts pText nLen nLen state.text fresh).mpr agree
  exact if_pos accepts

/-- One pass leaves the result as it is when the name differs from the query. -/
theorem poiNamePass_skip {state : PoiNameVars} (fresh : Fresh pText nLen state.vars)
    (differs : ¬ agreesUpTo pText (u16cpy state.vars.name state.text) nLen nLen) :
    (poiNamePass nSidoIdx pText nLen (checkCompletHangul pText nLen) state).poiHeaders =
      state.poiHeaders := by
  have rejects := mt (matchPass_accepts pText nLen nLen state.text fresh).mp differs
  exact if_neg rejects

/-- An entry that is inserted stands behind those that are added later. -/
theorem perm_of_insert {poiHeaders result : PoiMap} {entry : List UInt16 × PoiHeader}
    {added : List (List UInt16 × PoiHeader)}
    (later : result.Perm (added ++ poiHeaders.insert entry)) :
    result.Perm (added ++ [entry] ++ poiHeaders) := by
  rw [List.append_assoc]
  exact later.trans ((PoiMap.insert_perm poiHeaders entry).append_left added)

/-- The pass reads the header that stands there. -/
theorem PoiNameVars.next_inside {state : PoiNameVars}
    (room : state.fp.pos + 8 ≤ state.fp.data.length) :
    state.next = PoiHeaderF.decode (bytesAt state.fp.data state.fp.pos 8) := by
  have read : state.fp.fread PoiHeaderF.decode 8 state.info = _ := File.fread_inside room
  rw [PoiNameVars.next, read]

/-- The pass moves on by one header. -/
theorem poiNamePass_fp {state : PoiNameVars} (room : state.fp.pos + 8 ≤ state.fp.data.length)
    (ckCmpHan : Nat) :
    (poiNamePass nSidoIdx pText nLen ckCmpHan state).fp = state.fp.moveTo (state.fp.pos + 8) := by
  have read : state.fp.fread PoiHeaderF.decode 8 state.info = _ := File.fread_inside room
  show (state.fp.fread PoiHeaderF.decode 8 state.info).2 = _
  rw [read]

/-- The pass compares the name of its header. -/
theorem PoiNameVars.text_inside {state : PoiNameVars}
    (inside : TextInside state.textMng.textFp.data state.next.nameOfs) :
    cString state.text = nameOf state.textMng.textFp.data state.next := by
  rw [PoiNameVars.text, cString_getTextOfs 0 inside, nameOf]

/-- Two POIs have the same entry only if they are the same. -/
theorem count_entry (nSidoIdx : Nat) (text : List UInt8) (next info : PoiHeaderF) :
    [(nameOf text next, (⟨nSidoIdx, next⟩ : PoiHeader))].count
        (nameOf text info, ⟨nSidoIdx, info⟩) = [next].count info := by
  by_cases same : next = info
  · subst same
    simp
  · have other : (nameOf text next, (⟨nSidoIdx, next⟩ : PoiHeader)) ≠
        (nameOf text info, ⟨nSidoIdx, info⟩) := by
      intro equal
      simp only [Prod.mk.injEq, PoiHeader.mk.injEq] at equal
      exact same equal.2.2
    simp [other, same]

/-- One pass keeps the flag usable for the next one. -/
theorem Fresh.pass {state : PoiNameVars} (fresh : Fresh pText nLen state.vars) :
    Fresh pText nLen
      (poiNamePass nSidoIdx pText nLen (checkCompletHangul pText nLen) state).vars := by
  rcases fresh with set | compares
  · by_cases compares : checkCompletHangul pText nLen ≠ 0 ∨ nLen > 2
    · exact Or.inr compares
    · -- Nothing is compared, so the flag is not touched.
      left
      show (matchPass pText (checkCompletHangul pText nLen) nLen state.vars
        state.text).1.bAddData = true
      rw [matchPass, if_neg compares]
      exact set
  · exact Or.inr compares

@[simp] theorem poiNamePass_fp_data (state : PoiNameVars) (ckCmpHan : Nat) :
    (poiNamePass nSidoIdx pText nLen ckCmpHan state).fp.data = state.fp.data := by
  simp [poiNamePass]

@[simp] theorem poiNamePass_text_data (state : PoiNameVars) (ckCmpHan : Nat) :
    (poiNamePass nSidoIdx pText nLen ckCmpHan state).textMng.textFp.data =
      state.textMng.textFp.data := by
  simp [poiNamePass]

@[simp] theorem poiNameLoop_text_data (count : Nat) (state : PoiNameVars) (ckCmpHan : Nat) :
    (poiNameLoop nSidoIdx pText nLen ckCmpHan count state).textMng.textFp.data =
      state.textMng.textFp.data := by
  induction count generalizing state with
  | zero => rfl
  | succ count ih => rw [poiNameLoop, ih, poiNamePass_text_data]

/-- An entry a search of one sido may insert: some text that agrees with the query. -/
def Insertable (nSidoIdx : Nat) (pText : Nat → UInt16) (nLen : Nat)
    (entry : List UInt16 × PoiHeader) : Prop :=
  entry.2.nSidoIdx = nSidoIdx ∧ ∃ text stale, entry.1 = cString text ∧
    agreesUpTo pText (u16cpy stale text) nLen nLen

/-- Whatever the bytes of a bucket are, the loop only adds entries that agree with the query. -/
theorem poiNameLoop_adds (count : Nat) :
    ∀ state : PoiNameVars, Fresh pText nLen state.vars →
      ∃ added, (poiNameLoop nSidoIdx pText nLen (checkCompletHangul pText nLen) count
          state).poiHeaders.Perm (added ++ state.poiHeaders) ∧
        ∀ entry ∈ added, Insertable nSidoIdx pText nLen entry := by
  induction count with
  | zero =>
    intro state _
    exact ⟨[], List.Perm.refl _, fun entry listed => absurd listed List.not_mem_nil⟩
  | succ count ih =>
    intro state fresh
    obtain ⟨added, result, agreeing⟩ := ih _ (fresh.pass)
    by_cases agree : agreesUpTo pText (u16cpy state.vars.name state.text) nLen nLen
    · -- The POI of this pass stands behind those of the later ones.
      rw [poiNamePass_insert fresh agree] at result
      refine ⟨added ++ [(cString state.text, ⟨nSidoIdx, state.next⟩)], ?_, ?_⟩
      · exact perm_of_insert result
      · intro entry listed
        rcases List.mem_append.mp listed with later | here
        · exact agreeing entry later
        · rw [List.mem_singleton] at here
          subst here
          exact ⟨rfl, state.text, state.vars.name, rfl, agree⟩
    · rw [poiNamePass_skip fresh agree] at result
      exact ⟨added, result, agreeing⟩

/-- A name agrees with a query whatever stands behind its terminator in the buffer. -/
def AlwaysAgrees (pText : Nat → UInt16) (nLen : Nat) (name : List UInt16) : Prop :=
  ∀ stale, agreesUpTo pText (u16cpy stale name) nLen nLen

/-- A name that matches a query always agrees with it. -/
theorem Matches.alwaysAgrees {text : List UInt8} {info : PoiHeaderF}
    (matched : Matches pText nLen (nameOf text info)) :
    AlwaysAgrees pText nLen (nameOf text info) :=
  matched.agrees cString_plain

/-- Every entry comes from a POI of the bucket, under that POI's own name. -/
def FromBucket (nSidoIdx : Nat) (text : List UInt8) (bucket : List PoiHeaderF)
    (entry : List UInt16 × PoiHeader) : Prop :=
  ∃ info ∈ bucket, entry = (nameOf text info, ⟨nSidoIdx, info⟩)

/--
Over a bucket inside the file, with every name inside the text file, the loop adds POIs of the
bucket that agree with the query, and all those that always do as often as the bucket has them.
-/
theorem poiNameLoop_bucket {text : List UInt8} (count : Nat) :
    ∀ state : PoiNameVars, Fresh pText nLen state.vars → state.textMng.textFp.data = text →
      state.fp.pos + count * 8 ≤ state.fp.data.length →
      (∀ info ∈ File.elementsAt PoiHeaderF.decode 8 state.fp.data state.fp.pos count,
        TextInside text info.nameOfs) →
      ∃ added, (poiNameLoop nSidoIdx pText nLen (checkCompletHangul pText nLen) count
          state).poiHeaders.Perm (added ++ state.poiHeaders) ∧
        (∀ entry ∈ added, Insertable nSidoIdx pText nLen entry ∧
          FromBucket nSidoIdx text
            (File.elementsAt PoiHeaderF.decode 8 state.fp.data state.fp.pos count) entry) ∧
        ∀ info, AlwaysAgrees pText nLen (nameOf text info) →
          added.count (nameOf text info, ⟨nSidoIdx, info⟩) =
            (File.elementsAt PoiHeaderF.decode 8 state.fp.data state.fp.pos count).count info := by
  induction count with
  | zero =>
    intro state _ _ _ _
    exact ⟨[], List.Perm.refl _, fun entry listed => absurd listed List.not_mem_nil,
      fun _ _ => rfl⟩
  | succ count ih =>
    intro state fresh opened inside named
    -- The header is the first of the bucket, and the text that of its name.
    have room : state.fp.pos + 8 ≤ state.fp.data.length := by omega
    have header := PoiNameVars.next_inside room
    have moved : (poiNamePass nSidoIdx pText nLen (checkCompletHangul pText nLen) state).fp = _ :=
      poiNamePass_fp room _
    rw [File.elementsAt_succ, ← header] at named
    have name : cString state.text = nameOf text state.next := by
      rw [← opened]
      exact PoiNameVars.text_inside (opened ▸ named _ List.mem_cons_self)
    -- The rest of the bucket is the same loop one header later.
    have rest := ih (poiNamePass nSidoIdx pText nLen (checkCompletHangul pText nLen) state)
      fresh.pass (by rw [poiNamePass_text_data, opened])
      (by rw [moved, File.moveTo_pos, File.moveTo_data]; omega)
    rw [moved, File.moveTo_pos, File.moveTo_data] at rest
    obtain ⟨added, result, agreeing, counted⟩ := rest
      (fun info later => named info (List.mem_cons_of_mem _ later))
    rw [File.elementsAt_succ, ← header]
    by_cases agree : agreesUpTo pText (u16cpy state.vars.name state.text) nLen nLen
    · rw [poiNamePass_insert fresh agree] at result
      refine ⟨added ++ [(cString state.text, ⟨nSidoIdx, state.next⟩)], ?_, ?_, ?_⟩
      · exact perm_of_insert result
      · intro entry listed
        rcases List.mem_append.mp listed with later | here
        · obtain ⟨insertable, info, held, same⟩ := agreeing entry later
          exact ⟨insertable, info, List.mem_cons_of_mem _ held, same⟩
        · rw [List.mem_singleton] at here
          subst here
          exact ⟨⟨rfl, state.text, state.vars.name, rfl, agree⟩,
            state.next, List.mem_cons_self, by rw [name]⟩
      · intro info agrees
        -- The entry and the header of this pass are the same ones.
        rw [List.count_append, counted info agrees, name, count_entry, List.count_singleton,
          List.count_cons]
    · rw [poiNamePass_skip fresh agree] at result
      refine ⟨added, result, ?_, ?_⟩
      · intro entry listed
        obtain ⟨insertable, info, held, same⟩ := agreeing entry listed
        exact ⟨insertable, info, List.mem_cons_of_mem _ held, same⟩
      · intro info agrees
        -- Such a POI would have agreed here, too.
        have other : state.next ≠ info := by
          intro same
          subst same
          have here := agrees state.vars.name
          rw [← name, u16cpy_cString] at here
          exact agree here
        rw [counted info agrees, List.count_cons_of_ne other]

section Helper

variable {locals : PoiNameLocals} {choIdxOfs choIdxCnt choCode : Nat}

/-- The lookup of a bucket has an outcome exactly when the search for its code has one. -/
theorem findChosungOffsetPOI_returns {fp : File} :
    (∃ fuel result, findChosungOffsetPOI locals fuel fp choIdxOfs choIdxCnt choCode =
      some result) ↔
      SearchReturns .u32 locals.nKeyValue fp choCode choIdxOfs 12 choIdxCnt := by
  -- Behind the search there is no further loop.
  constructor
  · rintro ⟨fuel, result, found⟩
    unfold findChosungOffsetPOI at found
    cases searched : searchu32KeyValue locals.nKeyValue fuel fp choCode choIdxOfs 12
      choIdxCnt with
    | none => simp [searched] at found
    | some outcome => exact ⟨fuel, outcome, searched⟩
  · rintro ⟨fuel, ⟨found, file⟩, searched⟩
    have searched : searchu32KeyValue locals.nKeyValue fuel fp choCode choIdxOfs 12 choIdxCnt =
        some (found, file) := searched
    refine ⟨fuel, ?_⟩
    unfold findChosungOffsetPOI
    rw [searched]
    cases found
    · exact ⟨_, rfl⟩
    · exact ⟨_, rfl⟩

/--
Exactly when the index searches return, and with them the lookups of query texts.

The only search that does not is one below the only record of a table, whose bound wraps and
whose 31 further reads all are smaller than the key.
-/
theorem index_searches_return {fp : File} {width : KeyWidth} {offset recordSize cnt : Nat}
    (table : KeyTable fp.data width offset recordSize cnt) (key junk : Nat) :
    (SearchReturns width junk fp key offset recordSize cnt ↔
      ¬ SearchHangs fp width key offset recordSize cnt) ∧
    (width = .u32 → recordSize = 12 → ∀ locals : PoiNameLocals,
      (∀ (pText : Nat → UInt16) nLen,
        (∃ fuel result, findChosungOffsetPOI locals fuel fp offset cnt
          (tranChosungText pText nLen) = some result) ↔
          ¬ SearchHangs fp .u32 (tranChosungText pText nLen) offset 12 cnt) ∧
      ∀ pText : Nat → UInt16, ∃ fuel result,
        findChosungOffsetPOI locals fuel fp offset cnt (tranChosungText pText 0) =
          some result) := by
  refine ⟨searchReturns_iff_not_hangs table key junk, ?_⟩
  intro wide records locals
  subst wide records
  have lookups : ∀ (pText : Nat → UInt16) nLen,
      (∃ fuel result, findChosungOffsetPOI locals fuel fp offset cnt
        (tranChosungText pText nLen) = some result) ↔
        ¬ SearchHangs fp .u32 (tranChosungText pText nLen) offset 12 cnt := by
    intro pText nLen
    rw [findChosungOffsetPOI_returns]
    exact searchReturns_iff_not_hangs table _ _
  refine ⟨lookups, ?_⟩
  intro pText
  rw [lookups pText 0]
  -- The empty text has code zero, and no read is smaller than that.
  rintro ⟨_, _, below, _⟩
  exact Nat.not_lt_zero _ below

/-- A file whose index has one record, with three words in front of it. -/
def loneRecord : File :=
  ⟨[1, 0, 0, 0, 0, 0, 0, 0, 0, 0, 0, 0, 1, 3, 0, 0, 0, 0, 0, 0, 1, 0, 0, 0], 0, by decide⟩

/-- A search above the only record returns. -/
theorem index_searches_return_above :
    KeyTable loneRecord.data .u32 12 12 1 ∧ SearchReturns .u32 0 loneRecord 1000 12 12 1 := by
  have table : KeyTable loneRecord.data .u32 12 12 1 := by decide
  exact ⟨table, (index_searches_return table 1000 0).1.mpr (by decide)⟩

/-- The lookup of a text whose code is below that of the only record does not return. -/
theorem lone_record_hangs :
    KeyTable loneRecord.data .u32 12 12 1 ∧ ¬ SearchReturns .u32 0 loneRecord 257 12 12 1 ∧
    tranChosungText (fun _ => 0x3131) 1 = 257 ∧
    ¬ ∃ fuel result,
      findChosungOffsetPOI ⟨0, 0, 0, fun _ => 0, ⟨0, 0, 0, 0, 0⟩⟩ fuel loneRecord 12 1 257 =
        some result := by
  -- The code is smaller than the only key, and the count is one.
  have table : KeyTable loneRecord.data .u32 12 12 1 := by decide
  have hangs : ¬ SearchReturns .u32 0 loneRecord 257 12 12 1 := by
    rw [searchReturns_iff_not_hangs table, not_not]
    decide
  refine ⟨table, hangs, by decide, ?_⟩
  rw [findChosungOffsetPOI_returns]
  exact hangs

/-- The outcome of a lookup is final. -/
theorem findChosungOffsetPOI_final (locals : PoiNameLocals) (fp : File)
    (choIdxOfs choIdxCnt choCode : Nat) :
    Loop.Final fun fuel => findChosungOffsetPOI locals fuel fp choIdxOfs choIdxCnt choCode := by
  -- Only the search uses fuel.
  have search : Loop.Final fun fuel =>
      searchu32KeyValue locals.nKeyValue fuel fp choCode choIdxOfs 12 choIdxCnt :=
    searchKeyValue_final .u32 locals.nKeyValue fp choCode choIdxOfs 12 choIdxCnt
  apply search.followed
  · intro fuel unended
    rw [findChosungOffsetPOI, unended]
  · intro fuel outcome came
    rw [findChosungOffsetPOI, came]
  · exact fun outcome => Loop.final_const _

/-- Behind a key that was found, the lookup reads the two words of its record. -/
theorem findChosungOffsetPOI_found {fp : File} {fuel position : Nat}
    (searched : searchu32KeyValue locals.nKeyValue fuel fp choCode choIdxOfs 12 choIdxCnt =
      some (true, fp.moveTo (position + 4))) (room : position + 12 ≤ fp.data.length) :
    findChosungOffsetPOI locals fuel fp choIdxOfs choIdxCnt choCode =
      some (some (wordAt fp.data (position + 4) 4, toInt (wordAt fp.data (position + 8) 4)),
        fp.moveTo (position + 12)) := by
  -- The two words behind the key are the place and the size of the bucket.
  unfold findChosungOffsetPOI
  rw [searched]
  dsimp only
  rw [File.freadWord_inside (by rw [File.moveTo_pos, File.moveTo_data]; omega)]
  dsimp only
  rw [File.freadWord_inside (by
    rw [File.moveTo_pos, File.moveTo_data, File.moveTo_data, File.moveTo_pos]; omega)]
  rfl

/-- The lookup of a listed code leads to its record. -/
theorem findChosungOffsetPOI_listed (locals : PoiNameLocals) {fp : File}
    (table : KeyTable fp.data .u32 choIdxOfs 12 choIdxCnt) {index : Nat}
    (listed : index < choIdxCnt) (held : keyAt fp.data .u32 choIdxOfs 12 index = choCode) :
    ∃ fuel, findChosungOffsetPOI locals fuel fp choIdxOfs choIdxCnt choCode =
      some (some (wordAt fp.data (choIdxOfs + index * 12 + 4) 4,
        toInt (wordAt fp.data (choIdxOfs + index * 12 + 8) 4)),
        fp.moveTo (choIdxOfs + index * 12 + 12)) := by
  subst held
  obtain ⟨fuel, searched⟩ := searchKeyValue_listed table listed locals.nKeyValue
  have inside := table.inside
  -- The whole record lies inside the table, so both words are read from the file.
  exact ⟨fuel, findChosungOffsetPOI_found searched (by omega)⟩

/-- In an empty table a code is found when the bytes behind the table happen to hold it. -/
theorem findChosungOffsetPOI_empty (locals : PoiNameLocals) {fp : File}
    (room : choIdxOfs + 12 ≤ fp.data.length) (held : wordAt fp.data choIdxOfs 4 = choCode) :
    findChosungOffsetPOI locals 1 fp choIdxOfs 0 choCode =
      some (some (wordAt fp.data (choIdxOfs + 4) 4, toInt (wordAt fp.data (choIdxOfs + 8) 4)),
        fp.moveTo (choIdxOfs + 12)) := by
  refine findChosungOffsetPOI_found ?_ room
  -- The bounds meet at once, and the slot they meet at is read.
  have small : choIdxOfs + 0 * 12 < 2 ^ 32 := by
    have := fp.addressable
    omega
  have read : (searchStart .u32 fp 0 locals.nKeyValue).probe .u32 choIdxOfs 12 0 =
      (choCode, fp.moveTo (choIdxOfs + 4)) := by
    rw [SearchVars.probe, readKey, u32_of_lt small, Nat.zero_mul, Nat.add_zero]
    show (fp.fseek choIdxOfs).freadWord 4 _ = _
    rw [File.freadWord_fseek (by omega), held]
  have pass : searchPass .u32 choCode choIdxOfs 12 (searchStart .u32 fp 0 locals.nKeyValue) = _ :=
    searchPass_last rfl
  rw [show (searchStart .u32 fp 0 locals.nKeyValue).left = 0 by rfl, read] at pass
  simp only [decide_true] at pass
  exact Loop.run_leave pass 0

variable {helper : SearchHelper} {textMng : TextMng} {ckCmpHan : Nat} {poiHeaders : PoiMap}

/-- A search through a helper has an outcome exactly when its lookup has one. -/
theorem searchPoiName_returns :
    (∃ fuel result, helper.searchPoiName locals fuel textMng nSidoIdx pText nLen choCode ckCmpHan
      poiHeaders = some result) ↔
      SearchReturns .u32 locals.nKeyValue helper.fp choCode helper.poiHeader.poiChoIdxOfs 12
        helper.poiHeader.poiChoIdxCnt := by
  -- Behind the lookup all loops are over lists.
  rw [← findChosungOffsetPOI_returns]
  constructor
  · rintro ⟨fuel, result, searched⟩
    unfold SearchHelper.searchPoiName at searched
    cases found : findChosungOffsetPOI locals fuel helper.fp helper.poiHeader.poiChoIdxOfs
      helper.poiHeader.poiChoIdxCnt choCode with
    | none => simp [found] at searched
    | some outcome => exact ⟨fuel, outcome, found⟩
  · rintro ⟨fuel, ⟨bucket, file⟩, found⟩
    refine ⟨fuel, ?_⟩
    unfold SearchHelper.searchPoiName
    rw [found]
    cases bucket
    · exact ⟨_, rfl⟩
    · exact ⟨_, rfl⟩

/-- The outcome of a search through a helper is final. -/
theorem searchPoiName_final (helper : SearchHelper) (locals : PoiNameLocals) (textMng : TextMng)
    (nSidoIdx : Nat) (pText : Nat → UInt16) (nLen choCode ckCmpHan : Nat) (poiHeaders : PoiMap) :
    Loop.Final fun fuel => helper.searchPoiName locals fuel textMng nSidoIdx pText nLen choCode
      ckCmpHan poiHeaders := by
  -- Only the lookup uses fuel.
  apply (findChosungOffsetPOI_final locals helper.fp helper.poiHeader.poiChoIdxOfs
    helper.poiHeader.poiChoIdxCnt choCode).followed
  · intro fuel unended
    rw [SearchHelper.searchPoiName, unended]
  · intro fuel outcome came
    rw [SearchHelper.searchPoiName, came]
  · exact fun outcome => Loop.final_const _

/-- A search through a helper only adds entries of its own sido that agree with the query. -/
theorem searchPoiName_adds {fuel : Nat} {result : PoiNameResult}
    (searched : helper.searchPoiName locals fuel textMng nSidoIdx pText nLen choCode
      (checkCompletHangul pText nLen) poiHeaders = some result) :
    result.textMng.textFp.data = textMng.textFp.data ∧
      ∃ added, result.poiHeaders.Perm (added ++ poiHeaders) ∧
        ∀ entry ∈ added, Insertable nSidoIdx pText nLen entry := by
  unfold SearchHelper.searchPoiName at searched
  cases found : findChosungOffsetPOI locals fuel helper.fp helper.poiHeader.poiChoIdxOfs
    helper.poiHeader.poiChoIdxCnt choCode with
  | none => simp [found] at searched
  | some outcome =>
    rw [found] at searched
    obtain ⟨bucket, file⟩ := outcome
    cases bucket with
    | none =>
      -- Without a bucket nothing is inserted.
      obtain rfl := Option.some.inj searched
      exact ⟨rfl, [], List.Perm.refl _, fun entry listed => absurd listed List.not_mem_nil⟩
    | some bucket =>
      obtain rfl := Option.some.inj searched
      refine ⟨poiNameLoop_text_data _ _ _, ?_⟩
      exact poiNameLoop_adds _ _ (Or.inl rfl)

/-- A search that finds a bucket inside the file works through the POIs of that bucket. -/
theorem searchPoiName_listed {text : List UInt8}
    (table : KeyTable helper.fp.data .u32 helper.poiHeader.poiChoIdxOfs 12
      helper.poiHeader.poiChoIdxCnt) {index : Nat}
    (listed : index < helper.poiHeader.poiChoIdxCnt)
    (held : keyAt helper.fp.data .u32 helper.poiHeader.poiChoIdxOfs 12 index = choCode)
    (inside : wordAt helper.fp.data (helper.poiHeader.poiChoIdxOfs + index * 12 + 4) 4 +
      wordAt helper.fp.data (helper.poiHeader.poiChoIdxOfs + index * 12 + 8) 4 * 8 ≤
        helper.fp.data.length)
    (opened : textMng.textFp.data = text)
    (named : ∀ info ∈ bucketAt helper.fp.data helper.poiHeader.poiChoIdxOfs index,
      TextInside text info.nameOfs) :
    ∃ fuel result, helper.searchPoiName locals fuel textMng nSidoIdx pText nLen choCode
        (checkCompletHangul pText nLen) poiHeaders = some result ∧
      ∃ added, result.poiHeaders.Perm (added ++ poiHeaders) ∧
        (∀ entry ∈ added, Insertable nSidoIdx pText nLen entry ∧
          FromBucket nSidoIdx text
            (bucketAt helper.fp.data helper.poiHeader.poiChoIdxOfs index) entry) ∧
        ∀ info, AlwaysAgrees pText nLen (nameOf text info) →
          added.count (nameOf text info, ⟨nSidoIdx, info⟩) =
            (bucketAt helper.fp.data helper.poiHeader.poiChoIdxOfs index).count info := by
  obtain ⟨fuel, found⟩ := findChosungOffsetPOI_listed locals table listed held
  -- The bucket lies inside the file, so its offset and its length are small.
  have few : wordAt helper.fp.data (helper.poiHeader.poiChoIdxOfs + index * 12 + 8) 4 <
      2 ^ 31 := by
    have := helper.fp.addressable
    omega
  refine ⟨fuel, ?_⟩
  unfold SearchHelper.searchPoiName
  rw [found]
  dsimp only
  rw [toInt_of_lt few, Int.toNat_natCast, File.fseek_of_lt (File.offset_lt inside)]
  refine ⟨_, rfl, ?_⟩
  exact poiNameLoop_bucket _ _ (Or.inl rfl) opened inside named

end Helper

section Module

variable {locals : Nat → PoiNameLocals} {choCode ckCmpHan : Nat}

/-- The outcome of the loop over the helpers is final. -/
theorem searchPoiNameFrom_final (locals : Nat → PoiNameLocals) (pText : Nat → UInt16)
    (nLen choCode ckCmpHan : Nat) (helpers : List SearchHelper) :
    ∀ (first : Nat) (textMng : TextMng) (poiHeaders : PoiMap), Loop.Final fun fuel =>
      searchPoiNameFrom locals fuel pText nLen choCode ckCmpHan first helpers textMng
        poiHeaders := by
  -- One helper after the other, and the search through each of them is final.
  induction helpers with
  | nil => exact fun first textMng poiHeaders => Loop.final_const _
  | cons helper rest ih =>
    intro first textMng poiHeaders
    apply (searchPoiName_final helper (locals first) textMng first pText nLen choCode ckCmpHan
      poiHeaders).followed
    · intro fuel unended
      rw [searchPoiNameFrom, unended]
    · intro fuel one came
      rw [searchPoiNameFrom, came]
    · intro one
      dsimp only
      apply (ih (first + 1) one.textMng one.poiHeaders).followed
      · intro fuel unended
        rw [unended]
      · intro fuel others came
        rw [came]
      · exact fun others => Loop.final_const _

/-- The loop over the helpers has an outcome exactly when the lookup of every helper has one. -/
theorem searchPoiNameFrom_returns :
    ∀ (helpers : List SearchHelper) (first : Nat) (textMng : TextMng) (poiHeaders : PoiMap),
      (∃ fuel result, searchPoiNameFrom locals fuel pText nLen choCode ckCmpHan first helpers
        textMng poiHeaders = some result) ↔
        ∀ place helper, helpers[place]? = some helper →
          SearchReturns .u32 (locals (first + place)).nKeyValue helper.fp choCode
            helper.poiHeader.poiChoIdxOfs 12 helper.poiHeader.poiChoIdxCnt := by
  intro helpers
  induction helpers with
  | nil =>
    intro first textMng poiHeaders
    refine iff_of_true ⟨0, _, rfl⟩ ?_
    intro place helper installed
    simp at installed
  | cons head rest ih =>
    intro first textMng poiHeaders
    constructor
    · rintro ⟨fuel, result, searched⟩ place helper installed
      unfold searchPoiNameFrom at searched
      cases here : head.searchPoiName (locals first) fuel textMng first pText nLen choCode ckCmpHan
        poiHeaders with
      | none => simp [here] at searched
      | some one =>
        simp only [here] at searched
        cases place with
        | zero =>
          rw [List.getElem?_cons_zero] at installed
          obtain rfl := Option.some.inj installed
          exact searchPoiName_returns.mp ⟨fuel, one, here⟩
        | succ place =>
          rw [List.getElem?_cons_succ] at installed
          cases later : searchPoiNameFrom locals fuel pText nLen choCode ckCmpHan (first + 1) rest
            one.textMng one.poiHeaders with
          | none => simp [later] at searched
          | some others =>
            have returns := (ih _ _ _).mp ⟨fuel, others, later⟩ place helper installed
            rwa [show first + (place + 1) = first + 1 + place by omega]
    · intro returns
      -- The head returns with some fuel and the rest with some other: the larger one serves both.
      have headReturns : ∃ fuel one, head.searchPoiName (locals first) fuel textMng first pText
          nLen choCode ckCmpHan poiHeaders = some one :=
        searchPoiName_returns.mpr (returns 0 head rfl)
      obtain ⟨fuel, one, here⟩ := headReturns
      obtain ⟨more, others, later⟩ := (ih (first + 1) one.textMng one.poiHeaders).mpr (by
        intro place helper installed
        have := returns (place + 1) helper installed
        rwa [show first + 1 + place = first + (place + 1) by omega])
      have here := (searchPoiName_final _ _ _ _ _ _ _ _ _).yields here
      have later := (searchPoiNameFrom_final _ _ _ _ _ _ _ _ _).yields later
      have whole : Loop.Yields (fun fuel => searchPoiNameFrom locals fuel pText nLen choCode
          ckCmpHan first (head :: rest) textMng poiHeaders)
          (one.helper :: others.1, others.2.1, others.2.2) := by
        apply here.followed
        · intro fuel came
          rw [searchPoiNameFrom, came]
        · apply later.computed
          intro fuel came
          dsimp only
          rw [came]
      obtain ⟨enough, ended⟩ := whole
      exact ⟨enough, _, ended enough le_rfl⟩

/-- The loop over the helpers only adds entries of theirs that agree with the query. -/
theorem searchPoiNameFrom_adds {fuel : Nat} :
    ∀ {helpers : List SearchHelper} {first : Nat} {textMng : TextMng} {poiHeaders : PoiMap}
      {result : List SearchHelper × TextMng × PoiMap},
      searchPoiNameFrom locals fuel pText nLen choCode (checkCompletHangul pText nLen) first
        helpers textMng poiHeaders = some result →
      ∃ added, result.2.2.Perm (added ++ poiHeaders) ∧
        ∀ entry ∈ added, first ≤ entry.2.nSidoIdx ∧
          Insertable entry.2.nSidoIdx pText nLen entry := by
  -- What the first helper adds stays in front of what the others add.
  intro helpers
  induction helpers with
  | nil =>
    intro first textMng poiHeaders result searched
    obtain rfl := Option.some.inj searched
    exact ⟨[], List.Perm.refl _, fun entry listed => absurd listed List.not_mem_nil⟩
  | cons head rest ih =>
    intro first textMng poiHeaders result searched
    unfold searchPoiNameFrom at searched
    cases here : head.searchPoiName (locals first) fuel textMng first pText nLen choCode
      (checkCompletHangul pText nLen) poiHeaders with
    | none => simp [here] at searched
    | some one =>
      simp only [here] at searched
      cases later : searchPoiNameFrom locals fuel pText nLen choCode (checkCompletHangul pText nLen)
        (first + 1) rest one.textMng one.poiHeaders with
      | none => simp [later] at searched
      | some others =>
        rw [later] at searched
        obtain rfl := Option.some.inj searched
        obtain ⟨_, mine, ownResult, own⟩ := searchPoiName_adds here
        obtain ⟨added, theirResult, theirs⟩ := ih later
        refine ⟨added ++ mine, ?_, ?_⟩
        · rw [List.append_assoc]
          exact theirResult.trans (ownResult.append_left added)
        · intro entry listed
          rcases List.mem_append.mp listed with after | now
          · exact ⟨by have := (theirs entry after).1; omega, (theirs entry after).2⟩
          · have insertable := own entry now
            rw [insertable.1]
            exact ⟨Nat.le_refl _, insertable⟩

/-- The POI of one helper is counted in the result as often as the search of that helper adds it. -/
theorem searchPoiNameFrom_count {fuel times : Nat} {text : List UInt8} {name : List UInt16}
    {info : PoiHeaderF} :
    ∀ {helpers : List SearchHelper} {first : Nat} {textMng : TextMng} {poiHeaders : PoiMap}
      {result : List SearchHelper × TextMng × PoiMap} {place : Nat} {helper : SearchHelper},
      searchPoiNameFrom locals fuel pText nLen choCode (checkCompletHangul pText nLen) first
        helpers textMng poiHeaders = some result →
      textMng.textFp.data = text → helpers[place]? = some helper →
      (∀ textMng poiHeaders one, textMng.textFp.data = text →
        helper.searchPoiName (locals (first + place)) fuel textMng (first + place) pText nLen
          choCode (checkCompletHangul pText nLen) poiHeaders = some one →
        one.poiHeaders.count (name, ⟨first + place, info⟩) =
          times + poiHeaders.count (name, ⟨first + place, info⟩)) →
      result.2.2.count (name, ⟨first + place, info⟩) =
        times + poiHeaders.count (name, ⟨first + place, info⟩) := by
  intro helpers
  induction helpers with
  | nil =>
    intro first textMng poiHeaders result place helper _ _ installed
    simp at installed
  | cons head rest ih =>
    intro first textMng poiHeaders result place helper searched opened installed adds
    unfold searchPoiNameFrom at searched
    cases here : head.searchPoiName (locals first) fuel textMng first pText nLen choCode
      (checkCompletHangul pText nLen) poiHeaders with
    | none => simp [here] at searched
    | some one =>
      simp only [here] at searched
      cases later : searchPoiNameFrom locals fuel pText nLen choCode (checkCompletHangul pText nLen)
        (first + 1) rest one.textMng one.poiHeaders with
      | none => simp [later] at searched
      | some others =>
        rw [later] at searched
        obtain rfl := Option.some.inj searched
        obtain ⟨kept, mine, ownResult, own⟩ := searchPoiName_adds here
        cases place with
        | zero =>
          -- The later helpers add entries of later sidos only.
          rw [List.getElem?_cons_zero] at installed
          obtain rfl := Option.some.inj installed
          obtain ⟨added, theirResult, theirs⟩ := searchPoiNameFrom_adds later
          have foreign : (name, (⟨first + 0, info⟩ : PoiHeader)) ∉ added := by
            intro listed
            have := (theirs _ listed).1
            simp only at this
            omega
          rw [theirResult.count_eq, List.count_append, List.count_eq_zero_of_not_mem foreign,
            Nat.zero_add]
          exact adds textMng poiHeaders one opened here
        | succ place =>
          rw [List.getElem?_cons_succ] at installed
          have shift : first + (place + 1) = first + 1 + place := by omega
          rw [shift] at adds ⊢
          rw [ih later (kept.trans opened) installed adds]
          -- The head adds entries of its own sido only.
          have foreign : (name, (⟨first + 1 + place, info⟩ : PoiHeader)) ∉ mine := by
            intro listed
            have := (own _ listed).1
            simp only at this
            omega
          rw [ownResult.count_eq, List.count_append, List.count_eq_zero_of_not_mem foreign,
            Nat.zero_add]

end Module

end AndroidApps.Gildroia
