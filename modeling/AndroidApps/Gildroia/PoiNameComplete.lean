import AndroidApps.Gildroia.PoiNameLaws

/-! Every POI that matches a query is found, unless a lookup in some sido file hangs. -/

namespace AndroidApps.Gildroia

variable {pText : Nat → UInt16} {nLen : Nat}

/-- A bucket with a POI in it is that of an index record. -/
theorem exists_record_of_mem_bucketOf {data : List UInt8} {choIdxOfs choIdxCnt choCode : Nat}
    {info : PoiHeaderF} (held : info ∈ bucketOf data choIdxOfs choIdxCnt choCode) :
    ∃ index, index < choIdxCnt ∧ keyAt data .u32 choIdxOfs 12 index = choCode ∧
      bucketOf data choIdxOfs choIdxCnt choCode = bucketAt data choIdxOfs index := by
  -- A bucket without a record is empty.
  unfold bucketOf at held ⊢
  cases found : (List.range choIdxCnt).find? fun index =>
    keyAt data .u32 choIdxOfs 12 index == choCode with
  | none =>
    rw [found] at held
    exact absurd held List.not_mem_nil
  | some index =>
    have same := List.find?_some found
    have listed := List.mem_of_find?_eq_some found
    exact ⟨index, List.mem_range.mp listed, beq_iff_eq.mp same, rfl⟩

/-- The bucket of a listed code is that of its record. -/
theorem bucketOf_listed {data : List UInt8} {choIdxOfs choIdxCnt choCode : Nat}
    (table : KeyTable data .u32 choIdxOfs 12 choIdxCnt) {index : Nat}
    (listed : index < choIdxCnt) (held : keyAt data .u32 choIdxOfs 12 index = choCode) :
    bucketOf data choIdxOfs choIdxCnt choCode = bucketAt data choIdxOfs index := by
  unfold bucketOf
  cases found : (List.range choIdxCnt).find? fun index =>
    keyAt data .u32 choIdxOfs 12 index == choCode with
  | none =>
    have absent := List.find?_eq_none.mp found index (List.mem_range.mpr listed)
    exact absurd (beq_iff_eq.mpr held) absent
  | some other =>
    -- Keys determine their record, so the record found is the listed one.
    have same := List.find?_some found
    have inside := List.mem_range.mp (List.mem_of_find?_eq_some found)
    rw [table.key_inj inside listed ((beq_iff_eq.mp same).trans held.symm)]

/-- A POI that matches a query belongs into the bucket the query is looked up in. -/
theorem belongs_of_matches {text : List UInt8} {info : PoiHeaderF} (nonempty : 0 < nLen)
    (matched : Matches pText nLen (nameOf text info)) :
    Belongs text (tranChosungText pText nLen) info := by
  unfold Belongs
  rw [tranChosungText_mod]
  constructor
  · -- The last of the coded positions is one of the name.
    obtain ⟨ch, held, _⟩ := matched (min nLen 2 - 1) (by omega)
    obtain ⟨inside, _⟩ := List.getElem?_eq_some_iff.mp held
    omega
  · apply tranChosungText_congr (by omega)
    intro i coded _
    obtain ⟨ch, held, same⟩ := matched i (by omega)
    rw [List.getD_eq_getElem?_getD, held, Option.getD_some]
    exact choIdx_of_matches same

section Helper

variable {helper : SearchHelper} {text : List UInt8} {pois : Set PoiHeaderF} {info : PoiHeaderF}

/-- A lookup for a query whose code some POI has returns. -/
theorem PoiIndex.returns
    (index : PoiIndex helper.fp.data text helper.poiHeader.poiChoIdxOfs
      helper.poiHeader.poiChoIdxCnt pois)
    (nonempty : 0 < nLen) (poi : info ∈ pois)
    (belongs : Belongs text (tranChosungText pText nLen) info) (junk : Nat) :
    SearchReturns .u32 junk helper.fp (tranChosungText pText nLen) helper.poiHeader.poiChoIdxOfs
      12 helper.poiHeader.poiChoIdxCnt := by
  -- The POI is in the bucket of the code, so that the code is a key of the table.
  have coded : tranChosungText pText nLen % 256 = 1 ∨ tranChosungText pText nLen % 256 = 2 := by
    rw [tranChosungText_mod]
    omega
  have held := (index.exact _ coded info).mpr ⟨poi, belongs⟩
  obtain ⟨record, listed, key, _⟩ := exists_record_of_mem_bucketOf held
  have ended := searchKeyValue_listed index.table listed junk
  rw [key] at ended
  exact searchReturns_iff.mpr ⟨_, ended⟩

/-- A search adds a POI with the code of its query that always agrees as often as its bucket has
it. -/
theorem PoiIndex.count
    (index : PoiIndex helper.fp.data text helper.poiHeader.poiChoIdxOfs
      helper.poiHeader.poiChoIdxCnt pois)
    (nonempty : 0 < nLen) (poi : info ∈ pois)
    (belongs : Belongs text (tranChosungText pText nLen) info)
    (agrees : AlwaysAgrees pText nLen (nameOf text info)) {locals : PoiNameLocals}
    {fuel nSidoIdx : Nat} {textMng : TextMng} {poiHeaders : PoiMap}
    {result : PoiNameResult} (opened : textMng.textFp.data = text)
    (searched : helper.searchPoiName locals fuel textMng nSidoIdx pText nLen
      (tranChosungText pText nLen) (checkCompletHangul pText nLen) poiHeaders = some result) :
    result.poiHeaders.count (nameOf text info, ⟨nSidoIdx, info⟩) =
      (bucketOf helper.fp.data helper.poiHeader.poiChoIdxOfs helper.poiHeader.poiChoIdxCnt
        (tranChosungText pText nLen)).count info +
        poiHeaders.count (nameOf text info, ⟨nSidoIdx, info⟩) := by
  have coded : tranChosungText pText nLen % 256 = 1 ∨ tranChosungText pText nLen % 256 = 2 := by
    rw [tranChosungText_mod]
    omega
  have held := (index.exact _ coded info).mpr ⟨poi, belongs⟩
  obtain ⟨record, listed, key, bucket⟩ := exists_record_of_mem_bucketOf held
  -- Every POI of the bucket is one of the file, so its name can be read.
  have named : ∀ other ∈ bucketAt helper.fp.data helper.poiHeader.poiChoIdxOfs record,
      TextInside text other.nameOfs := by
    intro other member
    rw [← bucket] at member
    exact index.named other ((index.exact _ coded other).mp member).1
  obtain ⟨more, other, again, added, content, _, counted⟩ :=
    searchPoiName_listed index.table listed key (index.buckets record listed) opened named
  obtain rfl := (searchPoiName_final _ _ _ _ _ _ _ _ _).unique searched again
  rw [content.count_eq, List.count_append, counted info agrees, bucket]

end Helper

/-- The search over all sidos returns with a POI inserted once per entry of its bucket. -/
def InsertedOnce (locals : Nat → PoiNameLocals) (um : UmSearchModule) (pText : Nat → UInt16)
    (nLen nSidoIdx : Nat) (info : PoiHeaderF) (bucket : List PoiHeaderF) : Prop :=
  ∃ fuel after, um.searchPoiName locals fuel pText nLen = some after ∧
    after.poiHeaders.count (nameOf um.textMng.textFp.data info, ⟨nSidoIdx, info⟩) =
      bucket.count info

/-- The lookup of a query hangs in the file of a helper. -/
def LookupHangs (helper : SearchHelper) (pText : Nat → UInt16) (nLen : Nat) : Prop :=
  SearchHangs helper.fp .u32 (tranChosungText pText nLen) helper.poiHeader.poiChoIdxOfs 12
    helper.poiHeader.poiChoIdxCnt

instance (helper : SearchHelper) (pText : Nat → UInt16) (nLen : Nat) :
    Decidable (LookupHangs helper pText nLen) :=
  inferInstanceAs (Decidable (SearchHangs ..))

/-- What the search over all sidos returns comes from its loop over the helpers. -/
theorem searchPoiName_ran {locals : Nat → PoiNameLocals} {fuel : Nat} {um after : UmSearchModule}
    (searched : um.searchPoiName locals fuel pText nLen = some after) :
    ∃ result, searchPoiNameFrom locals fuel pText nLen (tranChosungText pText nLen)
        (checkCompletHangul pText nLen) 0 um.helpers um.textMng [] = some result ∧
      { um with helpers := result.1, textMng := result.2.1, poiHeaders := result.2.2 } =
        after := by
  -- The loop over the helpers is all there is.
  unfold UmSearchModule.searchPoiName at searched
  cases ran : searchPoiNameFrom locals fuel pText nLen (tranChosungText pText nLen)
    (checkCompletHangul pText nLen) 0 um.helpers um.textMng [] with
  | none => simp [ran] at searched
  | some result =>
    simp only [ran] at searched
    exact ⟨result, rfl, Option.some.inj searched⟩

/-- The search over all sidos returns exactly when the lookup hangs in none of their files. -/
theorem searchPoiName_allReturn {locals : Nat → PoiNameLocals} {um : UmSearchModule}
    (tables : ∀ helper ∈ um.helpers, KeyTable helper.fp.data .u32 helper.poiHeader.poiChoIdxOfs 12
      helper.poiHeader.poiChoIdxCnt) :
    (∃ fuel after, um.searchPoiName locals fuel pText nLen = some after) ↔
      ∀ helper ∈ um.helpers, ¬ LookupHangs helper pText nLen := by
  -- The loop over the helpers returns when each of its lookups does.
  have returns : (∃ fuel result, searchPoiNameFrom locals fuel pText nLen
      (tranChosungText pText nLen) (checkCompletHangul pText nLen) 0 um.helpers um.textMng [] =
        some result) ↔ _ :=
    searchPoiNameFrom_returns um.helpers 0 um.textMng []
  constructor
  · rintro ⟨fuel, after, searched⟩ helper member
    obtain ⟨result, ran, _⟩ := searchPoiName_ran searched
    obtain ⟨place, here⟩ := List.mem_iff_getElem?.mp member
    exact (searchReturns_iff_not_hangs (tables helper member) _ _).mp
      (returns.mp ⟨fuel, result, ran⟩ place helper here)
  · intro quiet
    obtain ⟨fuel, result, ran⟩ := returns.mpr (by
      intro place helper here
      have member := List.mem_iff_getElem?.mpr ⟨place, here⟩
      exact (searchReturns_iff_not_hangs (tables helper member) _ _).mpr (quiet helper member))
    refine ⟨fuel, { um with
      helpers := result.1, textMng := result.2.1, poiHeaders := result.2.2 }, ?_⟩
    unfold UmSearchModule.searchPoiName
    simp only [ran]

/--
The name search has no false negatives, as long as no lookup hangs.

A POI matching the query is in its bucket at least once, and the search of its own sido always
returns with the POI inserted once per bucket entry.
The lookup never hangs in the POI's own file, and the search over all sidos inserts the POI so
exactly when the query's lookup hangs in none of their files.
-/
theorem searchPoiName_finds (locals : Nat → PoiNameLocals) (um : UmSearchModule)
    (pois : Nat → Set PoiHeaderF)
    (indexed : ∀ place helper, um.helpers[place]? = some helper →
      PoiIndex helper.fp.data um.textMng.textFp.data helper.poiHeader.poiChoIdxOfs
        helper.poiHeader.poiChoIdxCnt (pois place))
    (pText : Nat → UInt16) (nLen : Nat) (nonempty : 0 < nLen)
    (nSidoIdx : Fin um.helpers.length) (info : PoiHeaderF) (poi : info ∈ pois nSidoIdx)
    (matched : Matches pText nLen (nameOf um.textMng.textFp.data info)) :
    let helper := um.helpers.get nSidoIdx
    let bucket := bucketOf helper.fp.data helper.poiHeader.poiChoIdxOfs
      helper.poiHeader.poiChoIdxCnt (tranChosungText pText nLen)
    0 < bucket.count info ∧
    (∃ fuel after, um.searchPoiNameSido locals fuel nSidoIdx pText nLen = some after ∧
      after.poiHeaders.count (nameOf um.textMng.textFp.data info, ⟨nSidoIdx, info⟩) =
        bucket.count info) ∧
    ¬ LookupHangs helper pText nLen ∧
    (InsertedOnce locals um pText nLen nSidoIdx info bucket ↔
      ∀ other ∈ um.helpers, ¬ LookupHangs other pText nLen) := by
  intro helper bucket
  have installed : um.helpers[nSidoIdx.val]? = some helper := List.getElem?_eq_getElem nSidoIdx.2
  have index := indexed nSidoIdx helper installed
  have belongs := belongs_of_matches nonempty matched
  have coded : tranChosungText pText nLen % 256 = 1 ∨ tranChosungText pText nLen % 256 = 2 := by
    rw [tranChosungText_mod]
    omega
  refine ⟨?_, ?_, ?_, ?_⟩
  · rw [List.count_pos_iff]
    exact (index.exact _ coded info).mpr ⟨poi, belongs⟩
  · have returns : ∃ fuel result, (um.helpers.get nSidoIdx).searchPoiName (locals nSidoIdx) fuel
        um.textMng nSidoIdx pText nLen (tranChosungText pText nLen)
          (checkCompletHangul pText nLen) [] = some result :=
      searchPoiName_returns.mpr (index.returns nonempty poi belongs _)
    obtain ⟨fuel, result, searched⟩ := returns
    refine ⟨fuel, { um with
      helpers := um.helpers.set nSidoIdx result.helper
      textMng := result.textMng
      poiHeaders := result.poiHeaders }, ?_, ?_⟩
    · unfold UmSearchModule.searchPoiNameSido
      simp only [searched]
    · have counted := index.count nonempty poi belongs matched.alwaysAgrees rfl searched
      rwa [List.count_nil, Nat.add_zero] at counted
  · exact (searchReturns_iff_not_hangs index.table _ 0).mp (index.returns nonempty poi belongs 0)
  · rw [← searchPoiName_allReturn fun other member => ?_]
    · constructor
      · rintro ⟨fuel, after, searched, _⟩
        exact ⟨fuel, after, searched⟩
      · rintro ⟨fuel, after, searched⟩
        refine ⟨fuel, after, searched, ?_⟩
        obtain ⟨result, ran, rfl⟩ := searchPoiName_ran searched
        -- Only the search of its own sido adds this POI.
        have counted : result.2.2.count
            (nameOf um.textMng.textFp.data info, ⟨0 + nSidoIdx.val, info⟩) =
              bucket.count info + _ :=
          searchPoiNameFrom_count ran rfl installed (by
            intro textMng poiHeaders one opened searched
            rw [Nat.zero_add] at searched ⊢
            exact index.count nonempty poi belongs matched.alwaysAgrees opened searched)
        rwa [List.count_nil, Nat.add_zero, Nat.zero_add] at counted
    · obtain ⟨place, here⟩ := List.mem_iff_getElem?.mp member
      exact (indexed place other here).table

/-- The index of a file with one POI, which has a record for every code of that POI's name. -/
theorem poiIndex_of_records {data text : List UInt8} {choIdxOfs cnt : Nat} {info : PoiHeaderF}
    (codes : cnt = min (nameOf text info).length 2)
    (table : KeyTable data .u32 choIdxOfs 12 cnt)
    (inside : ∀ index, index < cnt → wordAt data (choIdxOfs + index * 12 + 4) 4 +
      wordAt data (choIdxOfs + index * 12 + 8) 4 * 8 ≤ data.length)
    (bucket : ∀ index, index < cnt → bucketAt data choIdxOfs index = [info])
    (named : TextInside text info.nameOfs)
    (coded : ∀ index, index < cnt → keyAt data .u32 choIdxOfs 12 index =
      tranChosungText (fun i => (nameOf text info).getD i 0) (index + 1)) :
    PoiIndex data text choIdxOfs cnt {info} := by
  refine ⟨table, inside, ?_, ?_⟩
  · intro choCode lengths other
    rw [Set.mem_singleton_iff]
    constructor
    · -- Whatever bucket is found, it holds the POI, whose name has the code of the record.
      intro held
      obtain ⟨index, listed, key, same⟩ := exists_record_of_mem_bucketOf held
      rw [same, bucket index listed, List.mem_singleton] at held
      subst held
      rw [coded index listed] at key
      have field : choCode % 256 = index + 1 := by
        rw [← key, tranChosungText_mod]
        omega
      refine ⟨rfl, ?_, ?_⟩
      · rw [field]
        omega
      · rw [field]
        exact key
    · intro both
      obtain ⟨here, long, key⟩ := both
      subst here
      -- The record of this length is listed and holds the code.
      obtain ⟨index, field⟩ : ∃ index, choCode % 256 = index + 1 := ⟨choCode % 256 - 1, by omega⟩
      have listed : index < cnt := by omega
      rw [field] at key
      rw [bucketOf_listed table listed ((coded index listed).trans key), bucket index listed]
      exact List.mem_singleton_self _
  · intro other here
    rw [Set.mem_singleton_iff.mp here]
    exact named

/-- A helper of a file of which only the chosung index is looked at. -/
def bareHelper (fp : File) (choIdxOfs choIdxCnt : Nat) : SearchHelper where
  fp := fp
  fileHeader := ⟨0, 0, 0, 0⟩
  addrHeader := ⟨0, 0, 0, 0, 0, 0, 0, 0, 0⟩
  poiHeader := ⟨0, 0, 0, choIdxOfs, choIdxCnt, 0, 0, 0, 0, 0, 0, 0⟩
  sidoData := ⟨0, 0, 0, 0, 0, 0⟩
  sigunguDatas := []
  sigunguDataFs := []
  dongDatas := []
  dongExDatas := []
  roadDatas := []
  bunjiDatas := []
  hoDatas := []
  newHoDatas := []
  ldCodeOffset := []

/-- A text manager of a text file, with empty buffers. -/
def bareTextMng (textFp : File) : TextMng where
  textFp := textFp
  nameFp := textFp
  sidoOfs := 0
  sigunguOfs := 0
  dongOfs := 0
  roadOfs := 0
  textBuff := fun _ => List.replicate 32 0
  sized := zeros_sized

/-- A module with these helpers and no results yet. -/
def bareModule (helpers : List SearchHelper) (textFp : File) : UmSearchModule :=
  ⟨helpers, bareTextMng textFp, [], [], []⟩

/-- Uninitialised variables that happen to be zero. -/
def zeroLocals : PoiNameLocals := ⟨0, 0, 0, fun _ => 0, ⟨0, 0, 0, 0, 0⟩⟩

/-- A text file with two names of one syllable each. -/
def twoNames : File := ⟨[0x98, 0xB0, 0x00, 0xAC], 0, by decide⟩

/-- A file with the POI of the first name: its header, four unused bytes and its index record. -/
def lowPoiFile : File :=
  ⟨[1, 0, 0, 0, 0, 0, 0, 0, 0, 0, 0, 0, 1, 3, 0, 0, 0, 0, 0, 0, 1, 0, 0, 0], 0,
    loneRecord.addressable⟩

/-- A file with the POI of the second name. -/
def highPoiFile : File :=
  ⟨[65, 0, 0, 0, 0, 0, 0, 0, 1, 1, 0, 0, 0, 0, 0, 0, 1, 0, 0, 0], 0, by decide⟩

theorem lowPoiFile_index :
    PoiIndex lowPoiFile.data twoNames.data 12 1 {⟨1, 0, 0, 0, 0⟩} :=
  poiIndex_of_records (by decide) (by decide) (by decide) (by decide) (by decide) (by decide)

theorem highPoiFile_index :
    PoiIndex highPoiFile.data twoNames.data 8 1 {⟨65, 0, 0, 0, 0⟩} :=
  poiIndex_of_records (by decide) (by decide) (by decide) (by decide) (by decide) (by decide)

/-- With its own file installed alone, the POI of the second name is found by its syllable. -/
theorem searchPoiName_finds_alone :
    InsertedOnce (fun _ => zeroLocals) (bareModule [bareHelper highPoiFile 8 1] twoNames)
      (fun _ => 0xAC00) 1 0 ⟨65, 0, 0, 0, 0⟩ [⟨65, 0, 0, 0, 0⟩] := by
  -- There is one helper, and its file has the index of the one POI.
  have found := searchPoiName_finds (fun _ => zeroLocals)
    (bareModule [bareHelper highPoiFile 8 1] twoNames) (fun _ => {⟨65, 0, 0, 0, 0⟩})
    (by
      intro place helper installed
      cases place with
      | zero =>
        obtain rfl := Option.some.inj installed
        exact highPoiFile_index
      | succ place => simp [bareModule] at installed)
    (fun _ => 0xAC00) 1 (by decide) ⟨0, by decide⟩ ⟨65, 0, 0, 0, 0⟩ rfl
    (by
      intro i below
      have first : i = 0 := by omega
      subst first
      exact ⟨0xAC00, by decide, by decide⟩)
  refine found.2.2.2.mpr ?_
  intro other member
  obtain rfl := List.mem_singleton.mp member
  decide

/--
Installed behind the file of the first name, the same POI is never found.

The lookup in the first file wraps below its only record and does not return.
-/
theorem searchPoiName_blocked :
    let um := bareModule [bareHelper lowPoiFile 12 1, bareHelper highPoiFile 8 1] twoNames
    PoiIndex lowPoiFile.data twoNames.data 12 1 {⟨1, 0, 0, 0, 0⟩} ∧
    PoiIndex highPoiFile.data twoNames.data 8 1 {⟨65, 0, 0, 0, 0⟩} ∧
    nameOf twoNames.data ⟨65, 0, 0, 0, 0⟩ = [0xAC00] ∧
    ¬ ∃ fuel after, um.searchPoiName (fun _ => zeroLocals) fuel (fun _ => 0xAC00) 1 =
      some after := by
  -- The code is below the only one of the first file, where the search wraps.
  refine ⟨lowPoiFile_index, highPoiFile_index, by decide, ?_⟩
  rw [searchPoiName_allReturn]
  · intro quiet
    exact quiet (bareHelper lowPoiFile 12 1) List.mem_cons_self (by decide)
  · intro helper member
    rcases List.mem_cons.mp member with first | later
    · rw [first]
      exact lowPoiFile_index.table
    · rw [List.mem_singleton.mp later]
      exact highPoiFile_index.table

end AndroidApps.Gildroia
