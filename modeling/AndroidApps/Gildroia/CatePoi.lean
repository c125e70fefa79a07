import AndroidApps.Gildroia.KeySearchLaws
import AndroidApps.Gildroia.PoiNameComplete
import AndroidApps.Gildroia.Searches

/-! The POIs of a category: three tables, one below the other, and the list the last one
leads to. -/

namespace AndroidApps.Gildroia

section Pairs

variable {fp : File} {width : KeyWidth} {key offset recordSize cnt : Nat}

/-- The search for a key of a table leads to the pair of words of its record. -/
theorem searchPair_listed (locals : PoiLocals)
    (table : KeyTable fp.data width offset recordSize cnt)
    (room : width.bytes + 8 ≤ recordSize) {target : Nat} (listed : target < cnt)
    (held : keyAt fp.data width offset recordSize target = key) (old : Nat × Nat) :
    Loop.Yields
      (fun fuel => searchPair locals fuel width fp key offset recordSize cnt old)
      (some (wordAt fp.data (offset + target * recordSize + width.bytes) 4,
        wordAt fp.data (offset + target * recordSize + width.bytes + 4) 4),
        fp.moveTo (offset + target * recordSize + width.bytes + 8)) := by
  subst held
  have whole := table.inside
  have record : (target + 1) * recordSize ≤ cnt * recordSize := Nat.mul_le_mul_right _ listed
  rw [Nat.succ_mul] at record
  -- The record lies inside the table, so that both words behind the key are read from the file.
  refine (searchKeyValue_listed table listed locals.nKeyValue).yields.computed ?_
  intro fuel searched
  have searched : searchKeyValue width locals.nKeyValue fuel fp _ offset recordSize cnt = _ :=
    searched
  rw [searchPair, searched]
  dsimp only
  rw [File.freadWord_inside (by simp only [File.moveTo_pos, File.moveTo_data]; omega)]
  dsimp only
  rw [File.freadWord_inside (by simp only [File.moveTo_pos, File.moveTo_data]; omega)]
  rfl

end Pairs

section Trees

/-- The table a pair of a count and an offset leads to. -/
abbrev CateTable (data : List UInt8) (entry : Nat × Nat) : Prop :=
  KeyTable data .u16 entry.2 10 entry.1

/-- The count and the offset in a record of a table. -/
def catePair (data : List UInt8) (table : Nat × Nat) (index : Nat) : Nat × Nat :=
  (wordAt data (table.2 + index * 10 + 2) 4, wordAt data (table.2 + index * 10 + 2 + 4) 4)

/-- The pair behind a code of a table. -/
def CateEntry (data : List UInt8) (table : Nat × Nat) (code : Nat) (entry : Nat × Nat) : Prop :=
  ∃ index, index < table.1 ∧ keyAt data .u16 table.2 10 index = code ∧
    entry = catePair data table index

instance (data : List UInt8) (table : Nat × Nat) (code : Nat) (entry : Nat × Nat) :
    Decidable (CateEntry data table code entry) := inferInstanceAs (Decidable (∃ _, _ ∧ _))

/-- The first table, with its count in front of it. Its place is the word that ends a part. -/
def cateTop (data : List UInt8) (endOfs : Nat) : Nat × Nat :=
  (wordAt data (wordAt data (endOfs - 4) 4) 4, wordAt data (endOfs - 4) 4 + 4)

/-- The places of the POIs in the list of a leaf. -/
def leafOffsets (data : List UInt8) (leaf : Nat × Nat) : List Nat :=
  File.elementsAt leWord 4 data leaf.2 leaf.1

/-- The header at a place of the file. -/
def headerAt (data : List UInt8) (offset : Nat) : PoiHeaderF :=
  PoiHeaderF.decode (bytesAt data offset 8)

/-- The POIs in a list of places that have a name. -/
def namedPois (data : List UInt8) (offsets : List Nat) : List PoiHeaderF :=
  (offsets.map (headerAt data)).filter fun info => info.nameOfs % 32 ≠ 0

/-- What POIs are in a result, each under its name. -/
def poiEntries (nSidoIdx : Nat) (text : List UInt8) (pois : List PoiHeaderF) : PoiMap :=
  pois.map fun info => (nameOf text info, ⟨nSidoIdx, info⟩)

/-- Results with the same entries are of the same POIs. -/
theorem poiEntries_perm_iff {nSidoIdx : Nat} {text : List UInt8} {pois others : List PoiHeaderF} :
    (poiEntries nSidoIdx text pois).Perm (poiEntries nSidoIdx text others) ↔
      pois.Perm others := by
  constructor
  · intro same
    -- Each entry has its POI in it.
    have back : ∀ list : List PoiHeaderF,
        (poiEntries nSidoIdx text list).map (fun entry => entry.2.info) = list := by
      intro list
      rw [poiEntries, List.map_map]
      exact List.map_id list
    have mapped := same.map fun entry => entry.2.info
    rwa [back, back] at mapped
  · exact fun same => same.map _

/-- A leaf whose list, POIs and names can be read. -/
structure LeafInside (data text : List UInt8) (leaf : Nat × Nat) : Prop where
  list : leaf.2 + leaf.1 * 4 ≤ data.length
  header : ∀ offset ∈ leafOffsets data leaf, offset + 8 ≤ data.length
  named : ∀ info ∈ namedPois data (leafOffsets data leaf), TextInside text info.nameOfs

instance (data text : List UInt8) (leaf : Nat × Nat) : Decidable (LeafInside data text leaf) :=
  decidable_of_iff (leaf.2 + leaf.1 * 4 ≤ data.length ∧
    (∀ offset ∈ leafOffsets data leaf, offset + 8 ≤ data.length) ∧
    ∀ info ∈ namedPois data (leafOffsets data leaf),
      info.nameOfs / 32 + info.nameOfs % 32 * 2 ≤ text.length)
    ⟨fun ⟨list, header, named⟩ => ⟨list, header, named⟩,
      fun ⟨list, header, named⟩ => ⟨list, header, named⟩⟩

/-- Three levels of tables, the last of which lead to the leaves. -/
structure CateTree (data text : List UInt8) (endOfs : Nat) : Prop where
  placed : 4 ≤ endOfs ∧ endOfs ≤ data.length
  large : CateTable data (cateTop data endOfs)
  middle : ∀ code entry, CateEntry data (cateTop data endOfs) code entry → CateTable data entry
  small : ∀ code1 first code2 second, CateEntry data (cateTop data endOfs) code1 first →
    CateEntry data first code2 second → CateTable data second
  leaf : ∀ code1 first code2 second code3 leaf, CateEntry data (cateTop data endOfs) code1 first →
    CateEntry data first code2 second → CateEntry data second code3 leaf → LeafInside data text leaf

/-- A tree can be checked record by record. -/
instance (data text : List UInt8) (endOfs : Nat) : Decidable (CateTree data text endOfs) :=
  decidable_of_iff ((4 ≤ endOfs ∧ endOfs ≤ data.length) ∧ CateTable data (cateTop data endOfs) ∧
    ∀ i, i < (cateTop data endOfs).1 → CateTable data (catePair data (cateTop data endOfs) i) ∧
      ∀ j, j < (catePair data (cateTop data endOfs) i).1 →
        CateTable data (catePair data (catePair data (cateTop data endOfs) i) j) ∧
        ∀ k, k < (catePair data (catePair data (cateTop data endOfs) i) j).1 →
          LeafInside data text
            (catePair data (catePair data (catePair data (cateTop data endOfs) i) j) k))
    (by
      constructor
      · rintro ⟨placed, large, below⟩
        refine ⟨placed, large, ?_, ?_, ?_⟩
        · rintro code entry ⟨i, first, _, rfl⟩
          exact (below i first).1
        · rintro code1 first code2 second ⟨i, one, _, rfl⟩ ⟨j, two, _, rfl⟩
          exact ((below i one).2 j two).1
        · rintro code1 first code2 second code3 leaf ⟨i, one, _, rfl⟩ ⟨j, two, _, rfl⟩
            ⟨k, three, _, rfl⟩
          exact ((below i one).2 j two).2 k three
      · intro tree
        refine ⟨tree.placed, tree.large, fun i one => ?_⟩
        have first : CateEntry data (cateTop data endOfs) _ _ := ⟨i, one, rfl, rfl⟩
        refine ⟨tree.middle _ _ first, fun j two => ?_⟩
        have second : CateEntry data (catePair data (cateTop data endOfs) i) _ _ :=
          ⟨j, two, rfl, rfl⟩
        exact ⟨tree.small _ _ _ _ first second, fun k three =>
          tree.leaf _ _ _ _ _ _ first second ⟨k, three, rfl, rfl⟩⟩)

/-- The leaf behind three codes of a tree. -/
def CateLeaf (data : List UInt8) (endOfs code1 code2 code3 : Nat) (leaf : Nat × Nat) : Prop :=
  ∃ first second, CateEntry data (cateTop data endOfs) code1 first ∧
    CateEntry data first code2 second ∧ CateEntry data second code3 leaf

/-- What the leaf adds to a result: its POIs that have a name. -/
def leafEntries (nSidoIdx : Nat) (data text : List UInt8) (leaf : Nat × Nat) : PoiMap :=
  poiEntries nSidoIdx text (namedPois data (leafOffsets data leaf))

/-- A leaf of a tree can be read. -/
theorem CateTree.leafInside {data text : List UInt8} {endOfs code1 code2 code3 : Nat}
    {leaf : Nat × Nat} (tree : CateTree data text endOfs)
    (found : CateLeaf data endOfs code1 code2 code3 leaf) : LeafInside data text leaf := by
  obtain ⟨first, second, large, middle, small⟩ := found
  exact tree.leaf _ _ _ _ _ _ large middle small

variable {fp : File} {text : List UInt8} {endOfs code1 code2 code3 : Nat} {leaf : Nat × Nat}

/-- One level of the lookup: the code is found in its table, wherever the file stands. -/
theorem searchPair_entry (locals : PoiLocals) {file : File} (opened : file.data = fp.data)
    {table entry : Nat × Nat} {code : Nat} (tabled : CateTable fp.data table)
    (found : CateEntry fp.data table code entry) (old : Nat × Nat) :
    ∃ after : File, after.data = fp.data ∧
      Loop.Yields (fun fuel => searchPair locals fuel .u16 file code table.2 10 table.1 old)
        (some entry, after) := by
  obtain ⟨index, listed, held, rfl⟩ := found
  rw [← opened] at tabled held ⊢
  exact ⟨file.moveTo (table.2 + index * 10 + 2 + 8), rfl,
    searchPair_listed locals tabled (by decide) listed held old⟩

/-- The lookup of three codes of a tree leads to their leaf. -/
theorem searchCateInfo_leaf (locals : PoiLocals) (tree : CateTree fp.data text endOfs)
    (found : CateLeaf fp.data endOfs code1 code2 code3 leaf) :
    ∃ after : File, after.data = fp.data ∧
      Loop.Yields (fun fuel => searchCateInfo locals fuel fp endOfs code1 code2 code3)
        (some leaf, after) := by
  obtain ⟨first, second, large, middle, small⟩ := found
  obtain ⟨low, high⟩ := tree.placed
  have addressable := fp.addressable
  -- The end of the part leads to the count, and the first table stands behind it.
  have back : u32Sub endOfs 4 = endOfs - 4 := by
    unfold u32Sub
    omega
  have counted : wordAt fp.data (endOfs - 4) 4 + 4 ≤ fp.data.length := by
    have := tree.large.inside
    simp only [cateTop] at this
    omega
  have start : (fp.moveTo (wordAt fp.data (endOfs - 4) 4 + 4)).data = fp.data := rfl
  -- Each level is searched where the one before it points to.
  obtain ⟨file1, opened1, search1⟩ := searchPair_entry locals start tree.large large
    (wordAt fp.data (wordAt fp.data (endOfs - 4) 4) 4, wordAt fp.data (endOfs - 4) 4)
  obtain ⟨file2, opened2, search2⟩ := searchPair_entry locals opened1
    (tree.middle _ _ large) middle first
  obtain ⟨file3, opened3, search3⟩ := searchPair_entry locals opened2
    (tree.small _ _ _ _ large middle) small second
  obtain ⟨enough1, search1⟩ := search1
  obtain ⟨enough2, search2⟩ := search2
  obtain ⟨enough3, search3⟩ := search3
  -- The fuel is enough for all three searches.
  refine ⟨file3, opened3, max enough1 (max enough2 enough3), fun fuel longer => ?_⟩
  have search1 := search1 fuel (by omega)
  simp only [cateTop] at search1
  unfold searchCateInfo
  rw [back, File.freadWord_fseek (by omega)]
  dsimp only
  rw [File.freadWord_fseek (by simpa using counted)]
  simp only [File.moveTo_data, File.moveTo_pos, File.moveTo_moveTo]
  rw [search1]
  have search2 :
      searchPair locals fuel .u16 file1 code2 first.2 10 first.1 (first.1, first.2) = _ :=
    search2 fuel (by omega)
  dsimp only
  rw [search2]
  exact search3 fuel (by omega)

end Trees

section Lists

/-- A call that only moved positions and filled buffers. -/
structure OnlyRead (state after : HelperState) : Prop where
  helper : after.helper = { state.helper with fp := after.helper.fp }
  data : after.helper.fp.data = state.helper.fp.data
  text : after.textMng.textFp.data = state.textMng.textFp.data

namespace OnlyRead

variable {state middle after : HelperState}

theorem refl (state : HelperState) : OnlyRead state state := ⟨rfl, rfl, rfl⟩

theorem trans (first : OnlyRead state middle) (second : OnlyRead middle after) :
    OnlyRead state after where
  helper := by
    rw [second.helper, first.helper]
  data := second.data.trans first.data
  text := second.text.trans first.text

/-- Moving the position of the sido file is nothing but reading. -/
theorem moved {fp : File} (same : fp.data = state.helper.fp.data) :
    OnlyRead state { state with helper := { state.helper with fp := fp } } := ⟨rfl, same, rfl⟩

end OnlyRead

/-- Reading a POI of a list moves positions only. -/
theorem catePoiPass_onlyRead (nSidoIdx : Nat) (info : PoiHeaderF) (poiHeaders : PoiMap)
    (state : HelperState) (offset : Nat) :
    OnlyRead state (catePoiPass nSidoIdx (info, poiHeaders, state) offset).2.2 := by
  unfold catePoiPass
  dsimp only
  split
  · exact ⟨rfl, by simp, by simp⟩
  · exact .moved (by simp)

/-- A POI of a list is inserted under its name, unless that is empty. -/
theorem catePoiPass_inserts (nSidoIdx : Nat) (info : PoiHeaderF) (poiHeaders : PoiMap)
    (state : HelperState)
    {offset : Nat} (inside : offset + 8 ≤ state.helper.fp.data.length)
    (named : (headerAt state.helper.fp.data offset).nameOfs % 32 ≠ 0 →
      TextInside state.textMng.textFp.data (headerAt state.helper.fp.data offset).nameOfs) :
    (catePoiPass nSidoIdx (info, poiHeaders, state) offset).2.1 =
      if (headerAt state.helper.fp.data offset).nameOfs % 32 ≠ 0 then
        poiHeaders.insert
          (nameOf state.textMng.textFp.data (headerAt state.helper.fp.data offset),
            ⟨nSidoIdx, headerAt state.helper.fp.data offset⟩)
      else poiHeaders := by
  -- A POI with the empty name is passed over, and the name of any other one is read.
  unfold catePoiPass
  simp only [File.fread_fseek inside]
  split
  · rename_i has
    refine Eq.trans ?_ (if_pos has).symm
    exact congrArg
      (fun name => poiHeaders.insert (name, ⟨nSidoIdx, headerAt state.helper.fp.data offset⟩))
      (cString_getTextOfs 0 (named has))
  · rename_i lacks
    exact (if_neg lacks).symm

/-- The loop over a list inserts its named POIs, each as often as the list has it. -/
theorem catePois_insert (nSidoIdx : Nat) (offsets : List Nat) :
    ∀ (info : PoiHeaderF) (poiHeaders : PoiMap) (state : HelperState),
      (∀ offset ∈ offsets, offset + 8 ≤ state.helper.fp.data.length) →
      (∀ info ∈ namedPois state.helper.fp.data offsets,
        TextInside state.textMng.textFp.data info.nameOfs) →
      OnlyRead state (offsets.foldl (catePoiPass nSidoIdx) (info, poiHeaders, state)).2.2 ∧
      (offsets.foldl (catePoiPass nSidoIdx) (info, poiHeaders, state)).2.1.Perm
        (poiEntries nSidoIdx state.textMng.textFp.data
          (namedPois state.helper.fp.data offsets) ++ poiHeaders) := by
  -- The induction is on the list. What is inserted later may stand in front of it.
  induction offsets with
  | nil =>
    intro info poiHeaders state _ _
    exact ⟨.refl state, List.Perm.refl _⟩
  | cons offset rest ih =>
    intro info poiHeaders state inside named
    have read := catePoiPass_onlyRead nSidoIdx info poiHeaders state offset
    have own : (headerAt state.helper.fp.data offset).nameOfs % 32 ≠ 0 →
        headerAt state.helper.fp.data offset ∈
          namedPois state.helper.fp.data (offset :: rest) := by
      intro has
      exact List.mem_filter.mpr ⟨List.mem_cons_self, decide_eq_true has⟩
    have later : ∀ info ∈ namedPois state.helper.fp.data rest,
        info ∈ namedPois state.helper.fp.data (offset :: rest) := by
      intro info member
      obtain ⟨listed, has⟩ := List.mem_filter.mp member
      exact List.mem_filter.mpr ⟨List.mem_cons_of_mem _ listed, has⟩
    have inserted := catePoiPass_inserts nSidoIdx info poiHeaders state
      (inside offset List.mem_cons_self) fun has => named _ (own has)
    rw [List.foldl_cons]
    -- The pass is known by what it inserts, and by what it leaves unchanged.
    generalize catePoiPass nSidoIdx (info, poiHeaders, state) offset = vars at read inserted ⊢
    obtain ⟨header, held, after⟩ := vars
    dsimp only at read inserted
    have behind := ih header held after
      (fun other member => read.data ▸ inside other (List.mem_cons_of_mem offset member))
      (fun info member => read.text ▸ named info (later info (read.data ▸ member)))
    rw [read.data, read.text] at behind
    refine ⟨read.trans behind.1, behind.2.trans ?_⟩
    rw [inserted]
    split
    · rename_i has
      have first : namedPois state.helper.fp.data (offset :: rest) =
          headerAt state.helper.fp.data offset :: namedPois state.helper.fp.data rest :=
        List.filter_cons_of_pos (decide_eq_true has)
      rw [first]
      refine ((PoiMap.insert_perm poiHeaders _).append_left _).trans ?_
      exact List.perm_middle
    · -- Its name is the empty one, and nothing was inserted.
      rename_i lacks
      have skipped : namedPois state.helper.fp.data (offset :: rest) =
          namedPois state.helper.fp.data rest :=
        List.filter_cons_of_neg (by simpa using lacks)
      rw [skipped]

end Lists

section Searches

variable {state : HelperState} {code1 code2 code3 : Nat} {leaf : Nat × Nat}

/-- A search that adds exactly these entries to whatever result it is given. -/
def Inserts (state : HelperState) (search : Nat → PoiMap → Option (PoiMap × HelperState))
    (entries : PoiMap) : Prop :=
  ∀ poiHeaders, ∃ after : PoiMap × HelperState,
    Loop.Yields (fun fuel => search fuel poiHeaders) after ∧ OnlyRead state after.2 ∧
      after.1.Perm (entries ++ poiHeaders)

/-- What a search inserts is determined, up to the order. -/
theorem Inserts.unique {search : Nat → PoiMap → Option (PoiMap × HelperState)}
    {first second : PoiMap} (one : Inserts state search first)
    (other : Inserts state search second) :
    first.Perm second := by
  -- Two runs that begin with an empty result end in the same one.
  obtain ⟨result, ended, _, added⟩ := one []
  obtain ⟨same, again, _, inserted⟩ := other []
  rw [ended.unique again] at added
  simpa using added.symm.trans inserted

/-- In what order the entries are listed does not matter. -/
theorem Inserts.of_perm {search : Nat → PoiMap → Option (PoiMap × HelperState)}
    {first second : PoiMap} (inserts : Inserts state search first) (same : first.Perm second) :
    Inserts state search second := by
  intro poiHeaders
  obtain ⟨after, ended, read, added⟩ := inserts poiHeaders
  exact ⟨after, ended, read, added.trans (same.append_right poiHeaders)⟩

/-- Below the end of a part, the named POIs of the leaf are inserted. -/
theorem searchPoiCate_leaf (locals : PoiLocals) (nSidoIdx : Nat) {endOfs : Nat}
    (tree : CateTree state.helper.fp.data state.textMng.textFp.data endOfs)
    (found : CateLeaf state.helper.fp.data endOfs code1 code2 code3 leaf) :
    Inserts state
      (fun fuel poiHeaders =>
        state.searchPoiCate locals fuel nSidoIdx endOfs code1 code2 code3 poiHeaders)
      (leafEntries nSidoIdx state.helper.fp.data state.textMng.textFp.data leaf) := by
  intro poiHeaders
  obtain ⟨file, opened, searched⟩ := searchCateInfo_leaf locals tree found
  have readable := tree.leafInside found
  have addressable := state.helper.fp.addressable
  have list := readable.list
  -- The list lies inside the file, so that its count is not negative as an `int`.
  have count : (toInt leaf.1).toNat = leaf.1 := by
    unfold toInt
    split <;> omega
  have listRead : ∃ behind : File, behind.data = state.helper.fp.data ∧
      (if leaf.1 = 0 then ([], file) else
        File.freadArray leWord 4 ((List.range leaf.1).map fun i => u32 (locals.offsets i))
          (file.fseek leaf.2)) = (leafOffsets state.helper.fp.data leaf, behind) := by
    -- An empty list is not even looked for.
    by_cases empty : leaf.1 = 0
    · refine ⟨file, opened, ?_⟩
      rw [if_pos empty, leafOffsets, empty]
      rfl
    · refine ⟨file.moveTo (leaf.2 + leaf.1 * 4), opened, ?_⟩
      rw [if_neg empty, File.fseek_of_lt (by omega), File.freadArray_inside]
      · simp only [List.length_map, List.length_range, File.moveTo_data, File.moveTo_pos, opened]
        rfl
      · simp only [List.length_map, List.length_range, File.moveTo_data, File.moveTo_pos, opened]
        exact list
  obtain ⟨behind, kept, listRead⟩ := listRead
  have moved : OnlyRead state { state with helper := { state.helper with fp := behind } } :=
    .moved kept
  have inserted := catePois_insert nSidoIdx (leafOffsets state.helper.fp.data leaf) locals.info
    poiHeaders { state with helper := { state.helper with fp := behind } }
    (by rw [moved.data]; exact readable.header) (by rw [moved.data]; exact readable.named)
  rw [moved.data] at inserted
  refine ⟨_, searched.computed ?_, moved.trans inserted.1, inserted.2⟩
  intro fuel category
  change state.searchPoiCate locals fuel nSidoIdx endOfs code1 code2 code3 poiHeaders = _
  unfold HelperState.searchPoiCate
  rw [category]
  dsimp only
  rw [count, listRead]

/-- The sido search looks below the end of its own part. -/
theorem searchPoiCateSido_leaf (locals : PoiLocals) (nSidoIdx : Nat)
    (tree : CateTree state.helper.fp.data state.textMng.textFp.data
      state.helper.poiHeader.catePoiOfs)
    (found : CateLeaf state.helper.fp.data state.helper.poiHeader.catePoiOfs code1 code2 code3
      leaf) :
    Inserts state
      (fun fuel poiHeaders =>
        state.searchPoiCateSido locals fuel nSidoIdx code1 code2 code3 poiHeaders)
      (leafEntries nSidoIdx state.helper.fp.data state.textMng.textFp.data leaf) :=
  searchPoiCate_leaf locals nSidoIdx tree found

/-- The end of the part that the record of an index stands for. -/
def partEnd (data : List UInt8) (idxOfs index : Nat) : Nat :=
  wordAt data (idxOfs + index * 12 + 8) 4

/-- The part of a code of an index, with a tree in which the three codes lead to a leaf. -/
structure IndexLeaf (data text : List UInt8) (idxOfs idxCnt code code1 code2 code3 : Nat)
    (leaf : Nat × Nat) : Prop where
  record : ∃ index, index < idxCnt ∧ keyAt data .u32 idxOfs 12 index = code ∧
    CateTree data text (partEnd data idxOfs index) ∧
    CateLeaf data (partEnd data idxOfs index) code1 code2 code3 leaf

/-- Through an index, the named POIs of the leaf of the part are inserted. -/
theorem searchPoiCateIndex_leaf (locals : PoiLocals) (nSidoIdx : Nat) {idxOfs idxCnt code : Nat}
    (table : KeyTable state.helper.fp.data .u32 idxOfs 12 idxCnt)
    (listed : IndexLeaf state.helper.fp.data state.textMng.textFp.data idxOfs idxCnt code code1
      code2 code3 leaf) :
    Inserts state
      (fun fuel poiHeaders =>
        state.searchPoiCateIndex locals fuel idxOfs idxCnt nSidoIdx code code1 code2 code3
          poiHeaders)
      (leafEntries nSidoIdx state.helper.fp.data state.textMng.textFp.data leaf) := by
  intro poiHeaders
  obtain ⟨index, within, held, tree, found⟩ := listed.record
  have inside := table.inside
  have addressable := state.helper.fp.addressable
  -- The table begins where the file stands after the seek.
  have sought : state.helper.fp.fseek idxOfs = state.helper.fp.moveTo idxOfs :=
    File.fseek_of_lt (by omega)
  have moved : KeyTable (state.helper.fp.moveTo idxOfs).data .u32 idxOfs 12 idxCnt := table
  obtain ⟨enough, searched⟩ := searchPair_listed locals moved (by decide) within held
    (u32 locals.beginOfs, u32 locals.endOfs)
  let hit : HelperState := { state with helper :=
    { state.helper with fp := state.helper.fp.moveTo (idxOfs + index * 12 + 4 + 8) } }
  have part : Inserts hit
      (fun fuel poiHeaders =>
        hit.searchPoiCate locals fuel nSidoIdx _ code1 code2 code3 poiHeaders)
      (leafEntries nSidoIdx hit.helper.fp.data hit.textMng.textFp.data leaf) :=
    searchPoiCate_leaf locals nSidoIdx tree found
  obtain ⟨after, ⟨more, category⟩, read, inserted⟩ := part poiHeaders
  have reads : OnlyRead state hit := .moved rfl
  refine ⟨after, ⟨max enough more, fun fuel longer => ?_⟩, reads.trans read, inserted⟩
  have searched : searchPair locals fuel .u32 (state.helper.fp.moveTo idxOfs) code idxOfs 12 idxCnt
      (u32 locals.beginOfs, u32 locals.endOfs) = _ := searched fuel (by omega)
  change state.searchPoiCateIndex locals fuel idxOfs idxCnt nSidoIdx code code1 code2 code3
    poiHeaders = _
  unfold HelperState.searchPoiCateIndex
  rw [sought]
  dsimp only [File.moveTo_pos]
  rw [searched]
  exact category fuel (by omega)

/-- The search for an administrative dong inserts the named POIs of its leaf. -/
theorem searchPoiCateHDong_leaf (locals : PoiLocals) (nSidoIdx : Nat) {nHCode : Nat}
    (table : KeyTable state.helper.fp.data .u32 state.helper.poiHeader.dongCatePoiIdxOfs 12
      state.helper.poiHeader.dongCatePoiIdxCnt)
    (listed : IndexLeaf state.helper.fp.data state.textMng.textFp.data
      state.helper.poiHeader.dongCatePoiIdxOfs state.helper.poiHeader.dongCatePoiIdxCnt nHCode
      code1 code2 code3 leaf) :
    Inserts state
      (fun fuel poiHeaders =>
        state.searchPoiCateHDong locals fuel nSidoIdx nHCode code1 code2 code3 poiHeaders)
      (leafEntries nSidoIdx state.helper.fp.data state.textMng.textFp.data leaf) :=
  searchPoiCateIndex_leaf locals nSidoIdx table listed

/--
A part with one POI of the category 1, 2, 3.

From its base: the header of the POI, the list of the leaf, the tables of the third and the second
codes, the table of the first with its count, and the word the part ends with.
-/
def partBytes (base : Nat) : List UInt8 :=
  leBytes 4 1 ++ leBytes 4 0 ++ leBytes 4 base ++
    leBytes 2 3 ++ leBytes 4 1 ++ leBytes 4 (base + 8) ++
    leBytes 2 2 ++ leBytes 4 1 ++ leBytes 4 (base + 12) ++
    leBytes 4 1 ++ leBytes 2 1 ++ leBytes 4 1 ++ leBytes 4 (base + 22) ++ leBytes 4 (base + 32)

/-- A file of that part, with an index of it behind it. -/
def onePart (code : Nat) : File where
  data := partBytes 0 ++ leBytes 4 code ++ leBytes 4 0 ++ leBytes 4 50
  pos := 0
  addressable := by
    simp only [partBytes, List.length_append, leBytes_length]
    omega

/-- A helper of that file, with the places of its two indexes. -/
def onePartHelper (code dongOfs dongCnt meshOfs meshCnt : Nat) : SearchHelper :=
  { bareHelper (onePart code) 0 0 with
    poiHeader := ⟨0, 0, 0, 0, 0, 50, dongOfs, dongCnt, 0, 0, meshOfs, meshCnt⟩ }

/-- Uninitialised variables of a POI search that happen to be zero. -/
def zeroPoiLocals : PoiLocals :=
  ⟨0, 0, 0, 0, 0, fun _ => 0, fun _ => 0, fun _ => 0, fun _ => 0, ⟨0, 0, 0, 0, 0⟩⟩

/-- A text file with the one name. -/
def oneNameFile : File := ⟨[0x1C, 0xC1], 0, by decide⟩

end Searches

end AndroidApps.Gildroia
