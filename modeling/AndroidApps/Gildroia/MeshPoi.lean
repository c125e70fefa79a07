import AndroidApps.Gildroia.CatePoi
import AndroidApps.Gildroia.HelperCalls

/-! The category search of a mesh, which takes the size of its index for the place of it. -/

namespace AndroidApps.Gildroia

variable {state : HelperState} {nMeshCode code1 code2 code3 : Nat} {leaf : Nat × Nat}

/-- A search that came back comes back with the same result when it is given more passes. -/
theorem searchPair_final (locals : PoiLocals) (width : KeyWidth) (fp : File)
    (key offset recordSize count : Nat) (old : Nat × Nat) :
    Loop.Final fun fuel => searchPair locals fuel width fp key offset recordSize count old := by
  -- Only the search for the key takes passes.
  apply (searchKeyValue_final width locals.nKeyValue fp key offset recordSize count).followed
  · intro fuel unended
    rw [searchPair, unended]
  · intro fuel outcome came
    rw [searchPair, came]
  · exact fun outcome => Loop.final_const _

/-- A mesh of the sido whose part, found in the mesh index, leads three codes to a leaf. -/
structure MeshReady (state : HelperState) (nMeshCode code1 code2 code3 : Nat)
    (leaf : Nat × Nat) : Prop where
  table : KeyTable state.helper.fp.data .u32 state.helper.poiHeader.meshPoiIdxOfs 12
    state.helper.poiHeader.meshPoiIdxCnt
  x : state.helper.sidoData.meshXMin ≤ nMeshCode % 2 ^ 16 ∧
    nMeshCode % 2 ^ 16 ≤ state.helper.sidoData.meshXMax
  y : state.helper.sidoData.meshYMin ≤ nMeshCode / 2 ^ 16 % 2 ^ 16 ∧
    nMeshCode / 2 ^ 16 % 2 ^ 16 ≤ state.helper.sidoData.meshYMax
  listed : IndexLeaf state.helper.fp.data state.textMng.textFp.data
    state.helper.poiHeader.meshPoiIdxOfs state.helper.poiHeader.meshPoiIdxCnt nMeshCode code1 code2
    code3 leaf

/-- What the search of a mesh is for: the named POIs of the leaf are inserted. -/
def MeshInserts (locals : PoiLocals) (state : HelperState)
    (nSidoIdx nMeshCode code1 code2 code3 : Nat) (leaf : Nat × Nat) : Prop :=
  Inserts state
    (fun fuel poiHeaders =>
      state.searchPoiCateMesh locals fuel nSidoIdx nMeshCode code1 code2 code3 poiHeaders)
    (leafEntries nSidoIdx state.helper.fp.data state.textMng.textFp.data leaf)

/-- The state of the helper with the file at another place. -/
def HelperState.withFile (state : HelperState) (fp : File) : HelperState :=
  { state with helper := { state.helper with fp := fp } }

/-- The search of an index for a code, in the file of a helper. -/
def HelperState.searchIndex (state : HelperState) (locals : PoiLocals) (idxOfs idxCnt code : Nat)
    (fuel : Nat) : Option (Option (Nat × Nat) × File) :=
  searchPair locals fuel .u32 (state.helper.fp.fseek idxOfs) code
    (state.helper.fp.fseek idxOfs).pos 12 idxCnt (u32 locals.beginOfs, u32 locals.endOfs)

/--
Where halving ends for the mesh code among the words at the offset `mesh_poi_idx_cnt`.

The records begin at that offset where the index should begin, and one more is read behind them.
-/
structure Misread (state : HelperState) (nMeshCode : Nat) (stop : Option Nat) : Prop where
  inside : state.helper.poiHeader.meshPoiIdxCnt + state.helper.poiHeader.meshPoiIdxCnt * 12 + 12 ≤
    state.helper.fp.data.length
  halves : HalvesTo
    (keyAt state.helper.fp.data .u32 state.helper.poiHeader.meshPoiIdxCnt 12) nMeshCode 0
    state.helper.poiHeader.meshPoiIdxCnt stop

/-- The end of the part that a record read there stands for. -/
def HelperState.misreadEnd (state : HelperState) (record : Nat) : Nat :=
  partEnd state.helper.fp.data state.helper.poiHeader.meshPoiIdxCnt record

/-- A record read there ends a part with a tree, in which the three codes lead to a leaf. -/
def MisreadLeaf (state : HelperState) (nMeshCode code1 code2 code3 record : Nat)
    (other : Nat × Nat) : Prop :=
  Misread state nMeshCode (some record) ∧
    CateTree state.helper.fp.data state.textMng.textFp.data (state.misreadEnd record) ∧
    CateLeaf state.helper.fp.data (state.misreadEnd record) code1 code2 code3 other

/--
The bytes at the offset `mesh_poi_idx_cnt` lead to the named POIs of the leaf.

Either the mesh code is not met there, and the leaf has no named POI, or it is met in a record whose
part has the same named POIs under the three codes.
-/
def MisreadLeads (state : HelperState) (nMeshCode code1 code2 code3 : Nat) (leaf : Nat × Nat) :
    Prop :=
  let named := fun leaf => namedPois state.helper.fp.data (leafOffsets state.helper.fp.data leaf)
  Misread state nMeshCode none ∧ named leaf = [] ∨
    ∃ record other, MisreadLeaf state nMeshCode code1 code2 code3 record other ∧
      (named other).Perm (named leaf)

/-- The bytes there do not have the mesh code, or they lead it and the three codes to some leaf. -/
def MisreadReadable (state : HelperState) (nMeshCode code1 code2 code3 : Nat) : Prop :=
  Misread state nMeshCode none ∨
    ∃ record other, MisreadLeaf state nMeshCode code1 code2 code3 record other

/-- Inside the sido, the search of a mesh goes to that place. -/
theorem searchPoiCateMesh_inside (locals : PoiLocals) (nSidoIdx : Nat)
    (ready : MeshReady state nMeshCode code1 code2 code3 leaf) (fuel : Nat) (poiHeaders : PoiMap) :
    state.searchPoiCateMesh locals fuel nSidoIdx nMeshCode code1 code2 code3 poiHeaders =
      state.searchPoiCateIndex locals fuel state.helper.poiHeader.meshPoiIdxCnt
        state.helper.poiHeader.meshPoiIdxCnt nSidoIdx nMeshCode code1 code2 code3 poiHeaders := by
  have x := ready.x
  have y := ready.y
  unfold HelperState.searchPoiCateMesh
  exact if_neg (by omega)

section Misses

variable {locals : PoiLocals} {idxOfs idxCnt nSidoIdx code : Nat} {after : File}

/-- The search of an index leaves the file as it was. -/
theorem searchIndex_data {found : Option (Nat × Nat)}
    (searched : Loop.Yields (state.searchIndex locals idxOfs idxCnt code) (found, after)) :
    after.data = state.helper.fp.data := by
  obtain ⟨enough, ended⟩ := searched
  have searched := ended enough (Nat.le_refl enough)
  exact (searchPair_data searched).trans (File.fseek_data _ _)

/-- Without a record of the code nothing is added. -/
theorem searchPoiCateIndex_missed
    (searched : Loop.Yields (state.searchIndex locals idxOfs idxCnt code) (none, after))
    (poiHeaders : PoiMap) :
    Loop.Yields
      (fun fuel => state.searchPoiCateIndex locals fuel idxOfs idxCnt nSidoIdx code code1 code2
        code3 poiHeaders) (poiHeaders, state.withFile after) := by
  refine searched.computed fun fuel missed => ?_
  simp only [HelperState.searchIndex] at missed
  simp only [HelperState.searchPoiCateIndex, missed]
  rfl

/-- With a record of the code, the part it ends decides. -/
theorem searchPoiCateIndex_hit {begun endOfs : Nat}
    (searched : Loop.Yields (state.searchIndex locals idxOfs idxCnt code)
      (some (begun, endOfs), after)) (poiHeaders : PoiMap) {result : PoiMap × HelperState} :
    Loop.Yields
      (fun fuel => state.searchPoiCateIndex locals fuel idxOfs idxCnt nSidoIdx code code1 code2
        code3 poiHeaders) result ↔
    Loop.Yields
      (fun fuel => (state.withFile after).searchPoiCate locals fuel nSidoIdx endOfs code1 code2
        code3 poiHeaders) result := by
  refine searched.followed_iff fun fuel hit => ?_
  simp only [HelperState.searchIndex] at hit
  simp only [HelperState.searchPoiCateIndex, hit]
  rfl

/-- Where the file stood before does not matter to what was only read. -/
theorem onlyRead_withFile (same : after.data = state.helper.fp.data) {last : HelperState} :
    OnlyRead (state.withFile after) last ↔ OnlyRead state last := by
  constructor
  · rintro ⟨helper, data, text⟩
    exact ⟨helper, data.trans same, text⟩
  · rintro ⟨helper, data, text⟩
    exact ⟨helper, data.trans same.symm, text⟩

end Misses

section Reads

variable (locals : PoiLocals) (nSidoIdx : Nat) {record : Nat} {other : Nat × Nat}

/-- The search of the index stops where halving does, behind the key of a record or nowhere. -/
theorem Misread.searched {stop : Option Nat} (misread : Misread state nMeshCode stop) :
    ∃ found after, Loop.Yields (state.searchIndex locals state.helper.poiHeader.meshPoiIdxCnt
        state.helper.poiHeader.meshPoiIdxCnt nMeshCode) (found, after) ∧
      (stop = none → found = none) ∧
      ∀ record ∈ stop, ∃ begun, found = some (begun, state.misreadEnd record) := by
  obtain ⟨inside, halves⟩ := misread
  have addressable := state.helper.fp.addressable
  generalize counted : state.helper.poiHeader.meshPoiIdxCnt = cnt at inside halves ⊢
  have sought : state.helper.fp.fseek cnt = state.helper.fp.moveTo cnt :=
    File.fseek_of_lt (by omega)
  have halves : HalvesTo (keyAt (state.helper.fp.moveTo cnt).data _ _ _) _ _ _ _ := halves
  obtain ⟨after, same, stops, searched⟩ := searchKeyValue_halves halves
    (fun index listed => by simp only [KeyWidth.bytes, File.moveTo_data]; omega) (by omega)
    locals.nKeyValue
  cases stop with
  | none =>
    refine ⟨none, after, searched.computed fun fuel missed => ?_, fun _ => rfl, by simp⟩
    have missed : searchKeyValue .u32 locals.nKeyValue fuel (state.helper.fp.moveTo cnt) nMeshCode
        cnt 12 cnt = some (false, after) := missed
    simp only [HelperState.searchIndex, sought, File.moveTo_pos, searchPair, missed]
  | some record =>
    -- Both words behind the key are inside the file, and the second one ends the part.
    obtain ⟨listed, rfl⟩ := stops record rfl
    refine ⟨some (wordAt state.helper.fp.data (cnt + record * 12 + 4) 4,
        state.misreadEnd record), state.helper.fp.moveTo (cnt + record * 12 + 4 + 4 + 4),
      searched.computed fun fuel hit => ?_, by simp, ?_⟩
    · have hit : searchKeyValue .u32 locals.nKeyValue fuel (state.helper.fp.moveTo cnt) nMeshCode
          cnt 12 cnt = some (true, state.helper.fp.moveTo (cnt + record * 12 + 4)) := hit
      simp only [HelperState.searchIndex, sought, File.moveTo_pos, searchPair, hit]
      rw [File.freadWord_inside (by simp only [File.moveTo_pos, File.moveTo_data]; omega)]
      dsimp only
      rw [File.freadWord_inside (by simp only [File.moveTo_pos, File.moveTo_data]; omega)]
      simp only [HelperState.misreadEnd, partEnd, counted, File.moveTo_pos, File.moveTo_data,
        File.moveTo_moveTo, Nat.add_assoc, Nat.reduceAdd]
    · rintro index ⟨⟩
      exact ⟨_, rfl⟩

/-- Where the mesh code is not met, nothing is inserted. -/
theorem Misread.inserts_none (misread : Misread state nMeshCode none)
    (ready : MeshReady state nMeshCode code1 code2 code3 leaf) :
    Inserts state
      (fun fuel poiHeaders =>
        state.searchPoiCateMesh locals fuel nSidoIdx nMeshCode code1 code2 code3 poiHeaders)
      [] := by
  obtain ⟨found, after, searched, missed, _⟩ := misread.searched locals
  obtain rfl := missed rfl
  intro poiHeaders
  simp only [searchPoiCateMesh_inside locals nSidoIdx ready]
  exact ⟨(poiHeaders, state.withFile after), searchPoiCateIndex_missed searched poiHeaders,
    .moved (searchIndex_data searched), List.Perm.refl _⟩

/-- Where it is met in the record of a part, the POIs of the leaf of that part are inserted. -/
theorem MisreadLeaf.inserts (leads : MisreadLeaf state nMeshCode code1 code2 code3 record other)
    (ready : MeshReady state nMeshCode code1 code2 code3 leaf) :
    Inserts state
      (fun fuel poiHeaders =>
        state.searchPoiCateMesh locals fuel nSidoIdx nMeshCode code1 code2 code3 poiHeaders)
      (leafEntries nSidoIdx state.helper.fp.data state.textMng.textFp.data other) := by
  obtain ⟨misread, tree, found⟩ := leads
  obtain ⟨hit, after, searched, _, stops⟩ := misread.searched locals
  obtain ⟨begun, rfl⟩ := stops record rfl
  have same := searchIndex_data searched
  intro poiHeaders
  simp only [searchPoiCateMesh_inside locals nSidoIdx ready]
  have part : Inserts (state.withFile after) (fun fuel poiHeaders =>
      (state.withFile after).searchPoiCate locals fuel nSidoIdx (state.misreadEnd record) code1
        code2 code3 poiHeaders)
      (leafEntries nSidoIdx (state.withFile after).helper.fp.data
        (state.withFile after).textMng.textFp.data other) :=
    searchPoiCate_leaf locals nSidoIdx
      (by simpa only [HelperState.withFile, same] using tree)
      (by simpa only [HelperState.withFile, same] using found)
  obtain ⟨last, ended, read, added⟩ := part poiHeaders
  refine ⟨last, (searchPoiCateIndex_hit searched poiHeaders).mpr ended,
    (onlyRead_withFile same).mp read, ?_⟩
  simpa only [HelperState.withFile, same] using added

end Reads

/-- A file with the mesh index in front of the part, at the offset 1. -/
def meshFile (code : Nat) : File where
  data := [0] ++ leBytes 4 code ++ leBytes 4 0 ++ leBytes 4 63 ++ partBytes 13
  pos := 0
  addressable := by
    simp only [partBytes, List.length_append, leBytes_length, List.length_singleton]
    omega

/-- A sido with a mesh of each code up to 9, whose index stands where these numbers say. -/
def meshState (fp : File) (meshPoiIdxOfs meshPoiIdxCnt : Nat) : HelperState where
  helper := { bareHelper fp 0 0 with
    poiHeader := ⟨0, 0, 0, 0, 0, 0, 0, 0, 0, 0, meshPoiIdxOfs, meshPoiIdxCnt⟩
    sidoData := ⟨0, 0, 0, 9, 0, 9⟩ }
  textMng := bareTextMng oneNameFile

end AndroidApps.Gildroia
