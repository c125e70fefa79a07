import AndroidApps.Gildroia.HoPositionLaws
import AndroidApps.Gildroia.NameLookup

/-! The bunjis of dongs and roads: each record is listed once, and its hos are found behind it. -/

namespace AndroidApps.Gildroia

section Holding

/-- The states of a helper that its calls lead to, whatever others do with the text manager. -/
inductive Reached (fresh : SearchHelper) : SearchHelper → Prop
  | fresh : Reached fresh fresh
  | call {helper : SearchHelper} {textMng : TextMng} {fuel : Nat} {input : HelperInput}
    {after : HelperState} (reached : Reached fresh helper)
    (called : HelperState.after fuel ⟨helper, textMng⟩ input = some after) :
    Reached fresh after.helper

/-- Each of these dongs is the record at its offset, if there is room for one. -/
def OwnRecords (data : List UInt8) (dongs : List DongData) : Prop :=
  ∀ dong ∈ dongs, dong.info.offset + 18 ≤ data.length → dong.info = dongAt data dong.info.offset

/-- The dongs that a helper of this file holds are those stored. -/
structure HoldsDongs (data : List UInt8) (helper : SearchHelper) : Prop where
  opened : helper.fp.data = data
  listed : OwnRecords data helper.dongDatas
  others : OwnRecords data helper.dongExDatas

variable {data : List UInt8} {locals : AddressLocals} {fuel : Nat} {state after : HelperState}

theorem OwnRecords.nil : OwnRecords data [] := by
  intro dong member
  cases member

/-- One more dong that is the record at its offset. -/
theorem OwnRecords.concat {dongs : List DongData} (own : OwnRecords data dongs) {dong : DongData}
    (stored : dong.info.offset + 18 ≤ data.length → dong.info = dongAt data dong.info.offset) :
    OwnRecords data (dongs ++ [dong]) := by
  intro other member
  rcases List.mem_append.mp member with before | last
  · exact own other before
  · rw [List.mem_singleton.mp last]
    exact stored

/-- A record inside the file is read at the offset that its dong is given. -/
theorem read_dongAt {fp : File} (opened : fp.data = data) {offset : Nat}
    (inside : offset + 18 ≤ data.length) (old : DongDataF) :
    { ((fp.fseek offset).fread DongDataF.decode 18 old).1 with offset := offset } =
      dongAt data offset := by
  subst opened
  rw [File.fread_fseek inside]
  rfl

/-- The state of the walk over the dongs of a sigungu. -/
structure WalkHolds (data : List UInt8) (walk : DongWalk) : Prop where
  opened : walk.fp.data = data
  -- The file stands at the offset of the next dong, unless no file reaches that far.
  placed : walk.nextOffset < 2 ^ 31 → walk.fp.pos = walk.nextOffset
  own : OwnRecords data walk.dongDatas

/-- A record that is read is kept with the offset it was read from. -/
theorem WalkHolds.read {walk : DongWalk} (holds : WalkHolds data walk) :
    let info := { (walk.fp.fread DongDataF.decode 18 walk.ddF).1 with offset := walk.nextOffset }
    info.offset + 18 ≤ data.length → info = dongAt data info.offset := by
  -- The walk stands at the next offset, so that the record at that offset is what is read.
  intro info inside
  obtain ⟨opened, placed, _⟩ := holds
  subst opened
  have place := placed (File.offset_lt (show walk.nextOffset + 18 ≤ _ from inside))
  have read : walk.fp.fread DongDataF.decode 18 walk.ddF =
      (DongDataF.decode (bytesAt walk.fp.data walk.nextOffset 18),
        walk.fp.moveTo (walk.nextOffset + 18)) := by
    rw [File.fread_inside (by rw [place]; exact inside), place]
  simp only [info, read]
  rfl

/-- `GetDongData` holds the dongs at the offsets it read them from. -/
theorem getDongData_holds {nSidoIdx sigunguOfs : Nat} (holds : HoldsDongs data state.helper)
    (called : state.getDongData locals fuel nSidoIdx sigunguOfs = some after) :
    HoldsDongs data after.helper := by
  have same := getDongData_sameFile called
  unfold HelperState.getDongData at called
  dsimp only at called
  split at called
  · cases called
  · split at called
    · rename_i fp textMng dongDatas ran
      cases called
      refine ⟨same.data.trans holds.opened, ?_, holds.others⟩
      refine Loop.run_post (WalkHolds data)
        (fun result => ∀ fp textMng dongDatas, result = some (fp, textMng, dongDatas) →
          OwnRecords data dongDatas) ?_ ?_ ⟨?_, fun _ => rfl, .nil⟩ ran fp textMng dongDatas rfl
      · intro walk next walked continues
        unfold dongDataPass at continues
        dsimp only at continues
        split at continues
        · cases continues
        · split at continues
          · cases continues
          · -- The file is moved to the next record before it is read.
            cases continues
            refine ⟨by simpa using walked.opened, ?_, walked.own.concat walked.read⟩
            intro low
            rw [File.fseek_of_lt low, File.moveTo_pos]
      · intro walk outcome walked leaves fp textMng dongDatas result
        unfold dongDataPass at leaves
        dsimp only at leaves
        subst result
        split at leaves
        · cases leaves
        · split at leaves
          · cases leaves
            exact walked.own.concat walked.read
          · cases leaves
      · rw [File.fseek_data, holds.opened]
    · cases called

/-- A helper holds the dong at this offset. -/
def SearchHelper.Holds (helper : SearchHelper) (offset : Nat) : Prop :=
  ∃ dong ∈ helper.dongDatas ++ helper.dongExDatas, dong.info.offset = offset

/-- Both searches for the offset of a dong of a list find something. -/
theorem searches_find {dongs : List DongData} {dong : DongData} (member : dong ∈ dongs) :
    ∃ index dd, dongs.findIdx? (fun dd => dd.info.offset == dong.info.offset) = some index ∧
      dongs.find? (fun dd => dd.info.offset == dong.info.offset) = some dd := by
  -- The dong itself has its offset, so that neither search comes to the end of the list.
  have place : (dongs.findIdx? fun dd => dd.info.offset == dong.info.offset).isSome := by
    rw [List.findIdx?_isSome, List.any_eq_true]
    exact ⟨dong, member, beq_self_eq_true _⟩
  have found : (dongs.find? fun dd => dd.info.offset == dong.info.offset).isSome :=
    List.find?_isSome.mpr ⟨dong, member, beq_self_eq_true _⟩
  obtain ⟨index, place⟩ := Option.isSome_iff_exists.mp place
  obtain ⟨dd, found⟩ := Option.isSome_iff_exists.mp found
  exact ⟨index, dd, place, found⟩

/-- `GetDongDataOfOffset` either finds a dong that is held, or holds one that has a name. -/
theorem getDongDataOfOffset_cases (locals : AddressLocals) (fuel : Nat) (state : HelperState)
    (nSidoIdx dongOfs : Nat) (pSigunguF : SigunguDataF) :
    (∃ pDong dong, state.getDongDataOfOffset locals fuel nSidoIdx pSigunguF dongOfs =
        some (pDong, dong, state) ∧
      dong ∈ state.helper.dongDatas ++ state.helper.dongExDatas ∧ dong.info.offset = dongOfs) ∨
    ¬ state.helper.Holds dongOfs ∧
      state.getDongDataOfOffset locals fuel nSidoIdx pSigunguF dongOfs =
        let read := (state.helper.fp.fseek dongOfs).fread DongDataF.decode 18 locals.dongF
        (copiedName (state.textMng.getDongName locals.nKeyValue fuel
          (dongCodeOf state.helper.sidoData.idx pSigunguF.code read.1.code))).map
            fun (name, _, textMng) =>
              let dd : DongData :=
                ⟨nSidoIdx, pSigunguF, name, locals.nLen, { read.1 with offset := dongOfs }⟩
              (.dongEx nSidoIdx state.helper.dongExDatas.length, dd,
                ⟨{ state.helper with
                  fp := read.2, dongExDatas := state.helper.dongExDatas ++ [dd] }, textMng⟩) := by
  unfold HelperState.getDongDataOfOffset
  dsimp only
  split
  · rename_i index dong _ found
    refine .inl ⟨_, dong, rfl, List.mem_append_left _ (List.mem_of_find?_eq_some found), ?_⟩
    simpa using List.find?_some found
  · rename_i unlisted
    split
    · rename_i index dong _ found
      refine .inl ⟨_, dong, rfl, List.mem_append_right _ (List.mem_of_find?_eq_some found), ?_⟩
      simpa using List.find?_some found
    · rename_i unknown
      refine .inr ⟨?_, ?_⟩
      · -- Were it in one of the lists, the two searches of this list would both find it.
        rintro ⟨dong, member, rfl⟩
        rcases List.mem_append.mp member with listed | other
        · obtain ⟨index, dd, place, found⟩ := searches_find listed
          exact unlisted index dd place found
        · obtain ⟨index, dd, place, found⟩ := searches_find other
          exact unknown index dd place found
      · split
        · rename_i unnamed
          rw [unnamed]
          rfl
        · rename_i named
          rw [named]
          rfl

/-- What the lookup of a dong leaves. -/
structure LooksUp (data : List UInt8) (state : HelperState) (dongOfs : Nat) (dong : DongData)
    (next : HelperState) : Prop where
  holds : HoldsDongs data next.helper
  stored : dongOfs + 18 ≤ data.length → dong.info = dongAt data dongOfs
  held : ∀ offset, next.helper.Holds offset ↔ state.helper.Holds offset ∨ offset = dongOfs
  bunjiDatas : next.helper.bunjiDatas = state.helper.bunjiDatas
  sidoData : next.helper.sidoData = state.helper.sidoData
  names : next.textMng.SameNames state.textMng

/-- `GetDongDataOfOffset` comes back with the dong at the offset, which is held from then on. -/
theorem getDongDataOfOffset_looksUp (state : HelperState) {nSidoIdx dongOfs : Nat}
    {pSigunguF : SigunguDataF} {pDong : Slot} {dong : DongData}
    (holds : HoldsDongs data state.helper)
    (called : state.getDongDataOfOffset locals fuel nSidoIdx pSigunguF dongOfs =
      some (pDong, dong, after)) : LooksUp data state dongOfs dong after := by
  rcases getDongDataOfOffset_cases locals fuel state nSidoIdx dongOfs
    pSigunguF with ⟨slot, held, answered, member, own⟩ | ⟨_, answered⟩
  · rw [answered] at called
    cases called
    refine ⟨holds, ?_, ?_, rfl, rfl, rfl, rfl, rfl⟩
    · intro inside
      rw [← own] at inside ⊢
      rcases List.mem_append.mp member with listed | other
      · exact holds.listed dong listed inside
      · exact holds.others dong other inside
    · intro offset
      refine ⟨.inl, ?_⟩
      rintro (before | rfl)
      · exact before
      · exact ⟨dong, member, own⟩
  · rw [answered] at called
    dsimp only at called
    obtain ⟨⟨name, nLen, textMng⟩, copied, outcome⟩ := Option.map_eq_some_iff.mp called
    cases outcome
    have read : dongOfs + 18 ≤ data.length → _ :=
      fun inside => read_dongAt holds.opened inside locals.dongF
    refine ⟨⟨?_, holds.listed, holds.others.concat read⟩, read, ?_, rfl, rfl,
      copiedName_sameNames copied⟩
    · rw [← holds.opened]
      simp
    · -- The dong added is the only one that was not held before.
      intro offset
      simp only [SearchHelper.Holds, List.mem_append, List.mem_singleton]
      constructor
      · rintro ⟨other, listed | before | rfl, rfl⟩
        · exact .inl ⟨other, .inl listed, rfl⟩
        · exact .inl ⟨other, .inr before, rfl⟩
        · exact .inr rfl
      · rintro (⟨other, listed | before, rfl⟩ | rfl)
        · exact ⟨other, .inl listed, rfl⟩
        · exact ⟨other, .inr (.inl before), rfl⟩
        · exact ⟨_, .inr (.inr rfl), rfl⟩

/-- It comes back for the dongs that are held, and for those that have a name. -/
theorem getDongDataOfOffset_isSome (state : HelperState) {nSidoIdx dongOfs : Nat}
    (pSigunguF : SigunguDataF) (holds : HoldsDongs data state.helper)
    (inside : dongOfs + 18 ≤ data.length) :
    (state.getDongDataOfOffset locals fuel nSidoIdx pSigunguF dongOfs).isSome = true ↔
      state.helper.Holds dongOfs ∨ state.textMng.Names locals.nKeyValue fuel
        (dongCodeOf state.helper.sidoData.idx pSigunguF.code (dongAt data dongOfs).code) := by
  -- Only a dong that is not held is read from the file and named.
  rcases getDongDataOfOffset_cases locals fuel state nSidoIdx dongOfs
    pSigunguF with ⟨slot, dong, answered, member, own⟩ | ⟨unheld, answered⟩
  · rw [answered]
    exact ⟨fun _ => .inl ⟨dong, member, own⟩, fun _ => rfl⟩
  · have read := congrArg DongDataF.code (read_dongAt holds.opened inside locals.dongF)
    rw [answered, ← read, TextMng.Names, Option.isSome_map]
    exact ⟨.inr, fun either => either.resolve_left unheld⟩

/-- Adding the bunjis of a law dong leaves the dongs held. -/
theorem KeepsDongs.holds {helper next : SearchHelper} (kept : KeepsDongs helper next)
    (holds : HoldsDongs data helper) : HoldsDongs data next where
  opened := kept.data.trans holds.opened
  listed := kept.dongDatas ▸ holds.listed
  others := kept.dongExDatas ▸ holds.others

/-- The loop over the law dongs of an administrative dong holds each that it looks up. -/
theorem addHDongBunjis_holds {nSidoIdx : Nat} {pSigunguF : SigunguDataF} {bSan : Bool}
    {count : Nat} :
    ∀ (offset : Nat) (state : HelperState) {after : HelperState}, HoldsDongs data state.helper →
      HelperState.addHDongBunjis locals fuel nSidoIdx pSigunguF bSan count offset state =
        some after → HoldsDongs data after.helper := by
  induction count with
  | zero =>
    intro offset state after holds called
    cases called
    exact holds
  | succ count ih =>
    intro offset state after holds called
    simp only [HelperState.addHDongBunjis] at called
    have read : HoldsDongs data
        { state.helper with fp := (state.helper.fp.freadWord 4 offset).2 } :=
      (KeepsDongs.moved (by simp)).holds holds
    split at called
    · split at called
      · cases called
      · rename_i pDong dong next found
        -- Behind the lookup, only the list of bunjis and the position of the file are changed.
        have looksUp := getDongDataOfOffset_looksUp _ read found
        refine ih _ _ (KeepsDongs.holds ?_ looksUp.holds) called
        exact (addLawDongBunjis_keeps locals next.helper pDong dong bSan).trans
          (.moved (by simp))
    · exact ih _ _ read called

/-- `GetBunjiData` holds the law dongs that it looks up. -/
theorem getBunjiData_holds {pDong : Slot} {dong : DongData} {bSan : Bool}
    (holds : HoldsDongs data state.helper)
    (called : state.getBunjiData locals fuel pDong dong bSan = some after) :
    HoldsDongs data after.helper := by
  -- Clearing the list of bunjis leaves the dongs that are held.
  have cleared : KeepsDongs state.helper { state.helper with bunjiDatas := [] } :=
    ⟨⟨⟨rfl, rfl, rfl⟩, rfl⟩, ⟨rfl, fun _ => rfl⟩, rfl⟩
  unfold HelperState.getBunjiData at called
  dsimp only at called
  split at called
  · cases called
    exact (cleared.trans (addLawDongBunjis_keeps locals _ pDong dong bSan)).holds holds
  · refine addHDongBunjis_holds _ _ ((cleared.trans (.moved ?_)).holds holds) called
    simp

/-- Every call holds the dongs as they are stored. -/
theorem after_holds {input : HelperInput} (holds : HoldsDongs data state.helper)
    (called : state.after fuel input = some after) : HoldsDongs data after.helper := by
  by_cases lists : ∃ nSidoIdx sigunguOfs, input.request = .getDongData nSidoIdx sigunguOfs
  · obtain ⟨nSidoIdx, sigunguOfs, asked⟩ := lists
    unfold HelperState.after at called
    rw [asked] at called
    exact getDongData_holds holds called
  · by_cases looks : ∃ pDong dong bSan, input.request = .getBunjiData pDong dong bSan
    · obtain ⟨pDong, dong, bSan, asked⟩ := looks
      unfold HelperState.after at called
      rw [asked] at called
      exact getBunjiData_holds holds called
    · -- No other call changes one of the two lists.
      refine (after_keepsDongs called ?_ ?_).holds holds
      · intro nSidoIdx sigunguOfs asked
        exact lists ⟨nSidoIdx, sigunguOfs, asked⟩
      · intro pDong dong bSan asked
        exact looks ⟨pDong, dong, bSan, asked⟩

/-- A helper that was just constructed holds no dongs. -/
theorem create_holds {fp : File} {fresh : SearchHelper}
    (created : SearchHelper.create locals fuel fp = some fresh) :
    HoldsDongs fresh.fp.data fresh := by
  -- Loading the headers and the sigungus adds no dong to either list.
  have listed := create_dongDatas created
  have others : fresh.dongExDatas = [] := by
    obtain ⟨_, _, _, _, _, headers⟩ := SearchHelper.readHeaders_lists locals fp
    rw [SearchHelper.create, headers] at created
    obtain ⟨helper, loaded, rfl⟩ := Option.map_eq_some_iff.mp created
    exact (loadSigunguFDatas_keeps loaded).dongExDatas
  refine ⟨rfl, ?_, ?_⟩
  · rw [listed]
    exact .nil
  · rw [others]
    exact .nil

/-- In every state that is reached, the dongs held are those stored in the file. -/
theorem Reached.holds {fp : File} {fresh helper : SearchHelper}
    (created : SearchHelper.create locals fuel fp = some fresh) (reached : Reached fresh helper) :
    HoldsDongs fresh.fp.data helper := by
  induction reached with
  | fresh => exact create_holds created
  | call _ called ih => exact after_holds ih called

end Holding

section Listing

variable {data : List UInt8} {locals : AddressLocals} {fuel : Nat} {state after : HelperState}

/-- What is told of a bunji: its number, how many hos it has, and where they are. -/
def BunjiData.told (entry : BunjiData) : Nat × Nat × Nat := (entry.bunji, entry.hoCnt, entry.offset)

/-- What is told of the bunji at an offset. -/
def bunjiTold (data : List UInt8) (offset : Nat) : Nat × Nat × Nat :=
  (bitField (wordAt data offset 2) 0 15, hoCntAt data offset, offset)

/-- The bunjis of a law dong that have this flag. -/
def lawDongTold (data : List UInt8) (bSan : Bool) (dongOfs : Nat) : List (Nat × Nat × Nat) :=
  (flaggedBunjis data dongOfs bSan 0 (dongAt data dongOfs).bunjiCnt).map (bunjiTold data)

/-- A law dong adds its bunjis with this flag, in the order of the file. -/
theorem addLawDongBunjis_inside {helper : SearchHelper} (opened : helper.fp.data = data)
    {dong : DongData} {dongOfs : Nat} (stored : dong.info = dongAt data dongOfs)
    (inside : dongEnd data dongOfs ≤ data.length) (pDong : Slot) (bSan : Bool) :
    (helper.addLawDongBunjis locals pDong dong bSan).bunjiDatas.map BunjiData.told =
      helper.bunjiDatas.map BunjiData.told ++ lawDongTold data bSan dongOfs := by
  -- The bunjis follow the record of the dong, and are read from there to the end of the dong.
  have offset : dong.info.offset = dongOfs := by
    rw [stored]
    rfl
  have start : dongOfs + 18 ≤ dongEnd data dongOfs := bunjiOfs_mono (Nat.zero_le _)
  have addressable := helper.fp.addressable
  rw [opened] at addressable
  have walked := lawDongBunjis_inside pDong bSan (dongAt data dongOfs).bunjiCnt 0
    (locals.bunji % 2 ^ 16) (locals.hoCnt % 2 ^ 16) (helper.fp.moveTo (dongOfs + 18)) opened rfl
    (by rw [Nat.zero_add]; exact inside)
  rw [show bunjiOfs data dongOfs 0 = dongOfs + 18 from rfl] at walked
  simp only [SearchHelper.addLawDongBunjis, offset]
  rw [u32_of_lt (by omega), File.fseek_of_lt (by omega), stored, File.moveTo_pos, walked,
    List.map_append, List.map_map]
  rfl

/-- The law dongs that consecutive words of an administrative dong name; zeros name none. -/
def namedDongs (data : List UInt8) (listOfs start count : Nat) : List Nat :=
  ((List.range' start count).map fun i => wordAt data (listOfs + 4 * i) 4).filter (· ≠ 0)

/-- The first of the words names a law dong, or is passed over. -/
theorem namedDongs_succ (data : List UInt8) (listOfs start count : Nat) :
    namedDongs data listOfs start (count + 1) =
      if wordAt data (listOfs + 4 * start) 4 = 0 then namedDongs data listOfs (start + 1) count
      else wordAt data (listOfs + 4 * start) 4 :: namedDongs data listOfs (start + 1) count := by
  -- The word at the start is the first of the range, and zero is what the filter drops.
  unfold namedDongs
  rw [List.range'_succ, List.map_cons]
  split
  · rename_i zero
    exact List.filter_cons_of_neg (by simpa using zero)
  · rename_i named
    exact List.filter_cons_of_pos (by simpa using named)

/-- The same state with the file at another position. -/
def HelperState.movedTo (state : HelperState) (pos : Nat) : HelperState :=
  { state with helper := { state.helper with fp := state.helper.fp.moveTo pos } }

theorem HoldsDongs.movedTo {state : HelperState} (holds : HoldsDongs data state.helper)
    (pos : Nat) :
    HoldsDongs data (state.movedTo pos).helper :=
  ⟨holds.opened, holds.listed, holds.others⟩

/-- A law dong of an administrative one adds its bunjis, and the file goes back to the next word. -/
def HelperState.visited (locals : AddressLocals) (bSan : Bool) (pos : Nat) (pDong : Slot)
    (dong : DongData) (state : HelperState) : HelperState :=
  let helper := state.helper.addLawDongBunjis locals pDong dong bSan
  ⟨{ helper with fp := helper.fp.fseek pos }, state.textMng⟩

/-- One pass of the loop over the words of an administrative dong. -/
theorem addHDongBunjis_succ {nSidoIdx listOfs start count offset : Nat} {pSigunguF : SigunguDataF}
    {bSan : Bool} (holds : HoldsDongs data state.helper)
    (placed : state.helper.fp.pos = listOfs + 4 * start)
    (inside : listOfs + 4 * (start + 1) ≤ data.length) :
    HelperState.addHDongBunjis locals fuel nSidoIdx pSigunguF bSan (count + 1) offset state =
      let word := wordAt data (listOfs + 4 * start) 4
      let pos := listOfs + 4 * (start + 1)
      if word = 0 then
        HelperState.addHDongBunjis locals fuel nSidoIdx pSigunguF bSan count word
          (state.movedTo pos)
      else
        ((state.movedTo pos).getDongDataOfOffset locals fuel nSidoIdx pSigunguF word).bind
          fun (pDong, dong, next) =>
            HelperState.addHDongBunjis locals fuel nSidoIdx pSigunguF bSan count word
              (next.visited locals bSan pos pDong dong) := by
  -- A word of zero is passed over, and any other one is the offset of a law dong to be looked up.
  have read : state.helper.fp.freadWord 4 offset =
      (wordAt data (listOfs + 4 * start) 4,
        state.helper.fp.moveTo (listOfs + 4 * (start + 1))) := by
    rw [File.freadWord_inside (by rw [holds.opened]; omega), placed, holds.opened]
    rfl
  rw [HelperState.addHDongBunjis, read]
  dsimp only
  by_cases zero : wordAt data (listOfs + 4 * start) 4 = 0
  · rw [if_neg (not_not.mpr zero), if_pos zero]
    rfl
  · rw [if_pos zero, if_neg zero]
    unfold HelperState.movedTo
    split
    · rename_i missed
      rw [missed]
      rfl
    · rename_i found
      rw [found]
      rfl

/-- What a pass over one word of an administrative dong leaves. -/
structure Visits (data : List UInt8) (bSan : Bool) (state : HelperState) (dongOfs pos : Nat)
    (next : HelperState) : Prop where
  holds : HoldsDongs data next.helper
  placed : next.helper.fp.pos = pos
  held : ∀ offset, next.helper.Holds offset ↔ state.helper.Holds offset ∨ offset = dongOfs
  bunjis : next.helper.bunjiDatas.map BunjiData.told =
    state.helper.bunjiDatas.map BunjiData.told ++ lawDongTold data bSan dongOfs
  sidoData : next.helper.sidoData = state.helper.sidoData
  names : next.textMng.SameNames state.textMng

/-- A law dong that was looked up is held, and its bunjis are listed. -/
theorem LooksUp.visits (locals : AddressLocals) {dongOfs pos : Nat} {dong : DongData}
    (looksUp : LooksUp data (state.movedTo pos) dongOfs dong after)
    (inside : dongEnd data dongOfs ≤ data.length) (low : pos ≤ data.length) (pDong : Slot)
    (bSan : Bool) :
    Visits data bSan state dongOfs pos (after.visited locals bSan pos pDong dong) := by
  have kept := addLawDongBunjis_keeps locals after.helper pDong dong bSan
  have start : dongOfs + 18 ≤ dongEnd data dongOfs := bunjiOfs_mono (Nat.zero_le _)
  have opened := looksUp.holds.opened
  have addressable := after.helper.fp.addressable
  rw [opened] at addressable
  refine ⟨⟨?_, ?_, ?_⟩, ?_, ?_, ?_, looksUp.sidoData, looksUp.names⟩
  · exact (File.fseek_data _ _).trans (kept.data.trans opened)
  · exact kept.dongDatas ▸ looksUp.holds.listed
  · exact kept.dongExDatas ▸ looksUp.holds.others
  · exact congrArg File.pos (File.fseek_of_lt (by omega))
  · -- The bunjis are added without a change of the two lists of dongs.
    intro offset
    have held := looksUp.held offset
    simp only [SearchHelper.Holds, HelperState.visited, kept.dongDatas, kept.dongExDatas]
    exact held
  · rw [show state.helper.bunjiDatas = (state.movedTo pos).helper.bunjiDatas from rfl,
      ← looksUp.bunjiDatas]
    exact addLawDongBunjis_inside opened (looksUp.stored (by omega)) inside pDong bSan

/-- What the law dongs of an administrative dong list, when the loop over them comes back. -/
theorem addHDongBunjis_lists {nSidoIdx : Nat} {pSigunguF : SigunguDataF} {bSan : Bool}
    {listOfs count : Nat} :
    ∀ (start offset : Nat) (state : HelperState) {after : HelperState},
      HoldsDongs data state.helper →
      state.helper.fp.pos = listOfs + 4 * start → listOfs + 4 * (start + count) ≤ data.length →
      (∀ dongOfs ∈ namedDongs data listOfs start count, dongEnd data dongOfs ≤ data.length) →
      HelperState.addHDongBunjis locals fuel nSidoIdx pSigunguF bSan count offset state =
        some after →
      after.helper.bunjiDatas.map BunjiData.told =
        state.helper.bunjiDatas.map BunjiData.told ++
          (namedDongs data listOfs start count).flatMap (lawDongTold data bSan) := by
  -- The induction is on the words to come, each of which is read where the last pass left the file.
  induction count with
  | zero =>
    intro start offset state after _ _ _ _ called
    cases called
    simp [namedDongs]
  | succ count ih =>
    intro start offset state after holds placed inside stored called
    rw [addHDongBunjis_succ holds placed (by omega)] at called
    dsimp only at called
    rw [namedDongs_succ] at stored ⊢
    split at called
    · rename_i zero
      rw [if_pos zero] at stored ⊢
      exact ih _ _ (state.movedTo (listOfs + 4 * (start + 1))) (holds.movedTo _) rfl
        (by omega) stored called
    · rename_i named
      rw [if_neg named] at stored ⊢
      obtain ⟨⟨pDong, dong, next⟩, found, later⟩ := Option.bind_eq_some_iff.mp called
      -- The dong is looked up, and its bunjis are added.
      have looksUp := getDongDataOfOffset_looksUp _ (holds.movedTo _) found
      have visits := looksUp.visits locals (stored _ List.mem_cons_self) (by omega) pDong
        bSan
      have listed := ih _ _ _ visits.holds visits.placed (by omega)
        (fun dongOfs member => stored dongOfs (List.mem_cons_of_mem _ member)) later
      rw [listed, visits.bunjis, List.flatMap_cons, List.append_assoc]

/-- The loop comes back when all law dongs it looks up are held or have names. -/
theorem addHDongBunjis_isSome {nSidoIdx : Nat} {pSigunguF : SigunguDataF} {bSan : Bool}
    {listOfs count : Nat} :
    ∀ (start offset : Nat) (state : HelperState), HoldsDongs data state.helper →
      state.helper.fp.pos = listOfs + 4 * start → listOfs + 4 * (start + count) ≤ data.length →
      (∀ dongOfs ∈ namedDongs data listOfs start count, dongEnd data dongOfs ≤ data.length) →
      state.textMng.dongOfs < 2 ^ 31 →
      ((HelperState.addHDongBunjis locals fuel nSidoIdx pSigunguF bSan count offset
          state).isSome = true ↔
        ∀ dongOfs ∈ namedDongs data listOfs start count, state.helper.Holds dongOfs ∨
          state.textMng.Names locals.nKeyValue fuel
            (dongCodeOf state.helper.sidoData.idx pSigunguF.code (dongAt data dongOfs).code)) := by
  -- A dong that one pass has looked up is held in the passes behind it.
  induction count with
  | zero =>
    intro start offset state _ _ _ _ _
    simp [HelperState.addHDongBunjis, namedDongs]
  | succ count ih =>
    intro start offset state holds placed inside stored low
    rw [addHDongBunjis_succ holds placed (by omega)]
    dsimp only
    rw [namedDongs_succ] at stored ⊢
    by_cases zero : wordAt data (listOfs + 4 * start) 4 = 0
    · rw [if_pos zero] at stored ⊢
      rw [if_pos zero]
      exact ih _ _ (state.movedTo (listOfs + 4 * (start + 1))) (holds.movedTo _) rfl
        (by omega) stored low
    · rw [if_neg zero] at stored ⊢
      rw [if_neg zero, List.forall_mem_cons]
      have room : dongEnd data (wordAt data (listOfs + 4 * start) 4) ≤ data.length :=
        stored _ List.mem_cons_self
      have first : wordAt data (listOfs + 4 * start) 4 + 18 ≤
          dongEnd data (wordAt data (listOfs + 4 * start) 4) := bunjiOfs_mono (Nat.zero_le _)
      have isSome : ((state.movedTo (listOfs + 4 * (start + 1))).getDongDataOfOffset locals fuel
          nSidoIdx pSigunguF (wordAt data (listOfs + 4 * start) 4)).isSome = true ↔
          state.helper.Holds _ ∨ state.textMng.Names _ _ (dongCodeOf
            state.helper.sidoData.idx _ _) :=
        getDongDataOfOffset_isSome _ pSigunguF (holds.movedTo _) (Nat.le_trans first room)
      rw [← isSome]
      cases found : (state.movedTo (listOfs + 4 * (start + 1))).getDongDataOfOffset locals fuel
          nSidoIdx pSigunguF (wordAt data (listOfs + 4 * start) 4) with
      | none => simp
      | some outcome =>
        obtain ⟨pDong, dong, next⟩ := outcome
        have looksUp := getDongDataOfOffset_looksUp _ (holds.movedTo _) found
        have visits := looksUp.visits locals room (by omega) pDong bSan
        rw [Option.bind_some, ih _ _ _ visits.holds visits.placed (by omega)
          (fun dongOfs member => stored dongOfs (List.mem_cons_of_mem _ member))
          (visits.names.dongOfs ▸ low), visits.sidoData]
        constructor
        · intro all
          refine ⟨rfl, fun dongOfs member => ?_⟩
          rcases all dongOfs member with held | named
          · rcases (visits.held dongOfs).mp held with before | rfl
            · exact .inl before
            · exact isSome.mp (by rw [found]; rfl)
          · exact .inr ((names_iff visits.names low _ _).mp named)
        · rintro ⟨_, all⟩ dongOfs member
          rcases all dongOfs member with held | named
          · exact .inl ((visits.held dongOfs).mpr (.inl held))
          · exact .inr ((names_iff visits.names low _ _).mpr named)

end Listing

section Roads

variable {data : List UInt8}

/-- The road record at an offset, with this offset in place of the link. -/
def roadAt (data : List UInt8) (offset : Nat) : RoadDataF :=
  { RoadDataF.decode (bytesAt data offset 10) with offset := offset }

/-- Where a bunji of a road begins, behind the hos of those before it. -/
def roadBunjiOfs (data : List UInt8) (roadOfs : Nat) : Nat → Nat
  | 0 => roadOfs + 10
  | i + 1 => roadBunjiOfs data roadOfs i + (8 * hoCntAt data (roadBunjiOfs data roadOfs i) + 4)

/-- Where the bunjis of a road end. -/
def roadEnd (data : List UInt8) (roadOfs : Nat) : Nat :=
  roadBunjiOfs data roadOfs (roadAt data roadOfs).bunjiCnt

/-- Later bunjis of a road have larger offsets. -/
theorem roadBunjiOfs_mono {roadOfs i j : Nat} (before : i ≤ j) :
    roadBunjiOfs data roadOfs i ≤ roadBunjiOfs data roadOfs j := by
  induction before with
  | refl => exact Nat.le_refl _
  | step _ ih =>
    rw [roadBunjiOfs]
    omega

/-- What is listed for the bunji of a road at an offset. -/
def roadBunjiEntry (data : List UInt8) (pRoad : Slot) (offset : Nat) : BunjiData :=
  ⟨pRoad, wordAt data offset 2, hoCntAt data offset, offset⟩

/-- The walk over the bunjis of a road lists all of them, in the order of the file. -/
theorem roadBunjis_inside (pRoad : Slot) (roadOfs count : Nat) :
    ∀ (start bunji hoCnt : Nat) (fp : File), fp.data = data →
      fp.pos = roadBunjiOfs data roadOfs start →
      roadBunjiOfs data roadOfs (start + count) ≤ data.length →
      (roadBunjis pRoad count fp (roadBunjiOfs data roadOfs start) bunji hoCnt).1 =
        (List.range' start count).map fun i =>
          roadBunjiEntry data pRoad (roadBunjiOfs data roadOfs i) := by
  -- As for the bunjis of law dongs, the offset of each is added up from those before.
  induction count with
  | zero =>
    intro start bunji hoCnt fp _ _ _
    rfl
  | succ count ih =>
    intro start bunji hoCnt fp opened placed inside
    subst opened
    have next : roadBunjiOfs fp.data roadOfs (start + 1) = roadBunjiOfs fp.data roadOfs start +
      (8 * hoCntAt fp.data (roadBunjiOfs fp.data roadOfs start) + 4) := rfl
    have bound : roadBunjiOfs fp.data roadOfs (start + 1) ≤ fp.data.length :=
      Nat.le_trans (roadBunjiOfs_mono (by omega)) inside
    have addressable := fp.addressable
    obtain ⟨readBunji, readCnt⟩ := readBunjiHead_inside placed (by omega) bunji hoCnt
    rw [roadBunjis, readBunji]
    dsimp only
    rw [readCnt]
    dsimp only
    rw [← next, u32_of_lt (by omega), File.fseek_of_lt (by omega), File.moveTo_moveTo,
      ih (start + 1) _ _ (fp.moveTo (roadBunjiOfs fp.data roadOfs (start + 1))) rfl rfl
        (by rw [show start + 1 + count = start + (count + 1) by omega]; exact inside),
      List.range'_succ, List.map_cons]
    rfl

/-- `GetRoadBunjiData` lists the bunjis of a road record. -/
theorem getRoadBunjiData_inside {helper : SearchHelper} (opened : helper.fp.data = data)
    {road : RoadData} (stored : road.info = roadAt data road.info.offset)
    (inside : roadEnd data road.info.offset ≤ data.length) (locals : AddressLocals) (pRoad : Slot) :
    (helper.getRoadBunjiData locals pRoad road).bunjiDatas =
      (List.range road.info.bunjiCnt).map fun i =>
        roadBunjiEntry data pRoad (roadBunjiOfs data road.info.offset i) := by
  -- The bunjis follow the record of the road, whose count is the one that was stored.
  have start : road.info.offset + 10 ≤ roadEnd data road.info.offset :=
    roadBunjiOfs_mono (Nat.zero_le _)
  have addressable := helper.fp.addressable
  rw [opened] at addressable
  have count : (roadAt data road.info.offset).bunjiCnt = road.info.bunjiCnt :=
    congrArg RoadDataF.bunjiCnt stored.symm
  have walked := roadBunjis_inside pRoad road.info.offset road.info.bunjiCnt 0
    (locals.bunji % 2 ^ 16) (locals.hoCnt % 2 ^ 16) (helper.fp.moveTo (road.info.offset + 10))
    opened rfl (by rw [Nat.zero_add, ← count]; exact inside)
  rw [show roadBunjiOfs data road.info.offset 0 = road.info.offset + 10 from rfl] at walked
  simp only [SearchHelper.getRoadBunjiData]
  rw [u32_of_lt (by omega), File.fseek_of_lt (by omega), File.moveTo_pos, walked,
    List.range_eq_range']

end Roads

section Dongs

variable {data : List UInt8} {locals : AddressLocals} {state : HelperState}

/-- The law dongs whose bunjis belong to a dong: itself, or those that its words name. -/
def lawDongsOf (data : List UInt8) (dong : DongDataF) : List Nat :=
  if dong.ldongFlag = 1 then [dong.offset]
  else namedDongs data (dong.offset + 18) 0 dong.bunjiCnt

/-- A dong record with its bunjis, or with different law dongs and their bunjis, is in the file. -/
structure BunjiDong (data : List UInt8) (dong : DongDataF) : Prop where
  stored : dong = dongAt data dong.offset
  words : dong.ldongFlag ≠ 1 → dong.offset + 18 + 4 * dong.bunjiCnt ≤ data.length
  regions : ∀ dongOfs ∈ lawDongsOf data dong, dongEnd data dongOfs ≤ data.length
  distinct : (lawDongsOf data dong).Nodup

/-- The bunjis of a dong: each is told by its law dong and its place among the bunjis there. -/
def bunjiPlaces (data : List UInt8) (dong : DongDataF) : List (Nat × Nat) :=
  (lawDongsOf data dong).flatMap fun dongOfs =>
    (List.range (dongAt data dongOfs).bunjiCnt).map fun i => (dongOfs, i)

/-- The offset of a bunji. -/
def placeOfs (data : List UInt8) (place : Nat × Nat) : Nat := bunjiOfs data place.1 place.2

/-- The bunjis of a dong with this flag. -/
def flaggedPlaces (data : List UInt8) (dong : DongDataF) (bSan : Bool) : List (Nat × Nat) :=
  (bunjiPlaces data dong).filter fun place => sanAt data (placeOfs data place) == bSan

/-- No bunji is told twice. -/
theorem bunjiPlaces_nodup {dong : DongDataF} (stored : BunjiDong data dong) :
    (bunjiPlaces data dong).Nodup := by
  refine List.nodup_flatMap.mpr ⟨?_, ?_⟩
  · intro dongOfs _
    exact List.nodup_range.map fun _ _ same => congrArg Prod.snd same
  · -- The bunjis of different law dongs differ in their law dongs.
    refine stored.distinct.imp fun {first second} different place one other => ?_
    obtain ⟨_, _, rfl⟩ := List.mem_map.mp one
    obtain ⟨_, _, same⟩ := List.mem_map.mp other
    exact different (congrArg Prod.fst same).symm

/-- The bunjis with the flag and those without it are all bunjis. -/
theorem flaggedPlaces_perm (data : List UInt8) (dong : DongDataF) :
    (flaggedPlaces data dong true ++ flaggedPlaces data dong false).Perm
      (bunjiPlaces data dong) := by
  -- What does not have the one flag has the other.
  have without : (fun place => sanAt data (placeOfs data place) == false) =
      fun place => !(sanAt data (placeOfs data place) == true) := by
    funext place
    cases sanAt data (placeOfs data place) <;> rfl
  rw [flaggedPlaces, flaggedPlaces, without]
  exact List.filter_append_perm _ _

/-- What the law dongs of a dong list is what is told of its bunjis with the flag. -/
theorem lawDongTold_flagged (data : List UInt8) (dong : DongDataF) (bSan : Bool) :
    (lawDongsOf data dong).flatMap (lawDongTold data bSan) =
      (flaggedPlaces data dong bSan).map fun place => bunjiTold data (placeOfs data place) := by
  -- The places are grouped by law dong, in the order in which the search lists them.
  rw [flaggedPlaces, bunjiPlaces, List.filter_flatMap, List.map_flatMap]
  congr 1
  funext dongOfs
  rw [lawDongTold, flaggedBunjis, ← List.range_eq_range', List.filter_map, List.filter_map,
    List.map_map, List.map_map]
  rfl

/-- The dongs that have to be looked up by name when the bunjis of a dong are listed. -/
def lookedUp (data : List UInt8) (dong : DongDataF) : List Nat :=
  if dong.ldongFlag = 1 then [] else lawDongsOf data dong

/-- The code under which the name of a law dong of a dong is looked up. -/
def lawDongCode (helper : SearchHelper) (dong : DongData) (dongOfs : Nat) : Nat :=
  dongCodeOf helper.sidoData.idx dong.pSigunguF.code (dongAt helper.fp.data dongOfs).code

/-- The state in which the words of an administrative dong are read. -/
def HelperState.atWords (state : HelperState) (dong : DongDataF) : HelperState :=
  { state with helper := { state.helper with
      bunjiDatas := [], fp := state.helper.fp.moveTo (dong.offset + 18) } }

/-- An administrative dong has the bunjis of its law dongs read. -/
theorem getBunjiData_words {pDong : Slot} {dong : DongData} {bSan : Bool} {fuel : Nat}
    (stored : BunjiDong state.helper.fp.data dong.info) (several : dong.info.ldongFlag ≠ 1) :
    state.getBunjiData locals fuel pDong dong bSan =
      HelperState.addHDongBunjis locals fuel dong.nSidoIdx dong.pSigunguF bSan dong.info.bunjiCnt
        (u32 locals.offset) (state.atWords dong.info) := by
  -- The offsets of the law dongs are behind the record, where the search seeks to.
  have room := stored.words several
  have addressable := state.helper.fp.addressable
  unfold HelperState.getBunjiData
  dsimp only
  rw [if_neg several, u32_of_lt (show dong.info.offset + 18 < 2 ^ 32 by omega),
    File.fseek_of_lt (by omega)]
  rfl

/-- `GetBunjiData` comes back when the dongs it looks up are held or have names. -/
theorem getBunjiData_isSome {pDong : Slot} {dong : DongData} {bSan : Bool} {fuel : Nat}
    (holds : HoldsDongs state.helper.fp.data state.helper)
    (stored : BunjiDong state.helper.fp.data dong.info) (low : state.textMng.dongOfs < 2 ^ 31) :
    (state.getBunjiData locals fuel pDong dong bSan).isSome = true ↔
      ∀ dongOfs ∈ lookedUp state.helper.fp.data dong.info, state.helper.Holds dongOfs ∨
        state.textMng.Names locals.nKeyValue fuel (lawDongCode state.helper dong dongOfs) := by
  by_cases law : dong.info.ldongFlag = 1
  · -- A law dong lists its own bunjis, whatever it is called.
    unfold HelperState.getBunjiData
    dsimp only
    rw [lookedUp, if_pos law, if_pos law]
    simp
  · have room := stored.words law
    have regions := stored.regions
    rw [getBunjiData_words stored law, lookedUp, if_neg law]
    rw [lawDongsOf, if_neg law] at regions ⊢
    exact addHDongBunjis_isSome 0 _ (state.atWords dong.info)
      ⟨rfl, holds.listed, holds.others⟩ rfl (by rw [Nat.zero_add]; exact room) regions low

/-- `GetBunjiData` lists the bunjis with the flag, in the order of the file. -/
theorem getBunjiData_told {pDong : Slot} {dong : DongData} {bSan : Bool} {fuel : Nat}
    {after : HelperState} (holds : HoldsDongs state.helper.fp.data state.helper)
    (stored : BunjiDong state.helper.fp.data dong.info)
    (called : state.getBunjiData locals fuel pDong dong bSan = some after) :
    after.helper.bunjiDatas.map BunjiData.told =
      (flaggedPlaces state.helper.fp.data dong.info bSan).map fun place =>
        bunjiTold state.helper.fp.data (placeOfs state.helper.fp.data place) := by
  rw [← lawDongTold_flagged]
  have regions := stored.regions
  by_cases law : dong.info.ldongFlag = 1
  · unfold HelperState.getBunjiData at called
    dsimp only at called
    rw [if_pos law] at called
    cases called
    rw [lawDongsOf, if_pos law] at regions ⊢
    rw [List.flatMap_singleton]
    -- The list was emptied before.
    have opened : ({ state.helper with bunjiDatas := [] } : SearchHelper).fp.data =
      state.helper.fp.data := rfl
    exact addLawDongBunjis_inside opened stored.stored (regions _ List.mem_cons_self) pDong bSan
  · have room := stored.words law
    rw [getBunjiData_words stored law] at called
    rw [lawDongsOf, if_neg law] at regions ⊢
    exact addHDongBunjis_lists 0 _ (state.atWords dong.info)
      ⟨rfl, holds.listed, holds.others⟩ rfl (by rw [Nat.zero_add]; exact room) regions called

/-- The hos of a bunji of a dong end inside the file. -/
theorem bunjiPlaces_inside {dong : DongDataF} (stored : BunjiDong data dong) {place : Nat × Nat}
    (listed : place ∈ bunjiPlaces data dong) :
    placeOfs data place + 4 + 7 * hoCntAt data (placeOfs data place) ≤ data.length := by
  -- The next bunji begins behind the hos of this one, and not behind the end of the dong.
  obtain ⟨dongOfs, law, member⟩ := List.mem_flatMap.mp listed
  obtain ⟨i, bound, rfl⟩ := List.mem_map.mp member
  have region := stored.regions dongOfs law
  have next : bunjiOfs data dongOfs (i + 1) ≤ dongEnd data dongOfs :=
    bunjiOfs_mono (List.mem_range.mp bound)
  rw [bunjiOfs] at next
  change bunjiOfs data dongOfs i + 4 + 7 * hoCntAt data (bunjiOfs data dongOfs i) ≤ data.length
  omega

/--
The bunjis of a dong, as the two listings by flag tell them.

Both are in the order of the file, and each bunji is in one of them, once.
What `GetHoData` is given finds the hos of the bunji, whatever was called in between.
-/
structure BunjisListed (fresh : SearchHelper) (state : HelperState) (pDong : Slot)
    (dong : DongData) : Prop where
  told : ∀ locals bSan, Loop.Yields
    (fun fuel => (state.getBunjiData locals fuel pDong dong bSan).map fun after =>
      after.helper.bunjiDatas.map BunjiData.told)
    ((flaggedPlaces fresh.fp.data dong.info bSan).map fun place =>
      bunjiTold fresh.fp.data (placeOfs fresh.fp.data place))
  all : (flaggedPlaces fresh.fp.data dong.info true ++
    flaggedPlaces fresh.fp.data dong.info false).Perm (bunjiPlaces fresh.fp.data dong.info)
  once : (bunjiPlaces fresh.fp.data dong.info).Nodup
  hos : ∀ place ∈ bunjiPlaces fresh.fp.data dong.info, ∀ next locals, Reached fresh next →
    (SearchHelper.getHoData locals next (placeOfs fresh.fp.data place)).hoDatas =
      File.elementsAt HoData.decode 7 fresh.fp.data (placeOfs fresh.fp.data place + 4)
        (hoCntAt fresh.fp.data (placeOfs fresh.fp.data place))

/-- The bunjis of the roads inside the file, and the hos that `GetNewHoData` finds for each. -/
structure RoadBunjisListed (fresh helper : SearchHelper) : Prop where
  listed : ∀ road : RoadData, road.info = roadAt fresh.fp.data road.info.offset →
    roadEnd fresh.fp.data road.info.offset ≤ fresh.fp.data.length → ∀ locals pRoad,
      (helper.getRoadBunjiData locals pRoad road).bunjiDatas =
        (List.range road.info.bunjiCnt).map fun i =>
          roadBunjiEntry fresh.fp.data pRoad (roadBunjiOfs fresh.fp.data road.info.offset i)
  hos : ∀ roadOfs, roadEnd fresh.fp.data roadOfs ≤ fresh.fp.data.length →
    ∀ i < (roadAt fresh.fp.data roadOfs).bunjiCnt, ∀ next locals, Reached fresh next →
      (SearchHelper.getNewHoData locals next (roadBunjiOfs fresh.fp.data roadOfs i)).newHoDatas =
        File.elementsAt NewHoData.decode 8 fresh.fp.data (roadBunjiOfs fresh.fp.data roadOfs i + 4)
          (hoCntAt fresh.fp.data (roadBunjiOfs fresh.fp.data roadOfs i))

/-- The bunjis of roads are listed in every state. -/
theorem roadBunjis_listed {fresh helper : SearchHelper}
    (same : ∀ next, Reached fresh next → next.fp.data = fresh.fp.data)
    (reached : Reached fresh helper) : RoadBunjisListed fresh helper where
  listed := fun road stored inside locals pRoad =>
    getRoadBunjiData_inside (same helper reached) stored inside locals pRoad
  hos := by
    -- A bunji ends where the next one begins, which is inside the record of the road.
    intro roadOfs inside i bound next locals reached
    have last : roadBunjiOfs fresh.fp.data roadOfs (i + 1) ≤ roadEnd fresh.fp.data roadOfs :=
      roadBunjiOfs_mono bound
    rw [roadBunjiOfs] at last
    have opened := same next reached
    rw [← opened] at last inside ⊢
    exact getNewHoData_inside (by omega) locals

/--
The bunjis of a dong are listed completely unless a law dong that is looked up has no name.

A law dong lists its own bunjis. The law dongs of an administrative dong are looked up by their
offsets, and one that the helper does not hold needs a name.
-/
theorem getBunjiData_iff {locals : AddressLocals} {passes : Nat} {fp : File}
    {fresh helper : SearchHelper} (created : SearchHelper.create locals passes fp = some fresh)
    (reached : Reached fresh helper) {textMng : TextMng}
    (placed : textMng.dongOfs ≤ textMng.nameFp.data.length) {dong : DongData}
    (stored : BunjiDong fresh.fp.data dong.info) (pDong : Slot) :
    BunjisListed fresh ⟨helper, textMng⟩ pDong dong ∧ RoadBunjisListed fresh helper ↔
      ∀ dongOfs ∈ lookedUp fresh.fp.data dong.info,
        helper.Holds dongOfs ∨ DongNamed textMng (lawDongCode helper dong dongOfs) := by
  have holds := reached.holds created
  have same : ∀ next, Reached fresh next → next.fp.data = fresh.fp.data :=
    fun next later => (later.holds created).opened
  have low : textMng.dongOfs < 2 ^ 31 := Nat.lt_of_le_of_lt placed textMng.nameFp.addressable
  have opened : helper.fp.data = fresh.fp.data := holds.opened
  have holdsOwn : HoldsDongs helper.fp.data helper := opened ▸ holds
  have storedOwn : BunjiDong helper.fp.data dong.info := opened ▸ stored
  have isSome : ∀ locals bSan fuel,
      (HelperState.getBunjiData locals fuel ⟨helper, textMng⟩ pDong dong bSan).isSome = true ↔
        ∀ dongOfs ∈ lookedUp fresh.fp.data dong.info, helper.Holds dongOfs ∨
          textMng.Names locals.nKeyValue fuel (lawDongCode helper dong dongOfs) := by
    intro locals bSan fuel
    rw [← opened]
    exact getBunjiData_isSome holdsOwn storedOwn low
  constructor
  · rintro ⟨listed, _⟩ dongOfs member
    by_cases held : helper.Holds dongOfs
    · exact .inl held
    · -- A listing that comes back has looked up the name of this dong.
      refine .inr ((dongNamed_iff low _).mpr fun junk => ?_)
      obtain ⟨enough, told⟩ := listed.told { zeroAddressLocals with nKeyValue := junk } true
      refine ⟨enough, fun fuel longer => ?_⟩
      obtain ⟨after, called, _⟩ := Option.map_eq_some_iff.mp (told fuel longer)
      have names := (isSome _ true fuel).mp (by rw [called]; rfl) dongOfs member
      exact names.resolve_left held
  · intro named
    refine ⟨⟨?_, flaggedPlaces_perm _ _, bunjiPlaces_nodup stored, ?_⟩,
      roadBunjis_listed same reached⟩
    · intro locals bSan
      have each : ∀ dongOfs ∈ lookedUp fresh.fp.data dong.info, ∃ enough, ∀ fuel, enough ≤ fuel →
          helper.Holds dongOfs ∨
            textMng.Names locals.nKeyValue fuel (lawDongCode helper dong dongOfs) := by
        intro dongOfs member
        rcases named dongOfs member with held | names
        · exact ⟨0, fun _ _ => .inl held⟩
        · obtain ⟨enough, names⟩ := (dongNamed_iff low _).mp names locals.nKeyValue
          exact ⟨enough, fun fuel longer => .inr (names fuel longer)⟩
      -- There are finitely many dongs to look up, so some number of passes is enough for all.
      obtain ⟨enough, all⟩ := Loop.enough_forall_mem each
      refine ⟨enough, fun fuel longer => ?_⟩
      obtain ⟨after, called⟩ := Option.isSome_iff_exists.mp
        ((isSome locals bSan fuel).mpr (all fuel longer))
      have told := getBunjiData_told holdsOwn storedOwn called
      dsimp only at told ⊢
      rw [called, Option.map_some, told, opened]
    · intro place member next locals later
      have inside := bunjiPlaces_inside stored member
      have own := same next later
      rw [← own] at inside ⊢
      exact getHoData_inside inside locals

/--
A sido file with two sigungus.

The administrative dong of the first names the law dong of the second, which has one bunji.
-/
def borderDongs : List UInt8 :=
  -- The sido, and the first sigungu at 10 with its dong at 20.
  leBytes 10 0 ++ leBytes 2 1 ++ leBytes 4 0 ++ leBytes 4 42 ++
  dongBytes 1 0 0 4 0 ++ leBytes 4 52 ++
  -- The second sigungu at 42 with its dong at 52.
  leBytes 2 2 ++ leBytes 8 0 ++ dongBytes 3 0 0 5 0 ++ bunjiBytes 1 5 7 9 ++
  -- The table of law dongs at 81, and the three headers.
  [52, 200003].flatMap (leBytes 4) ++ [0, 0, 0, 0, 0, 0, 0, 81, 1].flatMap (leBytes 4) ++
  leBytes 48 0 ++ [0, 125, 125, 173].flatMap (leBytes 4)

/-- The file of two sigungus, just opened. -/
def borderFile : File := ⟨borderDongs, 0, by decide +kernel⟩

/-- The helper constructed for that file. -/
def borderHelper : SearchHelper :=
  { threeDongsHelper with
    fp := borderFile.moveTo 89
    fileHeader := ⟨0, 125, 125, 173⟩
    addrHeader := ⟨0, 0, 0, 0, 0, 0, 0, 81, 1⟩
    sigunguDataFs := [⟨1, 0, 10⟩, ⟨2, 0, 42⟩]
    ldCodeOffset := [(52, 200003)] }

theorem borderHelper_created :
    SearchHelper.create zeroAddressLocals 10 borderFile = some borderHelper := by
  decide +kernel

/-- The names of two dongs: that of the first sigungu, and one with this code. -/
def borderNames (code : Nat) : TextMng where
  textFp := ⟨[0x00, 0xAC, 0x01, 0xAC], 0, by decide⟩
  nameFp := ⟨[2, 100001, 1, code, 65].flatMap (leBytes 4), 0, by simp⟩
  sidoOfs := 0
  sigunguOfs := 0
  dongOfs := 0
  roadOfs := 0
  textBuff := fun _ => List.replicate 32 0
  sized := zeros_sized

/-- The administrative dong of the first sigungu. -/
def borderDong : DongData := ⟨0, ⟨1, 0, 10⟩, [0xAC00], 1, dongAt borderDongs 20⟩

theorem borderDong_stored : BunjiDong borderHelper.fp.data borderDong.info :=
  ⟨by decide +kernel, by decide +kernel, by decide +kernel, by decide +kernel⟩

/-- The two names are found under their codes. -/
theorem borderNames_named (code : Nat) {index : Nat}
    (names : NameTable (borderNames code) .u32 0 2) (listed : index < 2) :
    DongNamed (borderNames code) ((borderNames code).nameKey .u32 0 index) :=
  dongNamed_listed names listed

/-- The bunji is listed if the law dong has a name in the sigungu of the administrative dong. -/
theorem getBunjiData_iff_border :
    BunjisListed borderHelper ⟨borderHelper, borderNames 100003⟩ (.dong 0 0) borderDong ∧
    RoadBunjisListed borderHelper borderHelper ∧
    bunjiPlaces borderDongs borderDong.info = [(52, 0)] := by
  have named := borderNames_named 100003
    ⟨by decide +kernel, by decide +kernel, by decide +kernel⟩ (show 1 < 2 by decide)
  rw [show (borderNames 100003).nameKey .u32 0 1 = 100003 by decide +kernel] at named
  have listed := (getBunjiData_iff borderHelper_created .fresh
    (show (borderNames 100003).dongOfs ≤ _ from Nat.zero_le _) borderDong_stored (.dong 0 0)).mpr
    (fun dongOfs member => .inr ?_)
  · exact ⟨listed.1, listed.2, by decide +kernel⟩
  · rw [show lookedUp borderHelper.fp.data borderDong.info = [52] by decide +kernel,
      List.mem_singleton] at member
    rw [member, show lawDongCode borderHelper borderDong 52 = 100003 by decide +kernel]
    exact named

/--
The bunji is not listed if its law dong has its name in its own sigungu only.

The name is looked up with the code of the sigungu of the administrative dong.
-/
theorem borderDong_unlisted :
    SearchHelper.create zeroAddressLocals 10 borderFile = some borderHelper ∧
    (borderNames 200003).dongOfs ≤ (borderNames 200003).nameFp.data.length ∧
    BunjiDong borderHelper.fp.data borderDong.info ∧
    borderHelper.findSigunguOfOffset 52 false = some ⟨2, 0, 42⟩ ∧
    DongNamed (borderNames 200003) (dongCodeOf 0 1 (dongAt borderDongs 20).code) ∧
    DongNamed (borderNames 200003) (dongCodeOf 0 2 (dongAt borderDongs 52).code) ∧
    ¬ (BunjisListed borderHelper ⟨borderHelper, borderNames 200003⟩ (.dong 0 0) borderDong ∧
      RoadBunjisListed borderHelper borderHelper) := by
  have named : ∀ index < 2, _ := fun index => borderNames_named 200003
    ⟨by decide +kernel, by decide +kernel, by decide +kernel⟩
  refine ⟨borderHelper_created, Nat.zero_le _, borderDong_stored, by decide +kernel, ?_, ?_, ?_⟩
  · rw [show dongCodeOf 0 1 (dongAt borderDongs 20).code =
      (borderNames 200003).nameKey .u32 0 0 by decide +kernel]
    exact named 0 (by decide)
  · rw [show dongCodeOf 0 2 (dongAt borderDongs 52).code =
      (borderNames 200003).nameKey .u32 0 1 by decide +kernel]
    exact named 1 (by decide)
  rintro ⟨listed, _⟩
  obtain ⟨enough, told⟩ := listed.told zeroAddressLocals true
  obtain ⟨after, called, _⟩ := Option.map_eq_some_iff.mp
    (told (max enough 2) (Nat.le_max_left _ _))
  -- A listing that comes back would have found the name, but the search for it finds nothing.
  have names := (getBunjiData_isSome (create_holds borderHelper_created) borderDong_stored
    (Nat.two_pow_pos 31)).mp (Option.isSome_iff_exists.mpr ⟨after, called⟩) 52
    (show 52 ∈ lookedUp borderHelper.fp.data borderDong.info by decide +kernel)
  rcases names with held | named
  · exact absurd held (by simp [SearchHelper.Holds, borderHelper, threeDongsHelper])
  · rw [show lawDongCode borderHelper borderDong 52 = 100003 by decide +kernel,
      names_iff_finds] at named
    have missed : (borderNames 200003).finds .u32 2 0 2 0 100003 = some false := by
      decide +kernel
    exact absurd ((finds_final _ _ _ _ _ _).unique missed named) (by decide)

end Dongs

end AndroidApps.Gildroia
