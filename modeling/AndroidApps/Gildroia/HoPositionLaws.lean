import AndroidApps.Gildroia.DongTable
import AndroidApps.Gildroia.HelperCalls

/-! When a ho record has one position, whatever the path to it and the calls before. -/

namespace AndroidApps.Gildroia

open Machine

section Layout

/-- The dong record at an offset, with this offset in place of the link. -/
def dongAt (data : List UInt8) (offset : Nat) : DongDataF :=
  { DongDataF.decode (bytesAt data offset 18) with offset := offset }

/-- The number of hos of the bunji at an offset. -/
def hoCntAt (data : List UInt8) (bunjiOfs : Nat) : Nat := wordAt data (bunjiOfs + 2) 2

/-- The offsets of the bunjis of a law dong, one behind the other. -/
def bunjiOfs (data : List UInt8) (dongOfs : Nat) : Nat → Nat
  | 0 => dongOfs + 18
  | i + 1 => bunjiOfs data dongOfs i + (7 * hoCntAt data (bunjiOfs data dongOfs i) + 4)

/-- The end of the region of a law dong. -/
def dongEnd (data : List UInt8) (dongOfs : Nat) : Nat :=
  bunjiOfs data dongOfs (dongAt data dongOfs).bunjiCnt

/-- The table of law dongs of a well-formed file: consecutive regions inside the file. -/
structure LawDongTable (data : List UInt8) (table : List (Nat × Nat)) : Prop where
  consecutive : table.Pairwise fun first second => dongEnd data first.1 ≤ second.1
  inside : ∀ entry ∈ table, dongEnd data entry.1 ≤ data.length
  law : ∀ entry ∈ table, (dongAt data entry.1).ldongFlag = 1

/-- The place of a ho record in the bunji data of a law dong. -/
structure HoPlace (data : List UInt8) (dongOfs bunji ho hoOfs : Nat) : Prop where
  bunjiListed : bunji < (dongAt data dongOfs).bunjiCnt
  hoListed : ho < hoCntAt data (bunjiOfs data dongOfs bunji)
  offset : hoOfs = bunjiOfs data dongOfs bunji + 4 + 7 * ho

/-- The dong records linked from an offset on. -/
inductive DongChain (data : List UInt8) : Nat → List DongDataF → Prop
  | last {offset : Nat} (inside : offset + 18 ≤ data.length)
    (ends : (DongDataF.decode (bytesAt data offset 18)).offset = 0) :
    DongChain data offset [dongAt data offset]
  | link {offset : Nat} {rest : List DongDataF} (inside : offset + 18 ≤ data.length)
    (links : (DongDataF.decode (bytesAt data offset 18)).offset ≠ 0)
    (later : DongChain data (DongDataF.decode (bytesAt data offset 18)).offset rest) :
    DongChain data offset (dongAt data offset :: rest)

/-- The first record of a chain is inside the file. -/
theorem DongChain.start_inside {data : List UInt8} {offset : Nat} {dongs : List DongDataF}
    (chain : DongChain data offset dongs) : offset + 18 ≤ data.length := by
  cases chain with
  | last inside _ => exact inside
  | link inside _ _ => exact inside

/-- The dongs of a sigungu in a well-formed file: in order, none inside a law dong before it. -/
structure SigunguDongs (data : List UInt8) (sigunguOfs : Nat) (dongs : List DongDataF) : Prop where
  chain : DongChain data (sigunguOfs + 10) dongs
  ordered : dongs.Pairwise fun first second =>
    first.offset < second.offset ∧
      (first.ldongFlag = 1 → dongEnd data first.offset ≤ second.offset)

/-- The ho record at an offset. -/
def hoAt (data : List UInt8) (offset : Nat) : HoData := HoData.decode (bytesAt data offset 7)

/-- The mark of a position that is stored elsewhere. -/
def PosMarked (ho : HoData) : Prop := ho.xQuota = 0x1F ∧ ho.x = 0xFFFF

instance (ho : HoData) : Decidable (PosMarked ho) := inferInstanceAs (Decidable (_ ∧ _))

/-- The offset of a position that is stored elsewhere. -/
def posExOfs (posExtOfs : Nat) (ho : HoData) : Nat := posExtOfs + 8 * (ho.yQuota * 65536 + ho.y)

/-- The position of a ho relative to its dong. -/
def hoPosAt (data : List UInt8) (posExtOfs : Nat) (ho : HoData) : Nat × Nat :=
  if PosMarked ho then
    (wordAt data (posExOfs posExtOfs ho) 4, wordAt data (posExOfs posExtOfs ho + 4) 4)
  else (ho.xQuota * 65536 + ho.x, ho.yQuota * 65536 + ho.y)

/-- The position of a ho is inside the file, wherever it is stored. -/
def PosInside (data : List UInt8) (posExtOfs : Nat) (ho : HoData) : Prop :=
  PosMarked ho → posExOfs posExtOfs ho + 8 ≤ data.length

instance (data : List UInt8) (posExtOfs : Nat) (ho : HoData) :
    Decidable (PosInside data posExtOfs ho) := inferInstanceAs (Decidable (_ → _))

/-- The code of a dong, and the position and the record of one of its hos. -/
def newHoPosAt (data : List UInt8) (posExtOfs dongOfs hoOfs : Nat) : NewHoPos :=
  let dong := dongAt data dongOfs
  let ho := hoAt data hoOfs
  let pos := hoPosAt data posExtOfs ho
  ⟨dong.code, u32 (pos.1 + dong.minX), u32 (pos.2 + dong.minY), ho⟩

variable {data : List UInt8} {dongOfs : Nat}

/-- Later bunjis have larger offsets. -/
theorem bunjiOfs_mono {i j : Nat} (before : i ≤ j) :
    bunjiOfs data dongOfs i ≤ bunjiOfs data dongOfs j := by
  induction before with
  | refl => exact Nat.le_refl _
  | step _ ih =>
    rw [bunjiOfs]
    omega

/-- A ho record lies between its dong and the end of the region of the dong. -/
theorem HoPlace.between {bunji ho hoOfs : Nat} (place : HoPlace data dongOfs bunji ho hoOfs) :
    dongOfs + 18 < hoOfs ∧ hoOfs + 7 ≤ dongEnd data dongOfs := by
  -- The bunjis stand one behind the other, and the hos stand inside their bunji.
  obtain ⟨bunjiListed, hoListed, rfl⟩ := place
  have first : dongOfs + 18 ≤ bunjiOfs data dongOfs bunji :=
    bunjiOfs_mono (Nat.zero_le bunji)
  have next : bunjiOfs data dongOfs (bunji + 1) ≤ dongEnd data dongOfs := bunjiOfs_mono bunjiListed
  rw [bunjiOfs] at next
  omega

/-- The entries of the table below a ho record are those up to the dong of this record. -/
theorem LawDongTable.belowUpTo {table : List (Nat × Nat)} (lawDongs : LawDongTable data table)
    {target : Nat} {entry : Nat × Nat} (listed : table[target]? = some entry)
    {bunji ho hoOfs : Nat} (place : HoPlace data entry.1 bunji ho hoOfs) :
    BelowUpTo table hoOfs target := by
  obtain ⟨above, below⟩ := place.between
  have apart := List.pairwise_iff_getElem.mp lawDongs.consecutive
  obtain ⟨targetBound, rfl⟩ := List.getElem?_eq_some_iff.mp listed
  intro i other found
  obtain ⟨bound, rfl⟩ := List.getElem?_eq_some_iff.mp found
  rcases Nat.lt_trichotomy i target with before | same | after
  · -- The region of an earlier dong ends before the dong of the record begins.
    have region := apart i target bound targetBound before
    have start : table[i].1 + 18 ≤ dongEnd data table[i].1 := bunjiOfs_mono (Nat.zero_le _)
    omega
  · subst same
    omega
  · have region := apart target i targetBound bound after
    omega

end Layout

section Reading

variable {helper : SearchHelper}

/-- A ho record inside the file is read as it stands. -/
theorem readHo_eq {hoOfs : Nat} (inside : hoOfs + 7 ≤ helper.fp.data.length) (old : HoData) :
    (helper.readHo hoOfs old).1 = hoAt helper.fp.data hoOfs := by
  simp only [SearchHelper.readHo, File.fread_fseek inside]
  rfl

/-- A position that is stored elsewhere is read as two words. -/
theorem getPosEx_eq {nIndex offset : Nat}
    (same : helper.addrHeader.addrPosExtOfs + 4 * (nIndex * 2) = offset)
    (room : offset + 8 ≤ helper.fp.data.length) (old : Nat × Nat) :
    (helper.getPosEx nIndex old).1 =
      (wordAt helper.fp.data offset 4, wordAt helper.fp.data (offset + 4) 4) := by
  -- The second word is read where the first one ends.
  have small : offset < 2 ^ 32 := by
    have := helper.fp.addressable
    omega
  simp only [SearchHelper.getPosEx]
  rw [same, u32_of_lt small, File.freadWord_fseek (by omega)]
  simp only
  rw [File.freadWord_inside (by rw [File.moveTo_pos, File.moveTo_data]; omega)]
  rfl

/-- The position of a ho is the one stored for it. -/
theorem getHoPos_eq {ho : HoData}
    (inside : PosInside helper.fp.data helper.addrHeader.addrPosExtOfs ho) (old : Nat × Nat) :
    (helper.getHoPos ho old).1 =
      hoPosAt helper.fp.data helper.addrHeader.addrPosExtOfs ho := by
  -- A marked position is read from the table behind the records, and any other is in the record.
  unfold SearchHelper.getHoPos hoPosAt
  by_cases marked : PosMarked ho
  · have same : helper.addrHeader.addrPosExtOfs + 4 * ((ho.yQuota * 65536 + ho.y) * 2) =
        posExOfs helper.addrHeader.addrPosExtOfs ho := by
      unfold posExOfs
      ring
    rw [if_pos marked, if_pos (show ho.xQuota = 0x1F ∧ ho.x = 0xFFFF from marked)]
    exact getPosEx_eq same (inside marked) old
  · rw [if_neg marked, if_neg (show ¬ (ho.xQuota = 0x1F ∧ ho.x = 0xFFFF) from marked)]

/-- The record of a dong inside the file is read as it stands. -/
theorem findDongOfOffset_eq {fuel ofs : Nat} {entry : Nat × Nat}
    (found : findDongEntry fuel helper.ldCodeOffset ofs = some entry)
    (inside : entry.1 + 18 ≤ helper.fp.data.length) (old : DongDataF) :
    ∃ next, helper.findDongOfOffset fuel ofs old =
        some (entry.2, DongDataF.decode (bytesAt helper.fp.data entry.1 18), next) ∧
      Keeps helper next := by
  refine ⟨_, ?_, .moved (File.moveTo_data helper.fp (entry.1 + 18))⟩
  simp only [SearchHelper.findDongOfOffset, found, Option.map_some, File.fread_fseek inside]

end Reading

section Listing

variable {data : List UInt8}

/-- A pass over a record inside the file lists this record, unless its code has no name. -/
theorem dongDataPass_inside (locals : AddressLocals) (nameFuel nSidoIdx sidoIdx : Nat)
    (pSigunguF : SigunguDataF) {walk : DongWalk} {offset : Nat} (opened : walk.fp.data = data)
    (placed : walk.fp.pos = offset) (own : walk.nextOffset = offset)
    (inside : offset + 18 ≤ data.length) :
    dongDataPass locals nameFuel nSidoIdx sidoIdx pSigunguF walk = .inr none ∨
    ∃ textMng dong, dong.info = dongAt data offset ∧
      dongDataPass locals nameFuel nSidoIdx sidoIdx pSigunguF walk =
        if (DongDataF.decode (bytesAt data offset 18)).offset = 0 then
          .inr (some (walk.fp.moveTo (offset + 18), textMng, walk.dongDatas ++ [dong]))
        else .inl ⟨(walk.fp.moveTo (offset + 18)).fseek
            (DongDataF.decode (bytesAt data offset 18)).offset, textMng,
          DongDataF.decode (bytesAt data offset 18),
          (DongDataF.decode (bytesAt data offset 18)).offset, walk.dongDatas ++ [dong]⟩ := by
  -- The record is read as it stands, and its own offset is put in place of the link.
  have read : walk.fp.fread DongDataF.decode 18 walk.ddF =
      (DongDataF.decode (bytesAt data offset 18), walk.fp.moveTo (offset + 18)) := by
    rw [File.fread_inside (by rw [placed, opened]; exact inside), placed, opened]
  unfold dongDataPass
  rw [read]
  dsimp only
  split
  · exact .inl rfl
  · rename_i name nLen textMng named
    refine .inr ⟨textMng, _, ?_, rfl⟩
    simp only [own]
    rfl

/-- The listing of dongs follows the chain of their records. -/
theorem dongWalk_infos {locals : AddressLocals} {nameFuel nSidoIdx sidoIdx : Nat}
    {pSigunguF : SigunguDataF} {offset : Nat} {dongs : List DongDataF}
    (chain : DongChain data offset dongs) :
    ∀ {fuel : Nat} {walk : DongWalk} {fp : File} {textMng : TextMng} {listed : List DongData},
      walk.fp.data = data → walk.fp.pos = offset → walk.nextOffset = offset →
      Loop.run (dongDataPass locals nameFuel nSidoIdx sidoIdx pSigunguF) fuel walk =
        some (some (fp, textMng, listed)) →
      listed.map DongData.info = walk.dongDatas.map DongData.info ++ dongs := by
  -- Each link of the chain is one pass of the loop, and the last one leaves it.
  induction chain with
  | last inside ends =>
    intro fuel walk fp textMng listed opened placed own ran
    cases fuel with
    | zero => cases ran
    | succ fuel =>
      rcases dongDataPass_inside locals nameFuel nSidoIdx sidoIdx pSigunguF opened placed own inside
        with unnamed | ⟨named, dong, info, pass⟩
      · rw [Loop.run_leave unnamed] at ran
        cases ran
      · rw [if_pos ends] at pass
        rw [Loop.run_leave pass] at ran
        cases ran
        simp [info]
  | link inside links later ih =>
    intro fuel walk fp textMng listed opened placed own ran
    cases fuel with
    | zero => cases ran
    | succ fuel =>
      rcases dongDataPass_inside locals nameFuel nSidoIdx sidoIdx pSigunguF opened placed own inside
        with unnamed | ⟨named, dong, info, pass⟩
      · rw [Loop.run_leave unnamed] at ran
        cases ran
      · rw [if_neg links] at pass
        rw [Loop.run_continue pass] at ran
        -- The next record is inside the file as well, so the link can be followed.
        have linked := later.start_inside
        subst opened
        have rest := ih (by simp) (by rw [File.fseek_of_lt (File.offset_lt linked)]; rfl) rfl ran
        rw [rest]
        simp [info]

/-- `GetDongData` lists the records of the chain behind the sigungu. -/
theorem getDongData_infos {locals : AddressLocals} {fuel nSidoIdx sigunguOfs : Nat}
    {state after : HelperState} {dongs : List DongDataF}
    (chain : DongChain state.helper.fp.data (sigunguOfs + 10) dongs)
    (called : state.getDongData locals fuel nSidoIdx sigunguOfs = some after) :
    after.helper.dongDatas.map DongData.info = dongs := by
  -- The walk begins behind the record of the sigungu, where the chain begins.
  have inside := chain.start_inside
  have small : sigunguOfs + 10 < 2 ^ 31 := File.offset_lt inside
  have moved : state.helper.fp.fseek (u32 (sigunguOfs + 10)) =
      state.helper.fp.moveTo (sigunguOfs + 10) := by
    rw [u32_of_lt (by omega), File.fseek_of_lt small]
  unfold HelperState.getDongData at called
  rw [moved] at called
  dsimp only at called
  split at called
  · cases called
  · split at called
    · rename_i ran
      cases called
      have infos := dongWalk_infos chain rfl rfl rfl ran
      simpa using infos
    · cases called

end Listing

section Scan

variable {data : List UInt8} {dongOfs hoOfs : Nat}

/-- Behind its law dong a ho record is not passed by any other dong. -/
theorem scanDongs_found {dong : DongData} {rest : List DongData} (law : dong.info.ldongFlag = 1)
    (later : ∀ other ∈ rest, hoOfs < other.info.offset) :
    scanDongs hoOfs (some dong) rest = some dong := by
  cases rest with
  | nil => rfl
  | cons next rest =>
    have behind : next.info.offset > hoOfs := later next List.mem_cons_self
    rw [scanDongs, if_pos ⟨behind, by omega⟩]

/-- A dong that begins before the ho record is passed. -/
theorem scanDongs_pass {before : Option DongData} {dong : DongData} {rest : List DongData}
    (early : dong.info.offset ≤ hoOfs) :
    scanDongs hoOfs before (dong :: rest) = scanDongs hoOfs (some dong) rest := by
  -- Neither of the two conditions to stop is met.
  cases before with
  | none => rw [scanDongs, if_neg (Nat.not_lt.mpr early)]
  | some before =>
    rw [scanDongs, if_neg]
    rintro ⟨late, _⟩
    omega

/-- The scan over the dongs of its sigungu finds the dong of a ho record. -/
theorem scanDongs_eq {listed : List DongData}
    (ordered : (listed.map DongData.info).Pairwise fun first second =>
      first.offset < second.offset ∧
        (first.ldongFlag = 1 → dongEnd data first.offset ≤ second.offset))
    (member : dongAt data dongOfs ∈ listed.map DongData.info)
    (law : (dongAt data dongOfs).ldongFlag = 1) (above : dongOfs < hoOfs)
    (below : hoOfs < dongEnd data dongOfs) (before : Option DongData) :
    ∃ dong, scanDongs hoOfs before listed = some dong ∧ dong.info = dongAt data dongOfs := by
  induction listed generalizing before with
  | nil => simp at member
  | cons head rest ih =>
    rw [List.map_cons, List.pairwise_cons] at ordered
    obtain ⟨first, others⟩ := ordered
    rw [List.map_cons, List.mem_cons] at member
    rcases member with here | later
    · -- This is the dong: whatever follows begins behind its region.
      have own : head.info.offset = dongOfs := by rw [← here]; rfl
      refine ⟨head, ?_, here.symm⟩
      rw [scanDongs_pass (by omega)]
      apply scanDongs_found (by rw [← here]; exact law)
      intro other listed
      have region := (first other.info (List.mem_map_of_mem listed)).2 (by rw [← here]; exact law)
      rw [own] at region
      omega
    · have earlier := (first _ later).1
      have own : (dongAt data dongOfs).offset = dongOfs := rfl
      rw [scanDongs_pass (by omega)]
      exact ih others later (some head)

end Scan

section Answers

/-- A ho record inside the region of a law dong, whose position can be read. -/
structure HoRecord (data : List UInt8) (posExtOfs dongOfs hoOfs : Nat) : Prop where
  law : (dongAt data dongOfs).ldongFlag = 1
  above : dongOfs + 18 < hoOfs
  below : hoOfs + 7 ≤ dongEnd data dongOfs
  inside : dongEnd data dongOfs ≤ data.length
  position : PosInside data posExtOfs (hoAt data hoOfs)

/-- The helper reads the bytes of this file. -/
structure Reads (helper : SearchHelper) (data : List UInt8) (posExtOfs : Nat)
    (table : List (Nat × Nat)) : Prop where
  data : helper.fp.data = data
  posExtOfs : helper.addrHeader.addrPosExtOfs = posExtOfs
  table : helper.ldCodeOffset = table

variable {helper next : SearchHelper} {data : List UInt8} {posExtOfs dongOfs hoOfs fuel : Nat}
  {table : List (Nat × Nat)}

/-- What keeps the file is still read from it. -/
theorem Reads.after (reads : Reads helper data posExtOfs table) (kept : SameFile helper next) :
    Reads next data posExtOfs table where
  data := kept.data.trans reads.data
  posExtOfs := (congrArg AddrDataHeader.addrPosExtOfs kept.addrHeader).trans reads.posExtOfs
  table := kept.ldCodeOffset.trans reads.table

/-- The ho record is read as it stands. -/
theorem HoRecord.read (record : HoRecord data posExtOfs dongOfs hoOfs)
    (reads : Reads helper data posExtOfs table) (old : HoData) :
    (helper.readHo hoOfs old).1 = hoAt data hoOfs := by
  obtain ⟨rfl, rfl, rfl⟩ := reads
  exact readHo_eq (Nat.le_trans record.below record.inside) old

/-- The position of the ho record is the one stored for it. -/
theorem HoRecord.pos (record : HoRecord data posExtOfs dongOfs hoOfs)
    (reads : Reads helper data posExtOfs table) (old : Nat × Nat) :
    (helper.getHoPos (hoAt data hoOfs) old).1 = hoPosAt data posExtOfs (hoAt data hoOfs) := by
  obtain ⟨rfl, rfl, rfl⟩ := reads
  exact getHoPos_eq record.position old

/-- Once the search settles on the dong, its own record is read. -/
theorem HoRecord.dong (record : HoRecord data posExtOfs dongOfs hoOfs)
    (reads : Reads helper data posExtOfs table) {code : Nat}
    (found : findDongEntry fuel table hoOfs = some (dongOfs, code)) (old : DongDataF) :
    ∃ dong next, helper.findDongOfOffset fuel hoOfs old = some (code, dong, next) ∧
      { dong with offset := dongOfs } = dongAt data dongOfs ∧ Keeps helper next := by
  -- The record of the dong stands before that of the ho, and so inside the file.
  obtain ⟨rfl, rfl, rfl⟩ := reads
  have room : dongOfs + 18 ≤ helper.fp.data.length := by
    have := record.above
    have := record.below
    have := record.inside
    omega
  obtain ⟨next, looked, kept⟩ := findDongOfOffset_eq found room old
  exact ⟨_, next, looked, rfl, kept⟩

/-- With the dongs of its sigungu listed, `GetNewHoPos` finds a ho record's own dong. -/
theorem getNewHoPos_listed (record : HoRecord data posExtOfs dongOfs hoOfs)
    (reads : Reads helper data posExtOfs table)
    (ordered : (helper.dongDatas.map DongData.info).Pairwise fun first second =>
      first.offset < second.offset ∧
        (first.ldongFlag = 1 → dongEnd data first.offset ≤ second.offset))
    (member : dongAt data dongOfs ∈ helper.dongDatas.map DongData.info)
    (locals : PositionLocals) :
    ∃ next, helper.getNewHoPos locals fuel hoOfs =
      some (newHoPosAt data posExtOfs dongOfs hoOfs, next) := by
  -- The scan stops at the dong whose region the ho record lies in.
  have above := record.above
  have below := record.below
  obtain ⟨dong, scanned, info⟩ :=
    scanDongs_eq ordered member record.law (show dongOfs < hoOfs by omega)
      (show hoOfs < dongEnd data dongOfs by omega) none
  have filled : helper.dongDatas ≠ [] := by
    intro empty
    rw [empty] at member
    simp at member
  have kept := readHo_keeps helper hoOfs locals.ho
  have pos := record.pos (reads.after kept.toSameFile) locals.pos
  refine ⟨((helper.readHo hoOfs locals.ho).2.getHoPos (hoAt data hoOfs) locals.pos).2, ?_⟩
  unfold SearchHelper.getNewHoPos
  dsimp only
  rw [if_pos (show (helper.readHo hoOfs locals.ho).2.dongDatas ≠ [] from filled),
    show (helper.readHo hoOfs locals.ho).2.dongDatas = helper.dongDatas from rfl, scanned,
    record.read reads]
  simp only [pos, info]
  rfl

/-- Without a list of dongs, `GetNewHoPos` relies on the table of law dongs. -/
theorem getNewHoPos_fresh (record : HoRecord data posExtOfs dongOfs hoOfs)
    (reads : Reads helper data posExtOfs table) (fresh : helper.dongDatas = []) {code : Nat}
    (found : findDongEntry fuel table hoOfs = some (dongOfs, code)) (locals : PositionLocals) :
    ∃ next, helper.getNewHoPos locals fuel hoOfs =
      some (newHoPosAt data posExtOfs dongOfs hoOfs, next) := by
  -- The record is read twice before the table is searched.
  have first := readHo_keeps helper hoOfs locals.ho
  have once := reads.after first.toSameFile
  have second := readHo_keeps (helper.readHo hoOfs locals.ho).2 hoOfs
    (helper.readHo hoOfs locals.ho).1
  have twice := once.after second.toSameFile
  obtain ⟨dong, next, looked, info, kept⟩ := record.dong twice found locals.dongF
  have pos := record.pos (twice.after kept.toSameFile) locals.pos
  refine ⟨(next.getHoPos (hoAt data hoOfs) locals.pos).2, ?_⟩
  unfold SearchHelper.getNewHoPos
  dsimp only
  rw [if_neg (show ¬ (helper.readHo hoOfs locals.ho).2.dongDatas ≠ [] from not_not.mpr fresh),
    looked]
  simp only [record.read once, pos]
  rw [newHoPosAt, ← info]

/-- The code handed out is that of the dong the table search settles on. -/
theorem getNewHoPos_code {locals : PositionLocals} (fresh : helper.dongDatas = [])
    {entry : Nat × Nat} (found : findDongEntry fuel helper.ldCodeOffset hoOfs = some entry)
    (inside : entry.1 + 18 ≤ helper.fp.data.length) {pos : NewHoPos}
    (answered : helper.getNewHoPos locals fuel hoOfs = some (pos, next)) :
    pos.code = (dongAt helper.fp.data entry.1).code := by
  -- The ho record is read twice, and then the table decides.
  have first := readHo_keeps helper hoOfs locals.ho
  have second := readHo_keeps (helper.readHo hoOfs locals.ho).2 hoOfs
    (helper.readHo hoOfs locals.ho).1
  have kept := first.trans second
  obtain ⟨after, looked, _⟩ :=
    findDongOfOffset_eq (by rw [kept.ldCodeOffset]; exact found) (by rw [kept.data]; exact inside)
      locals.dongF
  unfold SearchHelper.getNewHoPos at answered
  dsimp only at answered
  rw [if_neg (show ¬ (helper.readHo hoOfs locals.ho).2.dongDatas ≠ [] from not_not.mpr fresh),
    looked, kept.data] at answered
  cases answered
  rfl

/-- The position of a POI at the ho record, as far as the field for `x` holds it. -/
theorem placePoi_eq (record : HoRecord data posExtOfs dongOfs hoOfs)
    (reads : Reads helper data posExtOfs table) {code : Nat}
    (found : findDongEntry fuel table hoOfs = some (dongOfs, code)) (locals : PositionLocals)
    (info : PoiBodyF) :
    ∃ placed next, helper.placePoi locals fuel hoOfs info = some (placed, next) ∧
      placed.x = (newHoPosAt data posExtOfs dongOfs hoOfs).x % 2 ^ 28 ∧
      placed.y = (newHoPosAt data posExtOfs dongOfs hoOfs).y := by
  -- The ho and its dong are read, and the position of one is added to that of the other.
  have first := readHo_keeps helper hoOfs locals.ho
  have once := reads.after first.toSameFile
  obtain ⟨dong, next, looked, own, kept⟩ := record.dong once found locals.dongF
  have pos := record.pos (once.after kept.toSameFile) (locals.pos.1, info.y)
  unfold SearchHelper.placePoi
  dsimp only
  rw [looked, record.read reads]
  refine ⟨_, _, rfl, ?_, ?_⟩
  · simp only [pos]
    rw [newHoPosAt, ← own]
  · simp only [pos]
    rw [newHoPosAt, ← own]

/-- `GetSearchPoiResult` places a POI at the ho record its body refers to. -/
theorem getSearchPoiResult_eq {state : HelperState}
    (record : HoRecord data posExtOfs dongOfs hoOfs)
    (reads : Reads state.helper data posExtOfs table) {code : Nat}
    (found : findDongEntry fuel table hoOfs = some (dongOfs, code)) (locals : PositionLocals)
    {poiHeader : PoiHeaderF} (atHo : poiHeader.useHoOfs ≠ 0)
    (room : poiHeader.bodyOfs + 6 ≤ data.length)
    (refers : (PoiBodyUseHoF.decode (bytesAt data poiHeader.bodyOfs 6)).hoOfs = hoOfs) :
    ∃ body after, state.getSearchPoiResult locals fuel poiHeader = some (body, after) ∧
      body.info.x = (newHoPosAt data posExtOfs dongOfs hoOfs).x % 2 ^ 28 ∧
      body.info.y = (newHoPosAt data posExtOfs dongOfs hoOfs).y := by
  -- The body names the ho record, and its dong is looked up a first time for the code.
  obtain ⟨info, helper, read⟩ : ∃ info helper,
      state.helper.readPoiInfo locals fuel poiHeader = some (info, hoOfs, helper) := by
    unfold SearchHelper.readPoiInfo
    dsimp only
    rw [if_pos atHo, File.fread_fseek (by rw [reads.data]; exact room)]
    simp only [reads.data, reads.table, refers, found, Option.map_some]
    exact ⟨_, _, rfl⟩
  have first := reads.after (readPoiInfo_keeps read).toSameFile
  have second := first.after
    (readBranchName_keeps locals ⟨helper, state.textMng⟩ info.branch).toSameFile
  unfold HelperState.getSearchPoiResult
  rw [read]
  dsimp only
  rw [if_pos atHo]
  generalize HelperState.readBranchName locals ⟨helper, state.textMng⟩ info.branch = branch
    at second ⊢
  -- The phone numbers and the second position are read from the same file.
  have third : Reads { branch.2.2.helper with
      fp := (readPosEx poiHeader.posCnt (readTels info.telCnt (locals.nu8 % 2 ^ 8) branch.2.1
        branch.2.2.helper.fp).2).2 } data posExtOfs table :=
    second.after (Keeps.moved (by rw [readPosEx_data, readTels_data])).toSameFile
  obtain ⟨placed, next, place, x, y⟩ := placePoi_eq record third found locals info
  rw [place]
  exact ⟨_, _, rfl, x, y⟩

end Answers

section Browsing

variable {data : List UInt8} {dongOfs : Nat}

/-- Whether the bunji at an offset is one of the mountain. -/
def sanAt (data : List UInt8) (bunjiOfs : Nat) : Bool :=
  bitField (wordAt data bunjiOfs 2) 15 1 != 0

/-- What is listed for the bunji at an offset, whose number is without the bit for the mountain. -/
def bunjiEntry (data : List UInt8) (pDong : Slot) (offset : Nat) : BunjiData :=
  ⟨pDong, bitField (wordAt data offset 2) 0 15, hoCntAt data offset, offset⟩

/-- The offsets of consecutive bunjis of a law dong that have this flag, in the file's order. -/
def flaggedBunjis (data : List UInt8) (dongOfs : Nat) (bSan : Bool) (start count : Nat) :
    List Nat :=
  ((List.range' start count).map (bunjiOfs data dongOfs)).filter fun offset =>
    sanAt data offset == bSan

/-- Without the bit for the mountain, removing this bit changes nothing. -/
theorem bunji_number {data : List UInt8} {offset : Nat} {bSan : Bool}
    (flag : sanAt data offset = bSan) :
    (if bSan then bitField (wordAt data offset 2) 0 15 else wordAt data offset 2) =
      bitField (wordAt data offset 2) 0 15 := by
  -- The bit for the mountain is the highest one of the word.
  cases bSan with
  | true => exact if_pos rfl
  | false =>
    have small := wordAt_lt data offset 2
    have high : bitField (wordAt data offset 2) 15 1 = 0 := by simpa [sanAt] using flag
    unfold bitField at high ⊢
    rw [if_neg Bool.false_ne_true]
    omega

/-- The two words that begin the record of a bunji are read one after the other. -/
theorem readBunjiHead_inside {fp : File} {offset : Nat} (placed : fp.pos = offset)
    (inside : offset + 4 ≤ fp.data.length) (bunji hoCnt : Nat) :
    fp.freadWord 2 bunji = (wordAt fp.data offset 2, fp.moveTo (offset + 2)) ∧
      (fp.moveTo (offset + 2)).freadWord 2 hoCnt =
        (hoCntAt fp.data offset, fp.moveTo (offset + 4)) := by
  subst placed
  exact ⟨File.freadWord_inside (by omega), File.freadWord_moveTo (by omega)⟩

/-- The walk over the bunjis of a law dong lists those with its flag, in the order of the file. -/
theorem lawDongBunjis_inside (pDong : Slot) (bSan : Bool) (count : Nat) :
    ∀ (start bunji hoCnt : Nat) (fp : File), fp.data = data →
      fp.pos = bunjiOfs data dongOfs start → bunjiOfs data dongOfs (start + count) ≤ data.length →
      (lawDongBunjis pDong bSan count fp (bunjiOfs data dongOfs start) bunji hoCnt).1 =
        (flaggedBunjis data dongOfs bSan start count).map (bunjiEntry data pDong) := by
  -- The induction is on the bunjis to come. The offset of each is added up from those before.
  induction count with
  | zero =>
    intro start bunji hoCnt fp _ _ _
    rfl
  | succ count ih =>
    intro start bunji hoCnt fp opened placed inside
    subst opened
    have next : bunjiOfs fp.data dongOfs (start + 1) =
        bunjiOfs fp.data dongOfs start +
          (7 * hoCntAt fp.data (bunjiOfs fp.data dongOfs start) + 4) := rfl
    have bound : bunjiOfs fp.data dongOfs (start + 1) ≤ fp.data.length :=
      Nat.le_trans (bunjiOfs_mono (by omega)) inside
    have addressable := fp.addressable
    -- Both words of the record are read, and the position moves to the next record.
    obtain ⟨readBunji, readCnt⟩ := readBunjiHead_inside placed (by omega) bunji hoCnt
    have rest := ih (start + 1) (wordAt fp.data (bunjiOfs fp.data dongOfs start) 2)
      (hoCntAt fp.data (bunjiOfs fp.data dongOfs start))
      (fp.moveTo (bunjiOfs fp.data dongOfs (start + 1))) rfl rfl
      (by rw [show start + 1 + count = start + (count + 1) by omega]; exact inside)
    rw [lawDongBunjis, readBunji]
    dsimp only
    rw [readCnt]
    dsimp only
    rw [← next, u32_of_lt (by omega), File.fseek_of_lt (by omega), File.moveTo_moveTo, rest]
    unfold flaggedBunjis
    rw [List.range'_succ, List.map_cons]
    by_cases flag : sanAt fp.data (bunjiOfs fp.data dongOfs start) = bSan
    · -- A bunji with the flag is listed in front of the others.
      rw [List.filter_cons_of_pos (by simpa using flag), List.map_cons, bunji_number flag]
      exact if_pos flag.symm
    · rw [List.filter_cons_of_neg (by simpa using flag)]
      exact if_neg (Ne.symm flag)

/-- A bunji of the law dong is among those with its flag. -/
theorem mem_flaggedBunjis {start count i : Nat} (low : start ≤ i) (high : i < start + count) :
    bunjiOfs data dongOfs i ∈
      flaggedBunjis data dongOfs (sanAt data (bunjiOfs data dongOfs i)) start count :=
  List.mem_filter.mpr
    ⟨List.mem_map_of_mem (List.mem_range'_1.mpr ⟨low, high⟩), beq_iff_eq.mpr rfl⟩

/-- `GetBunjiData` lists every bunji of a law dong under its flag. -/
theorem getBunjiData_lists {state : HelperState} (opened : state.helper.fp.data = data)
    {dong : DongData} (own : dong.info = dongAt data dongOfs)
    (law : (dongAt data dongOfs).ldongFlag = 1) (inside : dongEnd data dongOfs ≤ data.length)
    {bunji : Nat} (listed : bunji < (dongAt data dongOfs).bunjiCnt) (locals : AddressLocals)
    (fuel : Nat) (pDong : Slot) :
    ∃ after, state.getBunjiData locals fuel pDong dong
        (sanAt data (bunjiOfs data dongOfs bunji)) = some after ∧
      ∃ entry ∈ after.helper.bunjiDatas,
        entry.pDong = pDong ∧ entry.offset = bunjiOfs data dongOfs bunji := by
  -- A law dong has its bunjis behind its own record, and the flag of each is in its number.
  have offset : dong.info.offset = dongOfs := by
    rw [own]
    rfl
  have start : dongOfs + 18 ≤ dongEnd data dongOfs := bunjiOfs_mono (Nat.zero_le _)
  have addressable := state.helper.fp.addressable
  rw [opened] at addressable
  refine ⟨_, if_pos (by rw [own]; exact law), ?_⟩
  have walked := lawDongBunjis_inside pDong (sanAt data (bunjiOfs data dongOfs bunji))
    (dongAt data dongOfs).bunjiCnt 0 (locals.bunji % 2 ^ 16) (locals.hoCnt % 2 ^ 16)
    (state.helper.fp.moveTo (dongOfs + 18)) opened rfl (by rw [Nat.zero_add]; exact inside)
  refine ⟨bunjiEntry data pDong (bunjiOfs data dongOfs bunji), ?_, rfl, rfl⟩
  simp only [SearchHelper.addLawDongBunjis, offset, List.nil_append]
  rw [u32_of_lt (by omega), File.fseek_of_lt (by omega), own]
  simp only [File.moveTo_pos]
  rw [show dongOfs + 18 = bunjiOfs data dongOfs 0 from rfl] at walked ⊢
  rw [walked]
  exact List.mem_map_of_mem (mem_flaggedBunjis (Nat.zero_le _) (by omega))

/-- The number of hos is the second word of the bunji. -/
theorem readHoCnt_inside {fp : File} {offset : Nat} (inside : offset + 4 ≤ fp.data.length)
    (locals : AddressLocals) :
    readHoCnt locals fp offset = (hoCntAt fp.data offset, fp.moveTo (offset + 4)) := by
  simp only [readHoCnt]
  rw [File.freadWord_fseek (by omega)]
  dsimp only
  rw [File.freadWord_inside (by rw [File.moveTo_pos, File.moveTo_data]; omega)]
  rfl

/-- `GetHoData` lists the ho records that stand behind the two words of a bunji. -/
theorem getHoData_inside {helper : SearchHelper} {offset : Nat}
    (inside : offset + 4 + 7 * hoCntAt helper.fp.data offset ≤ helper.fp.data.length)
    (locals : AddressLocals) :
    (helper.getHoData locals offset).hoDatas =
      File.elementsAt HoData.decode 7 helper.fp.data (offset + 4)
        (hoCntAt helper.fp.data offset) := by
  simp only [SearchHelper.getHoData]
  rw [readHoCnt_inside (by omega)]
  dsimp only
  rw [File.freadList_inside (by rw [File.moveTo_pos, File.moveTo_data]; omega)]
  rfl

/-- `GetNewHoData` lists the ho records behind the two words of a bunji of a road. -/
theorem getNewHoData_inside {helper : SearchHelper} {offset : Nat}
    (inside : offset + 4 + 8 * hoCntAt helper.fp.data offset ≤ helper.fp.data.length)
    (locals : AddressLocals) :
    (helper.getNewHoData locals offset).newHoDatas =
      File.elementsAt NewHoData.decode 8 helper.fp.data (offset + 4)
        (hoCntAt helper.fp.data offset) := by
  simp only [SearchHelper.getNewHoData]
  rw [readHoCnt_inside (by omega)]
  dsimp only
  rw [File.freadList_inside (by rw [File.moveTo_pos, File.moveTo_data]; omega)]
  rfl

/-- Each of these ho records stands as far behind the first as there are hos before it. -/
theorem getHoData_hos {helper : SearchHelper} {offset ho : Nat}
    (inside : offset + 4 + 7 * hoCntAt helper.fp.data offset ≤ helper.fp.data.length)
    (listed : ho < hoCntAt helper.fp.data offset) (locals : AddressLocals) :
    (helper.getHoData locals offset).hoDatas[ho]? =
      some (hoAt helper.fp.data (offset + 4 + 7 * ho)) := by
  rw [getHoData_inside inside, File.elementsAt, List.getElem?_map, List.getElem?_range listed,
    Option.map_some, Nat.mul_comm ho 7]
  rfl

/-- `GetHoData` lists the ho records of a bunji of a dong. -/
theorem getHoData_lists {helper : SearchHelper} (opened : helper.fp.data = data)
    {bunji ho hoOfs : Nat} (place : HoPlace data dongOfs bunji ho hoOfs)
    (inside : dongEnd data dongOfs ≤ data.length) (locals : AddressLocals) :
    (helper.getHoData locals (bunjiOfs data dongOfs bunji)).hoDatas[ho]? =
      some (hoAt data hoOfs) := by
  -- The hos of a bunji end before the next bunji begins.
  subst opened
  obtain ⟨bunjiListed, hoListed, rfl⟩ := place
  have next : bunjiOfs helper.fp.data dongOfs (bunji + 1) ≤ dongEnd helper.fp.data dongOfs :=
    bunjiOfs_mono bunjiListed
  rw [bunjiOfs] at next
  exact getHoData_hos (by omega) hoListed locals

end Browsing

section Runs

/--
One ho record, one position.

`GetNewHoPos` gives it in the state reached and on a fresh helper.
Browsing the bunjis of the dong gives it, and so does every POI that refers to the record.
-/
structure OnePosition (fuel : Nat) (fresh : SearchHelper) (now : HelperState)
    (dongOfs bunji ho hoOfs : Nat) (expected : NewHoPos) : Prop where
  reached : ∀ locals, ∃ next, now.helper.getNewHoPos locals fuel hoOfs = some (expected, next)
  onFresh : ∀ locals, ∃ next, fresh.getNewHoPos locals fuel hoOfs = some (expected, next)
  browsed : ∀ locals pDong dong, dong.info = dongAt fresh.fp.data dongOfs →
    ∃ after, now.getBunjiData locals fuel pDong dong
        (sanAt fresh.fp.data (bunjiOfs fresh.fp.data dongOfs bunji)) = some after ∧
      ∃ entry ∈ after.helper.bunjiDatas,
        entry.pDong = pDong ∧ entry.offset = bunjiOfs fresh.fp.data dongOfs bunji ∧
        (after.helper.getHoData locals entry.offset).hoDatas[ho]? = some expected.ho ∧
        ∀ old,
        ((after.helper.getHoData locals entry.offset).hoDataOf dong.info expected.ho old).1.2 =
          (expected.x, expected.y)
  poi : ∀ locals poiHeader, poiHeader.useHoOfs ≠ 0 →
    poiHeader.bodyOfs + 6 ≤ fresh.fp.data.length →
    (PoiBodyUseHoF.decode (bytesAt fresh.fp.data poiHeader.bodyOfs 6)).hoOfs = hoOfs →
    ∃ body after, now.getSearchPoiResult locals fuel poiHeader = some (body, after) ∧
      (body.info.x, body.info.y) = (expected.x, expected.y)

/-- The sigungu whose dongs a call lists, or those listed before it. -/
def listedBy (last : Option Nat) (input : HelperInput) : Option Nat :=
  match input.request with
  | .getDongData _ sigunguOfs => some sigunguOfs
  | _ => last

/-- The sigungu whose dongs were listed last in a run, if any were. -/
def lastListed (inputs : List HelperInput) : Option Nat := inputs.foldl listedBy none

/-- The state of a helper after its last listing of dongs. -/
structure Browsed (fresh : SearchHelper) (sigunguOfs : Nat) (dongs : List DongDataF)
    (last : Option Nat) (state : HelperState) : Prop where
  same : SameFile fresh state.helper
  unlisted : last = none → state.helper.dongDatas = []
  listed : last = some sigunguOfs → state.helper.dongDatas.map DongData.info = dongs

/-- One call lists the dongs of a sigungu, or leaves those listed before. -/
theorem Browsed.call {fuel sigunguOfs : Nat} {fresh : SearchHelper} {dongs : List DongDataF}
    (chain : DongChain fresh.fp.data (sigunguOfs + 10) dongs) {last : Option Nat}
    {state next : HelperState} {input : HelperInput} {answer : Unit}
    (browsed : Browsed fresh sigunguOfs dongs last state)
    (called : state.call fuel input = some (answer, next)) :
    Browsed fresh sigunguOfs dongs (listedBy last input) next := by
  obtain ⟨after, returned, outcome⟩ := Option.map_eq_some_iff.mp called
  cases outcome
  have same := browsed.same
  by_cases lists : ∃ nSidoIdx ofs, input.request = .getDongData nSidoIdx ofs
  · obtain ⟨nSidoIdx, ofs, asked⟩ := lists
    have now : listedBy last input = some ofs := by simp [listedBy, asked]
    unfold HelperState.after at returned
    rw [asked] at returned
    have kept := getDongData_sameFile returned
    rw [now]
    refine ⟨⟨kept.data.trans same.data, kept.addrHeader.trans same.addrHeader,
      kept.ldCodeOffset.trans same.ldCodeOffset⟩, nofun, ?_⟩
    intro own
    cases own
    exact getDongData_infos (by rw [same.data]; exact chain) returned
  · -- No other call touches the list of dongs.
    have other : ∀ nSidoIdx ofs, input.request ≠ .getDongData nSidoIdx ofs :=
      fun nSidoIdx ofs asked => lists ⟨nSidoIdx, ofs, asked⟩
    have before : listedBy last input = last := by
      unfold listedBy
      split
      · rename_i asked
        exact absurd asked (other _ _)
      · rfl
    have kept := after_keeps returned other
    rw [before]
    refine ⟨⟨kept.data.trans same.data, kept.addrHeader.trans same.addrHeader,
      kept.ldCodeOffset.trans same.ldCodeOffset⟩, ?_, ?_⟩
    · rw [kept.dongDatas]
      exact browsed.unlisted
    · rw [kept.dongDatas]
      exact browsed.listed

/-- The state at the end of a run depends on its last listing of dongs. -/
theorem Browsed.run {fuel sigunguOfs : Nat} {fresh : SearchHelper} {dongs : List DongDataF}
    (chain : DongChain fresh.fp.data (sigunguOfs + 10) dongs) {inputs : List HelperInput} :
    ∀ {last : Option Nat} {state final : HelperState} {answers : List Unit},
      Browsed fresh sigunguOfs dongs last state →
      Machine.run (HelperState.call fuel) state inputs = some (answers, final) →
      Browsed fresh sigunguOfs dongs (inputs.foldl listedBy last) final := by
  -- One call at a time; only a listing of dongs changes what was listed last.
  induction inputs with
  | nil =>
    intro last state final answers browsed ran
    cases ran
    exact browsed
  | cons input rest ih =>
    intro last state final answers browsed ran
    obtain ⟨answer, next, others, called, later, _⟩ := run_cons_some ran
    exact ih (browsed.call chain called) later

/-- A helper that was just constructed has listed nothing. -/
theorem create_dongDatas {locals : AddressLocals} {fuel : Nat} {fp : File} {fresh : SearchHelper}
    (created : SearchHelper.create locals fuel fp = some fresh) : fresh.dongDatas = [] := by
  obtain ⟨_, _, _, _, _, headers⟩ := SearchHelper.readHeaders_lists locals fp
  rw [SearchHelper.create, headers] at created
  obtain ⟨helper, loaded, rfl⟩ := Option.map_eq_some_iff.mp created
  simp only [SearchHelper.loadLDongOffset]
  exact (loadSigunguFDatas_keeps loaded).dongDatas

/--
A ho record has one position in every state a run reaches, provided that the halved steps of the
table search reach its dong, that the dongs listed last are those of its own sigungu, and that its
position fits the field of a POI.
-/
theorem hoRecord_onePosition {locals : AddressLocals} {passes : Nat} {fp : File}
    {fresh : SearchHelper} (created : SearchHelper.create locals passes fp = some fresh)
    (lawDongs : LawDongTable fresh.fp.data fresh.ldCodeOffset) {target : Nat} {entry : Nat × Nat}
    (listed : fresh.ldCodeOffset[target]? = some entry) {bunji ho hoOfs : Nat}
    (place : HoPlace fresh.fp.data entry.1 bunji ho hoOfs)
    (position : PosInside fresh.fp.data fresh.addrHeader.addrPosExtOfs (hoAt fresh.fp.data hoOfs))
    {sigunguOfs : Nat} {dongs : List DongDataF}
    (sigungu : SigunguDongs fresh.fp.data sigunguOfs dongs)
    (member : dongAt fresh.fp.data entry.1 ∈ dongs) {textMng : TextMng}
    {inputs : List HelperInput} {answers : List Unit} {now : HelperState}
    (ran : run (HelperState.call passes) ⟨fresh, textMng⟩ inputs = some (answers, now))
    (ownSigungu : lastListed inputs = none ∨ lastListed inputs = some sigunguOfs)
    (reached : descend (fresh.ldCodeOffset.length / 2) target = target)
    (narrow : (newHoPosAt fresh.fp.data fresh.addrHeader.addrPosExtOfs entry.1 hoOfs).x < 2 ^ 28) :
    ∃ enough, ∀ fuel, enough ≤ fuel →
      OnePosition fuel fresh now entry.1 bunji ho hoOfs
        (newHoPosAt fresh.fp.data fresh.addrHeader.addrPosExtOfs entry.1 hoOfs) := by
  have empty := create_dongDatas created
  obtain ⟨above, below⟩ := place.between
  have inTable := List.mem_of_getElem? listed
  have inside := lawDongs.inside entry inTable
  have law := lawDongs.law entry inTable
  have record : HoRecord fresh.fp.data fresh.addrHeader.addrPosExtOfs entry.1 hoOfs :=
    ⟨law, above, below, inside, position⟩
  have reads : Reads fresh fresh.fp.data fresh.addrHeader.addrPosExtOfs fresh.ldCodeOffset :=
    ⟨rfl, rfl, rfl⟩
  have start : Browsed fresh sigunguOfs dongs none ⟨fresh, textMng⟩ :=
    ⟨⟨rfl, rfl, rfl⟩, fun _ => empty, nofun⟩
  have browsed : Browsed fresh sigunguOfs dongs (lastListed inputs) now :=
    start.run sigungu.chain ran
  have readsNow := reads.after browsed.same
  -- The table search settles on the entry of the dong once it has enough passes.
  obtain ⟨enough, settles⟩ := findDongEntry_eq (lawDongs.belowUpTo listed place)
    (List.getElem?_eq_some_iff.mp listed).1
  refine ⟨enough, ?_⟩
  intro fuel longer
  have found : findDongEntry fuel fresh.ldCodeOffset hoOfs = some (entry.1, entry.2) := by
    rw [settles fuel longer, reached, listed]
  refine ⟨?_, ?_, ?_, ?_⟩
  · intro locals
    rcases ownSigungu with none | own
    · exact getNewHoPos_fresh record readsNow (browsed.unlisted none) found locals
    · have dongsListed := browsed.listed own
      exact getNewHoPos_listed record readsNow (by rw [dongsListed]; exact sigungu.ordered)
        (by rw [dongsListed]; exact member) locals
  · intro locals
    exact getNewHoPos_fresh record reads empty found locals
  · intro locals pDong dong own
    obtain ⟨after, called, bunjiEntry, held, slot, offset⟩ :=
      getBunjiData_lists readsNow.data own law inside place.bunjiListed locals fuel pDong
    have kept := getBunjiData_keeps called
    have readsAfter := readsNow.after kept.toSameFile
    refine ⟨after, called, bunjiEntry, held, slot, offset, ?_, ?_⟩
    · rw [offset]
      exact getHoData_lists readsAfter.data place inside locals
    · intro old
      have pos := record.pos
        (readsAfter.after (getHoData_keeps locals after.helper bunjiEntry.offset).toSameFile) old
      rw [own]
      simp only [SearchHelper.hoDataOf]
      rw [show (newHoPosAt fresh.fp.data fresh.addrHeader.addrPosExtOfs entry.1 hoOfs).ho =
        hoAt fresh.fp.data hoOfs from rfl, pos]
      rfl
  · intro locals poiHeader atHo room refers
    obtain ⟨body, after, called, x, y⟩ :=
      getSearchPoiResult_eq record readsNow found locals atHo room refers
    refine ⟨body, after, called, ?_⟩
    rw [x, y, Nat.mod_eq_of_lt narrow]

end Runs

section ThreeDongs

/-- The bytes of a dong record. -/
def dongBytes (code minX minY flags offset : Nat) : List UInt8 :=
  leBytes 4 code ++ leBytes 4 minX ++ leBytes 4 minY ++ leBytes 2 flags ++ leBytes 4 offset

/-- The bytes of a bunji with one ho. -/
def bunjiBytes (bunji ho x y : Nat) : List UInt8 :=
  leBytes 2 bunji ++ leBytes 2 1 ++ leBytes 1 ho ++ leBytes 2 0 ++ leBytes 2 x ++ leBytes 2 y

/--
A sido file with one sigungu of three law dongs.

The second and the third have one bunji with one ho each.
-/
def threeDongs : List UInt8 :=
  -- The sido, and its sigungu at 10.
  leBytes 10 0 ++ leBytes 2 1 ++ leBytes 8 0 ++
  -- The dongs at 20, 38 and 67.
  dongBytes 1 0 0 1 38 ++
  dongBytes 2 100 200 5 67 ++ bunjiBytes 1 5 7 9 ++
  dongBytes 3 300 400 5 0 ++ bunjiBytes 2 6 8 10 ++
  -- The table of law dongs at 96, and the three headers.
  [20, 1, 38, 2, 67, 3].flatMap (leBytes 4) ++
  [0, 0, 0, 0, 0, 0, 0, 96, 3].flatMap (leBytes 4) ++
  leBytes 48 0 ++
  [0, 156, 156, 204].flatMap (leBytes 4)

/-- The file of three law dongs, just opened. -/
def threeDongsFile : File := ⟨threeDongs, 0, by decide +kernel⟩

/-- The helper constructed for the file of three law dongs. -/
def threeDongsHelper : SearchHelper where
  fp := threeDongsFile.moveTo 120
  fileHeader := ⟨0, 156, 156, 204⟩
  addrHeader := ⟨0, 0, 0, 0, 0, 0, 0, 96, 3⟩
  poiHeader := ⟨0, 0, 0, 0, 0, 0, 0, 0, 0, 0, 0, 0⟩
  sidoData := ⟨0, 0, 0, 0, 0, 0⟩
  sigunguDatas := []
  sigunguDataFs := [⟨1, 0, 10⟩]
  dongDatas := []
  dongExDatas := []
  roadDatas := []
  bunjiDatas := []
  hoDatas := []
  newHoDatas := []
  ldCodeOffset := [(20, 1), (38, 2), (67, 3)]

theorem threeDongs_created :
    SearchHelper.create zeroAddressLocals 10 threeDongsFile = some threeDongsHelper := by
  decide +kernel

theorem threeDongs_table : LawDongTable threeDongs [(20, 1), (38, 2), (67, 3)] :=
  ⟨by decide +kernel, by decide +kernel, by decide +kernel⟩

theorem threeDongs_sigungu :
    SigunguDongs threeDongs 10
      [dongAt threeDongs 20, dongAt threeDongs 38, dongAt threeDongs 67] := by
  -- The links lead from 20 to 38 and from there to 67, which is the last one.
  have second : (DongDataF.decode (bytesAt threeDongs 20 18)).offset = 38 := by decide +kernel
  have third : (DongDataF.decode (bytesAt threeDongs 38 18)).offset = 67 := by decide +kernel
  refine ⟨.link (by decide +kernel) (by rw [second]; decide) ?_, by decide +kernel⟩
  rw [second]
  refine .link (by decide +kernel) (by rw [third]; decide) ?_
  rw [third]
  exact .last (by decide +kernel) (by decide +kernel)

/-- The names of the three dongs, one syllable each. -/
def threeNames : TextMng where
  textFp := ⟨[0x00, 0xAC, 0x01, 0xAC, 0x02, 0xAC], 0, by decide⟩
  nameFp := ⟨[3, 100001, 1, 100002, 65, 100003, 129].flatMap (leBytes 4), 0, by decide +kernel⟩
  sidoOfs := 0
  sigunguOfs := 0
  dongOfs := 0
  roadOfs := 0
  textBuff := fun _ => List.replicate 32 0
  sized := zeros_sized

/-- Uninitialised variables that happen to be zero, for whichever call. -/
def zeroCallLocals : CallLocals where
  address := zeroAddressLocals
  position := ⟨(0, 0), ⟨0, 0, 0, 0, 0, 0⟩, ⟨0, 0, 0, 0, 0, 0, 0⟩, ⟨0, 0, 0, 0, 0, 0⟩, 0, 0⟩
  region := ⟨0, 0, 0, fun _ => 0, fun _ => 0, ⟨0, 0, 0, 0, 0, 0, 0⟩, ⟨0, 0, 0⟩⟩
  poi := ⟨0, 0, 0, 0, 0, fun _ => 0, fun _ => 0, fun _ => 0, fun _ => 0, ⟨0, 0, 0, 0, 0⟩⟩
  poiName := ⟨0, 0, 0, fun _ => 0, ⟨0, 0, 0, 0, 0⟩⟩

/-- The ho of the second dong, after the dongs of its sigungu were listed and a ho was read. -/
theorem hoRecord_onePosition_second :
    ∃ answers now, run (HelperState.call 10) ⟨threeDongsHelper, threeNames⟩
        [⟨zeroCallLocals, .getDongData 0 10⟩, ⟨zeroCallLocals, .getHoData 56⟩] =
          some (answers, now) ∧
      ∃ enough, ∀ fuel, enough ≤ fuel →
        OnePosition fuel threeDongsHelper now 38 0 0 60 ⟨2, 107, 209, ⟨5, 0, 0, 0, 7, 9⟩⟩ := by
  -- The calls before come back, and the position is the one that the file has.
  obtain ⟨⟨answers, now⟩, ran⟩ := Option.isSome_iff_exists.mp
    (show (run (HelperState.call 10) ⟨threeDongsHelper, threeNames⟩
      [⟨zeroCallLocals, .getDongData 0 10⟩, ⟨zeroCallLocals, .getHoData 56⟩]).isSome = true by
      decide +kernel)
  have expected : newHoPosAt threeDongs 0 38 60 = ⟨2, 107, 209, ⟨5, 0, 0, 0, 7, 9⟩⟩ := by
    decide +kernel
  refine ⟨answers, now, ran, ?_⟩
  rw [← expected]
  exact hoRecord_onePosition threeDongs_created threeDongs_table
    (show threeDongsHelper.ldCodeOffset[1]? = some (38, 2) from rfl)
    (show HoPlace threeDongs 38 0 0 60 from
      ⟨by decide +kernel, by decide +kernel, by decide +kernel⟩)
    (by decide +kernel) threeDongs_sigungu (.tail _ (.head _)) ran (.inr (by decide))
    (by simp [threeDongsHelper, descend]) (by decide +kernel)

/--
The ho of the third dong is taken for one of the second on a fresh helper.

With three entries the halved steps get no further than to the second.
-/
theorem thirdDong_missed :
    SearchHelper.create zeroAddressLocals 10 threeDongsFile = some threeDongsHelper ∧
    LawDongTable threeDongsHelper.fp.data threeDongsHelper.ldCodeOffset ∧
    threeDongsHelper.ldCodeOffset[2]? = some (67, 3) ∧
    HoPlace threeDongsHelper.fp.data 67 0 0 89 ∧
    PosInside threeDongsHelper.fp.data threeDongsHelper.addrHeader.addrPosExtOfs
      (hoAt threeDongsHelper.fp.data 89) ∧
    SigunguDongs threeDongsHelper.fp.data 10
      [dongAt threeDongs 20, dongAt threeDongs 38, dongAt threeDongs 67] ∧
    ¬ ∃ enough, ∀ fuel, enough ≤ fuel →
      OnePosition fuel threeDongsHelper ⟨threeDongsHelper, threeNames⟩ 67 0 0 89
        (newHoPosAt threeDongsHelper.fp.data threeDongsHelper.addrHeader.addrPosExtOfs 67 89) := by
  have place : HoPlace threeDongsHelper.fp.data 67 0 0 89 :=
    ⟨by decide +kernel, by decide +kernel, by decide +kernel⟩
  have listed : threeDongsHelper.ldCodeOffset[2]? = some (67, 3) := rfl
  refine ⟨threeDongs_created, threeDongs_table, listed, place, by decide +kernel,
    threeDongs_sigungu, ?_⟩
  rintro ⟨enough, positions⟩
  -- With enough passes the search settles on the second entry.
  obtain ⟨more, settles⟩ := findDongEntry_eq
    (LawDongTable.belowUpTo threeDongs_table listed place) (by decide)
  have settled : findDongEntry (max enough more) threeDongsHelper.ldCodeOffset 89 =
    some (38, 2) := by
    have short : descend 1 2 = 1 := by simp [descend]
    have reached := settles (max enough more) (Nat.le_max_right _ _)
    simp only [List.length_cons, List.length_nil] at reached
    rw [short] at reached
    exact reached
  obtain ⟨next, answered⟩ :=
    (positions (max enough more) (Nat.le_max_left _ _)).onFresh zeroCallLocals.position
  have code := getNewHoPos_code rfl settled (by decide +kernel) answered
  exact absurd code (by decide +kernel)

end ThreeDongs

end AndroidApps.Gildroia
