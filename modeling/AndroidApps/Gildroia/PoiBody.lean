import AndroidApps.Gildroia.DongOfOffset

/-! The bodies of POIs: two layouts with three optional parts, and what is read from each. -/

namespace AndroidApps.Gildroia

section Phones

/-- The text of a stored phone number. -/
def telText (nu8 nu32 : Nat) : List UInt8 :=
  [48] ++ telDigits nu8 true ++ [41, 32] ++ telDigits (nu32 / 2 ^ 16) true ++ [45] ++
    telDigits (nu32 % 2 ^ 16) false

/-- A packed number has four digits, fewer without its leading zeros. -/
theorem telDigits_length (nTelCode : Nat) (bLeftTrim : Bool) :
    (telDigits nTelCode bLeftTrim).length ≤ 4 := by
  unfold telDigits
  rw [List.length_map]
  cases bLeftTrim with
  | false => exact Nat.le_refl 4
  | true => exact (List.dropWhile_suffix _).length_le

/-- An area code of one byte has at most two digits. -/
theorem telDigits_byte {nu8 : Nat} (small : nu8 < 256) : (telDigits nu8 true).length ≤ 2 := by
  have high : bitField nu8 12 4 = 0 := by
    unfold bitField
    omega
  have low : bitField nu8 8 4 = 0 := by
    unfold bitField
    omega
  -- The first two digits are zeros, which are left out.
  unfold telDigits
  rw [List.length_map, high, low, if_pos rfl]
  rw [List.dropWhile_cons_of_pos (by simp), List.dropWhile_cons_of_pos (by simp)]
  exact (List.dropWhile_suffix _).length_le

/-- Every phone text fits its slot of 16 bytes, and its terminator with it. -/
theorem telText_fits {nu8 : Nat} (small : nu8 < 256) (nu32 : Nat) :
    (telText nu8 nu32).length + 1 ≤ 15 := by
  have area := telDigits_byte small
  have exchange := telDigits_length (nu32 / 2 ^ 16) true
  have number := telDigits_length (nu32 % 2 ^ 16) false
  simp only [telText, List.length_append, List.length_cons, List.length_nil]
  omega

/-- The phone texts of entries of five bytes. -/
def telsAt (data : List UInt8) (position count : Nat) : List (List UInt8) :=
  (List.range count).map fun i =>
    telText (wordAt data (position + i * 5) 1) (wordAt data (position + i * 5 + 1) 4)

/-- The entries inside the file are printed in their order. -/
theorem readTels_inside (count : Nat) : ∀ (nu8 nu32 : Nat) (fp : File),
    fp.pos + count * 5 ≤ fp.data.length →
    readTels count nu8 nu32 fp = (telsAt fp.data fp.pos count, fp.moveTo (fp.pos + count * 5)) := by
  -- The induction is on the entries. What an earlier one left in the variables is overwritten.
  induction count with
  | zero =>
    intro nu8 nu32 fp _
    simp [readTels, telsAt, File.moveTo]
  | succ count ih =>
    intro nu8 nu32 fp inside
    have shift : ∀ i, fp.pos + 1 + 4 + i * 5 = fp.pos + (i + 1) * 5 := by
      intro i
      omega
    rw [readTels, File.freadWord_inside (by omega)]
    dsimp only
    rw [File.freadWord_inside (by simp only [File.moveTo_pos, File.moveTo_data]; omega)]
    dsimp only
    rw [ih _ _ _ (by simp only [File.moveTo_pos, File.moveTo_data]; omega)]
    simp only [File.moveTo_pos, File.moveTo_data, File.moveTo_moveTo, telsAt, shift,
      List.range_succ_eq_map, List.map_cons, List.map_map, Function.comp_def, Nat.succ_eq_add_one,
      Nat.zero_mul, Nat.add_zero, telText]

end Phones

section Layout

/-- Where the phone numbers begin: behind the word for the branch name, if there is one. -/
def telOfs (partsOfs branch : Nat) : Nat := if branch = 0 then partsOfs else partsOfs + 4

/-- Where the second position begins: behind the phone numbers. -/
def posOfs (partsOfs branch telCnt : Nat) : Nat := telOfs partsOfs branch + telCnt * 5

/-- Where the parts of a body end. -/
def partsEnd (partsOfs branch telCnt posCnt : Nat) : Nat :=
  posOfs partsOfs branch telCnt + if posCnt = 0 then 0 else 8

/-- The branch name that a body has, or none. -/
def branchNameAt (data text : List UInt8) (partsOfs branch : Nat) : List UInt16 :=
  if branch = 0 then [] else cString (textAt text (wordAt data partsOfs 4))

/-- The second position that a body has, or zeros. -/
def posExAt (data : List UInt8) (offset posCnt : Nat) : Nat × Nat :=
  if posCnt = 0 then (0, 0) else (wordAt data offset 4, wordAt data (offset + 4) 4)

/-- The fixed part of a body that refers to a ho, whose dong has this entry in the table. -/
def hoInfoAt (data : List UInt8) (posExtOfs : Nat) (entry : Nat × Nat) (bodyOfs : Nat) : PoiBodyF :=
  let body := PoiBodyUseHoF.decode (bytesAt data bodyOfs 6)
  let place := newHoPosAt data posExtOfs entry.1 body.hoOfs
  { hDCode := entry.2, ho := getHoValue place.ho, bunji := body.bunji, san := body.san,
    parking := body.parking, x := place.x, telCnt := body.telCnt, branch := body.branch,
    y := place.y }

/-- The fixed part of a body, in the layout its header names. -/
def infoAt (data : List UInt8) (posExtOfs : Nat) (entry : Nat × Nat) (poiHeader : PoiHeaderF) :
    PoiBodyF :=
  if poiHeader.useHoOfs = 0 then PoiBodyF.decode (bytesAt data poiHeader.bodyOfs 16)
  else hoInfoAt data posExtOfs entry poiHeader.bodyOfs

/-- Where the fixed part ends. -/
def partsOfs (poiHeader : PoiHeaderF) : Nat :=
  poiHeader.bodyOfs + if poiHeader.useHoOfs = 0 then 16 else 6

/-- A body with this fixed part and the parts stored behind it. -/
def bodyWith (data text : List UInt8) (poiHeader : PoiHeaderF) (info : PoiBodyF) : PoiBody :=
  let offset := partsOfs poiHeader
  let posEx := posExAt data (posOfs offset info.branch info.telCnt) poiHeader.posCnt
  ⟨branchNameAt data text offset info.branch, telsAt data (telOfs offset info.branch) info.telCnt,
    posEx.1, posEx.2, info⟩

/-- A body with all its parts is inside the file, and its branch name inside the text file. -/
structure PartsInside (data text : List UInt8) (poiHeader : PoiHeaderF) (info : PoiBodyF) :
    Prop where
  room : partsEnd (partsOfs poiHeader) info.branch info.telCnt poiHeader.posCnt ≤ data.length
  named : info.branch ≠ 0 → TextInside text (wordAt data (partsOfs poiHeader) 4)

/-- The ho that a body refers to can be read, and so can the dong that is found for it. -/
structure HoInside (helper : SearchHelper) (entry : Nat × Nat) (hoOfs : Nat) : Prop where
  found : Loop.Yields (fun fuel => findDongEntry fuel helper.ldCodeOffset hoOfs) entry
  dong : entry.1 + 18 ≤ helper.fp.data.length
  ho : hoOfs + 7 ≤ helper.fp.data.length
  position : PosInside helper.fp.data helper.addrHeader.addrPosExtOfs (hoAt helper.fp.data hoOfs)

/-- The ho record a body refers to. -/
def hoOfsAt (data : List UInt8) (bodyOfs : Nat) : Nat :=
  (PoiBodyUseHoF.decode (bytesAt data bodyOfs 6)).hoOfs

/-- The fixed part of the body of a POI of this helper. -/
def SearchHelper.infoOf (helper : SearchHelper) (entry : Nat × Nat) (poiHeader : PoiHeaderF) :
    PoiBodyF :=
  infoAt helper.fp.data helper.addrHeader.addrPosExtOfs entry poiHeader

/-- The body of a POI can be read, whichever layout it has. -/
structure BodyInside (state : HelperState) (entry : Nat × Nat) (poiHeader : PoiHeaderF) : Prop where
  parts : PartsInside state.helper.fp.data state.textMng.textFp.data poiHeader
    (state.helper.infoOf entry poiHeader)
  atHo : poiHeader.useHoOfs ≠ 0 →
    HoInside state.helper entry (hoOfsAt state.helper.fp.data poiHeader.bodyOfs)

end Layout

section Parts

variable {state : HelperState} {poiHeader : PoiHeaderF}

/-- The parts of a body are as long as their counts say. -/
theorem partsOfs_le_partsEnd (offset branch telCnt posCnt : Nat) :
    offset ≤ telOfs offset branch ∧
      posOfs offset branch telCnt ≤ partsEnd offset branch telCnt posCnt := by
  unfold telOfs partsEnd
  constructor
  · split <;> omega
  · exact Nat.le_add_right _ _

/-- The branch name is read from the text file, and the file is left behind its word. -/
theorem readBranchName_inside (state : HelperState) (locals : PositionLocals) {branch offset : Nat}
    (placed : state.helper.fp.pos = offset)
    (room : telOfs offset branch ≤ state.helper.fp.data.length)
    (named : branch ≠ 0 →
      TextInside state.textMng.textFp.data (wordAt state.helper.fp.data offset 4)) :
    ∃ nu32 textMng, state.readBranchName locals branch =
      (branchNameAt state.helper.fp.data state.textMng.textFp.data offset branch, nu32,
        ⟨{ state.helper with fp := state.helper.fp.moveTo (telOfs offset branch) }, textMng⟩) := by
  subst placed
  unfold HelperState.readBranchName branchNameAt telOfs at *
  by_cases without : branch = 0
  · -- Nothing is read, so that the file stays where it is.
    rw [if_neg (not_not.mpr without), if_pos without, if_pos without]
    exact ⟨_, _, rfl⟩
  · rw [if_neg without] at room
    rw [if_pos without, if_neg without, if_neg without, File.freadWord_inside room]
    dsimp only
    rw [cString_getTextOfs 0 (named without)]
    exact ⟨_, _, rfl⟩

/-- The second position is read where the file stands. -/
theorem readPosEx_inside (posCnt : Nat) (fp : File)
    (room : fp.pos + (if posCnt = 0 then 0 else 8) ≤ fp.data.length) :
    (readPosEx posCnt fp).1 = posExAt fp.data fp.pos posCnt := by
  -- Without a second position no word is read, and the variables are set to zero.
  unfold readPosEx posExAt
  by_cases without : posCnt = 0
  · rw [if_neg (not_not.mpr without), if_pos without]
  · rw [if_neg without] at room
    rw [if_pos without, if_neg without, File.freadWord_inside (by omega)]
    dsimp only
    rw [File.freadWord_inside (by simp only [File.moveTo_pos, File.moveTo_data]; omega)]
    rfl

/-- Behind the fixed part, the other parts are read one after the other. -/
theorem getSearchPoiResult_parts {locals : PositionLocals} {fuel hoOfs : Nat} {info : PoiBodyF}
    (read : state.helper.readPoiInfo locals fuel poiHeader =
      some (info, hoOfs,
        { state.helper with fp := state.helper.fp.moveTo (partsOfs poiHeader) }))
    (parts : PartsInside state.helper.fp.data state.textMng.textFp.data poiHeader info) :
    ∃ next textMng, Keeps state.helper next ∧
      state.getSearchPoiResult locals fuel poiHeader =
        let body := bodyWith state.helper.fp.data state.textMng.textFp.data poiHeader info
        if poiHeader.useHoOfs ≠ 0 then
          (next.placePoi locals fuel hoOfs info).map fun (placed, helper) =>
            ({ body with info := placed }, ⟨helper, textMng⟩)
        else some (body, ⟨next, textMng⟩) := by
  obtain ⟨room, named⟩ := parts
  have fits := partsOfs_le_partsEnd (partsOfs poiHeader) info.branch info.telCnt poiHeader.posCnt
  have tels : posOfs (partsOfs poiHeader) info.branch info.telCnt =
    telOfs (partsOfs poiHeader) info.branch + info.telCnt * 5 := rfl
  obtain ⟨nu32, textMng, name⟩ := readBranchName_inside
    ⟨{ state.helper with fp := state.helper.fp.moveTo (partsOfs poiHeader) }, state.textMng⟩ locals
    (File.moveTo_pos _ _) (by rw [File.moveTo_data]; omega) named
  unfold HelperState.getSearchPoiResult
  rw [read]
  dsimp only
  rw [name]
  dsimp only
  -- The phone numbers begin behind the word for the branch name.
  rw [readTels_inside _ _ _ _
    (by simp only [File.moveTo_pos, File.moveTo_moveTo, File.moveTo_data]; omega)]
  simp only [File.moveTo_pos, File.moveTo_moveTo, File.moveTo_data]
  rw [← tels]
  -- And the second position begins behind the phone numbers.
  have pos := readPosEx_inside poiHeader.posCnt
    (state.helper.fp.moveTo (posOfs (partsOfs poiHeader) info.branch info.telCnt)) room
  simp only [pos]
  refine ⟨_, textMng, .moved ?_, rfl⟩
  rw [readPosEx_data, File.moveTo_data]

end Parts

section Placing

variable {helper : SearchHelper} {entry : Nat × Nat} {fuel hoOfs : Nat}

/-- The number of a ho has 14 bits. -/
theorem getHoValue_lt (data : List UInt8) (offset : Nat) :
    getHoValue (hoAt data offset) < 2 ^ 14 := by
  -- Eight of the bits are a byte, the other six a field of the word behind it.
  have low := wordAt_lt (bytesAt data offset 7) 0 1
  have high : bitField (wordAt (bytesAt data offset 7) 1 2) 0 6 < 2 ^ 6 :=
    Nat.mod_lt _ (by decide)
  change bitField (wordAt (bytesAt data offset 7) 1 2) 0 6 * 256 +
    wordAt (bytesAt data offset 7) 0 1 < 2 ^ 14
  omega

/-- What keeps the file keeps the ho and its dong. -/
theorem HoInside.after (there : HoInside helper entry hoOfs) {next : SearchHelper}
    (kept : Keeps helper next) : HoInside next entry hoOfs where
  found := by rw [kept.ldCodeOffset]; exact there.found
  dong := by rw [kept.data]; exact there.dong
  ho := by rw [kept.data]; exact there.ho
  position := by rw [kept.data, kept.addrHeader]; exact there.position

/-- A POI at a ho gets the number and the position of this ho, with 28 bits for `x`. -/
theorem placePoi_inside (there : HoInside helper entry hoOfs)
    (found : findDongEntry fuel helper.ldCodeOffset hoOfs = some entry) (locals : PositionLocals)
    (info : PoiBodyF) :
    ∃ next, helper.placePoi locals fuel hoOfs info =
      some (
        let place := newHoPosAt helper.fp.data helper.addrHeader.addrPosExtOfs entry.1 hoOfs
        { info with ho := getHoValue place.ho, x := place.x % 2 ^ 28, y := place.y }, next) := by
  -- The dong and the ho are read from the file as they are stored.
  have first := readHo_keeps helper hoOfs locals.ho
  have settled : findDongEntry fuel (helper.readHo hoOfs locals.ho).2.ldCodeOffset hoOfs =
      some entry := by
    rw [first.ldCodeOffset]
    exact found
  obtain ⟨next, looked, kept⟩ := findDongOfOffset_eq settled (by rw [first.data]; exact there.dong)
    locals.dongF
  have whole := first.toKeeps.trans kept
  have inside :
      PosInside next.fp.data next.addrHeader.addrPosExtOfs (hoAt helper.fp.data hoOfs) := by
    rw [whole.data, whole.addrHeader]
    exact there.position
  have pos := getHoPos_eq inside (locals.pos.1, info.y)
  have number : getHoValue (hoAt helper.fp.data hoOfs) % 2 ^ 16 =
      getHoValue (hoAt helper.fp.data hoOfs) := by
    have := getHoValue_lt helper.fp.data hoOfs
    omega
  unfold SearchHelper.placePoi
  dsimp only
  rw [looked, readHo_eq there.ho, Option.map_some, number]
  simp only [pos, whole.data, whole.addrHeader, first.data]
  exact ⟨_, rfl⟩

end Placing

section Body

variable {state : HelperState} {poiHeader : PoiHeaderF} {entry : Nat × Nat}

/-- What comes back is the body as it is stored, with 28 bits for the `x` of a POI at a ho. -/
theorem getSearchPoiResult_yields (locals : PositionLocals)
    (inside : BodyInside state entry poiHeader) :
    Loop.Yields
      (fun fuel => (state.getSearchPoiResult locals fuel poiHeader).map Prod.fst)
      (bodyWith state.helper.fp.data state.textMng.textFp.data poiHeader
        (let info := state.helper.infoOf entry poiHeader
         if poiHeader.useHoOfs = 0 then info else { info with x := info.x % 2 ^ 28 })) := by
  obtain ⟨parts, atHo⟩ := inside
  have fits := partsOfs_le_partsEnd (partsOfs poiHeader)
    (state.helper.infoOf entry poiHeader).branch
    (state.helper.infoOf entry poiHeader).telCnt poiHeader.posCnt
  have fixed : partsOfs poiHeader ≤ state.helper.fp.data.length := by
    have := parts.room
    unfold posOfs at fits
    omega
  by_cases plain : poiHeader.useHoOfs = 0
  · -- The fixed part is read as a whole, and no ho is looked up.
    have info : state.helper.infoOf entry poiHeader =
        PoiBodyF.decode (bytesAt state.helper.fp.data poiHeader.bodyOfs 16) := if_pos plain
    have place : partsOfs poiHeader = poiHeader.bodyOfs + 16 := by rw [partsOfs, if_pos plain]
    refine Loop.yields_of_eq fun fuel => ?_
    have read : state.helper.readPoiInfo locals fuel poiHeader =
        some (state.helper.infoOf entry poiHeader, 0,
          { state.helper with fp := state.helper.fp.moveTo (partsOfs poiHeader) }) := by
      unfold SearchHelper.readPoiInfo
      dsimp only
      rw [if_neg (not_not.mpr plain), File.fread_fseek (by omega), info, place]
    obtain ⟨next, textMng, _, answered⟩ := getSearchPoiResult_parts read parts
    dsimp only at answered
    rw [answered, if_neg (not_not.mpr plain), if_pos plain]
    rfl
  · have there := atHo plain
    have place : partsOfs poiHeader = poiHeader.bodyOfs + 6 := by rw [partsOfs, if_neg plain]
    have info : state.helper.infoOf entry poiHeader = hoInfoAt state.helper.fp.data
        state.helper.addrHeader.addrPosExtOfs entry poiHeader.bodyOfs := if_neg plain
    obtain ⟨enough, found⟩ := there.found
    refine ⟨enough, fun fuel longer => ?_⟩
    have settled : findDongEntry fuel state.helper.ldCodeOffset
        (hoOfsAt state.helper.fp.data poiHeader.bodyOfs) = some entry := found fuel longer
    -- The number and the position are not known before the other parts are read.
    have read : state.helper.readPoiInfo locals fuel poiHeader =
        some ({ state.helper.infoOf entry poiHeader with ho := 0, x := 0, y := 0 },
          hoOfsAt state.helper.fp.data poiHeader.bodyOfs,
          { state.helper with fp := state.helper.fp.moveTo (partsOfs poiHeader) }) := by
      unfold SearchHelper.readPoiInfo
      dsimp only
      rw [if_pos plain, File.fread_fseek (by omega), info, place]
      dsimp only
      unfold hoOfsAt at settled
      rw [settled]
      rfl
    obtain ⟨next, textMng, kept, answered⟩ :=
      getSearchPoiResult_parts read ⟨parts.room, parts.named⟩
    obtain ⟨last, placed⟩ := placePoi_inside (there.after kept)
      (by rw [kept.ldCodeOffset]; exact settled) locals
      { state.helper.infoOf entry poiHeader with ho := 0, x := 0, y := 0 }
    dsimp only at answered placed ⊢
    rw [answered, if_pos plain, placed, if_neg plain, info, kept.data, kept.addrHeader]
    rfl

/-- A body comes back as it is stored, and its phone numbers fit their slots. -/
def Decodes (locals : PositionLocals) (state : HelperState) (entry : Nat × Nat)
    (poiHeader : PoiHeaderF) : Prop :=
  let body := bodyWith state.helper.fp.data state.textMng.textFp.data poiHeader
    (state.helper.infoOf entry poiHeader)
  Loop.Yields (fun fuel => (state.getSearchPoiResult locals fuel poiHeader).map Prod.fst) body ∧
    ∀ tel ∈ body.tel, tel.length + 1 ≤ 16

/-- A phone number that is stored fits its slot. -/
theorem telsAt_fit {data : List UInt8} {position count : Nat} :
    ∀ tel ∈ telsAt data position count, tel.length + 1 ≤ 16 := by
  intro tel listed
  obtain ⟨i, _, rfl⟩ := List.mem_map.mp listed
  have fits := telText_fits (wordAt_lt data (position + i * 5) 1)
    (wordAt data (position + i * 5 + 1) 4)
  exact Nat.le_succ_of_le fits

/--
A body comes back as it is stored unless it refers to a ho whose `x` needs more than 28 bits.

The position of a ho is that of its record, seen from the corner of the dong that is found for it.
-/
theorem getSearchPoiResult_iff (locals : PositionLocals)
    (inside : BodyInside state entry poiHeader) :
    Decodes locals state entry poiHeader ↔
      (poiHeader.useHoOfs ≠ 0 →
        (newHoPosAt state.helper.fp.data state.helper.addrHeader.addrPosExtOfs entry.1
          (hoOfsAt state.helper.fp.data poiHeader.bodyOfs)).x < 2 ^ 28) := by
  have yields := getSearchPoiResult_yields locals inside
  constructor
  · rintro ⟨decoded, _⟩ atHo
    -- There is one answer only, so its field holds the whole `x`.
    have same := congrArg (fun body => body.info.x) (decoded.unique yields)
    have info : state.helper.infoOf entry poiHeader = hoInfoAt state.helper.fp.data
        state.helper.addrHeader.addrPosExtOfs entry poiHeader.bodyOfs := if_neg atHo
    simp only [bodyWith, if_neg atHo, info] at same
    change (newHoPosAt _ _ _ (hoOfsAt _ _)).x = (newHoPosAt _ _ _ (hoOfsAt _ _)).x % 2 ^ 28 at same
    rw [same]
    exact Nat.mod_lt _ (by decide)
  · intro low
    refine ⟨?_, telsAt_fit⟩
    by_cases plain : poiHeader.useHoOfs = 0
    · simp only [if_pos plain] at yields
      exact yields
    · have info : state.helper.infoOf entry poiHeader = hoInfoAt state.helper.fp.data
          state.helper.addrHeader.addrPosExtOfs entry poiHeader.bodyOfs := if_neg plain
      have whole : (state.helper.infoOf entry poiHeader).x % 2 ^ 28 =
          (state.helper.infoOf entry poiHeader).x := by
        rw [info]
        exact Nat.mod_eq_of_lt (low plain)
      simp only [if_neg plain, whole] at yields
      exact yields

/--
A file with one dong, its only ho and a POI at it.

The POI has a branch name, one phone number and a second position.
-/
def poiAtHo (minX : Nat) : File where
  data := dongBytes 1 minX 200 5 0 ++ bunjiBytes 1 5 7 9 ++
    -- The body is at 29: a bunji of 3, with a branch name, at the ho at 22.
    leBytes 2 (3 * 2 + 2 ^ 15) ++ leBytes 4 (22 + 2 ^ 28) ++ leBytes 4 2 ++
    leBytes 1 2 ++ leBytes 4 0x01234567 ++ leBytes 4 11 ++ leBytes 4 12
  pos := 0
  addressable := by
    simp only [dongBytes, bunjiBytes, List.length_append, leBytes_length]
    omega

/-- The helper of that file, with the names of three dongs. -/
def poiAtHoState (minX : Nat) : HelperState :=
  ⟨{ threeDongsHelper with fp := poiAtHo minX, ldCodeOffset := [(0, 1)] }, threeNames⟩

/-- The header of the POI. -/
def poiAtHoHeader : PoiHeaderF := ⟨2, 29, 1, 0, 1⟩

/-- The only entry of a table is found. -/
theorem findDongEntry_only (entry : Nat × Nat) (ofs : Nat) :
    Loop.Yields (fun fuel => findDongEntry fuel [entry] ofs) entry := by
  refine ⟨1, fun fuel longer => ?_⟩
  obtain ⟨passes, rfl⟩ := Nat.exists_eq_add_of_le' longer
  rfl

/-- The body that comes back for a POI at a ho. -/
theorem getSearchPoiResult_iff_one :
    Decodes zeroCallLocals.position (poiAtHoState 100) (0, 1) poiAtHoHeader ∧
    bodyWith (poiAtHo 100).data threeNames.textFp.data poiAtHoHeader
        ((poiAtHoState 100).helper.infoOf (0, 1) poiAtHoHeader) =
      ⟨[0xAC00, 0xAC01], [[48, 50, 41, 32, 49, 50, 51, 45, 52, 53, 54, 55]], 11, 12,
        ⟨1, 5, 3, 0, 0, 107, 1, 1, 209⟩⟩ := by
  refine ⟨?_, by decide +kernel⟩
  have inside : BodyInside (poiAtHoState 100) (0, 1) poiAtHoHeader :=
    ⟨⟨by decide +kernel, by decide +kernel⟩,
      fun _ => ⟨findDongEntry_only _ _, by decide +kernel, by decide +kernel, by decide +kernel⟩⟩
  exact (getSearchPoiResult_iff zeroCallLocals.position inside).mpr (by decide +kernel)

/-- A POI whose dong begins at an `x` of 29 bits comes back at another place. -/
theorem getSearchPoiResult_cut :
    BodyInside (poiAtHoState (2 ^ 28)) (0, 1) poiAtHoHeader ∧
    ¬ Decodes zeroCallLocals.position (poiAtHoState (2 ^ 28)) (0, 1) poiAtHoHeader := by
  have inside : BodyInside (poiAtHoState (2 ^ 28)) (0, 1) poiAtHoHeader :=
    ⟨⟨by decide +kernel, by decide +kernel⟩,
      fun _ => ⟨findDongEntry_only _ _, by decide +kernel, by decide +kernel, by decide +kernel⟩⟩
  refine ⟨inside, ?_⟩
  rintro ⟨decoded, _⟩
  -- The field for `x` has lost the highest bit of the sum.
  have same := decoded.unique (getSearchPoiResult_yields zeroCallLocals.position inside)
  exact absurd same (by decide +kernel)

end Body

end AndroidApps.Gildroia
