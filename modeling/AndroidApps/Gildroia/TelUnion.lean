import AndroidApps.Gildroia.MeshPoi
import Mathlib.Data.List.Perm.Basic

/-! Phone numbers: the search without an area code against the searches with each of them. -/

namespace AndroidApps.Gildroia

section Index

/-- The end of the part of an area code, which is the last word of its record. -/
def areaEnd (data : List UInt8) (idxOfs index : Nat) : Nat := wordAt data (idxOfs + index * 9 + 5) 4

/-- The table of the exchanges of an area code: its count and its offset end the part. -/
def exchangesAt (data : List UInt8) (endOfs : Nat) : Nat × Nat :=
  (wordAt data (endOfs - 8) 4, wordAt data (endOfs - 4) 4)

/-- The table of the numbers of an exchange. -/
abbrev NumberTable (data : List UInt8) (entry : Nat × Nat) : Prop :=
  KeyTable data .u16 entry.2 6 entry.1

/-- The place of the POI with a number of an exchange. -/
def numberPoi (data : List UInt8) (numbers : Nat × Nat) (index : Nat) : Nat :=
  wordAt data (numbers.2 + index * 6 + 2) 4

/-- A POI whose header and name can be read. -/
def PoiInside (data text : List UInt8) (offset : Nat) : Prop :=
  offset + 8 ≤ data.length ∧ TextInside text (headerAt data offset).nameOfs

instance (data text : List UInt8) (offset : Nat) : Decidable (PoiInside data text offset) :=
  inferInstanceAs (Decidable (_ ∧ _))

/-- The part of an area code: sorted tables of exchanges and numbers, and POIs that can be read. -/
structure TelPart (data text : List UInt8) (endOfs : Nat) : Prop where
  placed : 8 ≤ endOfs ∧ endOfs ≤ data.length
  exchanges : CateTable data (exchangesAt data endOfs)
  numbers : ∀ index, index < (exchangesAt data endOfs).1 →
    NumberTable data (catePair data (exchangesAt data endOfs) index)
  pois : ∀ index, index < (exchangesAt data endOfs).1 →
    ∀ number, number < (catePair data (exchangesAt data endOfs) index).1 →
      PoiInside data text (numberPoi data (catePair data (exchangesAt data endOfs) index) number)

/-- A well-formed telephone index: at most 32 area codes in order, each with its part. -/
structure TelIndex (data text : List UInt8) (idxOfs idxCnt : Nat) : Prop where
  areas : KeyTable data .u8 idxOfs 9 idxCnt
  few : idxCnt ≤ 32
  part : ∀ index, index < idxCnt → TelPart data text (areaEnd data idxOfs index)

/-- The part of an area code can be checked record by record. -/
instance (data text : List UInt8) (endOfs : Nat) : Decidable (TelPart data text endOfs) :=
  decidable_of_iff ((8 ≤ endOfs ∧ endOfs ≤ data.length) ∧ CateTable data (exchangesAt data endOfs) ∧
    ∀ index, index < (exchangesAt data endOfs).1 →
      NumberTable data (catePair data (exchangesAt data endOfs) index) ∧
      ∀ number, number < (catePair data (exchangesAt data endOfs) index).1 →
        PoiInside data text (numberPoi data (catePair data (exchangesAt data endOfs) index) number))
    ⟨fun ⟨placed, exchanges, below⟩ =>
      ⟨placed, exchanges, fun index within => (below index within).1,
        fun index within => (below index within).2⟩,
      fun part => ⟨part.placed, part.exchanges, fun index within =>
        ⟨part.numbers index within, part.pois index within⟩⟩⟩

instance (data text : List UInt8) (idxOfs idxCnt : Nat) :
    Decidable (TelIndex data text idxOfs idxCnt) :=
  decidable_of_iff (KeyTable data .u8 idxOfs 9 idxCnt ∧ idxCnt ≤ 32 ∧
    ∀ index, index < idxCnt → TelPart data text (areaEnd data idxOfs index))
    ⟨fun ⟨areas, few, part⟩ => ⟨areas, few, part⟩,
      fun index => ⟨index.areas, index.few, index.part⟩⟩

/-- An exchange and a number below it that the part of an area code lists. -/
def TelListed (data : List UInt8) (endOfs telKUK telNUM : Nat) : Prop :=
  ∃ index, index < (exchangesAt data endOfs).1 ∧
    keyAt data .u16 (exchangesAt data endOfs).2 10 index = telKUK ∧
    ∃ number, number < (catePair data (exchangesAt data endOfs) index).1 ∧
      keyAt data .u16 (catePair data (exchangesAt data endOfs) index).2 6 number = telNUM

instance (data : List UInt8) (endOfs telKUK telNUM : Nat) :
    Decidable (TelListed data endOfs telKUK telNUM) :=
  inferInstanceAs (Decidable (∃ index, index < _ ∧ _ ∧ ∃ number, number < _ ∧ _))

end Index

section Below

/-- What the searches below an area code end with: the words read last, and where the file is. -/
structure TelFound where
  old : Nat × Nat
  -- The last word is the offset of a POI, unless the exchange or the number was not found.
  hit : Bool
  fp : File
  deriving DecidableEq

/-- The two searches below an area code, behind the count and the offset that end its part. -/
def telFind (locals : PoiLocals) (fp : File) (endOfs telKUK telNUM fuel : Nat) : Option TelFound :=
  let table := exchangesAt fp.data endOfs
  match searchPair locals fuel .u16 (fp.moveTo endOfs) telKUK table.2 10 table.1 table with
  | none => none
  | some (none, fp) => some ⟨table, false, fp⟩
  | some (some (count, offset), fp) =>
    match searchKeyValue .u16 locals.nKeyValue fuel fp telNUM offset 6 count with
    | none => none
    | some (false, fp) => some ⟨(count, offset), false, fp⟩
    | some (true, fp) =>
      let (offset, fp) := fp.freadWord 4 offset
      some ⟨(count, offset), true, fp⟩

/-- The position that the header of a POI is read at: where a seek fails, the one before it. -/
def TelFound.place (found : TelFound) : Option Nat :=
  if found.hit then some (found.fp.fseek found.old.2).pos else none

/-- What the searches below an area code leave of the variables, with the POI they lead to. -/
def TelFound.leave (found : TelFound) (nSidoIdx : Nat) (state : HelperState) (info : PoiHeaderF)
    (poiHeaders : PoiMap) : TelVars :=
  let state := { state with helper := { state.helper with fp := found.fp } }
  (found.old, if found.hit then state.insertPoi nSidoIdx found.old.2 info poiHeaders
    else (info, poiHeaders, state))

variable {locals : PoiLocals} {fuel nSidoIdx endOfs telKUK telNUM : Nat} {state : HelperState}

/-- What is found does not depend on what was read before. -/
theorem telFind_of_data {fp other : File} (same : fp.data = other.data) :
    telFind locals fp endOfs telKUK telNUM = telFind locals other endOfs telKUK telNUM := by
  funext fuel
  unfold telFind
  rw [same, File.moveTo_eq_of_data same]

/-- What is found is final. -/
theorem telFind_final (locals : PoiLocals) (fp : File) (endOfs telKUK telNUM : Nat) :
    Loop.Final (telFind locals fp endOfs telKUK telNUM) := by
  apply (searchPair_final locals .u16 (fp.moveTo endOfs) telKUK (exchangesAt fp.data endOfs).2 10
    (exchangesAt fp.data endOfs).1 (exchangesAt fp.data endOfs)).followed
  · intro fuel unended
    rw [telFind, unended]
  · intro fuel outcome came
    rw [telFind, came]
  · intro outcome
    obtain ⟨pair, after⟩ := outcome
    cases pair with
    | none => exact Loop.final_const _
    | some pair =>
      -- Behind an exchange that was found, the search for the number is final as well.
      dsimp only
      apply (searchKeyValue_final .u16 locals.nKeyValue after telNUM pair.2 6 pair.1).followed
      · intro fuel unended
        rw [unended]
      · intro fuel outcome came
        rw [came]
      · exact fun outcome => Loop.final_const _

/-- The searches leave the file as it is. -/
theorem telFind_data {fp : File} {found : TelFound}
    (finds : telFind locals fp endOfs telKUK telNUM fuel = some found) :
    found.fp.data = fp.data := by
  -- The file that is left comes from the search that ended last.
  unfold telFind at finds
  dsimp only at finds
  split at finds
  · cases finds
  · rename_i exchange
    have opened := searchPair_data exchange
    cases finds
    exact opened
  · rename_i exchange
    have opened := searchPair_data exchange
    split at finds
    · cases finds
    · rename_i number
      cases finds
      exact (searchKeyValue_data number).trans opened
    · rename_i number
      cases finds
      simpa using (searchKeyValue_data number).trans opened

/-- The search below an area code is the two searches, and then the POI they lead to. -/
theorem searchTelBelow_eq {fp : File} (same : state.helper.fp.data = fp.data)
    (placed : 8 ≤ endOfs ∧ endOfs ≤ fp.data.length) (old : Nat × Nat) (info : PoiHeaderF)
    (poiHeaders : PoiMap) :
    state.searchTelBelow locals fuel nSidoIdx endOfs telKUK telNUM old info poiHeaders =
      (telFind locals fp endOfs telKUK telNUM fuel).map fun found =>
        found.leave nSidoIdx state info poiHeaders := by
  rw [telFind_of_data same.symm]
  rw [← same] at placed
  obtain ⟨low, high⟩ := placed
  have addressable := state.helper.fp.addressable
  have back : u32Sub endOfs 8 = endOfs - 8 := by
    unfold u32Sub
    omega
  -- The count and the offset of the exchanges end the part, and are read first.
  have counted : (state.helper.fp.fseek (u32Sub endOfs 8)).freadWord 4 old.1 =
      ((exchangesAt state.helper.fp.data endOfs).1, state.helper.fp.moveTo (endOfs - 4)) := by
    rw [back, File.freadWord_fseek (by omega), show endOfs - 8 + 4 = endOfs - 4 by omega]
    rfl
  have placed : (state.helper.fp.moveTo (endOfs - 4)).freadWord 4 old.2 =
      ((exchangesAt state.helper.fp.data endOfs).2, state.helper.fp.moveTo endOfs) := by
    rw [File.freadWord_moveTo (by omega), show endOfs - 4 + 4 = endOfs by omega]
    rfl
  unfold HelperState.searchTelBelow telFind
  dsimp only
  rw [counted]
  dsimp only
  rw [placed]
  dsimp only
  cases searchPair locals fuel .u16 (state.helper.fp.moveTo endOfs) telKUK
      (exchangesAt state.helper.fp.data endOfs).2 10 (exchangesAt state.helper.fp.data endOfs).1
      (exchangesAt state.helper.fp.data endOfs) with
  | none => rfl
  | some outcome =>
    obtain ⟨pair, exchangeFp⟩ := outcome
    cases pair with
    | none => rfl
    | some pair =>
      dsimp only
      cases searchKeyValue .u16 locals.nKeyValue fuel exchangeFp telNUM pair.2 6 pair.1 with
      | none => rfl
      | some outcome =>
        obtain ⟨hit, numberFp⟩ := outcome
        cases hit <;> rfl

/-- What the variable of a header holds after a read at a position, inside the file or not. -/
def headerRead (data : List UInt8) (place : Nat) (info : PoiHeaderF) : PoiHeaderF :=
  let count := data.length - place
  if place + 8 ≤ data.length then headerAt data place
  -- Behind the file the variable is left as it was, and at its end only the first bytes are there.
  else if count = 0 then info
  else PoiHeaderF.decode (bytesAt data place count ++
    bytesAt (InMemory.bytes info) count (8 - count))

/-- What is inserted for the header at a place. -/
def telEntries (nSidoIdx : Nat) (data : List UInt8) (textMng : TextMng) (info : PoiHeaderF) :
    Option Nat → PoiMap
  | none => []
  | some place =>
    let read := headerRead data place info
    [(cString (textMng.getTextOfs read.nameOfs 0).1, ⟨nSidoIdx, read⟩)]

/-- Reading a header behind a seek. -/
theorem fread_header (fp : File) (offset : Nat) (info : PoiHeaderF) :
    ((fp.fseek offset).fread PoiHeaderF.decode 8 info).1 =
      headerRead fp.data (fp.fseek offset).pos info := by
  unfold File.fread headerRead File.cut
  rw [File.fseek_data]
  split <;> rfl

/-- The last byte of a header that is not wholly inside the file is that of the variable. -/
theorem headerRead_flag {data : List UInt8} {place : Nat} (behind : ¬place + 8 ≤ data.length)
    {flag : Nat} (bit : flag < 2) :
    (headerRead data place ⟨0, 0, 0, 0, flag⟩).useHoOfs = flag := by
  unfold headerRead
  rw [if_neg behind]
  by_cases none : data.length - place = 0
  · rw [if_pos none]
  · rw [if_neg none]
    -- The bytes of the variable are zeros but for the last one, whose highest bit is the flag.
    have memory : InMemory.bytes (⟨0, 0, 0, 0, flag⟩ : PoiHeaderF) =
        List.replicate 7 0 ++ [UInt8.ofNat (flag * 128)] := by
      obtain rfl | rfl : flag = 0 ∨ flag = 1 := by omega
      · rfl
      · rfl
    generalize counted : data.length - place = count at none
    have short : count ≤ 7 := by omega
    have copied : (bytesAt data place count).length = count := by
      rw [bytesAt, List.length_take, List.length_drop]
      omega
    have kept : bytesAt (InMemory.bytes (⟨0, 0, 0, 0, flag⟩ : PoiHeaderF)) count (8 - count) =
        List.replicate (7 - count) 0 ++ [UInt8.ofNat (flag * 128)] := by
      rw [memory, bytesAt, List.drop_append_of_le_length (by simpa using short),
        List.drop_replicate, List.take_of_length_le]
      simp
      omega
    rw [kept, ← List.append_assoc]
    generalize first : bytesAt data place count ++ List.replicate (7 - count) 0 = firsts
    have seven : firsts.length = 7 := by
      rw [← first, List.length_append, copied, List.length_replicate]
      omega
    have word : wordAt (firsts ++ [UInt8.ofNat (flag * 128)]) 4 4 =
        leWord (firsts.drop 4) + 256 ^ 3 * (flag * 128) := by
      have last : (firsts.drop 4).length = 3 := by rw [List.length_drop, seven]
      have fits : (UInt8.ofNat (flag * 128)).toNat = flag * 128 := by
        rw [UInt8.toNat_ofNat']
        omega
      rw [wordAt, bytesAt, List.drop_append_of_le_length (by omega), List.take_of_length_le
        (by rw [List.length_append, last]; simp), leWord_append, last, leWord_cons, fits,
        leWord_nil, Nat.mul_zero, Nat.add_zero]
    have low : leWord (firsts.drop 4) < 256 ^ 3 := by
      have bound := leWord_lt (firsts.drop 4)
      rwa [List.length_drop, seven] at bound
    simp only [PoiHeaderF.decode, word, bitField]
    omega

/-- The POI that the searches lead to is inserted, and nothing else but positions changes. -/
theorem TelFound.leave_inserts {found : TelFound} (opened : found.fp.data = state.helper.fp.data)
    (nSidoIdx : Nat) (info : PoiHeaderF) (poiHeaders : PoiMap) :
    OnlyRead state (found.leave nSidoIdx state info poiHeaders).2.2.2 ∧
      (found.leave nSidoIdx state info poiHeaders).2.2.1.Perm
        (telEntries nSidoIdx state.helper.fp.data state.textMng info found.place ++
        poiHeaders) := by
  -- Where nothing was found, only the position in the file has changed.
  obtain ⟨old, hit, fp⟩ := found
  dsimp only at opened
  cases hit with
  | false => exact ⟨.moved opened, List.Perm.refl _⟩
  | true =>
    refine ⟨⟨rfl, ?_, ?_⟩, ?_⟩
    · simpa [TelFound.leave, HelperState.insertPoi] using opened
    · simp [TelFound.leave, HelperState.insertPoi]
    · simp only [TelFound.leave, TelFound.place, HelperState.insertPoi, fread_header, opened,
        if_true]
      exact PoiMap.insert_perm _ _

end Below

section Areas

variable {state : HelperState} {nSidoIdx telKUK telNUM index : Nat}

/-- The telephone index of a helper, with the texts its POIs are named by. -/
def HelperState.TelReady (state : HelperState) : Prop :=
  TelIndex state.helper.fp.data state.textMng.textFp.data state.helper.poiHeader.telPoiIdxOfs
    state.helper.poiHeader.telPoiIdxCnt

/-- An area code of the index. -/
def HelperState.areaCode (state : HelperState) (index : Nat) : Nat :=
  keyAt state.helper.fp.data .u8 state.helper.poiHeader.telPoiIdxOfs 9 index

/-- The end of the part of an area code of the index. -/
def HelperState.areaEnd (state : HelperState) (index : Nat) : Nat :=
  AndroidApps.Gildroia.areaEnd state.helper.fp.data state.helper.poiHeader.telPoiIdxOfs index

/-- The part of an area code ends inside the file, with room for two words. -/
theorem HelperState.TelReady.placed (ready : state.TelReady)
    (listed : index < state.helper.poiHeader.telPoiIdxCnt) :
    8 ≤ state.areaEnd index ∧ state.areaEnd index ≤ state.helper.fp.data.length :=
  (ready.part index listed).placed

/-- The searches below an area code of the index. -/
def HelperState.telFind (state : HelperState) (locals : PoiLocals) (index telKUK telNUM : Nat) :
    Nat → Option TelFound :=
  AndroidApps.Gildroia.telFind locals state.helper.fp (state.areaEnd index) telKUK telNUM

/-- With an area code of the index and passes enough to find it, the search goes on below it. -/
theorem searchTelNumberDDD_eq (nSidoIdx telKUK telNUM : Nat) (ready : state.TelReady)
    (listed : index < state.helper.poiHeader.telPoiIdxCnt) (locals : PoiLocals) :
    ∃ enough, ∀ fuel, enough ≤ fuel → ∀ poiHeaders : PoiMap,
      state.searchTelNumberDDD locals fuel nSidoIdx (state.areaCode index) telKUK telNUM
          poiHeaders =
        (state.telFind locals index telKUK telNUM fuel).map fun found =>
          (found.leave nSidoIdx state locals.info poiHeaders).2.2 := by
  obtain ⟨enough, searched⟩ := searchPair_listed locals ready.areas (by decide) listed rfl
    (u32 locals.beginOfs, u32 locals.endOfs)
  refine ⟨enough, fun fuel longer poiHeaders => ?_⟩
  -- The end of the part is the second word of the record.
  have searched : searchPair locals fuel .u8 state.helper.fp (state.areaCode index)
      state.helper.poiHeader.telPoiIdxOfs 9 state.helper.poiHeader.telPoiIdxCnt
      (u32 locals.beginOfs, u32 locals.endOfs) =
        some (some (_, state.areaEnd index), state.helper.fp.moveTo _) := searched fuel longer
  unfold HelperState.searchTelNumberDDD
  dsimp only
  rw [searched]
  dsimp only
  rw [searchTelBelow_eq (by rfl) (ready.placed listed), Option.map_map]
  rfl

/-- The search with an area code inserts what the searches below it lead to. -/
theorem searchTelNumberDDD_inserts (nSidoIdx : Nat) (ready : state.TelReady)
    (listed : index < state.helper.poiHeader.telPoiIdxCnt) {locals : PoiLocals} {found : TelFound}
    (finds : Loop.Yields (state.telFind locals index telKUK telNUM) found) :
    Inserts state (fun fuel poiHeaders => state.searchTelNumberDDD locals fuel nSidoIdx
        (state.areaCode index) telKUK telNUM poiHeaders)
      (telEntries nSidoIdx state.helper.fp.data state.textMng locals.info found.place) := by
  -- One number of passes is enough for the area code and for the searches below it.
  obtain ⟨enough, finds⟩ := finds
  obtain ⟨more, goesOn⟩ := searchTelNumberDDD_eq nSidoIdx telKUK telNUM ready listed locals
  have opened : found.fp.data = state.helper.fp.data := telFind_data (finds enough le_rfl)
  intro poiHeaders
  refine ⟨(found.leave nSidoIdx state locals.info poiHeaders).2.2, ?_,
    found.leave_inserts opened nSidoIdx locals.info poiHeaders⟩
  refine ⟨max enough more, fun fuel longer => ?_⟩
  dsimp only
  rw [goesOn fuel ((Nat.le_max_right _ _).trans longer),
    finds fuel ((Nat.le_max_left _ _).trans longer), Option.map_some]

/-- If the search with an area code comes back, the searches below the code do. -/
theorem telFind_of_returns (ready : state.TelReady)
    (listed : index < state.helper.poiHeader.telPoiIdxCnt)
    {locals : PoiLocals} {poiHeaders : PoiMap}
    (returns : Loop.Returns fun fuel => state.searchTelNumberDDD locals fuel nSidoIdx
      (state.areaCode index) telKUK telNUM poiHeaders) :
    ∃ found, Loop.Yields (state.telFind locals index telKUK telNUM) found := by
  -- The area code is found in any case, so that it is the searches below it that came back.
  obtain ⟨enough, back⟩ := returns
  obtain ⟨more, goesOn⟩ := searchTelNumberDDD_eq nSidoIdx telKUK telNUM ready listed locals
  have ended := back (max enough more) (Nat.le_max_left _ _)
  dsimp only at ended
  rw [goesOn _ (Nat.le_max_right _ _), Option.isSome_map] at ended
  obtain ⟨found, finds⟩ := Option.isSome_iff_exists.mp ended
  exact ⟨found, (telFind_final _ _ _ _ _).yields finds⟩

/-- The loop that reads the area codes of a table inside the file reads the ends of their parts. -/
theorem readAreaEnds_inside (locals : PoiLocals) (count : Nat) : ∀ (i : Nat) (fp : File),
    fp.pos + count * 9 ≤ fp.data.length →
    (readAreaEnds locals count i fp).1 =
      (List.range count).map fun index => AndroidApps.Gildroia.areaEnd fp.data fp.pos index := by
  -- The induction is on the records still to be read, with the position behind those before.
  induction count with
  | zero =>
    intro i fp _
    rfl
  | succ count ih =>
    intro i fp inside
    rw [readAreaEnds, File.freadWord_inside (by omega)]
    dsimp only
    rw [File.freadWord_moveTo (by omega)]
    dsimp only
    rw [File.freadWord_moveTo (by omega)]
    dsimp only
    rw [ih (i + 1) _ (by simp only [File.moveTo_pos, File.moveTo_data]; omega),
      List.range_succ_eq_map, List.map_cons, List.map_map]
    refine congrArg₂ List.cons ?_ (List.map_congr_left fun index _ => ?_)
    · simp only [AndroidApps.Gildroia.areaEnd, Nat.zero_mul, Nat.add_zero, Nat.add_assoc]
    · simp only [AndroidApps.Gildroia.areaEnd, Function.comp_apply, File.moveTo_pos,
        File.moveTo_data]
      congr 1
      omega

end Areas

section Settled

variable {state : HelperState} {nSidoIdx telKUK telNUM index : Nat}

/-- A name that is read the same whatever the buffer held before. -/
def NameSettled (text : List UInt8) (nameOfs : Nat) : Prop :=
  ∃ name, ∀ textMng : TextMng, textMng.textFp.data = text →
    cString (textMng.getTextOfs nameOfs 0).1 = name

/-- A name inside the text file is settled. -/
theorem nameSettled_inside {text : List UInt8} {nameOfs : Nat} (inside : TextInside text nameOfs) :
    NameSettled text nameOfs := by
  refine ⟨cString (textAt text nameOfs), fun textMng same => ?_⟩
  rw [← same] at inside ⊢
  exact cString_getTextOfs 0 inside

/-- The searches lead to a header inside the file, to this one, or to none at all. -/
def TelFound.LeadsTo (found : TelFound) (data : List UInt8) (poi : Option PoiHeaderF) : Prop :=
  (∀ place ∈ found.place, place + 8 ≤ data.length) ∧ poi = found.place.map (headerAt data)

/--
What the searches below an area code lead to is settled by the files.

Whatever is in the variables that are not set, they find no POI, or one header inside the file with
a name that is settled as well.
-/
def HelperState.TelSettled (state : HelperState) (index telKUK telNUM : Nat) : Prop :=
  ∃ poi : Option PoiHeaderF,
    (∀ locals found, Loop.Yields (state.telFind locals index telKUK telNUM) found →
      found.LeadsTo state.helper.fp.data poi) ∧
    ∀ info ∈ poi, NameSettled state.textMng.textFp.data info.nameOfs

/-- What is inserted below an area code does not depend on variables that are not set. -/
def HelperState.TelInserts (state : HelperState) (nSidoIdx index telKUK telNUM : Nat)
    (entries : PoiMap) : Prop :=
  ∀ locals found, Loop.Yields (state.telFind locals index telKUK telNUM) found →
    ∀ info (textMng : TextMng), textMng.textFp.data = state.textMng.textFp.data →
      telEntries nSidoIdx state.helper.fp.data textMng info found.place = entries

/-- If it is settled what the searches lead to, it is settled what is inserted. -/
theorem HelperState.TelSettled.inserts (settled : state.TelSettled index telKUK telNUM)
    (nSidoIdx : Nat) : ∃ entries, state.TelInserts nSidoIdx index telKUK telNUM entries := by
  -- A header inside the file is read, so that the variable it is read into does not matter.
  obtain ⟨poi, leads, named⟩ := settled
  cases poi with
  | none =>
    refine ⟨[], fun locals found finds info textMng _ => ?_⟩
    obtain ⟨_, none⟩ := leads locals found finds
    rw [Option.map_eq_none_iff.mp none.symm]
    rfl
  | some header =>
    obtain ⟨name, named⟩ := named header rfl
    refine ⟨[(name, ⟨nSidoIdx, header⟩)], fun locals found finds info textMng same => ?_⟩
    obtain ⟨inside, some⟩ := leads locals found finds
    obtain ⟨place, reached, rfl⟩ := Option.map_eq_some_iff.mp some.symm
    rw [reached, telEntries, headerRead, if_pos (inside place reached), named textMng same]

/-- What is inserted for a place is settled only if a header inside the file stands there. -/
theorem telEntries_settled {data : List UInt8} {place : Option Nat} {entries : PoiMap}
    (given : TextMng) (all : ∀ info (textMng : TextMng), textMng.textFp.data = given.textFp.data →
      telEntries nSidoIdx data textMng info place = entries) :
    (∀ offset ∈ place, offset + 8 ≤ data.length) ∧
      (entries.head?.map fun entry => entry.2.info) = place.map (headerAt data) ∧
      ∀ info ∈ place.map (headerAt data), NameSettled given.textFp.data info.nameOfs := by
  have told := all ⟨0, 0, 0, 0, 0⟩ given rfl
  cases place with
  | none =>
    rw [← told]
    exact ⟨by simp, rfl, by simp⟩
  | some offset =>
    have inside : offset + 8 ≤ data.length := by
      -- Behind the file, the header would end in what the variable happens to hold.
      by_contra behind
      have other := all ⟨0, 0, 0, 0, 1⟩ given rfl
      rw [← told, telEntries, telEntries] at other
      have flags : (headerRead data offset ⟨0, 0, 0, 0, 1⟩).useHoOfs =
          (headerRead data offset ⟨0, 0, 0, 0, 0⟩).useHoOfs := by
        simp only [List.cons.injEq, Prod.mk.injEq, PoiHeader.mk.injEq] at other
        rw [other.1.2.2]
      rw [headerRead_flag behind (by decide), headerRead_flag behind (by decide)] at flags
      cases flags
    have read : ∀ info, headerRead data offset info = headerAt data offset := fun info =>
      if_pos inside
    rw [telEntries, read] at told
    refine ⟨?_, ?_, ?_⟩
    · intro place reached
      rw [← Option.some.inj reached]
      exact inside
    · rw [← told]
      rfl
    · intro info reached
      rw [← Option.some.inj reached]
      refine ⟨cString (given.getTextOfs (headerAt data offset).nameOfs 0).1, fun textMng same => ?_⟩
      have one := all ⟨0, 0, 0, 0, 0⟩ textMng same
      rw [telEntries, read, ← told] at one
      simpa using one

/-- If it is settled what is inserted, it is settled what the searches lead to. -/
theorem HelperState.TelInserts.settled {entries : PoiMap}
    (inserts : state.TelInserts nSidoIdx index telKUK telNUM entries) :
    state.TelSettled index telKUK telNUM := by
  by_cases comes : ∃ locals found, Loop.Yields (state.telFind locals index telKUK telNUM) found
  · obtain ⟨locals, found, finds⟩ := comes
    obtain ⟨_, same, named⟩ := telEntries_settled state.textMng (inserts locals found finds)
    refine ⟨entries.head?.map fun entry => entry.2.info, fun locals found finds => ?_, same ▸ named⟩
    obtain ⟨inside, told, _⟩ := telEntries_settled state.textMng (inserts locals found finds)
    exact ⟨inside, told⟩
  · -- Searches that never come back lead nowhere.
    exact ⟨none, fun locals found finds => absurd ⟨locals, found, finds⟩ comes, by simp⟩

end Settled

section Union

variable {state after : HelperState} {nSidoIdx telKUK telNUM index : Nat}

/-- Where all other parts of two unions are the same, the one that is left is so, too. -/
theorem perm_of_flatMap {α β : Type} {f g : α → List β} {places : List α} (distinct : places.Nodup)
    {place : α} (member : place ∈ places)
    (others : ∀ other ∈ places, other ≠ place → (f other).Perm (g other))
    (union : (places.flatMap f).Perm (places.flatMap g)) : (f place).Perm (g place) := by
  induction places with
  | nil => cases member
  | cons first rest ih =>
    obtain ⟨unlisted, distinct⟩ := List.nodup_cons.mp distinct
    rw [List.flatMap_cons, List.flatMap_cons] at union
    by_cases here : place = first
    · subst here
      -- The place is not listed again, so that all parts behind it are the same.
      have behind : (rest.flatMap f).Perm (rest.flatMap g) := by
        refine List.Perm.flatMap_left rest fun other within => ?_
        exact others other (List.mem_cons_of_mem _ within) fun same => unlisted (same ▸ within)
      exact (List.perm_append_right_iff _).mp (union.trans (behind.symm.append_left _))
    · have first_same := others first List.mem_cons_self (Ne.symm here)
      refine ih distinct ((List.mem_cons.mp member).resolve_left here)
        (fun other within => others other (List.mem_cons_of_mem _ within)) ?_
      exact (List.perm_append_left_iff _).mp ((first_same.symm.append_right _).trans union)

/-- At most one POI is inserted, so that no order is left open. -/
theorem telEntries_eq_of_perm {data : List UInt8} {textMng other : TextMng}
    {info header : PoiHeaderF} {place otherPlace : Option Nat}
    (same : (telEntries nSidoIdx data textMng info place).Perm
      (telEntries nSidoIdx data other header otherPlace)) :
    telEntries nSidoIdx data textMng info place =
      telEntries nSidoIdx data other header otherPlace := by
  cases otherPlace with
  | none => exact List.perm_nil.mp same
  | some otherPlace => exact List.perm_singleton.mp same

/-- The index stays in a helper that only read. -/
theorem OnlyRead.ready (read : OnlyRead state after) (ready : state.TelReady) : after.TelReady := by
  unfold HelperState.TelReady
  rw [read.data, read.text, read.helper]
  exact ready

theorem OnlyRead.areaCode (read : OnlyRead state after) (index : Nat) :
    after.areaCode index = state.areaCode index := by
  unfold HelperState.areaCode
  rw [read.data, read.helper]

theorem OnlyRead.areaEnd (read : OnlyRead state after) (index : Nat) :
    after.areaEnd index = state.areaEnd index := by
  unfold HelperState.areaEnd
  rw [read.data, read.helper]

theorem OnlyRead.telFind (read : OnlyRead state after) (locals : PoiLocals)
    (index telKUK telNUM : Nat) :
    after.telFind locals index telKUK telNUM = state.telFind locals index telKUK telNUM := by
  unfold HelperState.telFind
  rw [read.areaEnd, telFind_of_data read.data]

/--
The search without an area code inserts what the searches with all of them insert.

Each of these calls may find other values in variables that are not set, other texts in the buffers
and the file at another position.
-/
def HelperState.TelUnion (state : HelperState) (nSidoIdx telKUK telNUM : Nat) : Prop :=
  ∀ (locals : PoiLocals) (calls : Nat → PoiLocals × HelperState),
    (∀ index, OnlyRead state (calls index).2) →
    ∃ inserted : Nat → PoiMap,
      (∀ index, index < state.helper.poiHeader.telPoiIdxCnt →
        Inserts (calls index).2 (fun fuel poiHeaders =>
          (calls index).2.searchTelNumberDDD (calls index).1 fuel nSidoIdx (state.areaCode index)
            telKUK telNUM poiHeaders) (inserted index)) ∧
      Inserts state (fun fuel poiHeaders =>
          state.searchTelNumber locals fuel nSidoIdx telKUK telNUM poiHeaders)
        ((List.range state.helper.poiHeader.telPoiIdxCnt).flatMap inserted)

/-- Every search with an area code of the index comes back. -/
def HelperState.TelReturns (state : HelperState) (nSidoIdx telKUK telNUM : Nat) : Prop :=
  ∀ index, index < state.helper.poiHeader.telPoiIdxCnt → ∀ locals,
    Loop.Returns fun fuel =>
      state.searchTelNumberDDD locals fuel nSidoIdx (state.areaCode index) telKUK telNUM []

/-- A search that only read is followed by another one that inserts what it leads to. -/
theorem OnlyRead.inserts (read : OnlyRead state after) (nSidoIdx : Nat) (ready : state.TelReady)
    (listed : index < state.helper.poiHeader.telPoiIdxCnt) (locals : PoiLocals) {found : TelFound}
    (finds : Loop.Yields (state.telFind locals index telKUK telNUM) found) :
    Inserts after (fun fuel poiHeaders => after.searchTelNumberDDD locals fuel nSidoIdx
        (state.areaCode index) telKUK telNUM poiHeaders)
      (telEntries nSidoIdx state.helper.fp.data after.textMng locals.info found.place) := by
  rw [← read.telFind] at finds
  rw [← read.areaCode, ← read.data]
  refine searchTelNumberDDD_inserts nSidoIdx (read.ready ready) ?_ finds
  rw [read.helper]
  exact listed

/-- If the union is right whatever the variables hold, they do not matter to any of its parts. -/
theorem HelperState.TelUnion.inserts (union : state.TelUnion nSidoIdx telKUK telNUM)
    (ready : state.TelReady) (returns : state.TelReturns nSidoIdx telKUK telNUM)
    (listed : index < state.helper.poiHeader.telPoiIdxCnt) :
    ∃ entries, state.TelInserts nSidoIdx index telKUK telNUM entries := by
  -- Two families of calls that differ in this area code only have the same union.
  obtain ⟨first, finds⟩ := telFind_of_returns ready listed (returns index listed zeroPoiLocals)
  refine ⟨telEntries nSidoIdx state.helper.fp.data state.textMng zeroPoiLocals.info first.place,
    fun locals found ended info textMng same => ?_⟩
  let base : Nat → PoiLocals × HelperState := fun _ => (zeroPoiLocals, state)
  let varied := Function.update base index
    ({ locals with info := info }, { state with textMng := textMng })
  have read : OnlyRead state { state with textMng := textMng } := ⟨rfl, rfl, same⟩
  have reads : ∀ place, OnlyRead state (varied place).2 := by
    intro place
    by_cases here : place = index
    · rw [here, show varied index = _ from Function.update_self _ _ _]
      exact read
    · rw [show varied place = base place from Function.update_of_ne here _ _]
      exact .refl state
  obtain ⟨one, oneParts, oneUnion⟩ := union zeroPoiLocals base fun _ => .refl state
  obtain ⟨other, otherParts, otherUnion⟩ := union zeroPoiLocals varied reads
  have parts : (one index).Perm (other index) := by
    refine perm_of_flatMap List.nodup_range (List.mem_range.mpr listed) ?_
      (oneUnion.unique otherUnion)
    intro place member away
    have own := otherParts place (List.mem_range.mp member)
    rw [show varied place = base place from Function.update_of_ne away _ _] at own
    exact (oneParts place (List.mem_range.mp member)).unique own
  have own := otherParts index listed
  rw [show varied index = _ from Function.update_self _ _ _] at own
  have ownEntries : (other index).Perm
      (telEntries nSidoIdx state.helper.fp.data textMng info found.place) :=
    own.unique (read.inserts nSidoIdx ready listed { locals with info := info } ended)
  have baseEntries := (oneParts index listed).unique
    (searchTelNumberDDD_inserts nSidoIdx ready listed finds)
  exact telEntries_eq_of_perm (ownEntries.symm.trans (parts.symm.trans baseEntries))

/-- The loop over area codes inserts what is settled for each of them. -/
theorem telLoop_inserts (ready : state.TelReady) (entries : Nat → PoiMap) (locals : PoiLocals)
    (indexes : List Nat) :
    (∀ index ∈ indexes, index < state.helper.poiHeader.telPoiIdxCnt ∧
      state.TelInserts nSidoIdx index telKUK telNUM (entries index) ∧
      ∃ found, Loop.Yields (state.telFind locals index telKUK telNUM) found) →
    ∀ vars : TelVars, OnlyRead state vars.2.2.2 →
      ∃ last : TelVars, Loop.Yields (fun fuel => (indexes.map state.areaEnd).foldlM
          (fun (vars : TelVars) endOfs => vars.2.2.2.searchTelBelow locals fuel nSidoIdx endOfs
            telKUK telNUM vars.1 vars.2.1 vars.2.2.1) vars) last ∧
        OnlyRead state last.2.2.2 ∧
        last.2.2.1.Perm (indexes.flatMap entries ++ vars.2.2.1) := by
  -- The induction is on the area codes, with what was inserted for those before.
  induction indexes with
  | nil =>
    intro _ vars read
    exact ⟨vars, Loop.yields_of_eq fun _ => rfl, read, List.Perm.refl _⟩
  | cons index rest ih =>
    intro all vars read
    rw [List.forall_mem_cons] at all
    obtain ⟨⟨listed, settled, found, finds⟩, others⟩ := all
    have opened : found.fp.data = vars.2.2.2.helper.fp.data := by
      obtain ⟨enough, ended⟩ := finds
      exact (telFind_data (ended enough le_rfl)).trans read.data.symm
    obtain ⟨reads, added⟩ := found.leave_inserts opened nSidoIdx vars.2.1 vars.2.2.1
    rw [read.data, settled locals found finds vars.2.1 vars.2.2.2.textMng read.text] at added
    obtain ⟨last, ended, lastRead, inserted⟩ := ih others
      (found.leave nSidoIdx vars.2.2.2 vars.2.1 vars.2.2.1) (read.trans reads)
    refine ⟨last, finds.followed ?_ ended, lastRead, inserted.trans ?_⟩
    · intro fuel hit
      rw [List.map_cons, List.foldlM_cons,
        searchTelBelow_eq read.data (ready.placed listed)]
      rw [show telFind locals state.helper.fp (state.areaEnd index) telKUK telNUM fuel = _ from hit]
      rfl
    · rw [List.flatMap_cons, List.append_assoc]
      exact (added.append_left _).trans (List.perm_append_comm_assoc _ _ _)

/-- The search without an area code inserts what is settled for each of them. -/
theorem searchTelNumber_inserts (ready : state.TelReady) (entries : Nat → PoiMap)
    (locals : PoiLocals)
    (all : ∀ index, index < state.helper.poiHeader.telPoiIdxCnt →
      state.TelInserts nSidoIdx index telKUK telNUM (entries index) ∧
      ∃ found, Loop.Yields (state.telFind locals index telKUK telNUM) found) :
    Inserts state (fun fuel poiHeaders =>
        state.searchTelNumber locals fuel nSidoIdx telKUK telNUM poiHeaders)
      ((List.range state.helper.poiHeader.telPoiIdxCnt).flatMap entries) := by
  have few := ready.few
  have inside := ready.areas.inside
  have count : (toInt state.helper.poiHeader.telPoiIdxCnt).toNat =
      state.helper.poiHeader.telPoiIdxCnt := by
    unfold toInt
    split <;> omega
  -- The table is inside the file, so that the ends of all parts are read from it.
  have sought : state.helper.fp.fseek state.helper.poiHeader.telPoiIdxOfs =
      state.helper.fp.moveTo state.helper.poiHeader.telPoiIdxOfs :=
    File.fseek_of_lt (File.offset_lt inside)
  have ends := readAreaEnds_inside locals state.helper.poiHeader.telPoiIdxCnt 0
    (state.helper.fp.moveTo state.helper.poiHeader.telPoiIdxOfs) inside
  have opened := readAreaEnds_data locals state.helper.poiHeader.telPoiIdxCnt 0
    (state.helper.fp.moveTo state.helper.poiHeader.telPoiIdxOfs)
  intro poiHeaders
  obtain ⟨last, ended, read, added⟩ := telLoop_inserts ready entries locals
    (List.range state.helper.poiHeader.telPoiIdxCnt)
    (fun index member => ⟨List.mem_range.mp member, all index (List.mem_range.mp member)⟩)
    ((u32 locals.count, u32 locals.offset), locals.info, poiHeaders,
      { state with helper := { state.helper with
        fp := (readAreaEnds locals state.helper.poiHeader.telPoiIdxCnt 0
          (state.helper.fp.moveTo state.helper.poiHeader.telPoiIdxOfs)).2 } })
    (.moved opened)
  refine ⟨last.2.2, ended.computed fun fuel looped => ?_, read, added⟩
  unfold HelperState.searchTelNumber
  dsimp only
  rw [count, if_neg (by omega), sought, ends]
  exact congrArg (Option.map _) looped

/-- Below an exchange that the part of an area code lists, the search for the number decides. -/
theorem telFind_exchange (ready : state.TelReady)
    (area : index < state.helper.poiHeader.telPoiIdxCnt) {entry : Nat × Nat}
    (listed : CateEntry state.helper.fp.data
      (exchangesAt state.helper.fp.data (state.areaEnd index)) telKUK entry)
    (locals : PoiLocals) (telNUM : Nat) :
    ∃ after : File, after.data = state.helper.fp.data ∧ ∃ enough, ∀ fuel, enough ≤ fuel →
      state.telFind locals index telKUK telNUM fuel =
        (searchKeyValue .u16 locals.nKeyValue fuel after telNUM entry.2 6 entry.1).map
          fun (hit, fp) =>
            if hit then ⟨(entry.1, (fp.freadWord 4 entry.2).1), true, (fp.freadWord 4 entry.2).2⟩
            else ⟨entry, false, fp⟩ := by
  -- The exchange is in a sorted table, and is found there whatever the variables hold.
  have part : TelPart state.helper.fp.data state.textMng.textFp.data (state.areaEnd index) :=
    ready.part index area
  obtain ⟨after, opened, enough, exchanged⟩ := searchPair_entry locals
    (show (state.helper.fp.moveTo (state.areaEnd index)).data = state.helper.fp.data from rfl)
    part.exchanges listed (exchangesAt state.helper.fp.data (state.areaEnd index))
  refine ⟨after, opened, enough, fun fuel longer => ?_⟩
  have exchanged := exchanged fuel longer
  unfold HelperState.telFind AndroidApps.Gildroia.telFind
  dsimp only at exchanged ⊢
  rw [exchanged]
  dsimp only
  cases searchKeyValue .u16 locals.nKeyValue fuel after telNUM entry.2 6 entry.1 with
  | none => rfl
  | some outcome =>
    obtain ⟨hit, fp⟩ := outcome
    cases hit <;> rfl

/-- If the search for the number comes back, the searches below the area code do. -/
theorem telFind_comes (ready : state.TelReady)
    (area : index < state.helper.poiHeader.telPoiIdxCnt) {entry : Nat × Nat}
    (listed : CateEntry state.helper.fp.data
      (exchangesAt state.helper.fp.data (state.areaEnd index)) telKUK entry)
    (locals : PoiLocals)
    (ends : ∀ after : File, after.data = state.helper.fp.data → SearchReturns .u16 locals.nKeyValue
      after telNUM entry.2 6 entry.1) :
    ∃ found, Loop.Yields (state.telFind locals index telKUK telNUM) found := by
  -- One number of passes is enough for the exchange and for the number.
  obtain ⟨after, opened, enough, finds⟩ := telFind_exchange ready area listed locals telNUM
  obtain ⟨more, result, ended⟩ := ends after opened
  have searched : searchKeyValue .u16 locals.nKeyValue (max enough more) after telNUM entry.2 6
      entry.1 = some result := Loop.run_mono ended (Nat.le_max_right _ _)
  have found := finds (max enough more) (Nat.le_max_left _ _)
  rw [searched] at found
  exact ⟨_, (telFind_final _ _ _ _ _).yields found⟩

/-- The searches below an area code find a number that its part lists. -/
theorem telFind_listed (ready : state.TelReady)
    (area : index < state.helper.poiHeader.telPoiIdxCnt)
    (listed : TelListed state.helper.fp.data (state.areaEnd index) telKUK telNUM) :
    ∃ poi, PoiInside state.helper.fp.data state.textMng.textFp.data poi ∧ ∀ locals, ∃ found,
      Loop.Yields (state.telFind locals index telKUK telNUM) found ∧ found.place = some poi := by
  -- The record of the number is inside the file, so that the offset of the POI is read.
  obtain ⟨exchange, within, held, number, below, own⟩ := listed
  have part : TelPart state.helper.fp.data state.textMng.textFp.data (state.areaEnd index) :=
    ready.part index area
  have numbers := part.numbers exchange within
  have inside := numbers.inside
  have poi := part.pois exchange within number below
  have record : (number + 1) * 6 ≤ _ * 6 := Nat.mul_le_mul_right _ below
  refine ⟨_, poi, fun locals => ?_⟩
  obtain ⟨after, opened, enough, finds⟩ := telFind_exchange ready area
    ⟨exchange, within, held, rfl⟩ locals telNUM
  generalize catePair state.helper.fp.data _ exchange = entry at *
  rw [← opened] at numbers inside own
  obtain ⟨more, numbered⟩ := searchKeyValue_listed numbers below locals.nKeyValue
  refine ⟨⟨(entry.1, numberPoi state.helper.fp.data entry number), true,
    after.moveTo (entry.2 + number * 6 + 2 + 4)⟩, ⟨max enough more, fun fuel longer => ?_⟩, ?_⟩
  · have numbered : searchKeyValue .u16 locals.nKeyValue fuel after telNUM entry.2 6 entry.1 = _ :=
      own ▸ Loop.run_mono numbered ((Nat.le_max_right _ _).trans longer)
    rw [finds fuel ((Nat.le_max_left _ _).trans longer), numbered]
    dsimp only [Option.map_some]
    rw [if_pos rfl, File.freadWord_moveTo (by rw [show KeyWidth.u16.bytes = 2 from rfl]; omega),
      opened]
    rfl
  · exact congrArg some (congrArg File.pos (File.fseek_of_lt (File.offset_lt poi.1)))

/-- A number that the part of an area code lists is settled. -/
theorem telSettled_listed (ready : state.TelReady)
    (area : index < state.helper.poiHeader.telPoiIdxCnt)
    (listed : TelListed state.helper.fp.data (state.areaEnd index) telKUK telNUM) :
    state.TelSettled index telKUK telNUM := by
  -- The search finds the same POI for all variables, and its header and name are inside.
  obtain ⟨poi, inside, leads⟩ := telFind_listed ready area listed
  refine ⟨some (headerAt state.helper.fp.data poi), fun locals found finds => ?_, ?_⟩
  · obtain ⟨other, ended, place⟩ := leads locals
    rw [finds.unique ended, TelFound.LeadsTo, place]
    refine ⟨fun offset same => ?_, rfl⟩
    rw [← Option.some.inj same]
    exact inside.1
  · intro info same
    rw [← Option.some.inj same]
    exact nameSettled_inside inside.2

/--
A file with the area codes 2 and 3, both with the exchange 1.

Behind the index, the part of the first code has the number 6 there. That of the second has one
number, directly in front of its POI, whose name has 6 characters.
-/
def twoAreas (number : Nat) : File where
  data := leBytes 1 2 ++ leBytes 4 0 ++ leBytes 4 50 ++ leBytes 1 3 ++ leBytes 4 0 ++
    leBytes 4 82 ++ leBytes 4 1 ++ leBytes 4 0 ++ leBytes 2 6 ++ leBytes 4 18 ++
    leBytes 2 1 ++ leBytes 4 1 ++ leBytes 4 26 ++ leBytes 4 1 ++ leBytes 4 32 ++
    leBytes 2 number ++ leBytes 4 56 ++ leBytes 4 6 ++ leBytes 4 1 ++
    leBytes 2 1 ++ leBytes 4 1 ++ leBytes 4 50 ++ leBytes 4 1 ++ leBytes 4 64
  pos := 0
  addressable := by
    simp only [List.length_append, leBytes_length]
    omega

/-- A sido of that file. -/
def twoAreasState (number : Nat) : HelperState where
  helper := { bareHelper (twoAreas number) 0 0 with
    poiHeader := ⟨0, 0, 0, 0, 0, 0, 0, 0, 0, 2, 0, 0⟩ }
  textMng := bareTextMng ⟨List.replicate 12 65, 0, by decide⟩

/-- A call for which the searches come back comes back. -/
theorem returns_of_finds (ready : state.TelReady)
    (area : index < state.helper.poiHeader.telPoiIdxCnt) {locals : PoiLocals} {found : TelFound}
    (finds : Loop.Yields (state.telFind locals index telKUK telNUM) found) :
    Loop.Returns fun fuel =>
      state.searchTelNumberDDD locals fuel nSidoIdx (state.areaCode index) telKUK telNUM [] := by
  obtain ⟨_, ended, _⟩ := searchTelNumberDDD_inserts nSidoIdx ready area finds []
  exact ended.returns

end Union

end AndroidApps.Gildroia
