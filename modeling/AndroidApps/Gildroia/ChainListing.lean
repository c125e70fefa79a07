import AndroidApps.Gildroia.BunjiListing
import AndroidApps.Gildroia.SigunguOfOffset

/-! The records of a chain are listed completely: each of them once, in the order of the links. -/

namespace AndroidApps.Gildroia

section Chains

/-- The link of a sigungu record. -/
def sigunguLink (bytes : List UInt8) : Nat := (SigunguDataF.decode bytes).offset

/-- The link of a dong record. -/
def dongLink (bytes : List UInt8) : Nat := (DongDataF.decode bytes).offset

/-- The link of a road record. -/
def roadLink (bytes : List UInt8) : Nat := (RoadDataF.decode bytes).offset

variable (data : List UInt8) (width : Nat) (link : List UInt8 → Nat)

/-- The positions of the records that are linked from one on, up to a record without a link. -/
inductive RecordChain : Nat → List Nat → Prop
  | last {position : Nat} (inside : position + width ≤ data.length)
    (ends : link (bytesAt data position width) = 0) : RecordChain position [position]
  | next {position : Nat} {rest : List Nat} (inside : position + width ≤ data.length)
    (links : link (bytesAt data position width) ≠ 0)
    (later : RecordChain (link (bytesAt data position width)) rest) :
    RecordChain position (position :: rest)

variable {data width link} {position : Nat} {records : List Nat}

/-- The first record of a chain is inside the file. -/
theorem RecordChain.inside (chain : RecordChain data width link position records) :
    position + width ≤ data.length := by
  cases chain with
  | last inside _ => exact inside
  | next inside _ _ => exact inside

/-- There is one chain from a record on. -/
theorem RecordChain.unique (chain : RecordChain data width link position records) :
    ∀ {others : List Nat}, RecordChain data width link position others → records = others := by
  -- The link of a record decides whether it is the last one, and which the next one is.
  induction chain with
  | last inside ends =>
    intro others other
    cases other with
    | last _ _ => rfl
    | next _ links _ => exact absurd ends links
  | next inside links later ih =>
    intro others other
    cases other with
    | last _ ends => exact absurd ends links
    | next _ _ later => rw [ih later]

/-- From each record of a chain on there is a chain, and it is not longer. -/
theorem RecordChain.behind (chain : RecordChain data width link position records) :
    ∀ {record : Nat}, record ∈ records →
      ∃ rest, RecordChain data width link record rest ∧ rest.length ≤ records.length := by
  -- The record is the first one, or a record of the chain behind the first one.
  induction chain with
  | last inside ends =>
    intro record member
    rw [List.mem_singleton.mp member]
    exact ⟨_, .last inside ends, le_rfl⟩
  | next inside links later ih =>
    intro record member
    rcases List.mem_cons.mp member with rfl | behind
    · exact ⟨_, .next inside links later, le_rfl⟩
    · obtain ⟨rest, chain, short⟩ := ih behind
      exact ⟨rest, chain, Nat.le_succ_of_le short⟩

/-- No record is on a chain twice. -/
theorem RecordChain.nodup (chain : RecordChain data width link position records) :
    records.Nodup := by
  induction chain with
  | last inside ends => exact List.nodup_singleton _
  | @next position rest inside links later ih =>
    refine List.nodup_cons.mpr ⟨?_, ih⟩
    -- The chain from a second place on would be as long as that from the first, and shorter.
    intro again
    obtain ⟨others, chain, short⟩ := later.behind again
    have same := (RecordChain.next inside links later).unique chain
    rw [← same, List.length_cons] at short
    omega

end Chains

section Listing

variable {α σ ρ : Type} {entry : Nat → Option (List α)}

/-- What the records of a chain are listed as, unless one of them cannot be listed. -/
def listing (entry : Nat → Option (List α)) : List Nat → Option (List α)
  | [] => some []
  | record :: rest => (entry record).bind fun own => (listing entry rest).map (own ++ ·)

/-- Records of which each is listed as it should be. -/
theorem listing_of_forall {want : Nat → List α} {records : List Nat}
    (listed : ∀ record ∈ records, entry record = some (want record)) :
    listing entry records = some (records.flatMap want) := by
  induction records with
  | nil => rfl
  | cons record rest ih =>
    rw [List.forall_mem_cons] at listed
    simp [listing, listed.1, ih listed.2]

/-- A listing has what each of its records is listed as. -/
theorem listing_mem {records : List Nat} {all : List α}
    (listed : listing entry records = some all) :
    ∀ record ∈ records, ∃ own, entry record = some own ∧ own ⊆ all := by
  -- The induction is on the records, and each lists its own part in front of the others.
  induction records generalizing all with
  | nil =>
    intro record member
    cases member
  | cons record rest ih =>
    simp only [listing, Option.bind_eq_some_iff, Option.map_eq_some_iff] at listed
    obtain ⟨own, here, behind, later, rfl⟩ := listed
    rw [List.forall_mem_cons]
    refine ⟨⟨own, here, List.subset_append_left _ _⟩, ?_⟩
    intro other member
    obtain ⟨entries, found, among⟩ := ih later other member
    exact ⟨entries, found, List.Subset.trans among (List.subset_append_right _ _)⟩

/--
A loop that lists the records of a chain, one in each pass.

In front of a pass the loop stands at a record, with what it has listed so far.
-/
structure ListsRecords (data : List UInt8) (width : Nat) (link : List UInt8 → Nat)
    (entry : Nat → Option (List α)) (step : σ → σ ⊕ ρ) (At : Nat → List α → σ → Prop)
    (Done : Option (List α) → ρ → Prop) : Prop where
  wrong : ∀ {record listed state}, At record listed state → record + width ≤ data.length →
    entry record = none → ∃ result, step state = .inr result ∧ Done none result
  last : ∀ {record listed state own}, At record listed state → record + width ≤ data.length →
    entry record = some own → link (bytesAt data record width) = 0 →
      ∃ result, step state = .inr result ∧ Done (some (listed ++ own)) result
  next : ∀ {record listed state own}, At record listed state → record + width ≤ data.length →
    entry record = some own → link (bytesAt data record width) ≠ 0 →
    link (bytesAt data record width) + width ≤ data.length →
      ∃ later, step state = .inl later ∧
        At (link (bytesAt data record width)) (listed ++ own) later

variable {data : List UInt8} {width : Nat} {link : List UInt8 → Nat} {step : σ → σ ⊕ ρ}
  {At : Nat → List α → σ → Prop} {Done : Option (List α) → ρ → Prop}

/-- With a pass for each record the loop has listed the chain, or met what cannot be listed. -/
theorem ListsRecords.run (lists : ListsRecords data width link entry step At Done) {start : Nat}
    {records : List Nat} (chain : RecordChain data width link start records) :
    ∀ fuel, records.length ≤ fuel → ∀ (listed : List α) (state : σ), At start listed state →
      ∃ result, Loop.run step fuel state = some result ∧
        Done ((listing entry records).map (listed ++ ·)) result := by
  -- The induction is on the chain, with what was listed in front of it.
  induction chain with
  | @last position inside ends =>
    intro fuel longer listed state placed
    obtain ⟨fuel, rfl⟩ : ∃ rest, fuel = rest + 1 := ⟨fuel - 1, by simp at longer; omega⟩
    cases own : entry position with
    | none =>
      obtain ⟨result, left, done⟩ := lists.wrong placed inside own
      exact ⟨result, Loop.run_leave left fuel, by simpa [listing, own] using done⟩
    | some entries =>
      obtain ⟨result, left, done⟩ := lists.last placed inside own ends
      exact ⟨result, Loop.run_leave left fuel, by simpa [listing, own] using done⟩
  | @next position rest inside links later ih =>
    intro fuel longer listed state placed
    rw [List.length_cons] at longer
    obtain ⟨fuel, rfl⟩ : ∃ rest, fuel = rest + 1 := ⟨fuel - 1, by omega⟩
    cases own : entry position with
    | none =>
      obtain ⟨result, left, done⟩ := lists.wrong placed inside own
      exact ⟨result, Loop.run_leave left fuel, by simpa [listing, own] using done⟩
    | some entries =>
      obtain ⟨next, continued, placedNext⟩ := lists.next placed inside own links later.inside
      obtain ⟨result, ran, done⟩ := ih fuel (by omega) _ next placedNext
      refine ⟨result, by rw [Loop.run_continue continued, ran], ?_⟩
      -- What was listed in front of the next record ends with the entries of this one.
      simpa [listing, own, Function.comp_def] using done

end Listing

section Walks

variable (data : List UInt8) (textMng : TextMng) (junk fuel sidoIdx : Nat)
  (pSigunguF : SigunguDataF)

/-- The sigungu record at an offset, with this offset in place of the link. -/
def sigunguAt (data : List UInt8) (offset : Nat) : SigunguDataF :=
  { SigunguDataF.decode (bytesAt data offset 10) with offset := offset }

/-- The code under which the name of the dong at an offset is looked up. -/
def dongKey (offset : Nat) : Nat := dongCodeOf sidoIdx pSigunguF.code (dongAt data offset).code

/-- The code under which the name of the road at an offset is looked up. -/
def roadKey (offset : Nat) : Nat := dongCodeOf sidoIdx pSigunguF.code (roadAt data offset).code

/-- A dong is listed if its name is found; without one the program fails. -/
def dongEntry (offset : Nat) : Option (List DongDataF) :=
  if textMng.finds .u32 2 junk fuel textMng.dongOfs (dongKey data sidoIdx pSigunguF offset) =
    some true
  then some [dongAt data offset] else none

/-- A road is listed if its name is found, and left out if there is none. -/
def roadEntry (offset : Nat) : Option (List RoadDataF) :=
  (textMng.finds .u32 3 junk fuel textMng.roadOfs (roadKey data sidoIdx pSigunguF offset)).map
    fun hit => if hit then [roadAt data offset] else []

variable {data textMng}

/-- The loop of `LoadSigunguFDatas` lists sigungu records. -/
theorem loadSigunguPass_lists :
    ListsRecords data 10 sigunguLink (fun record => some [sigunguAt data record]) loadSigunguPass
      (fun record listed walk =>
        walk.fp.data = data ∧ walk.sdF.offset = record ∧ walk.loaded = listed)
      (fun all result => all = some result.2) where
  wrong := by
    -- The link that is not the last one is where the next pass reads.
    intro record listed walk _ _ missing
    cases missing
  last := by
    intro record listed walk own placed inside here ends
    obtain ⟨rfl, rfl, rfl⟩ := placed
    cases here
    exact ⟨_, (loadSigunguPass_inside rfl inside).trans (if_neg (not_not.mpr ends)), rfl⟩
  next := by
    intro record listed walk own placed inside here links _
    obtain ⟨rfl, rfl, rfl⟩ := placed
    cases here
    exact ⟨_, (loadSigunguPass_inside rfl inside).trans (if_pos links), rfl, rfl, rfl⟩

variable (locals : AddressLocals) (nSidoIdx : Nat)

/-- A pass over a dong record inside the file: its name decides first, and then its link. -/
theorem dongDataPass_eq {walk : DongWalk} (inside : walk.fp.pos + 18 ≤ walk.fp.data.length)
    (placed : walk.nextOffset = walk.fp.pos) :
    dongDataPass locals fuel nSidoIdx sidoIdx pSigunguF walk =
      match copiedName (walk.textMng.getDongName locals.nKeyValue fuel
        (dongKey walk.fp.data sidoIdx pSigunguF walk.fp.pos)) with
      | none => .inr none
      | some (name, nLen, textMng) =>
        let bytes := bytesAt walk.fp.data walk.fp.pos 18
        let fp := walk.fp.moveTo (walk.fp.pos + 18)
        let dongDatas := walk.dongDatas ++
          [⟨nSidoIdx, pSigunguF, name, nLen, dongAt walk.fp.data walk.fp.pos⟩]
        if dongLink bytes = 0 then .inr (some (fp, textMng, dongDatas))
        else .inl ⟨fp.fseek (dongLink bytes), textMng, DongDataF.decode bytes, dongLink bytes,
          dongDatas⟩ := by
  unfold dongDataPass
  rw [File.fread_inside inside, placed]
  rfl

/-- The name of a dong that is listed is copied from the text manager of the walk. -/
theorem dongEntry_cases {walk : DongWalk} (same : walk.textMng.SameNames textMng)
    (low : textMng.dongOfs < 2 ^ 31) (offset : Nat) :
    let copied := copiedName (walk.textMng.getDongName locals.nKeyValue fuel
      (dongKey data sidoIdx pSigunguF offset))
    (copied = none ∧
      dongEntry data textMng locals.nKeyValue fuel sidoIdx pSigunguF offset = none) ∨
    ∃ name nLen next, copied = some (name, nLen, next) ∧ next.SameNames textMng ∧
      dongEntry data textMng locals.nKeyValue fuel sidoIdx pSigunguF offset =
        some [dongAt data offset] := by
  -- The name is found by the text manager of the walk exactly if it is found by the first one.
  intro copied
  have named : copied.isSome = true ↔ _ := (names_iff same low locals.nKeyValue _).trans
    names_iff_finds
  cases found : copied with
  | none =>
    refine .inl ⟨rfl, if_neg fun hit => ?_⟩
    rw [found] at named
    cases named.mpr hit
  | some name =>
    obtain ⟨name, nLen, next⟩ := name
    refine .inr ⟨name, nLen, next, rfl, (copiedName_sameNames found).trans same, if_pos ?_⟩
    exact named.mp (by rw [found]; rfl)

/-- The loop of `GetDongData` lists the dongs whose names are found. -/
theorem dongDataPass_lists (low : textMng.dongOfs < 2 ^ 31) :
    ListsRecords data 18 dongLink
      (dongEntry data textMng locals.nKeyValue fuel sidoIdx pSigunguF)
      (dongDataPass locals fuel nSidoIdx sidoIdx pSigunguF)
      (fun record listed walk =>
        (walk.fp.data = data ∧ walk.fp.pos = record ∧ walk.nextOffset = record) ∧
        walk.textMng.SameNames textMng ∧ walk.dongDatas.map DongData.info = listed)
      (fun all result =>
        all = result.map fun (_, _, dongDatas) => dongDatas.map DongData.info) := by
  refine ⟨?_, ?_, ?_⟩
  · intro record listed walk placed inside entry
    obtain ⟨⟨rfl, rfl, here⟩, same, rfl⟩ := placed
    rcases dongEntry_cases fuel sidoIdx pSigunguF locals same low walk.fp.pos with
      ⟨unnamed, _⟩ | ⟨_, _, _, _, _, named⟩
    · refine ⟨none, ?_, rfl⟩
      rw [dongDataPass_eq _ _ _ _ _ inside here, unnamed]
    · rw [named] at entry
      cases entry
  · intro record listed walk own placed inside entry ends
    obtain ⟨⟨rfl, rfl, here⟩, same, rfl⟩ := placed
    have pass := dongDataPass_eq fuel sidoIdx pSigunguF locals nSidoIdx inside here
    rcases dongEntry_cases fuel sidoIdx pSigunguF locals same low walk.fp.pos with
      ⟨_, missing⟩ | ⟨name, nLen, next, copied, _, named⟩
    · rw [missing] at entry
      cases entry
    · rw [named] at entry
      cases entry
      rw [copied] at pass
      exact ⟨_, pass.trans (if_pos ends), by simp⟩
  · intro record listed walk own placed inside entry links room
    obtain ⟨⟨rfl, rfl, here⟩, same, rfl⟩ := placed
    have pass := dongDataPass_eq fuel sidoIdx pSigunguF locals nSidoIdx inside here
    rcases dongEntry_cases fuel sidoIdx pSigunguF locals same low walk.fp.pos with
      ⟨_, missing⟩ | ⟨name, nLen, next, copied, kept, named⟩
    · rw [missing] at entry
      cases entry
    · rw [named] at entry
      cases entry
      rw [copied] at pass
      refine ⟨_, pass.trans (if_neg links), ⟨by simp, ?_, rfl⟩, kept, by simp⟩
      -- The next record is inside the file, so that the link can be followed.
      rw [File.fseek_of_lt (File.offset_lt room), File.moveTo_pos]

/-- A pass over a road record inside the file: the search for its name must come back. -/
theorem roadDataPass_eq {walk : RoadWalk} (inside : walk.fp.pos + 10 ≤ walk.fp.data.length)
    (placed : walk.nextOffset = walk.fp.pos) :
    roadDataPass locals fuel nSidoIdx sidoIdx pSigunguF walk =
      match walk.textMng.getRoadName locals.nKeyValue fuel
        (roadKey walk.fp.data sidoIdx pSigunguF walk.fp.pos) with
      | none => .inr none
      | some (found, textMng) =>
        let bytes := bytesAt walk.fp.data walk.fp.pos 10
        let fp := walk.fp.moveTo (walk.fp.pos + 10)
        let info := roadAt walk.fp.data walk.fp.pos
        let roadDatas := match found with
          | none => walk.roadDatas
          | some (text, nLen) => walk.roadDatas ++ [⟨nSidoIdx, pSigunguF, cString text, nLen, info⟩]
        if roadLink bytes = 0 then .inr (some (fp, textMng, roadDatas))
        else .inl ⟨fp.fseek (roadLink bytes), textMng, info, roadLink bytes, roadDatas⟩ := by
  unfold roadDataPass
  rw [File.fread_inside inside, placed]
  rfl

/-- What the search for the name of a road finds decides what is listed. -/
theorem roadEntry_cases {walk : RoadWalk} (same : walk.textMng.SameNames textMng)
    (low : textMng.roadOfs < 2 ^ 31) (offset : Nat) :
    let looked := walk.textMng.getRoadName locals.nKeyValue fuel
      (roadKey data sidoIdx pSigunguF offset)
    (looked = none ∧
      roadEntry data textMng locals.nKeyValue fuel sidoIdx pSigunguF offset = none) ∨
    ∃ found next, looked = some (found, next) ∧ next.SameNames textMng ∧
      roadEntry data textMng locals.nKeyValue fuel sidoIdx pSigunguF offset =
        some (if found.isSome then [roadAt data offset] else []) := by
  -- The buffers of the walk may differ from those at the start, but the names do not.
  intro looked
  have finds : textMng.finds .u32 3 locals.nKeyValue fuel textMng.roadOfs
      (roadKey data sidoIdx pSigunguF offset) = looked.map fun outcome => outcome.1.isSome := by
    rw [← finds_of_data same.nameFp low, ← same.roadOfs]
    rfl
  rw [roadEntry, finds]
  cases outcome : looked with
  | none => exact .inl ⟨rfl, rfl⟩
  | some result =>
    obtain ⟨found, next⟩ := result
    exact .inr ⟨found, next, rfl, (getName_sameNames outcome).trans same, rfl⟩

/-- The loop of `GetRoadData` lists the roads whose names are found. -/
theorem roadDataPass_lists (low : textMng.roadOfs < 2 ^ 31) :
    ListsRecords data 10 roadLink
      (roadEntry data textMng locals.nKeyValue fuel sidoIdx pSigunguF)
      (roadDataPass locals fuel nSidoIdx sidoIdx pSigunguF)
      (fun record listed walk =>
        (walk.fp.data = data ∧ walk.fp.pos = record ∧ walk.nextOffset = record) ∧
        walk.textMng.SameNames textMng ∧ walk.roadDatas.map RoadData.info = listed)
      (fun all result =>
        all = result.map fun (_, _, roadDatas) => roadDatas.map RoadData.info) := by
  refine ⟨?_, ?_, ?_⟩
  · intro record listed walk placed inside entry
    obtain ⟨⟨rfl, rfl, here⟩, same, rfl⟩ := placed
    rcases roadEntry_cases fuel sidoIdx pSigunguF locals same low walk.fp.pos with
      ⟨unanswered, _⟩ | ⟨_, _, _, _, answered⟩
    · refine ⟨none, ?_, rfl⟩
      rw [roadDataPass_eq _ _ _ _ _ inside here, unanswered]
    · rw [answered] at entry
      cases entry
  · intro record listed walk own placed inside entry ends
    obtain ⟨⟨rfl, rfl, here⟩, same, rfl⟩ := placed
    have pass := roadDataPass_eq fuel sidoIdx pSigunguF locals nSidoIdx inside here
    rcases roadEntry_cases fuel sidoIdx pSigunguF locals same low walk.fp.pos with
      ⟨_, missing⟩ | ⟨found, next, looked, _, answered⟩
    · rw [missing] at entry
      cases entry
    · rw [answered] at entry
      cases entry
      rw [looked] at pass
      refine ⟨_, pass.trans (if_pos ends), ?_⟩
      -- A road without a name adds nothing to the list.
      cases found <;> simp
  · intro record listed walk own placed inside entry links room
    obtain ⟨⟨rfl, rfl, here⟩, same, rfl⟩ := placed
    have pass := roadDataPass_eq fuel sidoIdx pSigunguF locals nSidoIdx inside here
    rcases roadEntry_cases fuel sidoIdx pSigunguF locals same low walk.fp.pos with
      ⟨_, missing⟩ | ⟨found, next, looked, kept, answered⟩
    · rw [missing] at entry
      cases entry
    · rw [answered] at entry
      cases entry
      rw [looked] at pass
      refine ⟨_, pass.trans (if_neg links), ⟨by simp, ?_, rfl⟩, kept, ?_⟩
      · rw [File.fseek_of_lt (File.offset_lt room), File.moveTo_pos]
      · cases found <;> simp

end Walks

section Calls

variable (state : HelperState) {sigunguOfs : Nat} {sigungus dongs roads : List Nat}

/-- `LoadSigunguFDatas` lists the whole chain, if nothing is loaded yet. -/
theorem loadSigunguFDatas_lists {helper : SearchHelper} {fuel : Nat} (locals : AddressLocals)
    (chain : RecordChain helper.fp.data 10 sigunguLink 10 sigungus)
    (empty : helper.sigunguDataFs = []) (longer : sigungus.length ≤ fuel) :
    (helper.loadSigunguFDatas locals fuel).map SearchHelper.sigunguDataFs =
      some (sigungus.map (sigunguAt helper.fp.data)) := by
  -- Every record of the chain lists exactly one sigungu.
  obtain ⟨result, ran, done⟩ := loadSigunguPass_lists.run chain fuel longer []
    ⟨helper.fp, { locals.sigunguF with offset := 10 }, []⟩ ⟨rfl, rfl, rfl⟩
  have listed : listing (fun record => some [sigunguAt helper.fp.data record]) sigungus = _ :=
    listing_of_forall fun record _ => rfl
  rw [listed, ← List.map_eq_flatMap] at done
  unfold SearchHelper.loadSigunguFDatas
  rw [if_neg (not_not.mpr empty)]
  dsimp only
  rw [ran]
  simpa using done.symm

/-- The records of the dongs that `GetDongData` lists, with a number of passes. -/
def HelperState.dongInfos (state : HelperState) (locals : AddressLocals) (nSidoIdx sigunguOfs : Nat)
    (fuel : Nat) : Option (List DongDataF) :=
  (state.getDongData locals fuel nSidoIdx sigunguOfs).map fun after =>
    after.helper.dongDatas.map DongData.info

/-- The records of the roads that `GetRoadData` lists, with a number of passes. -/
def HelperState.roadInfos (state : HelperState) (locals : AddressLocals) (nSidoIdx sigunguOfs : Nat)
    (fuel : Nat) : Option (List RoadDataF) :=
  (state.getRoadData locals fuel nSidoIdx sigunguOfs).map fun after =>
    after.helper.roadDatas.map RoadData.info

/-- What `GetDongData` lists with a number of passes, if it comes back. -/
theorem getDongData_lists {sigunguF : SigunguDataF} {fuel : Nat} (locals : AddressLocals)
    (nSidoIdx : Nat) (found : state.helper.findSigunguOfOffset sigunguOfs false = some sigunguF)
    (chain : RecordChain state.helper.fp.data 18 dongLink (sigunguOfs + 10) dongs)
    (low : state.textMng.dongOfs < 2 ^ 31) (longer : dongs.length ≤ fuel) :
    state.dongInfos locals nSidoIdx sigunguOfs fuel =
      listing (dongEntry state.helper.fp.data state.textMng locals.nKeyValue fuel
        state.helper.sidoData.idx sigunguF) dongs := by
  -- The first dong stands behind the record of the sigungu.
  have small : sigunguOfs + 10 < 2 ^ 31 := File.offset_lt chain.inside
  have moved : state.helper.fp.fseek (u32 (sigunguOfs + 10)) =
      state.helper.fp.moveTo (sigunguOfs + 10) := by
    rw [u32_of_lt (by omega), File.fseek_of_lt small]
  obtain ⟨result, ran, done⟩ := (dongDataPass_lists fuel state.helper.sidoData.idx sigunguF locals
    nSidoIdx low).run chain fuel longer []
    ⟨state.helper.fp.moveTo (sigunguOfs + 10), state.textMng, locals.dongF, sigunguOfs + 10, []⟩
    ⟨⟨rfl, rfl, rfl⟩, ⟨rfl, rfl, rfl⟩, rfl⟩
  unfold HelperState.dongInfos HelperState.getDongData
  rw [moved, found]
  dsimp only
  rw [File.moveTo_pos, ran]
  simp only [List.nil_append, Option.map_id'] at done
  rw [done]
  cases result with
  | none => rfl
  | some result => rfl

/-- What `GetRoadData` lists with a number of passes, if it comes back. -/
theorem getRoadData_lists {sigunguF : SigunguDataF} {fuel : Nat} (locals : AddressLocals)
    (nSidoIdx : Nat) (listed : state.helper.sigunguDataAt sigunguOfs = some sigunguF)
    (some_roads : sigunguF.roadOfs ≠ 0)
    (chain : RecordChain state.helper.fp.data 10 roadLink sigunguF.roadOfs roads)
    (low : state.textMng.roadOfs < 2 ^ 31) (longer : roads.length ≤ fuel) :
    state.roadInfos locals nSidoIdx sigunguOfs fuel =
      listing (roadEntry state.helper.fp.data state.textMng locals.nKeyValue fuel
        state.helper.sidoData.idx sigunguF) roads := by
  -- The first road is where the record of the sigungu says, which is not zero.
  obtain ⟨result, ran, done⟩ := (roadDataPass_lists fuel state.helper.sidoData.idx sigunguF locals
    nSidoIdx low).run chain fuel longer []
    ⟨state.helper.fp.moveTo sigunguF.roadOfs, state.textMng, locals.roadF, sigunguF.roadOfs, []⟩
    ⟨⟨rfl, rfl, rfl⟩, ⟨rfl, rfl, rfl⟩, rfl⟩
  unfold HelperState.roadInfos HelperState.getRoadData
  rw [listed]
  dsimp only
  rw [if_neg some_roads, File.fseek_of_lt (File.offset_lt chain.inside), File.moveTo_pos, ran]
  simp only [List.nil_append, Option.map_id'] at done
  rw [done]
  cases result with
  | none => rfl
  | some result => rfl

/-- The code of a road is found by the search for names, with a number of passes. -/
def RoadFound (data : List UInt8) (textMng : TextMng) (junk fuel sidoIdx : Nat)
    (pSigunguF : SigunguDataF) (road : Nat) : Prop :=
  textMng.finds .u32 3 junk fuel textMng.roadOfs (roadKey data sidoIdx pSigunguF road) = some true

instance (data : List UInt8) (textMng : TextMng) (junk fuel sidoIdx : Nat)
    (pSigunguF : SigunguDataF) :
    DecidablePred (RoadFound data textMng junk fuel sidoIdx pSigunguF) :=
  fun _ => inferInstanceAs (Decidable (_ = some true))

/-- Roads are listed where they are found, if the search comes back for each of them. -/
theorem listing_roadEntry {data : List UInt8} {textMng : TextMng} {junk fuel sidoIdx : Nat}
    {pSigunguF : SigunguDataF} {roads : List Nat} {all : List RoadDataF}
    (listed : listing (roadEntry data textMng junk fuel sidoIdx pSigunguF) roads = some all) :
    all = (roads.filter (RoadFound data textMng junk fuel sidoIdx pSigunguF)).map
      (roadAt data) := by
  induction roads generalizing all with
  | nil => exact (Option.some.inj listed).symm
  | cons road rest ih =>
    simp only [listing, Option.bind_eq_some_iff, Option.map_eq_some_iff] at listed
    obtain ⟨own, here, behind, later, rfl⟩ := listed
    obtain ⟨hit, searched, rfl⟩ := Option.map_eq_some_iff.mp here
    rw [List.filter_cons, ih later]
    cases hit with
    | false => simp [RoadFound, searched]
    | true => simp [RoadFound, searched]

/-- Where `GetRoadData` has come back, it has listed the roads of the chain that are found. -/
theorem getRoadData_infos {sigunguF : SigunguDataF} {fuel nSidoIdx : Nat} {locals : AddressLocals}
    {state after : HelperState} (own : state.helper.sigunguDataAt sigunguOfs = some sigunguF)
    (none : sigunguF.roadOfs = 0 → roads = [])
    (chain : sigunguF.roadOfs ≠ 0 →
      RecordChain state.helper.fp.data 10 roadLink sigunguF.roadOfs roads)
    (low : state.textMng.roadOfs < 2 ^ 31)
    (called : state.getRoadData locals fuel nSidoIdx sigunguOfs = some after) :
    after.helper.roadDatas.map RoadData.info =
      (roads.filter (RoadFound state.helper.fp.data state.textMng locals.nKeyValue fuel
        state.helper.sidoData.idx sigunguF)).map (roadAt state.helper.fp.data) := by
  unfold HelperState.getRoadData at called
  rw [own] at called
  dsimp only at called
  split at called
  · rename_i noRoads
    cases called
    rw [none noRoads]
    rfl
  · rename_i some_roads
    have chain := chain some_roads
    rw [File.fseek_of_lt (File.offset_lt chain.inside), File.moveTo_pos] at called
    split at called
    · rename_i fp textMng roadDatas ran
      cases called
      -- With a pass for each record the loop ends in the same way.
      obtain ⟨result, ran', done⟩ := (roadDataPass_lists fuel state.helper.sidoData.idx sigunguF
        locals nSidoIdx low).run chain (max fuel roads.length) (Nat.le_max_right _ _) []
        ⟨state.helper.fp.moveTo sigunguF.roadOfs, state.textMng, locals.roadF, sigunguF.roadOfs, []⟩
        ⟨⟨rfl, rfl, rfl⟩, ⟨rfl, rfl, rfl⟩, rfl⟩
      cases (Loop.run_mono ran (Nat.le_max_left _ _)).symm.trans ran'
      simp only [List.nil_append, Option.map_id', Option.map_some] at done
      exact listing_roadEntry done
    · cases called

end Calls

section Loaded

variable {locals : AddressLocals} {passes : Nat} {fp : File} {fresh helper : SearchHelper}
  {sigungus : List Nat}

@[simp] theorem loadLDongPairs_data (count nOffset nDCode : Nat) (fp : File) :
    (loadLDongPairs count nOffset nDCode fp).2.data = fp.data := by
  induction count generalizing nOffset nDCode fp with
  | zero => rfl
  | succ count ih => simp [loadLDongPairs, ih]

/-- The constructor leaves the file open. -/
theorem create_data (created : SearchHelper.create locals passes fp = some fresh) :
    fresh.fp.data = fp.data := by
  unfold SearchHelper.create at created
  obtain ⟨loaded, walked, rfl⟩ := Option.map_eq_some_iff.mp created
  simp [SearchHelper.loadLDongOffset, (loadSigunguFDatas_keeps walked).data]

/-- The constructor loads the sigungus of the file. -/
theorem create_sigunguDataFs (created : SearchHelper.create locals passes fp = some fresh)
    (chain : RecordChain fp.data 10 sigunguLink 10 sigungus) :
    fresh.sigunguDataFs = sigungus.map (sigunguAt fp.data) := by
  unfold SearchHelper.create at created
  obtain ⟨loaded, walked, rfl⟩ := Option.map_eq_some_iff.mp created
  have opened := readHeaders_data locals fp
  have empty : (SearchHelper.readHeaders locals fp).sigunguDataFs = [] := by
    obtain ⟨_, _, _, _, _, headers⟩ := SearchHelper.readHeaders_lists locals fp
    rw [headers]
  rw [← opened] at chain
  have all := loadSigunguFDatas_lists locals chain empty (Nat.le_max_right passes sigungus.length)
  -- With more passes the loop has the same result.
  have more : (SearchHelper.readHeaders locals fp).loadSigunguFDatas locals
      (max passes sigungus.length) = some loaded := by
    unfold SearchHelper.loadSigunguFDatas at walked ⊢
    rw [if_neg (not_not.mpr empty)] at walked ⊢
    obtain ⟨result, ran, rfl⟩ := Option.map_eq_some_iff.mp walked
    dsimp only
    rw [Loop.run_mono ran (Nat.le_max_left _ _)]
    rfl
  rw [more, Option.map_some, Option.some.injEq, opened] at all
  exact all

/-- In all states of a helper the same sigungus are loaded. -/
theorem Reached.sameLoads (reached : Reached fresh helper) : SameLoads fresh helper := by
  induction reached with
  | fresh => exact ⟨rfl, fun _ => rfl⟩
  | call _ called ih => exact ih.trans (after_sameLoads called)

/-- The sigungu at an offset is found among those loaded. -/
theorem sigunguDataAt_loaded {data : List UInt8} {sigunguOfs : Nat}
    (loaded : helper.sigunguDataFs = sigungus.map (sigunguAt data)) (own : sigunguOfs ∈ sigungus) :
    helper.sigunguDataAt sigunguOfs = some (sigunguAt data sigunguOfs) := by
  -- The record at the offset is among those loaded, so that the search finds one with this offset.
  obtain ⟨record, found⟩ := Option.isSome_iff_exists.mp
    (List.find?_isSome.mpr ⟨sigunguOfs, own, beq_self_eq_true sigunguOfs⟩ :
      (sigungus.find? (· == sigunguOfs)).isSome = true)
  have same : record = sigunguOfs := by simpa using List.find?_some found
  unfold SearchHelper.sigunguDataAt
  rw [loaded, List.find?_map]
  exact (congrArg (Option.map (sigunguAt data)) found).trans (by rw [same]; rfl)

/-- The lookup for dongs gives the last sigungu in front of the first one behind the offset. -/
theorem findSigunguOfOffset_loaded {data : List UInt8}
    (loaded : helper.sigunguDataFs = sigungus.map (sigunguAt data)) (sigunguOfs : Nat) :
    helper.findSigunguOfOffset sigunguOfs false =
      (sigungus.takeWhile (· ≤ sigunguOfs)).getLast?.map (sigunguAt data) := by
  unfold SearchHelper.findSigunguOfOffset
  rw [loaded, findSigunguFrom_eq, Option.or_none, List.takeWhile_map, List.getLast?_map]
  rfl

end Loaded

section Complete

/-- A code has a name if the table lists it. -/
def TextMng.Listed (textMng : TextMng) (tableOfs count code : Nat) : Prop :=
  ∃ index, index < count ∧ textMng.nameKey .u32 tableOfs index = code

instance (textMng : TextMng) (tableOfs count code : Nat) :
    Decidable (textMng.Listed tableOfs count code) :=
  inferInstanceAs (Decidable (∃ index, index < count ∧ _))

/-- The search for a name comes back with one, or without one, whatever its variables held. -/
def TextMng.Answers (textMng : TextMng) (nBufIdx : Fin 4) (tableOfs code : Nat) (hit : Bool) :
    Prop :=
  ∀ junk, Loop.Yields (fun fuel => textMng.finds .u32 nBufIdx junk fuel tableOfs code) hit

/-- A file with a chain of sigungus, and with those of the dongs and the roads of one of them. -/
structure SidoChains (data : List UInt8) (sigungus : List Nat) (sigunguOfs : Nat)
    (dongs roads : List Nat) : Prop where
  sigunguChain : RecordChain data 10 sigunguLink 10 sigungus
  own : sigunguOfs ∈ sigungus
  dongChain : RecordChain data 18 dongLink (sigunguOfs + 10) dongs
  noRoads : (sigunguAt data sigunguOfs).roadOfs = 0 → roads = []
  roadChain : (sigunguAt data sigunguOfs).roadOfs ≠ 0 →
    RecordChain data 10 roadLink (sigunguAt data sigunguOfs).roadOfs roads

/-- The code of a road of a sigungu has a name, in a table with this number of entries. -/
def RoadNamed (data : List UInt8) (state : HelperState) (sigunguOfs roadCount road : Nat) : Prop :=
  state.textMng.Listed state.textMng.roadOfs roadCount
    (roadKey data state.helper.sidoData.idx (sigunguAt data sigunguOfs) road)

instance (data : List UInt8) (state : HelperState) (sigunguOfs roadCount road : Nat) :
    Decidable (RoadNamed data state sigunguOfs roadCount road) :=
  inferInstanceAs (Decidable (TextMng.Listed _ _ _ _))

/--
The chains of a file are listed completely.

Each record is listed once, as it is stored, with its own offset in place of the link.
Of the roads only those are listed whose codes have names.
-/
structure ChainsListed (data : List UInt8) (state : HelperState) (nSidoIdx : Nat)
    (sigungus : List Nat) (sigunguOfs : Nat) (dongs roads : List Nat) (roadCount : Nat) :
    Prop where
  loadsSigungus : ∀ locals (unloaded : SearchHelper), unloaded.fp.data = data →
    unloaded.sigunguDataFs = [] → Loop.Yields
      (fun fuel => (unloaded.loadSigunguFDatas locals fuel).map SearchHelper.sigunguDataFs)
      (sigungus.map (sigunguAt data))
  listsDongs : ∀ locals, Loop.Yields (state.dongInfos locals nSidoIdx sigunguOfs)
    (dongs.map (dongAt data))
  listsRoads : ∀ locals, Loop.Yields (state.roadInfos locals nSidoIdx sigunguOfs)
    ((roads.filter fun road => RoadNamed data state sigunguOfs roadCount road).map (roadAt data))
  once : sigungus.Nodup ∧ dongs.Nodup ∧ roads.Nodup
  emptyRoads : ∀ locals listed, Loop.Yields (state.roadInfos locals nSidoIdx sigunguOfs) listed →
    (listed = [] ↔ (sigunguAt data sigunguOfs).roadOfs = 0 ∨
      ∀ road ∈ roads, ¬ RoadNamed data state sigunguOfs roadCount road)

variable {sigungus dongs roads : List Nat} {sigunguOfs roadCount : Nat}

/-- `GetDongData` lists the whole chain exactly when the code of each dong is found. -/
theorem dongInfos_iff (state : HelperState) (nSidoIdx : Nat)
    (loaded : state.helper.sigunguDataFs = sigungus.map (sigunguAt state.helper.fp.data))
    (chain : RecordChain state.helper.fp.data 18 dongLink (sigunguOfs + 10) dongs)
    (low : state.textMng.dongOfs < 2 ^ 31) :
    (∀ locals, Loop.Yields (state.dongInfos locals nSidoIdx sigunguOfs)
      (dongs.map (dongAt state.helper.fp.data))) ↔
      ∃ here, (sigungus.takeWhile (· ≤ sigunguOfs)).getLast? = some here ∧
        ∀ dong ∈ dongs, state.textMng.Answers 2 state.textMng.dongOfs
          (dongKey state.helper.fp.data state.helper.sidoData.idx
            (sigunguAt state.helper.fp.data here) dong) true := by
  have lookup := findSigunguOfOffset_loaded loaded sigunguOfs
  constructor
  · intro listed
    cases last : (sigungus.takeWhile (· ≤ sigunguOfs)).getLast? with
    | none =>
      -- Without a sigungu in front of the offset the call does not come back.
      rw [last] at lookup
      obtain ⟨enough, yields⟩ := listed zeroAddressLocals
      have back := yields enough le_rfl
      unfold HelperState.dongInfos HelperState.getDongData at back
      rw [lookup] at back
      cases back
    | some here =>
      rw [last] at lookup
      refine ⟨here, rfl, fun dong member junk => ?_⟩
      obtain ⟨enough, yields⟩ := listed { zeroAddressLocals with nKeyValue := junk }
      refine ⟨max enough dongs.length, fun fuel longer => ?_⟩
      have back := yields fuel ((Nat.le_max_left _ _).trans longer)
      rw [getDongData_lists state _ nSidoIdx lookup chain low
        ((Nat.le_max_right _ _).trans longer)] at back
      obtain ⟨own, entry, _⟩ := listing_mem back dong member
      exact (Option.ite_none_right_eq_some.mp entry).1
  · rintro ⟨here, last, named⟩ locals
    rw [last] at lookup
    obtain ⟨enough, all⟩ := Loop.enough_forall_mem fun dong member =>
      named dong member locals.nKeyValue
    refine ⟨max enough dongs.length, fun fuel longer => ?_⟩
    rw [getDongData_lists state locals nSidoIdx lookup chain low
      ((Nat.le_max_right _ _).trans longer),
      List.map_eq_flatMap]
    refine listing_of_forall fun dong member => if_pos ?_
    exact all fuel ((Nat.le_max_left _ _).trans longer) dong member

/-- The records that pass a test, listed one by one. -/
theorem flatMap_filter {α : Type} (test : Nat → Bool) (record : Nat → α) (records : List Nat) :
    records.flatMap (fun offset => if test offset then [record offset] else []) =
      (records.filter test).map record := by
  induction records with
  | nil => rfl
  | cons offset rest ih =>
    rw [List.flatMap_cons, ih, List.filter_cons]
    cases test offset <;> rfl

/-- `GetRoadData` leaves out just the roads without names exactly when the search misses them. -/
theorem roadInfos_iff (state : HelperState) (nSidoIdx : Nat)
    (loaded : state.helper.sigunguDataFs = sigungus.map (sigunguAt state.helper.fp.data))
    (stored : SidoChains state.helper.fp.data sigungus sigunguOfs dongs roads)
    (names : NameTable state.textMng .u32 state.textMng.roadOfs roadCount) :
    (∀ locals, Loop.Yields (state.roadInfos locals nSidoIdx sigunguOfs)
      ((roads.filter fun road => RoadNamed state.helper.fp.data state sigunguOfs roadCount road).map
        (roadAt state.helper.fp.data))) ↔
      ∀ road ∈ roads, ¬ RoadNamed state.helper.fp.data state sigunguOfs roadCount road →
        state.textMng.Answers 3 state.textMng.roadOfs
          (roadKey state.helper.fp.data state.helper.sidoData.idx
            (sigunguAt state.helper.fp.data sigunguOfs) road) false := by
  have lookup := sigunguDataAt_loaded loaded stored.own
  have low := File.offset_lt names.inside
  by_cases without : (sigunguAt state.helper.fp.data sigunguOfs).roadOfs = 0
  · -- The call comes back with the empty list at once.
    rw [stored.noRoads without]
    refine iff_of_true (fun locals => ⟨0, fun fuel _ => ?_⟩) fun road member => nomatch member
    unfold HelperState.roadInfos HelperState.getRoadData
    rw [lookup]
    dsimp only
    rw [if_pos without]
    rfl
  have chain := stored.roadChain without
  constructor
  · intro listed road member unnamed junk
    obtain ⟨enough, yields⟩ := listed { zeroAddressLocals with nKeyValue := junk }
    refine ⟨max enough roads.length, fun fuel longer => ?_⟩
    have back := yields fuel ((Nat.le_max_left _ _).trans longer)
    rw [getRoadData_lists state _ nSidoIdx lookup without chain low
      ((Nat.le_max_right _ _).trans longer)] at back
    obtain ⟨own, entry, among⟩ := listing_mem back road member
    obtain ⟨hit, found, rfl⟩ := Option.map_eq_some_iff.mp entry
    cases hit with
    | false => exact found
    | true =>
      -- A road found under a code that is not listed would be on the list, with its own offset.
      obtain ⟨other, kept, same⟩ := List.mem_map.mp (among List.mem_cons_self)
      have own : other = road := congrArg RoadDataF.offset same
      rw [own] at kept
      exact absurd (of_decide_eq_true (List.mem_filter.mp kept).2) unnamed
  · intro missed locals
    have each : ∀ road ∈ roads, Loop.Yields
        (fun fuel => state.textMng.finds .u32 3 locals.nKeyValue fuel state.textMng.roadOfs
          (roadKey state.helper.fp.data state.helper.sidoData.idx
            (sigunguAt state.helper.fp.data sigunguOfs) road))
        (decide (RoadNamed state.helper.fp.data state sigunguOfs roadCount road)) := by
      intro road member
      by_cases named : RoadNamed state.helper.fp.data state sigunguOfs roadCount road
      · obtain ⟨index, bound, key⟩ := id named
        rw [decide_eq_true named, ← key]
        exact names.finds bound 3 locals.nKeyValue
      · rw [decide_eq_false named]
        exact missed road member named locals.nKeyValue
    obtain ⟨enough, all⟩ := Loop.enough_forall_mem each
    refine ⟨max enough roads.length, fun fuel longer => ?_⟩
    rw [getRoadData_lists state locals nSidoIdx lookup without chain low
      ((Nat.le_max_right _ _).trans longer), ← flatMap_filter]
    refine listing_of_forall fun road member => ?_
    exact congrArg (Option.map _) (all fuel ((Nat.le_max_left _ _).trans longer) road member)

/--
The chains of a sido file are listed completely unless a name decides otherwise.

The dongs of a sigungu are named under the last sigungu that the links lead to in front of the first
one behind it, which is the sigungu itself if the links go forwards. The roads without a name are
left out if the search for it comes back without a hit.
-/
theorem chainsListed_iff {locals : AddressLocals} {passes : Nat} {fp : File}
    {fresh helper : SearchHelper} (created : SearchHelper.create locals passes fp = some fresh)
    (reached : Reached fresh helper) {textMng : TextMng}
    (placed : textMng.dongOfs ≤ textMng.nameFp.data.length)
    (names : NameTable textMng .u32 textMng.roadOfs roadCount)
    (stored : SidoChains fp.data sigungus sigunguOfs dongs roads) (nSidoIdx : Nat) :
    ChainsListed fp.data ⟨helper, textMng⟩ nSidoIdx sigungus sigunguOfs dongs roads roadCount ↔
      (∃ here, (sigungus.takeWhile (· ≤ sigunguOfs)).getLast? = some here ∧
        ∀ dong ∈ dongs, textMng.Answers 2 textMng.dongOfs
          (dongKey fp.data helper.sidoData.idx (sigunguAt fp.data here) dong) true) ∧
      ∀ road ∈ roads, ¬ RoadNamed fp.data ⟨helper, textMng⟩ sigunguOfs roadCount road →
        textMng.Answers 3 textMng.roadOfs
          (roadKey fp.data helper.sidoData.idx (sigunguAt fp.data sigunguOfs) road) false := by
  -- The list of sigungus is loaded once, so that only the names of dongs and roads are left open.
  have opened : helper.fp.data = fp.data :=
    (reached.holds created).opened.trans (create_data created)
  have first := create_sigunguDataFs created stored.sigunguChain
  have filled : fresh.sigunguDataFs ≠ [] := by
    rw [first]
    simp [List.ne_nil_of_mem stored.own]
  have loaded := (reached.sameLoads.sigunguDataFs filled).trans first
  rw [← opened] at loaded stored ⊢
  have low : textMng.dongOfs < 2 ^ 31 := Nat.lt_of_le_of_lt placed textMng.nameFp.addressable
  have dongsListed := dongInfos_iff ⟨helper, textMng⟩ nSidoIdx loaded stored.dongChain low
  have roadsListed := roadInfos_iff ⟨helper, textMng⟩ nSidoIdx loaded stored names
  constructor
  · intro listed
    exact ⟨dongsListed.mp listed.listsDongs, roadsListed.mp listed.listsRoads⟩
  · rintro ⟨dongNames, roadNames⟩
    have lists := roadsListed.mpr roadNames
    refine ⟨?_, dongsListed.mpr dongNames, lists, ?_, ?_⟩
    · intro locals unloaded same empty
      refine ⟨sigungus.length, fun fuel longer => ?_⟩
      have chain := stored.sigunguChain
      rw [← same] at chain ⊢
      exact loadSigunguFDatas_lists locals chain empty longer
    · refine ⟨stored.sigunguChain.nodup, stored.dongChain.nodup, ?_⟩
      by_cases without : (sigunguAt helper.fp.data sigunguOfs).roadOfs = 0
      · rw [stored.noRoads without]
        exact List.nodup_nil
      · exact (stored.roadChain without).nodup
    · intro locals listed yields
      rw [yields.unique (lists locals), List.map_eq_nil_iff, List.filter_eq_nil_iff]
      simp only [decide_eq_true_eq]
      refine ⟨.inr, ?_⟩
      rintro (without | unnamed)
      · rw [stored.noRoads without]
        exact fun road member => nomatch member
      · exact unnamed

/-- A text manager with one table of names for dongs and roads, of three codes. -/
def regionNames (first second third : Nat) : TextMng where
  textFp := ⟨[0x00, 0xAC, 0x01, 0xAC], 0, (by decide : 4 < 2 ^ 31)⟩
  nameFp := ⟨[3, first, 1, second, 1, third, 1].flatMap (leBytes 4), 0, by simp⟩
  sidoOfs := 0
  sigunguOfs := 0
  dongOfs := 0
  roadOfs := 0
  textBuff := fun _ => List.replicate 32 0
  sized := zeros_sized

/-- A sido file with one sigungu at 10, which has a dong at 20 and two roads at 38 and at 48. -/
def roadsFile : File where
  data := leBytes 10 0 ++ leBytes 2 1 ++ leBytes 4 38 ++ leBytes 4 0 ++
    dongBytes 1 0 0 4 0 ++ leBytes 4 1 ++ leBytes 2 0 ++ leBytes 4 48 ++
    leBytes 4 5 ++ leBytes 2 0 ++ leBytes 4 0 ++ leBytes 16 0
  pos := 0
  addressable := by decide +kernel

/-- The helper constructed for that file. -/
def roadsHelper : SearchHelper :=
  (SearchHelper.create zeroAddressLocals 10 roadsFile).get (by decide +kernel)

theorem roadsHelper_created :
    SearchHelper.create zeroAddressLocals 10 roadsFile = some roadsHelper :=
  (Option.some_get _).symm

theorem roadsFile_stored : SidoChains roadsFile.data [10] 10 [20] [38, 48] where
  sigunguChain := .last (by decide +kernel) (by decide +kernel)
  own := List.mem_cons_self
  dongChain := .last (by decide +kernel) (by decide +kernel)
  noRoads := fun without => absurd without (by decide +kernel)
  roadChain := fun _ => .next (by decide +kernel) (by decide +kernel)
    (.last (by decide +kernel) (by decide +kernel))

/-- The dong and the road with the name of its code are listed, and the other road is left out. -/
theorem chainsListed_iff_roads :
    ChainsListed roadsFile.data ⟨roadsHelper, regionNames 100001 100003 100009⟩ 0 [10] 10 [20]
      [38, 48] 3 := by
  have names : NameTable (regionNames 100001 100003 100009) .u32 0 3 :=
    ⟨by decide +kernel, by decide +kernel, by decide +kernel⟩
  refine (chainsListed_iff roadsHelper_created .fresh (Nat.zero_le _) names roadsFile_stored
    0).mpr ⟨⟨10, rfl, ?_⟩, ?_⟩
  · intro dong member junk
    rw [List.mem_singleton.mp member, show dongKey roadsFile.data roadsHelper.sidoData.idx
      (sigunguAt roadsFile.data 10) 20 = (regionNames 100001 100003 100009).nameKey .u32 0 0 by
        decide +kernel]
    exact names.finds (by decide) 2 junk
  · intro road member unnamed junk
    rcases List.mem_cons.mp member with rfl | last
    · exact absurd (by decide +kernel) unnamed
    · -- The code of the second road is between the second and the third name.
      rw [List.mem_singleton.mp last, show roadKey roadsFile.data roadsHelper.sidoData.idx
        (sigunguAt roadsFile.data 10) 48 = 100005 by decide +kernel]
      have gap : KeyGap (regionNames 100001 100003 100009).nameFp .u32 100005 4 8 3 2 :=
        ⟨by decide, by decide +kernel, by decide +kernel⟩
      refine names.misses gap (fun first => nomatch first) ?_ 3
      intro stray
      exact absurd (stray.1 2 (by decide)) (by decide +kernel)

/-- A sido file with three sigungus, of which the second one in the file is linked last. -/
def backwardsFile : File where
  data := leBytes 10 0 ++ leBytes 2 1 ++ leBytes 4 0 ++ leBytes 4 66 ++ dongBytes 1 0 0 4 0 ++
    leBytes 2 2 ++ leBytes 4 0 ++ leBytes 4 0 ++ dongBytes 2 0 0 4 0 ++
    leBytes 2 3 ++ leBytes 4 0 ++ leBytes 4 38 ++ dongBytes 3 0 0 4 0 ++ leBytes 16 0
  pos := 0
  addressable := by decide +kernel

/-- The helper constructed for that file. -/
def backwardsHelper : SearchHelper :=
  (SearchHelper.create zeroAddressLocals 10 backwardsFile).get (by decide +kernel)

theorem backwardsHelper_created :
    SearchHelper.create zeroAddressLocals 10 backwardsFile = some backwardsHelper :=
  (Option.some_get _).symm

theorem backwardsFile_stored : SidoChains backwardsFile.data [10, 66, 38] 38 [48] [] where
  sigunguChain := .next (by decide +kernel) (by decide +kernel) (.next (by decide +kernel)
    (by decide +kernel) (.last (by decide +kernel) (by decide +kernel)))
  own := by decide
  dongChain := .last (by decide +kernel) (by decide +kernel)
  noRoads := fun _ => rfl
  roadChain := fun roads => absurd (by decide +kernel) roads

/--
The dong of the sigungu that is linked last is not listed, although its code has a name.

The lookup stops at the sigungu in front, as the one behind it begins behind the offset.
-/
theorem chainsListed_backwards :
    SearchHelper.create zeroAddressLocals 10 backwardsFile = some backwardsHelper ∧
    NameTable (regionNames 100001 200002 300003) .u32 0 3 ∧
    SidoChains backwardsFile.data [10, 66, 38] 38 [48] [] ∧
    (∀ dong ∈ [48], (regionNames 100001 200002 300003).Listed 0 3
      (dongKey backwardsFile.data backwardsHelper.sidoData.idx (sigunguAt backwardsFile.data 38)
        dong)) ∧
    ¬ ChainsListed backwardsFile.data ⟨backwardsHelper, regionNames 100001 200002 300003⟩ 0
      [10, 66, 38] 38 [48] [] 3 := by
  have names : NameTable (regionNames 100001 200002 300003) .u32 0 3 :=
    ⟨by decide +kernel, by decide +kernel, by decide +kernel⟩
  refine ⟨backwardsHelper_created, names, backwardsFile_stored, by decide +kernel, ?_⟩
  intro listed
  have opened : backwardsHelper.fp.data = backwardsFile.data := by decide +kernel
  have lists := listed.listsDongs
  rw [← opened] at lists
  -- The dong would be listed under the code that it has in the first sigungu.
  obtain ⟨here, last, named⟩ := (dongInfos_iff ⟨backwardsHelper, _⟩ 0
    (show backwardsHelper.sigunguDataFs = [10, 66, 38].map _ by decide +kernel)
    (opened ▸ backwardsFile_stored.dongChain) (Nat.two_pow_pos 31)).mp lists
  rw [show here = 10 by simpa using last.symm] at named
  obtain ⟨enough, found⟩ := named 48 List.mem_cons_self 0
  rw [show dongKey backwardsHelper.fp.data backwardsHelper.sidoData.idx _ 48 = 100002 by
    decide +kernel] at found
  have missed : (regionNames 100001 200002 300003).finds .u32 2 0 3 0 100002 = some false := by
    decide +kernel
  exact absurd ((finds_final _ _ _ _ _ _).unique missed (found enough le_rfl)) (by decide)

end Complete

end AndroidApps.Gildroia
