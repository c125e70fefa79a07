import AndroidApps.Gildroia.SidoIndex

/-! The walks along linked records of a sido file come to an end exactly when the links do. -/

namespace AndroidApps.Gildroia

section Chains

variable {α : Type} [InMemory α] (decode : List UInt8 → α) (width : Nat) (link : α → Nat)
  (keep : Nat → α → α)

/--
The records linked from the position of a file on come to an end.

All of them are read into one variable, and the last one has no link. A record that is cut off by
the end of the file is completed by what the variable held.
-/
inductive LinkChain : File → Nat → α → List α → Prop
  | last {fp : File} {own : Nat} {old : α} (ends : link (fp.fread decode width old).1 = 0) :
    LinkChain fp own old [(fp.fread decode width old).1]
  | next {fp : File} {own : Nat} {old : α} {rest : List α}
    (links : link (fp.fread decode width old).1 ≠ 0)
    -- The variable may be given the offset of its record before the next one is read over it.
    (later : LinkChain ((fp.fread decode width old).2.fseek (link (fp.fread decode width old).1))
      (link (fp.fread decode width old).1) (keep own (fp.fread decode width old).1) rest) :
    LinkChain fp own old ((fp.fread decode width old).1 :: rest)

/-- Keys are asked for one after the other, each of the one who answered for the last, and all of
them are answered for. -/
def Answered {ν : Type} (ask : ν → Nat → Nat → Option ν) : ν → List Nat → Prop
  | _, [] => True
  | asked, key :: rest => ∃ after, Loop.Yields (ask asked key) after ∧ Answered ask after rest

/-- Where a loop along linked records stands: the file, the offset of the record, the variable it
is read into, and whoever is asked for its key. -/
structure LinkPlace (α ν : Type) where
  fp : File
  own : Nat
  old : α
  asked : ν

/-- A pass reads a record and asks for its key: without an answer it goes wrong, else the link
decides. -/
def FollowsLinks {σ ρ ν : Type} (step : Nat → σ → σ ⊕ ρ) (good : ρ → Prop)
    (place : σ → LinkPlace α ν) (ask : ν → Nat → Nat → Option ν) (key : α → Nat) : Prop :=
  ∀ inner state,
    let here := place state
    let read := here.fp.fread decode width here.old
    match ask here.asked (key read.1) inner with
    | none => ∃ result, step inner state = .inr result ∧ ¬ good result
    | some after =>
      if link read.1 = 0 then ∃ result, step inner state = .inr result ∧ good result
      else ∃ next, step inner state = .inl next ∧
        place next = ⟨read.2.fseek (link read.1), link read.1, keep here.own read.1, after⟩

variable {decode width link keep}

section Loops

variable {σ ρ ν : Type} {step : Nat → σ → σ ⊕ ρ} {good : ρ → Prop} {place : σ → LinkPlace α ν}
  {ask : ν → Nat → Nat → Option ν} {key : α → Nat}

/-- A loop that came to a good end went along a chain, and all keys were answered for. -/
theorem FollowsLinks.chain (follows : FollowsLinks decode width link keep step good place ask key)
    (final : ∀ asked key, Loop.Final (ask asked key)) {inner fuel : Nat} {state : σ} {result : ρ}
    (ended : Loop.run (step inner) fuel state = some result) (right : good result) :
    ∃ records, LinkChain decode width link keep (place state).fp (place state).own
        (place state).old records ∧
      Answered ask (place state).asked (records.map key) := by
  -- The induction is on the passes that were made.
  induction fuel generalizing state with
  | zero => cases ended
  | succ fuel ih =>
    have pass := follows inner state
    dsimp only at pass
    split at pass
    · -- Without an answer the result would not be good.
      obtain ⟨wrong, left, bad⟩ := pass
      rw [Loop.run_leave left] at ended
      cases ended
      exact absurd right bad
    · rename_i after answered
      have answer := (final _ _).yields answered
      split at pass
      · rename_i ends
        exact ⟨_, .last ends, after, answer, trivial⟩
      · rename_i links
        obtain ⟨next, continued, placed⟩ := pass
        rw [Loop.run_continue continued] at ended
        obtain ⟨records, chain, answers⟩ := ih ended
        rw [placed] at chain answers
        exact ⟨_, .next links chain, after, answer, answers⟩

/-- Along a chain whose keys are all answered for, a loop comes to a good end. -/
theorem FollowsLinks.ends (follows : FollowsLinks decode width link keep step good place ask key)
    {fp : File} {own : Nat} {old : α} {records : List α}
    (chain : LinkChain decode width link keep fp own old records) :
    ∀ {asked : ν}, Answered ask asked (records.map key) →
      ∃ enough, ∀ inner fuel, enough ≤ inner → enough ≤ fuel → ∀ state,
        place state = ⟨fp, own, old, asked⟩ →
        ∃ result, Loop.run (step inner) fuel state = some result ∧ good result := by
  -- The induction is on the chain, whose first record is the one that the first pass reads.
  induction chain with
  | last ends =>
    rintro asked ⟨after, ⟨enough, answer⟩, _⟩
    refine ⟨enough + 1, fun inner fuel enoughInner enoughPasses state placed => ?_⟩
    obtain ⟨fuel, rfl⟩ : ∃ rest, fuel = rest + 1 := ⟨fuel - 1, by omega⟩
    have pass := follows inner state
    simp only [placed] at pass
    rw [answer inner (by omega)] at pass
    simp only [if_pos ends] at pass
    obtain ⟨result, left, right⟩ := pass
    exact ⟨result, Loop.run_leave left fuel, right⟩
  | next links later ih =>
    rintro asked ⟨after, ⟨enough, answer⟩, answers⟩
    obtain ⟨more, rest⟩ := ih answers
    refine ⟨max enough more + 1, fun inner fuel enoughInner enoughPasses state placed => ?_⟩
    obtain ⟨fuel, rfl⟩ : ∃ rest, fuel = rest + 1 := ⟨fuel - 1, by omega⟩
    have pass := follows inner state
    simp only [placed] at pass
    rw [answer inner (by omega)] at pass
    simp only [if_neg links] at pass
    obtain ⟨next, continued, placedNext⟩ := pass
    rw [Loop.run_continue continued]
    exact rest inner fuel (by omega) (by omega) next placedNext

/-- A loop along linked records comes to a good end exactly when there is a chain of them whose
keys are all answered for. -/
theorem FollowsLinks.ends_iff
    (follows : FollowsLinks decode width link keep step good place ask key)
    (final : ∀ asked key, Loop.Final (ask asked key)) (state : σ) :
    (∃ enough, ∀ fuel, enough ≤ fuel →
      ∃ result, Loop.run (step fuel) fuel state = some result ∧ good result) ↔
      ∃ records, LinkChain decode width link keep (place state).fp (place state).own
          (place state).old records ∧
        Answered ask (place state).asked (records.map key) := by
  constructor
  · rintro ⟨enough, ends⟩
    obtain ⟨result, ended, right⟩ := ends enough le_rfl
    exact follows.chain final ended right
  · rintro ⟨records, chain, answers⟩
    obtain ⟨enough, ends⟩ := follows.ends chain answers
    exact ⟨enough, fun fuel longer => ends fuel fuel longer longer state rfl⟩

end Loops

/-- Where each record that is read has a link, and the next one is in the same case, there is no
chain. -/
theorem not_linkChain_of_invariant (Inv : File → Nat → α → Prop)
    (linked : ∀ fp own old, Inv fp own old →
      let read := fp.fread decode width old
      link read.1 ≠ 0 ∧ Inv (read.2.fseek (link read.1)) (link read.1) (keep own read.1))
    {fp : File} {own : Nat} {old : α} (initial : Inv fp own old) {records : List α} :
    ¬ LinkChain decode width link keep fp own old records := by
  intro chain
  induction chain with
  | last ends => exact (linked _ _ _ initial).1 ends
  | next links later ih => exact ih (linked _ _ _ initial).2

end Chains

section Sigungus

/-- The sigungu records of a file come to an end: the first one stands behind `SIDO_DATA`. -/
def SigungusEnd (locals : AddressLocals) (fp : File) : Prop :=
  ∃ records, LinkChain SigunguDataF.decode 10 SigunguDataF.offset (fun _ record => record)
    (fp.moveTo 10) 10 { locals.sigunguF with offset := 10 } records

/-- The loop over the sigungus follows their links, and asks for nothing. -/
theorem loadSigunguPass_follows :
    FollowsLinks SigunguDataF.decode 10 SigunguDataF.offset (fun _ record => record)
      (fun _ => loadSigunguPass) (fun _ => True)
      (fun walk => ⟨walk.fp.fseek walk.sdF.offset, walk.sdF.offset, walk.sdF, ()⟩)
      (fun _ _ _ => some ()) SigunguDataF.code := by
  intro inner walk
  dsimp only
  split
  · rename_i ends
    exact ⟨_, by rw [loadSigunguPass]; exact if_neg (not_not.mpr ends), trivial⟩
  · rename_i links
    exact ⟨_, by rw [loadSigunguPass]; exact if_pos links, rfl⟩

/-- The constructor comes back exactly when the sigungu records come to an end. -/
theorem create_returns_iff (locals : AddressLocals) (fp : File) :
    Loop.Returns (fun fuel => SearchHelper.create locals fuel fp) ↔ SigungusEnd locals fp := by
  -- The headers are always read; what can run for ever is the loop over the sigungus.
  have opened := readHeaders_data locals fp
  have empty : (SearchHelper.readHeaders locals fp).sigunguDataFs = [] := by
    obtain ⟨_, _, _, _, _, headers⟩ := SearchHelper.readHeaders_lists locals fp
    rw [headers]
  generalize headers : SearchHelper.readHeaders locals fp = helper at opened empty
  have walked : ∀ fuel, (SearchHelper.create locals fuel fp).isSome = true ↔
      ∃ result, Loop.run loadSigunguPass fuel
        ⟨helper.fp, { locals.sigunguF with offset := 10 }, []⟩ = some result ∧ True := by
    intro fuel
    rw [SearchHelper.create, headers, SearchHelper.loadSigunguFDatas,
      if_neg (not_not.mpr empty), Option.isSome_map, Option.isSome_map, Option.isSome_iff_exists]
    simp only [and_true]
  have ends := loadSigunguPass_follows.ends_iff (fun _ _ => Loop.final_const _)
    ⟨helper.fp, { locals.sigunguF with offset := 10 }, []⟩
  have start : helper.fp.fseek 10 = fp.moveTo 10 := by
    rw [File.fseek_of_lt (by decide), File.moveTo_eq_of_data opened]
  simp only [Loop.Returns, walked]
  refine ends.trans (exists_congr fun records => ?_)
  dsimp only
  rw [start, and_iff_left]
  -- Nothing is asked for, and so everything is answered for.
  induction records with
  | nil => trivial
  | cons record rest ih => exact ⟨(), Loop.yields_of_eq fun _ => rfl, ih⟩

end Sigungus

section Names

/-- The same names: the tables of a text manager, whatever it was asked before. -/
structure TextMng.SameNames (mng other : TextMng) : Prop where
  nameFp : mng.nameFp.data = other.nameFp.data
  dongOfs : mng.dongOfs = other.dongOfs
  roadOfs : mng.roadOfs = other.roadOfs

theorem TextMng.SameNames.trans {first second third : TextMng} (one : first.SameNames second)
    (other : second.SameNames third) : first.SameNames third :=
  ⟨one.nameFp.trans other.nameFp, one.dongOfs.trans other.dongOfs, one.roadOfs.trans other.roadOfs⟩

/-- A lookup leaves the names as they are. -/
theorem getName_sameNames {width : KeyWidth} {nBufIdx : Fin 4} {junk fuel tableOfs key : Nat}
    {mng after : TextMng} {found : Option (List UInt16 × Nat)}
    (looked : mng.getName width nBufIdx junk fuel tableOfs key = some (found, after)) :
    after.SameNames mng := by
  -- Whether or not the key is found, only the position in the file of names changes.
  unfold TextMng.getName at looked
  simp only at looked
  split at looked
  · cases looked
  · rename_i fp searched
    cases looked
    exact ⟨by simpa using searchKeyValue_data searched, rfl, rfl⟩
  · rename_i fp searched
    cases looked
    refine ⟨?_, rfl, rfl⟩
    simpa [TextMng.getTextOfs] using searchKeyValue_data searched

/-- What a lookup comes back with is final. -/
theorem getName_final (mng : TextMng) (width : KeyWidth) (nBufIdx : Fin 4)
    (junk tableOfs key : Nat) :
    Loop.Final fun fuel => mng.getName width nBufIdx junk fuel tableOfs key := by
  -- The search over the table is all that takes passes.
  intro fuel more result looked longer
  unfold TextMng.getName at looked ⊢
  dsimp only at looked ⊢
  split at looked
  · cases looked
  · rename_i searched
    have again := searchKeyValue_final _ _ _ _ _ _ _ _ _ _ searched longer
    dsimp only at again
    rw [again]
    exact looked
  · rename_i searched
    have again := searchKeyValue_final _ _ _ _ _ _ _ _ _ _ searched longer
    dsimp only at again
    rw [again]
    exact looked

/-- The text manager behind the name of a dong, which has to be found. -/
def dongAnswer (nKeyValue : Nat) (textMng : TextMng) (code fuel : Nat) : Option TextMng :=
  (copiedName (textMng.getDongName nKeyValue fuel code)).map fun (_, _, after) => after

/-- The text manager behind the name of a road, which may have none. -/
def roadAnswer (nKeyValue : Nat) (textMng : TextMng) (code fuel : Nat) : Option TextMng :=
  (textMng.getRoadName nKeyValue fuel code).map Prod.snd

theorem dongAnswer_final (nKeyValue : Nat) (textMng : TextMng) (code : Nat) :
    Loop.Final (dongAnswer nKeyValue textMng code) := by
  intro fuel more result answered longer
  unfold dongAnswer copiedName at answered ⊢
  split at answered
  · rename_i looked
    rw [show textMng.getDongName nKeyValue more code = _ from
      getName_final _ _ _ _ _ _ _ _ _ looked longer]
    exact answered
  · cases answered

theorem roadAnswer_final (nKeyValue : Nat) (textMng : TextMng) (code : Nat) :
    Loop.Final (roadAnswer nKeyValue textMng code) :=
  (getName_final textMng .u32 3 nKeyValue textMng.roadOfs code).map Prod.snd

/-- A dong has a name that is found, whatever the text manager was asked before. -/
def DongNamed (textMng : TextMng) (code : Nat) : Prop :=
  ∀ nKeyValue, ∃ enough, ∀ fuel, enough ≤ fuel → ∀ mng : TextMng, mng.SameNames textMng →
    (copiedName (mng.getDongName nKeyValue fuel code)).isSome = true

end Names

section Calls

variable (locals : AddressLocals) (nSidoIdx sidoIdx : Nat) (pSigunguF : SigunguDataF)

/-- The loop over the dongs follows their links, and needs the name of each. -/
theorem dongDataPass_follows :
    FollowsLinks DongDataF.decode 18 DongDataF.offset (fun _ record => record)
      (fun fuel => dongDataPass locals fuel nSidoIdx sidoIdx pSigunguF)
      (fun result => result.isSome = true)
      (fun walk => ⟨walk.fp, walk.nextOffset, walk.ddF, walk.textMng⟩)
      (dongAnswer locals.nKeyValue)
      (fun ddF => dongCodeOf sidoIdx pSigunguF.code ddF.code) := by
  intro inner walk
  dsimp only
  unfold dongAnswer dongDataPass
  dsimp only
  cases copiedName (walk.textMng.getDongName locals.nKeyValue inner
    (dongCodeOf sidoIdx pSigunguF.code
      (walk.fp.fread DongDataF.decode 18 walk.ddF).1.code)) with
  | none => exact ⟨none, rfl, by simp⟩
  | some named =>
    obtain ⟨name, nLen, textMng⟩ := named
    dsimp only [Option.map_some]
    split
    · exact ⟨_, rfl, rfl⟩
    · exact ⟨_, rfl, rfl⟩

/-- The loop over the roads follows their links: a road without a name is left out, but the search
for the name has to come back. -/
theorem roadDataPass_follows :
    FollowsLinks RoadDataF.decode 10 RoadDataF.offset
      (fun own record => { record with offset := own })
      (fun fuel => roadDataPass locals fuel nSidoIdx sidoIdx pSigunguF)
      (fun result => result.isSome = true)
      (fun walk => ⟨walk.fp, walk.nextOffset, walk.info, walk.textMng⟩)
      (roadAnswer locals.nKeyValue)
      (fun info => dongCodeOf sidoIdx pSigunguF.code info.code) := by
  intro inner walk
  dsimp only
  unfold roadAnswer roadDataPass
  dsimp only
  cases walk.textMng.getRoadName locals.nKeyValue inner
    (dongCodeOf sidoIdx pSigunguF.code
      (walk.fp.fread RoadDataF.decode 10 walk.info).1.code) with
  | none => exact ⟨none, rfl, by simp⟩
  | some looked =>
    obtain ⟨found, textMng⟩ := looked
    dsimp only [Option.map_some]
    split
    · exact ⟨_, rfl, rfl⟩
    · exact ⟨_, rfl, rfl⟩

variable (state : HelperState) (sigunguOfs : Nat)

/--
The dong records behind a sigungu come to an end, and each of them has a name.

The sigungu is one that was loaded, and the first dong stands behind its record.
-/
def HelperState.DongsEnd : Prop :=
  let fp := state.helper.fp.fseek (u32 (sigunguOfs + 10))
  ∃ sigunguF records, state.helper.findSigunguOfOffset sigunguOfs false = some sigunguF ∧
    LinkChain DongDataF.decode 18 DongDataF.offset (fun _ record => record) fp fp.pos
      locals.dongF records ∧
    Answered (dongAnswer locals.nKeyValue) state.textMng
      (records.map fun ddF => dongCodeOf state.helper.sidoData.idx sigunguF.code ddF.code)

/-- A loaded sigungu has no road records, or they come to an end and each search for a name does,
too. -/
def HelperState.RoadsEnd : Prop :=
  ∃ sigunguF, state.helper.sigunguDataAt sigunguOfs = some sigunguF ∧
    (sigunguF.roadOfs ≠ 0 →
      let fp := state.helper.fp.fseek sigunguF.roadOfs
      ∃ records, LinkChain RoadDataF.decode 10 RoadDataF.offset
          (fun own record => { record with offset := own }) fp fp.pos locals.roadF records ∧
        Answered (roadAnswer locals.nKeyValue) state.textMng
          (records.map fun info => dongCodeOf state.helper.sidoData.idx sigunguF.code info.code))

/-- `GetDongData` comes back exactly when the dong records come to an end. -/
theorem getDongData_returns_iff :
    Loop.Returns (fun fuel => state.getDongData locals fuel nSidoIdx sigunguOfs) ↔
      state.DongsEnd locals sigunguOfs := by
  unfold HelperState.DongsEnd
  dsimp only
  cases found : state.helper.findSigunguOfOffset sigunguOfs false with
  | none =>
    -- Without a sigungu there is nothing to take the code from.
    refine iff_of_false ?_ (by simp)
    rintro ⟨enough, back⟩
    have := back enough le_rfl
    simp [HelperState.getDongData, found] at this
  | some sigunguF =>
    have looped : ∀ fuel, (state.getDongData locals fuel nSidoIdx sigunguOfs).isSome = true ↔
        ∃ result, Loop.run (dongDataPass locals fuel nSidoIdx state.helper.sidoData.idx sigunguF)
          fuel ⟨state.helper.fp.fseek (u32 (sigunguOfs + 10)), state.textMng, locals.dongF,
            (state.helper.fp.fseek (u32 (sigunguOfs + 10))).pos, []⟩ = some result ∧
          result.isSome = true := by
      intro fuel
      unfold HelperState.getDongData
      simp only [found]
      generalize Loop.run _ fuel _ = outcome
      rcases outcome with _ | _ | _ <;> simp
    simp only [Loop.Returns, looped]
    refine ((dongDataPass_follows locals nSidoIdx state.helper.sidoData.idx sigunguF).ends_iff
      (dongAnswer_final _) _).trans ?_
    simp

/-- `GetRoadData` comes back exactly when there are no road records or they come to an end. -/
theorem getRoadData_returns_iff :
    Loop.Returns (fun fuel => state.getRoadData locals fuel nSidoIdx sigunguOfs) ↔
      state.RoadsEnd locals sigunguOfs := by
  unfold HelperState.RoadsEnd
  dsimp only
  cases listed : state.helper.sigunguDataAt sigunguOfs with
  | none =>
    refine iff_of_false ?_ (by simp)
    rintro ⟨enough, back⟩
    have := back enough le_rfl
    simp [HelperState.getRoadData, listed] at this
  | some sigunguF =>
    by_cases roads : sigunguF.roadOfs = 0
    · -- Without roads the call comes back at once.
      refine iff_of_true ⟨0, fun fuel _ => ?_⟩ ⟨sigunguF, rfl, absurd roads⟩
      simp only [HelperState.getRoadData, listed, if_pos roads, Option.isSome_some]
    · have looped : ∀ fuel, (state.getRoadData locals fuel nSidoIdx sigunguOfs).isSome = true ↔
          ∃ result, Loop.run (roadDataPass locals fuel nSidoIdx state.helper.sidoData.idx sigunguF)
            fuel ⟨state.helper.fp.fseek sigunguF.roadOfs, state.textMng, locals.roadF,
              (state.helper.fp.fseek sigunguF.roadOfs).pos, []⟩ = some result ∧
            result.isSome = true := by
        intro fuel
        unfold HelperState.getRoadData
        simp only [listed, if_neg roads]
        generalize Loop.run _ fuel _ = outcome
        rcases outcome with _ | _ | _ <;> simp
      simp only [Loop.Returns, looped]
      refine ((roadDataPass_follows locals nSidoIdx state.helper.sidoData.idx sigunguF).ends_iff
        (roadAnswer_final _) _).trans ?_
      simp [roads]

/--
The walks along linked records end exactly when the records do.

That is the case for the sigungus of a file, the dongs of a sigungu and its roads.
-/
theorem chainWalkers_return_iff :
    (Loop.Returns (fun fuel => SearchHelper.create locals fuel state.helper.fp) ∧
      Loop.Returns (fun fuel => state.getDongData locals fuel nSidoIdx sigunguOfs) ∧
      Loop.Returns fun fuel => state.getRoadData locals fuel nSidoIdx sigunguOfs) ↔
      SigungusEnd locals state.helper.fp ∧ state.DongsEnd locals sigunguOfs ∧
        state.RoadsEnd locals sigunguOfs := by
  rw [create_returns_iff, getDongData_returns_iff, getRoadData_returns_iff]

/-- A sido file whose only sigungu record links to itself. -/
def selfLinked : File := ⟨List.replicate 16 0 ++ [10, 0, 0, 0], 0, by decide⟩

/-- A sido file that was cut off behind the code of its first sigungu. -/
def cutOffFile : File := ⟨List.replicate 12 0, 0, by decide⟩

/-- A file in which the record at 10 is read as linked to itself, again and again. -/
theorem not_sigungusEnd_self {fp : File}
    (self : ((fp.moveTo 10).fread SigunguDataF.decode 10 ⟨0, 0, 10⟩).1 = ⟨0, 0, 10⟩) :
    ¬ SigungusEnd zeroAddressLocals fp := by
  rintro ⟨records, chain⟩
  refine not_linkChain_of_invariant
    (fun file _ old => file = fp.moveTo 10 ∧ old = ⟨0, 0, 10⟩) ?_ ⟨rfl, rfl⟩ chain
  rintro file own old ⟨rfl, rfl⟩
  dsimp only
  rw [self]
  refine ⟨by decide, ?_, rfl⟩
  rw [File.fseek_of_lt (by decide)]
  exact File.moveTo_eq_of_data (by simp) 10

/-- A sido file whose only sigungu record links to itself, and one that was cut off. -/
theorem chainWalkers_hang :
    ¬ Loop.Returns (fun fuel => SearchHelper.create zeroAddressLocals fuel selfLinked) ∧
    ¬ Loop.Returns (fun fuel => SearchHelper.create zeroAddressLocals fuel cutOffFile) := by
  rw [create_returns_iff, create_returns_iff]
  exact ⟨not_sigungusEnd_self (by decide +kernel), not_sigungusEnd_self (by decide +kernel)⟩

end Calls

end AndroidApps.Gildroia
