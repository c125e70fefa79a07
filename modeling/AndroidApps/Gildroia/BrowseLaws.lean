import AndroidApps.Gildroia.BrowseFrame
import AndroidApps.Gildroia.ChainListing

/-! Over every run of browsing calls, when a call works on what the calls before it asked for. -/

namespace AndroidApps.Gildroia

open Machine

section History

/-- A bunji with the place of the helper that listed it, and the dong its pointer meant then. -/
structure ListedBunji where
  sido : Nat
  bunji : BunjiData
  dong : Option DongData
  deriving DecidableEq

/--
What the calls of a run have asked for.

This is a record of the calls: it is not read by any of them.
-/
structure Asked where
  /-- The sido of the last `GetSigunguCount`. -/
  sido : Option Nat
  /-- The bunjis listed last. -/
  listed : List ListedBunji
  /-- The slots written since then. -/
  rewritten : Slot → Bool
  /-- The bunji of the last `GetHoCount`. -/
  selected : Option ListedBunji
  /-- Whether no bunjis have been listed since. -/
  current : Bool

/-- Nothing has been asked for. -/
def Asked.nothing : Asked := ⟨none, [], fun _ => false, none, false⟩

/-- The bunjis listed, each with the dong its pointer means at this moment. -/
def Browser.listing (browser : Browser) : List ListedBunji :=
  match browser.pBunjiData with
  | none => []
  | some sido =>
    match browser.um.helpers[sido]? with
    | none => []
    | some helper =>
      helper.bunjiDatas.map fun bunji => ⟨sido, bunji, browser.um.dongOf bunji.pDong⟩

/-- A slot of the dongs that a sido lists. -/
def Slot.isDongOf (sido : Option Nat) : Slot → Bool
  | .dong place _ => sido == some place
  | _ => false

/-- A slot of the dongs found by name. -/
def Slot.isDongName : Slot → Bool
  | .dongName _ => true
  | _ => false

/-- The record after a call, given the variables before and after it. -/
def Asked.after (asked : Asked) (before : Browser) (request : BrowseCall) (after : Browser) :
    Asked :=
  match request with
  | .getSigunguCount sidoIdx => { asked with sido := some sidoIdx }
  | .getDongCount _ =>
    { asked with rewritten := fun slot => asked.rewritten slot || slot.isDongOf asked.sido }
  | .getSearchDongCount _ _ =>
    { asked with rewritten := fun slot => asked.rewritten slot || slot.isDongName }
  | .getBunjiCount _ =>
    -- Without dongs to choose from, nothing is listed.
    if before.pDongData.isNone then asked
    else { asked with listed := after.listing, rewritten := fun _ => false, current := false }
  | .getRoadBunjiCount _ =>
    if before.pRoadData.isNone then asked
    else { asked with listed := after.listing, rewritten := fun _ => false, current := false }
  | .getHoCount bunjiIdx =>
    { asked with selected := asked.listed[bunjiIdx]?, current := true }
  | .jniGetHoData _ | .getRoadCount _ | .getSearchRoadCount _ _ | .getRoadHoCount _ => asked

/-- The variables together with the record of the calls that led to them. -/
structure Session where
  browser : Browser
  asked : Asked

/-- A session behind `InitModule`. -/
def Session.start (um : UmSearchModule) : Session := ⟨.start um, .nothing⟩

/-- One call, with the record kept beside it. -/
def Session.call (fuel : Nat) (session : Session) (input : BrowseInput) :
    Option (BrowseAnswer × Session) :=
  (session.browser.call fuel input).map fun (answer, next) =>
    (answer, ⟨next, session.asked.after session.browser input.request next⟩)

/-- A call of a session is a call on its variables. -/
theorem Session.call_some {fuel : Nat} {session next : Session} {input : BrowseInput}
    {answer : BrowseAnswer} (called : session.call fuel input = some (answer, next)) :
    session.browser.call fuel input = some (answer, next.browser) ∧
      next.asked = session.asked.after session.browser input.request next.browser := by
  obtain ⟨outcome, returned, same⟩ := Option.map_eq_some_iff.mp called
  cases same
  exact ⟨returned, rfl⟩

end History

section Requirements

variable (fuel : Nat) (session : Session) (input : BrowseInput)

/-- The call loads the dongs of a sigungu record of a sido, and these are the ones in its file. -/
structure LoadsDongs (sido : Nat) (helper : SearchHelper) (sigunguF : SigunguDataF) : Prop where
  outcome : ((session.call fuel input).map fun result =>
      (result.1, result.2.browser.um, result.2.browser.pDongData)) =
    (session.browser.um.getDongData input.locals.address fuel sido sigunguF.offset).bind fun um =>
      um.helpers[sido]?.map fun after =>
        (.count after.dongDatas.length, um, some (.helper sido))
  dongs : ∀ answer next dongs, session.call fuel input = some (answer, next) →
    DongChain helper.fp.data (sigunguF.offset + 10) dongs →
    answer = .count dongs.length ∧
      next.browser.um.helpers[sido]?.map (fun after => after.dongDatas.map DongData.info) =
        some dongs

/-- The roads of a sigungu in its file, where no other sigungu is at the same offset. -/
structure RoadsInFile (helper : SearchHelper) (sigunguF : SigunguDataF) (roads : List Nat) :
    Prop where
  own : helper.sigunguDataAt sigunguF.offset = some sigunguF
  none : sigunguF.roadOfs = 0 → roads = []
  chain : sigunguF.roadOfs ≠ 0 → RecordChain helper.fp.data 10 roadLink sigunguF.roadOfs roads

/--
The call loads the roads of a sigungu record of a sido.

These are the ones in its file, apart from those whose codes are not found among the names.
-/
structure LoadsRoads (sido : Nat) (helper : SearchHelper) (sigunguF : SigunguDataF) : Prop where
  outcome : ((session.call fuel input).map fun result =>
      (result.1, result.2.browser.um, result.2.browser.pRoadData)) =
    (session.browser.um.getRoadData input.locals.address fuel sido sigunguF.offset).bind fun um =>
      um.helpers[sido]?.map fun after =>
        (.count after.roadDatas.length, um, some (.helper sido))
  roads : ∀ answer next roads, session.call fuel input = some (answer, next) →
    RoadsInFile helper sigunguF roads → session.browser.um.textMng.roadOfs < 2 ^ 31 →
    let found := roads.filter (RoadFound helper.fp.data session.browser.um.textMng
      input.locals.address.nKeyValue fuel helper.sidoData.idx sigunguF)
    answer = .count found.length ∧
      next.browser.um.helpers[sido]?.map (fun after => after.roadDatas.map RoadData.info) =
        some (found.map (roadAt helper.fp.data))

/-- The bunji at an offset has a ho with an index, all of it inside the file. -/
structure HasHo (data : List UInt8) (posExtOfs offset ho : Nat) : Prop where
  listed : ho < hoCntAt data offset
  inside : offset + 4 + 7 * hoCntAt data offset ≤ data.length
  position : PosInside data posExtOfs (hoAt data (offset + 4 + 7 * ho))

/-- The number and the absolute position of a ho of a bunji, given the corner of its dong. -/
def hoAnswer (data : List UInt8) (posExtOfs offset : Nat) (dong : DongDataF) (ho : Nat) :
    BrowseAnswer :=
  let record := hoAt data (offset + 4 + 7 * ho)
  let pos := hoPosAt data posExtOfs record
  .ho (getHoValue record) (u32 (pos.1 + dong.minX)) (u32 (pos.2 + dong.minY))

/--
A call works on what the calls before it asked for.

Dongs and roads are those of the sigungu asked for, in the sido selected last.
A ho is one of the bunji selected last, and its position is that in the dong the bunji was listed
under.
-/
def Session.Right : Prop :=
  match input.request with
  | .getDongCount sigunguIdx =>
    ∀ sido helper sigunguF, session.asked.sido = some sido →
      session.browser.um.helpers[sido]? = some helper →
      helper.sigunguDataFs[sigunguIdx]? = some sigunguF →
      LoadsDongs fuel session input sido helper sigunguF
  | .getRoadCount sigunguIdx =>
    ∀ sido helper sigunguF, session.asked.sido = some sido →
      session.browser.um.helpers[sido]? = some helper →
      helper.sigunguDataFs[sigunguIdx]? = some sigunguF →
      LoadsRoads fuel session input sido helper sigunguF
  | .jniGetHoData hoIdx =>
    ∀ entry dong helper, session.asked.selected = some entry → entry.dong = some dong →
      session.browser.um.helpers[entry.sido]? = some helper →
      HasHo helper.fp.data helper.addrHeader.addrPosExtOfs entry.bunji.offset hoIdx →
      ∃ next, session.call fuel input =
        some (hoAnswer helper.fp.data helper.addrHeader.addrPosExtOfs entry.bunji.offset dong.info
          hoIdx, next)
  | _ => True

/--
The calls that do not go wrong.

`GetRoadCount` is called for the sigungu of the last `GetDongCount`.
`JNI_GetHoData` is called while no bunjis have been listed since the last `GetHoCount`, and the slot
of the dong of the selected one has not been written since it was listed.
-/
def Session.Meets : Prop :=
  match input.request with
  | .getRoadCount sigunguIdx => session.browser.sigunguIdx = some sigunguIdx
  | .jniGetHoData _ =>
    (session.asked.selected.all fun entry =>
      session.asked.current && !session.asked.rewritten entry.bunji.pDong) = true
  | _ => True

instance : Decidable (session.Meets input) :=
  match request : input.request with
  | .getRoadCount sigunguIdx =>
    decidable_of_iff (session.browser.sigunguIdx = some sigunguIdx) (by rw [Session.Meets, request])
  | .jniGetHoData _ =>
    decidable_of_iff ((session.asked.selected.all fun entry =>
      session.asked.current && !session.asked.rewritten entry.bunji.pDong) = true)
      (by rw [Session.Meets, request])
  | .getSigunguCount _ | .getDongCount _ | .getSearchDongCount _ _ | .getBunjiCount _
  | .getHoCount _ | .getSearchRoadCount _ _ | .getRoadBunjiCount _ | .getRoadHoCount _ =>
    isTrue (by rw [Session.Meets, request]; trivial)

/-- The index of a call is inside the list it is for. -/
def Browser.inRange (browser : Browser) : BrowseCall → Bool
  | .getSigunguCount sidoIdx => (browser.um.helpers[sidoIdx]?).isSome
  | .getDongCount sigunguIdx | .getRoadCount sigunguIdx =>
    ((browser.pSigunguData.bind fun sido => browser.um.helpers[sido]?).bind fun helper =>
      helper.sigunguDatas[sigunguIdx]?).isSome
  | .getSearchDongCount _ _ | .getSearchRoadCount _ _ => true
  | .getBunjiCount dongIdx =>
    (browser.pDongData.bind fun list => browser.um.dongOf (list.dongSlot dongIdx)).isSome
  | .getHoCount bunjiIdx | .getRoadHoCount bunjiIdx =>
    ((browser.pBunjiData.bind fun sido => browser.um.helpers[sido]?).bind fun helper =>
      helper.bunjiDatas[bunjiIdx]?).isSome
  | .jniGetHoData hoIdx =>
    ((browser.pHoData.bind fun sido => browser.um.helpers[sido]?).bind fun helper =>
      helper.hoDatas[hoIdx]?).isSome
  | .getRoadBunjiCount roadIdx =>
    (browser.pRoadData.bind fun list => browser.um.roadOf (list.roadSlot roadIdx)).isSome

end Requirements

section Columns

variable {um next : UmSearchModule} {α : Type}

/-- One field of what the helper at a place shows. -/
def UmSearchModule.column (um : UmSearchModule) (field : Shown → α) (sido : Nat) : Option α :=
  um.shown[sido]?.map field

/-- What the helpers show determines the columns. -/
theorem column_of_shown (same : next.shown = um.shown) {α : Type} (field : Shown → α) :
    next.column field = um.column field := by
  funext place
  rw [UmSearchModule.column, same]
  rfl

/-- A helper that is replaced changes one part of what is shown. -/
structure Replaced (um next : UmSearchModule) (sido : Nat) (before after : Shown) : Prop where
  there : um.shown[sido]? = some before
  shown : next.shown = um.shown.set sido after
  names : next.dongNameResult = um.dongNameResult

namespace Replaced

variable {sido : Nat} {before after : Shown}

/-- The new helper shows its own field. -/
theorem column_self (replaced : Replaced um next sido before after) (field : Shown → α) :
    next.column field sido = some (field after) := by
  obtain ⟨bound, _⟩ := List.getElem?_eq_some_iff.mp replaced.there
  rw [UmSearchModule.column, replaced.shown, List.getElem?_set_self bound]
  rfl

/-- The helpers at other places show what they did. -/
theorem column_ne (replaced : Replaced um next sido before after) (field : Shown → α) {place : Nat}
    (other : sido ≠ place) : next.column field place = um.column field place := by
  rw [UmSearchModule.column, replaced.shown, List.getElem?_set_ne other]
  rfl

/-- A field that the new helper has from the old one shows as before. -/
theorem column_same (replaced : Replaced um next sido before after) {field : Shown → α}
    (same : field after = field before) : next.column field = um.column field := by
  -- At its own place the helper shows the same field, and elsewhere nothing has changed.
  funext place
  by_cases here : sido = place
  · subst here
    rw [replaced.column_self, UmSearchModule.column, replaced.there, same]
    rfl
  · exact replaced.column_ne field here

end Replaced

/-- A call handed on to a helper replaces it. -/
theorem onHelper_replaced {sido : Nat} {call : HelperState → Option HelperState}
    (called : um.onHelper sido call = some next) :
    ∃ helper after, um.helpers[sido]? = some helper ∧ call ⟨helper, um.textMng⟩ = some after ∧
      next.helpers[sido]? = some after.helper ∧
      Replaced um next sido helper.shown after.helper.shown := by
  obtain ⟨helper, after, there, returned, rfl⟩ := UmSearchModule.onHelper_some called
  obtain ⟨bound, _⟩ := List.getElem?_eq_some_iff.mp there
  exact ⟨helper, after, there, returned, List.getElem?_set_self bound,
    UmSearchModule.shown_getElem? there, UmSearchModule.shown_set .., rfl⟩

/-- A dong listed by a helper is in its column of dongs. -/
theorem dongOf_column (um : UmSearchModule) (sido index : Nat) :
    um.dongOf (.dong sido index) =
      (um.column Shown.dongDatas sido).bind fun dongs => dongs[index]? := by
  rw [UmSearchModule.dongOf_dong, UmSearchModule.column, Option.bind_map]
  rfl

/-- A dong that a helper knows besides is in its column of other dongs. -/
theorem dongOf_columnEx (um : UmSearchModule) (sido index : Nat) :
    um.dongOf (.dongEx sido index) =
      (um.column Shown.dongExDatas sido).bind fun dongs => dongs[index]? := by
  rw [UmSearchModule.dongOf_dongEx, UmSearchModule.column, Option.bind_map]
  rfl

/-- A slot keeps its dong when the new helper has the dongs of the old one. -/
theorem Replaced.dongOf_same {sido : Nat} {before after : Shown}
    (replaced : Replaced um next sido before after) (dongs : after.dongDatas = before.dongDatas)
    (others : after.dongExDatas = before.dongExDatas) (slot : Slot) :
    next.dongOf slot = um.dongOf slot := by
  -- A slot leads to the dongs of some helper or to names, which are all the same.
  cases slot with
  | dong place index => rw [dongOf_column, dongOf_column, replaced.column_same dongs]
  | dongEx place index => rw [dongOf_columnEx, dongOf_columnEx, replaced.column_same others]
  | dongName index => simp only [UmSearchModule.dongOf, replaced.names]
  | road place index => rfl
  | roadName index => rfl

end Columns

section Invariant

/-- The sigungus named and the sigungus loaded. -/
def Shown.sigunguLists (shown : Shown) : List SigunguDataF × List SigunguDataF :=
  (shown.sigungus, shown.sigunguDataFs)

/-- All dongs a helper holds. -/
def Shown.dongs (shown : Shown) : List DongData := shown.dongDatas ++ shown.dongExDatas

/-- The bytes of the file and the hos listed last. -/
def Shown.hos (shown : Shown) : List UInt8 × List HoData := (shown.data, shown.hoDatas)

/-- Whatever the calls so far, the sigungus are those of the sido selected. -/
structure ChosenSido (um : UmSearchModule) (browser : Browser) (sido : Option Nat) : Prop where
  named : ∀ place lists, um.column Shown.sigunguLists place = some lists →
    lists.1 = [] ∨ lists.1 = lists.2
  sidoIdx : browser.sidoIdx = sido
  pSigunguData : browser.pSigunguData = sido
  chosen : ∀ place, sido = some place →
    ∃ sigungus, um.column Shown.sigunguLists place = some (sigungus, sigungus)

/-- Every dong a helper holds bears the place of the helper. -/
def DongsPlaced (um : UmSearchModule) : Prop :=
  ∀ place dongs, um.column Shown.dongs place = some dongs → ∀ dong ∈ dongs, dong.nSidoIdx = place

/-- A bunji listed is where the pointer to the bunjis leads. -/
structure StillListed (um : UmSearchModule) (pBunjiData : Option Nat) (index : Nat)
    (entry : ListedBunji) : Prop where
  pointed : pBunjiData = some entry.sido
  held : ∃ bunjis, um.column Shown.bunjiDatas entry.sido = some bunjis ∧
    bunjis[index]? = some entry.bunji

/-- The dong of a bunji listed is in its slot, unless the slot has been written. -/
structure StillOwned (um : UmSearchModule) (rewritten : Slot → Bool) (entry : ListedBunji)
    (dong : DongData) : Prop where
  sido : dong.nSidoIdx = entry.sido
  held : rewritten entry.bunji.pDong = false → um.dongOf entry.bunji.pDong = some dong

/-- The hos listed are those of a bunji in the file. -/
def ListsHos (data : List UInt8) (offset : Nat) (hos : List HoData) : Prop :=
  ∀ ho, ho < hoCntAt data offset → offset + 4 + 7 * hoCntAt data offset ≤ data.length →
    hos[ho]? = some (hoAt data (offset + 4 + 7 * ho))

/-- The bunji selected is among those listed, and the hos are its own. -/
structure StillSelected (um : UmSearchModule) (browser : Browser) (asked : Asked)
    (entry : ListedBunji) : Prop where
  listed : ∃ index, browser.bunjiIdx = some index ∧ asked.listed[index]? = some entry
  hos : asked.rewritten entry.bunji.pDong = false → browser.pHoData = some entry.sido ∧
    ∃ data hos, um.column Shown.hos entry.sido = some (data, hos) ∧
      ListsHos data entry.bunji.offset hos

/-- What every call preserves. -/
structure Session.Coherent (session : Session) : Prop where
  chosen : ChosenSido session.browser.um session.browser session.asked.sido
  placed : DongsPlaced session.browser.um
  listed : ∀ index entry, session.asked.listed[index]? = some entry →
    StillListed session.browser.um session.browser.pBunjiData index entry
  owned : ∀ entry ∈ session.asked.listed, ∀ dong, entry.dong = some dong →
    StillOwned session.browser.um session.asked.rewritten entry dong
  selected : session.asked.current = true → ∀ entry dong, session.asked.selected = some entry →
    entry.dong = some dong → StillSelected session.browser.um session.browser session.asked entry

end Invariant

section Steps

variable {locals : BrowseLocals} {fuel : Nat} {browser next : Browser} {asked : Asked}
  {answer : BrowseAnswer}

section Parts

variable {um after : UmSearchModule}

theorem ChosenSido.unchanged {sido : Option Nat} (chosen : ChosenSido um browser sido)
    (column : after.column Shown.sigunguLists = um.column Shown.sigunguLists)
    (sidoIdx : next.sidoIdx = browser.sidoIdx)
    (pSigunguData : next.pSigunguData = browser.pSigunguData) : ChosenSido after next sido where
  named := by
    -- Each field is about the column of sigungus or a variable, and both are as before.
    rw [column]
    exact chosen.named
  sidoIdx := sidoIdx.trans chosen.sidoIdx
  pSigunguData := pSigunguData.trans chosen.pSigunguData
  chosen := by
    rw [column]
    exact chosen.chosen

theorem DongsPlaced.unchanged (placed : DongsPlaced um)
    (column : after.column Shown.dongs = um.column Shown.dongs) : DongsPlaced after := by
  unfold DongsPlaced
  rw [column]
  exact placed

theorem StillListed.unchanged {pBunjiData : Option Nat} {index : Nat} {entry : ListedBunji}
    (listed : StillListed um pBunjiData index entry)
    (column : after.column Shown.bunjiDatas = um.column Shown.bunjiDatas) :
    StillListed after pBunjiData index entry where
  pointed := listed.pointed
  held := by
    rw [column]
    exact listed.held

/-- A dong stays in its slot if the slot keeps its dong, or counts as written. -/
theorem StillOwned.unchanged {rewritten written : Slot → Bool} {entry : ListedBunji}
    {dong : DongData} (owned : StillOwned um rewritten entry dong)
    (slots : ∀ slot, written slot = false → rewritten slot = false ∧
      (um.dongOf slot = some dong → after.dongOf slot = some dong)) :
    StillOwned after written entry dong where
  sido := owned.sido
  held := by
    intro fresh
    obtain ⟨before, kept⟩ := slots _ fresh
    exact kept (owned.held before)

/-- A bunji stays selected if its hos do, and the slots written before count as written. -/
theorem StillSelected.unchanged {later : Asked} {entry : ListedBunji}
    (selected : StillSelected um browser asked entry)
    (column : after.column Shown.hos = um.column Shown.hos)
    (bunjiIdx : next.bunjiIdx = browser.bunjiIdx)
    (pHoData : next.pHoData = browser.pHoData) (listed : later.listed = asked.listed)
    (slots : ∀ slot, later.rewritten slot = false → asked.rewritten slot = false) :
    StillSelected after next later entry where
  listed := by
    rw [bunjiIdx, listed]
    exact selected.listed
  hos := by
    -- A slot that still counts as unwritten did so before.
    intro fresh
    rw [pHoData, column]
    exact selected.hos (slots _ fresh)

end Parts

/-- A call that changes nothing browsing by dongs depends on. -/
theorem Session.Coherent.unchanged (coherent : Session.Coherent ⟨browser, asked⟩)
    (shown : next.um.shown = browser.um.shown)
    (names : next.um.dongNameResult = browser.um.dongNameResult)
    (sidoIdx : next.sidoIdx = browser.sidoIdx)
    (pSigunguData : next.pSigunguData = browser.pSigunguData)
    (pBunjiData : next.pBunjiData = browser.pBunjiData)
    (bunjiIdx : next.bunjiIdx = browser.bunjiIdx)
    (pHoData : next.pHoData = browser.pHoData) : Session.Coherent ⟨next, asked⟩ := by
  -- Every part of the invariant reads the columns, the slots and the variables named here.
  have column : ∀ {α : Type} (field : Shown → α), next.um.column field = browser.um.column field :=
    column_of_shown shown
  refine ⟨coherent.chosen.unchanged (column _) sidoIdx pSigunguData,
    coherent.placed.unchanged (column _), ?_, ?_, ?_⟩
  · intro index entry member
    rw [pBunjiData]
    exact (coherent.listed index entry member).unchanged (column _)
  · intro entry member dong own
    refine (coherent.owned entry member dong own).unchanged ?_
    intro slot fresh
    rw [UmSearchModule.dongOf_congr shown names]
    exact ⟨fresh, id⟩
  · intro current entry dong chosen own
    exact (coherent.selected current entry dong chosen own).unchanged (column _) bunjiIdx pHoData
      rfl fun _ => id

/-- `GetSigunguCount` selects a sido, whose sigungus are the ones loaded. -/
theorem getSigunguCount_coherent (coherent : Session.Coherent ⟨browser, asked⟩) {sidoIdx : Nat}
    (called : browser.getSigunguCount locals fuel sidoIdx = some (answer, next)) :
    Session.Coherent ⟨next, { asked with sido := some sidoIdx }⟩ := by
  simp only [Browser.getSigunguCount, Option.bind_eq_bind, Option.bind_eq_some_iff, Option.pure_def,
    Option.some.injEq, Prod.mk.injEq] at called
  obtain ⟨um, got, shownHelper, _, _, rfl⟩ := called
  obtain ⟨helper, after, there, returned, _, replaced⟩ := onHelper_replaced got
  have before : helper.sigunguDatas = [] ∨
      helper.sigunguDatas.map SigunguData.pInfo = helper.sigunguDataFs := by
    have lists : browser.um.column Shown.sigunguLists sidoIdx =
      some (helper.shown.sigunguLists) := by
      rw [UmSearchModule.column, replaced.there]
      rfl
    rcases coherent.chosen.named sidoIdx _ lists with empty | same
    · exact .inl (List.map_eq_nil_iff.mp empty)
    · exact .inr same
  obtain ⟨sigungus, shown⟩ := getSigunguData_shown returned before
  have lists := replaced.column_self Shown.sigunguLists
  rw [shown] at replaced lists
  refine ⟨⟨?_, rfl, rfl, ?_⟩, coherent.placed.unchanged (replaced.column_same rfl), ?_, ?_, ?_⟩
  · -- The sigungus of this sido are now named, and those of the others are as before.
    intro place pair listed
    by_cases here : sidoIdx = place
    · subst here
      rw [lists] at listed
      cases listed
      exact .inr rfl
    · rw [replaced.column_ne _ here] at listed
      exact coherent.chosen.named place pair listed
  · intro place own
    cases own
    exact ⟨sigungus, lists⟩
  · intro index entry member
    exact (coherent.listed index entry member).unchanged (replaced.column_same rfl)
  · intro entry member dong own
    refine (coherent.owned entry member dong own).unchanged ?_
    intro slot fresh
    rw [replaced.dongOf_same rfl rfl]
    exact ⟨fresh, id⟩
  · intro current entry dong chosen own
    exact (coherent.selected current entry dong chosen own).unchanged (replaced.column_same rfl) rfl
      rfl rfl fun _ => id

/-- `GetDongCount` writes the dongs listed by the sido selected. -/
theorem getDongCount_coherent (coherent : Session.Coherent ⟨browser, asked⟩) {sigunguIdx : Nat}
    (called : browser.getDongCount locals fuel sigunguIdx = some (answer, next)) :
    Session.Coherent ⟨next, { asked with
      rewritten := fun slot => asked.rewritten slot || slot.isDongOf asked.sido }⟩ := by
  unfold Browser.getDongCount at called
  split at called
  · -- Without a sido selected, no slot is written.
    rename_i unset
    cases called
    have unasked : asked.sido = none := coherent.chosen.pSigunguData.symm.trans unset
    have kept : (fun slot : Slot => asked.rewritten slot || slot.isDongOf asked.sido) =
        asked.rewritten := by
      funext slot
      rw [unasked]
      cases slot <;> simp [Slot.isDongOf]
    rw [kept]
    exact coherent
  · simp only [Option.bind_eq_bind, Option.bind_eq_some_iff, Option.pure_def, Option.some.injEq,
      Prod.mk.injEq] at called
    obtain ⟨holder, _, sigungu, _, sidoIdx, selected, um, got, listing, _, _, rfl⟩ := called
    obtain ⟨helper, after, there, returned, _, replaced⟩ := onHelper_replaced got
    obtain ⟨dongDatas, shown, bear⟩ := getDongData_shown returned
    rw [shown] at replaced
    have own : asked.sido = some sidoIdx := coherent.chosen.sidoIdx.symm.trans selected
    refine ⟨coherent.chosen.unchanged (replaced.column_same rfl) rfl rfl, ?_, ?_, ?_, ?_⟩
    · -- The new dongs bear the place of the sido, and the others are as before.
      intro place dongs listed dong member
      by_cases here : sidoIdx = place
      · subst here
        rw [replaced.column_self] at listed
        cases listed
        rcases List.mem_append.mp member with new | other
        · exact bear dong new
        · refine coherent.placed sidoIdx helper.shown.dongs ?_ dong (List.mem_append_right _ other)
          rw [UmSearchModule.column, replaced.there]
          rfl
      · rw [replaced.column_ne _ here] at listed
        exact coherent.placed place dongs listed dong member
    · intro index entry member
      exact (coherent.listed index entry member).unchanged (replaced.column_same rfl)
    · intro entry member dong owner
      refine (coherent.owned entry member dong owner).unchanged ?_
      intro slot fresh
      obtain ⟨before, other⟩ := Bool.or_eq_false_iff.mp fresh
      refine ⟨before, ?_⟩
      cases slot with
      | dong place index =>
        -- A slot of another sido is not touched.
        have differs : sidoIdx ≠ place := by
          intro same
          simp [Slot.isDongOf, own, same] at other
        rw [dongOf_column, dongOf_column, replaced.column_ne _ differs]
        exact id
      | dongEx place index =>
        rw [dongOf_columnEx, dongOf_columnEx, replaced.column_same rfl]
        exact id
      | dongName index =>
        simp only [UmSearchModule.dongOf, replaced.names]
        exact id
      | road place index => exact id
      | roadName index => exact id
    · intro current entry dong chosen owner
      refine (coherent.selected current entry dong chosen owner).unchanged
        (replaced.column_same rfl) rfl rfl rfl ?_
      intro slot fresh
      exact (Bool.or_eq_false_iff.mp fresh).1

/-- `GetSearchDongCount` writes the dongs found by name. -/
theorem getSearchDongCount_coherent (coherent : Session.Coherent ⟨browser, asked⟩)
    {text : Nat → UInt16} {nLen : Nat}
    (called : browser.getSearchDongCount locals fuel text nLen = some (answer, next)) :
    Session.Coherent ⟨next, { asked with
      rewritten := fun slot => asked.rewritten slot || slot.isDongName }⟩ := by
  -- Only the slots of names are written, and these count as written from now on.
  simp only [Browser.getSearchDongCount, Option.bind_eq_bind, Option.bind_eq_some_iff,
    Option.pure_def, Option.some.injEq, Prod.mk.injEq] at called
  obtain ⟨um, searched, _, rfl⟩ := called
  have shown := UmSearchModule.searchDongName_shown searched
  have column : ∀ {α : Type} (field : Shown → α), um.column field = browser.um.column field :=
    column_of_shown shown
  refine ⟨coherent.chosen.unchanged (column _) rfl rfl, coherent.placed.unchanged (column _),
    ?_, ?_, ?_⟩
  · intro index entry member
    exact (coherent.listed index entry member).unchanged (column _)
  · intro entry member dong owner
    refine (coherent.owned entry member dong owner).unchanged ?_
    intro slot fresh
    obtain ⟨before, other⟩ := Bool.or_eq_false_iff.mp fresh
    refine ⟨before, ?_⟩
    cases slot with
    | dong place index =>
      rw [dongOf_column, dongOf_column, column]
      exact id
    | dongEx place index =>
      rw [dongOf_columnEx, dongOf_columnEx, column]
      exact id
    | dongName index => cases other
    | road place index => exact id
    | roadName index => exact id
  · intro current entry dong chosen owner
    refine (coherent.selected current entry dong chosen owner).unchanged (column _) rfl rfl rfl ?_
    intro slot fresh
    exact (Bool.or_eq_false_iff.mp fresh).1

/-- The bunjis listed just now are where the pointer leads. -/
theorem listing_listed (browser : Browser) {index : Nat} {entry : ListedBunji}
    (member : browser.listing[index]? = some entry) :
    StillListed browser.um browser.pBunjiData index entry ∧
      entry.dong = browser.um.dongOf entry.bunji.pDong := by
  -- The list is the one of the helper that the pointer leads to, read from its beginning.
  unfold Browser.listing at member
  split at member
  · cases member
  · rename_i sido pointed
    split at member
    · cases member
    · rename_i helper there
      rw [List.getElem?_map] at member
      obtain ⟨bunji, held, rfl⟩ := Option.map_eq_some_iff.mp member
      refine ⟨⟨pointed, helper.bunjiDatas, ?_, held⟩, rfl⟩
      rw [UmSearchModule.column, UmSearchModule.shown_getElem? there]
      rfl

/-- `GetHoCount` selects a bunji and lists its hos. -/
theorem getHoCount_coherent (coherent : Session.Coherent ⟨browser, asked⟩) {bunjiIdx : Nat}
    (called : browser.getHoCount locals bunjiIdx = some (answer, next)) :
    Session.Coherent ⟨next, { asked with
      selected := asked.listed[bunjiIdx]?, current := true }⟩ := by
  unfold Browser.getHoCount at called
  split at called
  · -- Without bunjis listed, none is selected.
    rename_i unset
    cases called
    refine ⟨coherent.chosen, coherent.placed, coherent.listed, coherent.owned, ?_⟩
    intro _ entry dong chosen _
    have pointed := (coherent.listed bunjiIdx entry chosen).pointed
    rw [show browser.pBunjiData = none from unset] at pointed
    cases pointed
  · rename_i pBunjiData pointer
    simp only [Option.bind_eq_bind, Option.bind_eq_some_iff, Option.pure_def, Option.some.injEq,
      Prod.mk.injEq] at called
    obtain ⟨holder, thereHolder, bunji, atIndex, nSidoIdx, slotSido, um, got, listing, _, _, rfl⟩ :=
      called
    obtain ⟨helper, after, there, returned, _, replaced⟩ := onHelper_replaced got
    cases returned
    have shown := getHoData_shown locals.address helper bunji.offset
    have hosColumn := replaced.column_self Shown.hos
    rw [shown] at replaced hosColumn
    -- Of the list that is written only its records matter.
    have records : ∀ ho, ho < hoCntAt helper.fp.data bunji.offset →
        bunji.offset + 4 + 7 * hoCntAt helper.fp.data bunji.offset ≤ helper.fp.data.length →
        (helper.getHoData locals.address bunji.offset).hoDatas[ho]? =
          some (hoAt helper.fp.data (bunji.offset + 4 + 7 * ho)) :=
      fun ho listed inside => getHoData_hos inside listed locals.address
    generalize (helper.getHoData locals.address bunji.offset).hoDatas = hos
      at replaced hosColumn records
    refine ⟨coherent.chosen.unchanged (replaced.column_same rfl) rfl rfl,
      coherent.placed.unchanged (replaced.column_same rfl), ?_, ?_, ?_⟩
    · intro index entry member
      exact (coherent.listed index entry member).unchanged (replaced.column_same rfl)
    · intro entry member dong own
      refine (coherent.owned entry member dong own).unchanged ?_
      intro slot fresh
      rw [replaced.dongOf_same rfl rfl]
      exact ⟨fresh, id⟩
    · intro _ entry dong chosen own
      refine ⟨⟨bunjiIdx, rfl, chosen⟩, ?_⟩
      intro fresh
      -- The bunji read is the one listed, and its slot holds its dong.
      obtain ⟨pointed, bunjis, column, held⟩ := coherent.listed bunjiIdx entry chosen
      have place : entry.sido = pBunjiData := by
        rw [show browser.pBunjiData = some pBunjiData from pointer] at pointed
        exact (Option.some.inj pointed).symm
      have same : entry.bunji = bunji := by
        rw [place, UmSearchModule.column, UmSearchModule.shown_getElem? thereHolder] at column
        cases column
        exact Option.some.inj (held.symm.trans atIndex)
      obtain ⟨sido, holds⟩ := coherent.owned entry (List.mem_of_getElem? chosen) dong own
      have slot := holds fresh
      rw [same] at slot
      have nSido : entry.sido = nSidoIdx := by
        rw [UmSearchModule.nSidoIdxOf, slot] at slotSido
        exact sido.symm.trans (Option.some.inj slotSido)
      rw [nSido, same]
      exact ⟨rfl, _, _, hosColumn, records⟩

/-- `GetBunjiCount` lists bunjis, each of which points to its dong for the moment. -/
theorem getBunjiCount_coherent (coherent : Session.Coherent ⟨browser, asked⟩) {dongIdx : Nat}
    {pDongData : RegionList} (pointer : browser.pDongData = some pDongData)
    (called : browser.getBunjiCount locals fuel dongIdx = some (answer, next)) :
    Session.Coherent ⟨next, { asked with
      listed := next.listing, rewritten := fun _ => false, current := false }⟩ := by
  simp only [Browser.getBunjiCount, pointer, Option.bind_eq_bind, Option.bind_eq_some_iff,
    Option.pure_def, Option.some.injEq, Prod.mk.injEq] at called
  obtain ⟨dong, held, um, got, listing, _, _, same⟩ := called
  obtain ⟨helper, after, there, returned, _, replaced⟩ := onHelper_replaced got
  obtain ⟨added, bunjis, shown, bear, refers⟩ := getBunjiData_shown returned
  rw [shown] at replaced refers
  have module : next.um = um := by rw [← same]
  have pointed : next.pBunjiData = some dong.nSidoIdx := by rw [← same]
  have placed : DongsPlaced um := by
    -- The dongs added bear the place of the dong they were found for.
    intro place dongs listed member held
    by_cases here : dong.nSidoIdx = place
    · subst here
      rw [replaced.column_self] at listed
      cases listed
      have before : ∀ dong' ∈ helper.shown.dongs, dong'.nSidoIdx = dong.nSidoIdx := by
        refine coherent.placed dong.nSidoIdx helper.shown.dongs ?_
        rw [UmSearchModule.column, replaced.there]
        rfl
      simp only [Shown.dongs, List.mem_append] at held before
      rcases held with listed | known | new
      · exact before member (.inl listed)
      · exact before member (.inr known)
      · exact bear member new
    · rw [replaced.column_ne _ here] at listed
      exact coherent.placed place dongs listed member held
  refine ⟨?_, ?_, ?_, ?_, nofun⟩
  · rw [← same]
    exact coherent.chosen.unchanged (replaced.column_same rfl) rfl rfl
  · rw [module]
    exact placed
  · intro index entry member
    exact (listing_listed next member).1
  · intro entry member own owner
    obtain ⟨index, atIndex⟩ := List.getElem?_of_mem member
    obtain ⟨⟨place, list, column, listed⟩, meant⟩ := listing_listed next atIndex
    have slot : um.dongOf entry.bunji.pDong = some own := by rw [← module, ← meant, owner]
    have sido : entry.sido = dong.nSidoIdx := (Option.some.inj (pointed.symm.trans place)).symm
    rw [module, sido, replaced.column_self] at column
    cases column
    refine ⟨?_, fun _ => by rw [module]; exact slot⟩
    rw [sido]
    rcases refers entry.bunji (List.mem_of_getElem? listed) with direct | ⟨i, target, indirect⟩
    · -- A bunji of the dong itself points to the slot the dong was taken from.
      have unmoved : um.dongOf (pDongData.dongSlot dongIdx) =
          browser.um.dongOf (pDongData.dongSlot dongIdx) := by
        cases pDongData with
        | helper place =>
          rw [RegionList.dongSlot, dongOf_column, dongOf_column, replaced.column_same rfl]
        | names => simp only [RegionList.dongSlot, UmSearchModule.dongOf, replaced.names]
      rw [direct, unmoved, held] at slot
      rw [← Option.some.inj slot]
    · -- A bunji of another dong points to a dong of the same helper.
      refine placed dong.nSidoIdx _ (replaced.column_self Shown.dongs) own ?_
      rcases indirect with ⟨points, there⟩ | ⟨points, there⟩
      · rw [points, dongOf_column, replaced.column_self] at slot
        exact List.mem_append_left _ (List.mem_of_getElem? slot)
      · rw [points, dongOf_columnEx, replaced.column_self] at slot
        exact List.mem_append_right _ (List.mem_of_getElem? slot)

/-- `GetRoadBunjiCount` lists bunjis that point to no dong. -/
theorem getRoadBunjiCount_coherent (coherent : Session.Coherent ⟨browser, asked⟩) {roadIdx : Nat}
    {pRoadData : RegionList} (pointer : browser.pRoadData = some pRoadData)
    (called : browser.getRoadBunjiCount locals roadIdx = some (answer, next)) :
    Session.Coherent ⟨next, { asked with
      listed := next.listing, rewritten := fun _ => false, current := false }⟩ := by
  -- The new bunjis point to a road, and so no dong is claimed for them.
  simp only [Browser.getRoadBunjiCount, pointer, Option.bind_eq_bind, Option.bind_eq_some_iff,
    Option.pure_def, Option.some.injEq, Prod.mk.injEq] at called
  obtain ⟨road, held, um, got, listing, _, _, same⟩ := called
  obtain ⟨helper, after, there, returned, _, replaced⟩ := onHelper_replaced got
  cases returned
  obtain ⟨bunjis, shown, refers⟩ := getRoadBunjiData_shown locals.address helper
    (pRoadData.roadSlot roadIdx) road
  rw [shown] at replaced
  have module : next.um = um := by rw [← same]
  have pointed : next.pBunjiData = some road.nSidoIdx := by rw [← same]
  refine ⟨?_, ?_, ?_, ?_, nofun⟩
  · rw [← same]
    exact coherent.chosen.unchanged (replaced.column_same rfl) rfl rfl
  · rw [module]
    exact coherent.placed.unchanged (replaced.column_same rfl)
  · intro index entry member
    exact (listing_listed next member).1
  · intro entry member own owner
    obtain ⟨index, atIndex⟩ := List.getElem?_of_mem member
    obtain ⟨⟨place, list, column, listed⟩, meant⟩ := listing_listed next atIndex
    have sido : entry.sido = road.nSidoIdx := (Option.some.inj (pointed.symm.trans place)).symm
    rw [module, sido, replaced.column_self] at column
    cases column
    have noDong : next.um.dongOf (pRoadData.roadSlot roadIdx) = none := by
      cases pRoadData <;> rfl
    rw [owner, refers entry.bunji (List.mem_of_getElem? listed), noDong] at meant
    cases meant

/-- `GetRoadCount` writes roads only. -/
theorem getRoadCount_coherent (coherent : Session.Coherent ⟨browser, asked⟩) {sigunguIdx : Nat}
    (called : browser.getRoadCount locals fuel sigunguIdx = some (answer, next)) :
    Session.Coherent ⟨next, asked⟩ := by
  -- The helper shows the same as before, and so all of the invariant stays.
  unfold Browser.getRoadCount at called
  split at called
  · cases called
    exact coherent
  · simp only [Option.bind_eq_bind, Option.bind_eq_some_iff, Option.pure_def, Option.some.injEq,
      Prod.mk.injEq] at called
    obtain ⟨_, _, _, _, _, _, sidoIdx, _, um, got, _, _, _, rfl⟩ := called
    obtain ⟨helper, after, there, returned, rfl⟩ := UmSearchModule.onHelper_some got
    exact coherent.unchanged (UmSearchModule.shown_set_same there (getRoadData_shown returned) _)
      rfl rfl rfl rfl rfl rfl

/-- `GetSearchRoadCount` writes roads only. -/
theorem getSearchRoadCount_coherent (coherent : Session.Coherent ⟨browser, asked⟩)
    {text : Nat → UInt16} {nLen : Nat}
    (called : browser.getSearchRoadCount locals fuel text nLen = some (answer, next)) :
    Session.Coherent ⟨next, asked⟩ := by
  simp only [Browser.getSearchRoadCount, Option.bind_eq_bind, Option.bind_eq_some_iff,
    Option.pure_def, Option.some.injEq, Prod.mk.injEq] at called
  obtain ⟨um, searched, _, rfl⟩ := called
  obtain ⟨shown, names⟩ := UmSearchModule.searchRoadName_shown searched
  exact coherent.unchanged shown names rfl rfl rfl rfl rfl

/-- `GetRoadHoCount` writes the hos of roads only. -/
theorem getRoadHoCount_coherent (coherent : Session.Coherent ⟨browser, asked⟩) {roadBunjiIdx : Nat}
    (called : browser.getRoadHoCount locals roadBunjiIdx = some (answer, next)) :
    Session.Coherent ⟨next, asked⟩ := by
  -- The helper shows the same as before, and so all of the invariant stays.
  unfold Browser.getRoadHoCount at called
  split at called
  · cases called
    exact coherent
  · simp only [Option.bind_eq_bind, Option.bind_eq_some_iff, Option.pure_def, Option.some.injEq,
      Prod.mk.injEq] at called
    obtain ⟨_, _, _, _, _, _, _, _, _, _, um, got, _, _, _, rfl⟩ := called
    obtain ⟨helper, after, there, returned, rfl⟩ := UmSearchModule.onHelper_some got
    cases returned
    exact coherent.unchanged (UmSearchModule.shown_set_same there (getNewHoData_shown _ _ _) _)
      rfl rfl rfl rfl rfl rfl

/-- `JNI_GetHoData` moves the position of a file only. -/
theorem jniGetHoData_coherent (coherent : Session.Coherent ⟨browser, asked⟩) {hoIdx : Nat}
    (called : browser.jniGetHoData locals hoIdx = some (answer, next)) :
    Session.Coherent ⟨next, asked⟩ := by
  -- Without a dong nothing is done, and otherwise the helper shows the same as before.
  unfold Browser.jniGetHoData at called
  split at called
  · cases called
    exact coherent
  · simp only [Option.bind_eq_bind, Option.bind_eq_some_iff, Option.pure_def] at called
    obtain ⟨_, _, _, _, _, _, bunji, _, _, _, outcome⟩ := called
    split at outcome
    · cases outcome
      exact coherent
    · simp only [Option.bind_eq_some_iff, Option.some.injEq, Prod.mk.injEq] at outcome
      obtain ⟨dong, _, helper, there, _, rfl⟩ := outcome
      exact coherent.unchanged
        (UmSearchModule.shown_set_same there (getHoPos_shown helper _ _) browser.um.textMng)
        rfl rfl rfl rfl rfl rfl

/-- Every call preserves the invariant. -/
theorem Session.Coherent.call {session after : Session} {input : BrowseInput}
    (coherent : session.Coherent) (called : session.call fuel input = some (answer, after)) :
    after.Coherent := by
  -- One case for each kind of call, and the lemma of that call.
  obtain ⟨returned, recorded⟩ := Session.call_some called
  obtain ⟨browser, asked⟩ := session
  obtain ⟨next, later⟩ := after
  dsimp only at returned recorded
  subst recorded
  unfold Browser.call at returned
  unfold Asked.after
  cases request : input.request with
  | getSigunguCount sidoIdx =>
    rw [request] at returned
    exact getSigunguCount_coherent coherent returned
  | getDongCount sigunguIdx =>
    rw [request] at returned
    exact getDongCount_coherent coherent returned
  | getSearchDongCount text nLen =>
    rw [request] at returned
    exact getSearchDongCount_coherent coherent returned
  | getBunjiCount dongIdx =>
    rw [request] at returned
    dsimp only
    split
    · rename_i unset
      rw [Option.isNone_iff_eq_none] at unset
      simp only [Browser.getBunjiCount, unset] at returned
      cases returned
      exact coherent
    · rename_i set
      obtain ⟨pDongData, pointer⟩ :=
        Option.ne_none_iff_exists'.mp (mt Option.isNone_iff_eq_none.mpr set)
      exact getBunjiCount_coherent coherent pointer returned
  | getHoCount bunjiIdx =>
    rw [request] at returned
    exact getHoCount_coherent coherent returned
  | jniGetHoData hoIdx =>
    rw [request] at returned
    exact jniGetHoData_coherent coherent returned
  | getRoadCount sigunguIdx =>
    rw [request] at returned
    exact getRoadCount_coherent coherent returned
  | getSearchRoadCount text nLen =>
    rw [request] at returned
    exact getSearchRoadCount_coherent coherent returned
  | getRoadBunjiCount roadIdx =>
    rw [request] at returned
    dsimp only
    split
    · rename_i unset
      rw [Option.isNone_iff_eq_none] at unset
      simp only [Browser.getRoadBunjiCount, unset] at returned
      cases returned
      exact coherent
    · rename_i set
      obtain ⟨pRoadData, pointer⟩ :=
        Option.ne_none_iff_exists'.mp (mt Option.isNone_iff_eq_none.mpr set)
      exact getRoadBunjiCount_coherent coherent pointer returned
  | getRoadHoCount roadBunjiIdx =>
    rw [request] at returned
    exact getRoadHoCount_coherent coherent returned

end Steps

section Runs

variable {fuel : Nat} {session : Session} {input : BrowseInput}

/-- The sigungus that the pointer leads to are the ones loaded for the sido selected. -/
theorem Session.Coherent.sigungu (coherent : session.Coherent) {sido index : Nat}
    {helper : SearchHelper} {sigunguF : SigunguDataF} (asked : session.asked.sido = some sido)
    (there : session.browser.um.helpers[sido]? = some helper)
    (listed : helper.sigunguDataFs[index]? = some sigunguF) :
    session.browser.pSigunguData = some sido ∧ session.browser.sidoIdx = some sido ∧
      ∃ sigungu, helper.sigunguDatas[index]? = some sigungu ∧ sigungu.pInfo = sigunguF := by
  -- Both lists of the helper are the sigungus of the sido chosen.
  obtain ⟨sigungus, column⟩ := coherent.chosen.chosen sido asked
  rw [UmSearchModule.column, UmSearchModule.shown_getElem? there] at column
  have lists : (helper.sigunguDatas.map SigunguData.pInfo, helper.sigunguDataFs) =
      (sigungus, sigungus) := Option.some.inj column
  obtain ⟨named, loaded⟩ := Prod.mk.inj lists
  rw [loaded, ← named, List.getElem?_map] at listed
  exact ⟨coherent.chosen.pSigunguData.trans asked, coherent.chosen.sidoIdx.trans asked,
    Option.map_eq_some_iff.mp listed⟩

/-- `GetDongCount` loads the dongs of the sigungu it is called for. -/
theorem Session.Coherent.loadsDongs (coherent : session.Coherent) {sigunguIdx sido : Nat}
    (request : input.request = .getDongCount sigunguIdx) {helper : SearchHelper}
    {sigunguF : SigunguDataF} (asked : session.asked.sido = some sido)
    (there : session.browser.um.helpers[sido]? = some helper)
    (listed : helper.sigunguDataFs[sigunguIdx]? = some sigunguF) :
    LoadsDongs fuel session input sido helper sigunguF := by
  -- The pointer, the place and the record are known, so that the call is the one expected.
  obtain ⟨pointer, selected, sigungu, atIndex, rfl⟩ := coherent.sigungu asked there listed
  refine ⟨?_, ?_⟩
  · simp only [Session.call, Browser.call, request, Browser.getDongCount, pointer, selected, there,
      atIndex, Option.bind_eq_bind, Option.bind_some, Option.pure_def, Option.map_bind]
    congr 1
    funext um
    simp only [Function.comp_apply]
    cases um.helpers[sido]? <;> rfl
  · intro answer next dongs called chain
    obtain ⟨returned, _⟩ := Session.call_some called
    simp only [Browser.call, request, Browser.getDongCount, pointer, selected, there, atIndex,
      Option.bind_eq_bind, Option.bind_some, Option.bind_eq_some_iff, Option.pure_def,
      Option.some.injEq, Prod.mk.injEq] at returned
    obtain ⟨um, got, after, held, rfl, same⟩ := returned
    obtain ⟨own, changed, known, listing, placed, _⟩ := onHelper_replaced got
    rw [there] at known
    cases known
    rw [held] at placed
    cases placed
    have infos := getDongData_infos chain listing
    rw [← same, held, Option.map_some, infos, ← infos, List.length_map]
    exact ⟨rfl, rfl⟩

/-- `GetRoadCount` loads the roads of the sigungu of the last `GetDongCount`. -/
theorem Session.Coherent.loadsRoads (coherent : session.Coherent) {sigunguIdx sido : Nat}
    (request : input.request = .getRoadCount sigunguIdx)
    (last : session.browser.sigunguIdx = some sigunguIdx) {helper : SearchHelper}
    {sigunguF : SigunguDataF} (asked : session.asked.sido = some sido)
    (there : session.browser.um.helpers[sido]? = some helper)
    (listed : helper.sigunguDataFs[sigunguIdx]? = some sigunguF) :
    LoadsRoads fuel session input sido helper sigunguF := by
  -- The record is found through the index of the last listing, which is the one asked for.
  obtain ⟨pointer, selected, sigungu, atIndex, rfl⟩ := coherent.sigungu asked there listed
  refine ⟨?_, ?_⟩
  · simp only [Session.call, Browser.call, request, Browser.getRoadCount, pointer, selected, last,
      there, atIndex, Option.bind_eq_bind, Option.bind_some, Option.pure_def, Option.map_bind]
    congr 1
    funext um
    simp only [Function.comp_apply]
    cases um.helpers[sido]? <;> rfl
  · intro answer next roads called stored low
    obtain ⟨returned, _⟩ := Session.call_some called
    simp only [Browser.call, request, Browser.getRoadCount, pointer, selected, last, there, atIndex,
      Option.bind_eq_bind, Option.bind_some, Option.bind_eq_some_iff, Option.pure_def,
      Option.some.injEq, Prod.mk.injEq] at returned
    obtain ⟨um, got, after, held, rfl, same⟩ := returned
    obtain ⟨own, changed, known, listing, placed, _⟩ := onHelper_replaced got
    rw [there] at known
    cases known
    rw [held] at placed
    cases placed
    have infos := getRoadData_infos stored.own stored.none stored.chain low listing
    rw [← same, held, Option.map_some, infos]
    refine ⟨?_, rfl⟩
    have lengths := congrArg List.length infos
    rw [List.length_map, List.length_map] at lengths
    rw [lengths]

/-- `JNI_GetHoData` answers for the bunji selected, as long as it is listed and keeps its dong. -/
theorem Session.Coherent.answersHo (coherent : session.Coherent) {hoIdx : Nat}
    (request : input.request = .jniGetHoData hoIdx) {entry : ListedBunji} {dong : DongData}
    {helper : SearchHelper} (selected : session.asked.selected = some entry)
    (current : session.asked.current = true)
    (fresh : session.asked.rewritten entry.bunji.pDong = false) (own : entry.dong = some dong)
    (there : session.browser.um.helpers[entry.sido]? = some helper)
    (has : HasHo helper.fp.data helper.addrHeader.addrPosExtOfs entry.bunji.offset hoIdx) :
    ∃ next, session.call fuel input =
      some (hoAnswer helper.fp.data helper.addrHeader.addrPosExtOfs entry.bunji.offset dong.info
        hoIdx, next) := by
  obtain ⟨⟨index, bunjiIdx, listed⟩, hos⟩ := coherent.selected current entry dong selected own
  obtain ⟨pHoData, data, list, hosColumn, records⟩ := hos fresh
  obtain ⟨pBunjiData, bunjis, bunjiColumn, atIndex⟩ := coherent.listed index entry listed
  obtain ⟨sido, holds⟩ := coherent.owned entry (List.mem_of_getElem? listed) dong own
  have slot := holds fresh
  -- Both columns are those of the helper that listed the bunji.
  rw [UmSearchModule.column, UmSearchModule.shown_getElem? there] at hosColumn bunjiColumn
  cases hosColumn
  cases bunjiColumn
  have record : helper.hoDatas[hoIdx]? =
      some (hoAt helper.fp.data (entry.bunji.offset + 4 + 7 * hoIdx)) :=
    records hoIdx has.listed has.inside
  have bunji : helper.bunjiDatas[index]? = some entry.bunji := atIndex
  have position := getHoPos_eq has.position input.locals.pos
  simp only [Session.call, Browser.call, request, Browser.jniGetHoData, pHoData, pBunjiData,
    bunjiIdx, there, bunji, record, slot, sido, Option.bind_eq_bind, Option.bind_some,
    Option.pure_def, Option.map_some, SearchHelper.hoDataOf, position]
  exact ⟨_, rfl⟩

/-- A helper that was just constructed shows nothing but its file and its sigungus. -/
theorem create_shown {locals : AddressLocals} {fp : File} {helper : SearchHelper}
    (created : SearchHelper.create locals fuel fp = some helper) :
    helper.shown.sigungus = [] ∧ helper.shown.dongs = [] := by
  obtain ⟨_, _, _, _, _, headers⟩ := SearchHelper.readHeaders_lists locals fp
  rw [SearchHelper.create, headers] at created
  obtain ⟨loaded, returned, same⟩ := Option.map_eq_some_iff.mp created
  -- Neither of the two tables loaded then is one of these lists.
  have kept : loaded.sigunguDatas = [] ∧ loaded.dongDatas = [] ∧ loaded.dongExDatas = [] := by
    unfold SearchHelper.loadSigunguFDatas at returned
    split at returned
    · cases returned
      exact ⟨rfl, rfl, rfl⟩
    · obtain ⟨_, _, rfl⟩ := Option.map_eq_some_iff.mp returned
      exact ⟨rfl, rfl, rfl⟩
  subst same
  refine ⟨?_, ?_⟩
  · change loaded.sigunguDatas.map SigunguData.pInfo = []
    rw [kept.1]
    rfl
  · change loaded.dongDatas ++ loaded.dongExDatas = []
    rw [kept.2.1, kept.2.2]
    rfl

/-- Nor does any helper of a module that was just loaded. -/
theorem loadHelpers_shown {locals : AddressLocals} {fopen : String → Option File} {pPath : String}
    {tails : List String} : ∀ {helpers : List SearchHelper},
      UmSearchModule.loadHelpers locals fuel fopen pPath tails = some helpers →
      ∀ helper ∈ helpers, helper.shown.sigungus = [] ∧ helper.shown.dongs = [] := by
  -- The induction is on the files, and each one opens a helper that shows nothing.
  induction tails with
  | nil =>
    intro helpers loaded helper member
    cases loaded
    cases member
  | cons tail rest ih =>
    intro helpers loaded helper member
    rw [UmSearchModule.loadHelpers_cons] at loaded
    split at loaded
    · exact ih loaded helper member
    · split at loaded
      · cases loaded
      · rename_i first created
        obtain ⟨others, later, rfl⟩ := Option.map_eq_some_iff.mp loaded
        rcases List.mem_cons.mp member with rfl | after
        · exact create_shown created
        · exact ih later helper after

/-- A session begins coherent. -/
theorem Session.Coherent.start {locals : AddressLocals} {fopen : String → Option File}
    {pPath : String} {textMng : TextMng} {um : UmSearchModule}
    (loaded : UmSearchModule.load locals fuel fopen pPath textMng = some um) :
    (Session.start um).Coherent := by
  -- No helper shows a list, so that nothing could be selected from one.
  unfold UmSearchModule.load at loaded
  obtain ⟨helpers, loop, rfl⟩ := Option.map_eq_some_iff.mp loaded
  have column : ∀ {α : Type} (field : Shown → α) place value,
      UmSearchModule.column ⟨helpers, textMng, [], [], []⟩ field place = some value →
      ∃ helper ∈ helpers, field helper.shown = value := by
    intro α field place value shown
    rw [UmSearchModule.column, UmSearchModule.shown, List.getElem?_map, Option.map_map] at shown
    obtain ⟨helper, there, same⟩ := Option.map_eq_some_iff.mp shown
    exact ⟨helper, List.mem_of_getElem? there, same⟩
  refine ⟨⟨?_, rfl, rfl, ?_⟩, ?_, ?_, ?_, ?_⟩
  · intro place lists shown
    obtain ⟨helper, member, rfl⟩ := column _ place lists shown
    exact .inl (loadHelpers_shown loop helper member).1
  · intro sido chosen
    cases chosen
  · intro place dongs shown dong member
    obtain ⟨helper, known, rfl⟩ := column _ place dongs shown
    rw [(loadHelpers_shown loop helper known).2] at member
    cases member
  · intro index entry listed
    cases listed
  · intro entry listed
    cases listed
  · intro current
    cases current

/-- A call in a coherent session is right where it meets its condition. -/
theorem Session.Coherent.right (coherent : session.Coherent) (meets : session.Meets input) :
    session.Right fuel input := by
  unfold Session.Meets at meets
  unfold Session.Right
  split
  · rename_i request
    intro sido helper sigunguF asked there listed
    exact coherent.loadsDongs request asked there listed
  · rename_i request
    rw [request] at meets
    intro sido helper sigunguF asked there listed
    exact coherent.loadsRoads request meets asked there listed
  · rename_i request
    rw [request] at meets
    intro entry dong helper selected own there has
    rw [selected] at meets
    -- The bunjis are still those listed last, and the slot of the dong was not written.
    simp only [Option.all_some, Bool.and_eq_true, Bool.not_eq_true'] at meets
    exact coherent.answersHo request selected meets.1 meets.2 own there has
  · trivial

/--
In every run of browsing calls in which each `GetRoadCount` is for the sigungu of the last
`GetDongCount`, and each `JNI_GetHoData` is made before bunjis are listed again and before the slot
of the selected bunji's dong is written, every call works on what the calls before it asked for.
-/
theorem browsing_right {locals : AddressLocals} {passes : Nat} {fopen : String → Option File}
    {pPath : String} {textMng : TextMng} {um : UmSearchModule}
    (loaded : UmSearchModule.load locals passes fopen pPath textMng = some um)
    {inputs : List BrowseInput}
    (met : Along (Session.call fuel) Session.Meets (Session.start um) inputs) :
    Along (Session.call fuel) (Session.Right fuel) (Session.start um) inputs := by
  -- Coherence is the invariant, and each kind of call is right in a coherent session.
  refine along_of_invariant Session.Coherent ?_ ?_ inputs (Session.start um) (.start loaded) met
  · intro session input answer next coherent _ called
    exact coherent.call called
  · intro session input coherent meets
    exact coherent.right meets

end Runs

section TwoSigungus

/--
A sido file with two sigungus of one law dong each, which has one bunji with one ho.

Only the second sigungu has a road.
-/
def twoSigungus : List UInt8 :=
  leBytes 10 0 ++
  -- The first sigungu at 10, its dong at 20 and its bunji at 38.
  leBytes 2 1 ++ leBytes 4 0 ++ leBytes 4 49 ++
  dongBytes 1 100 200 5 0 ++ bunjiBytes 0x8001 5 7 9 ++
  -- The second sigungu at 49, its dong at 59, its bunji at 77 and its road at 88.
  leBytes 2 2 ++ leBytes 4 88 ++ leBytes 4 0 ++
  dongBytes 1 300 400 5 0 ++ bunjiBytes 0x8002 6 8 10 ++
  leBytes 4 1 ++ leBytes 2 0 ++ leBytes 4 0 ++
  -- The three headers.
  leBytes 36 0 ++ leBytes 48 0 ++ [0, 134, 134, 182].flatMap (leBytes 4)

/-- The only file that can be opened is that of the first sido. -/
def twoSigungusFiles (path : String) : Option File :=
  if path = sidoPath "/" "su" then some ⟨twoSigungus, 0, by decide +kernel⟩ else none

/-- The names of the sigungus, of their dongs and of the road, one syllable each. -/
def twoSigungusNames : TextMng where
  textFp := ⟨[0x00, 0xAC], 0, by decide⟩
  nameFp := ⟨leBytes 4 2 ++ leBytes 2 1 ++ leBytes 4 1 ++ leBytes 2 2 ++ leBytes 4 1 ++
    [2, 100001, 1, 200001, 1].flatMap (leBytes 4) ++ [1, 200001, 1].flatMap (leBytes 4), 0,
    by decide +kernel⟩
  sidoOfs := 0
  sigunguOfs := 0
  dongOfs := 16
  roadOfs := 36
  textBuff := fun _ => List.replicate 32 0
  sized := zeros_sized

/-- A call whose uninitialised variables happen to be zero. -/
def zeroInput (request : BrowseCall) : BrowseInput :=
  ⟨⟨zeroAddressLocals, fun _ => zeroCallLocals.region, (0, 0)⟩, request⟩

/-- What `Load` makes of the file. -/
def twoSigungusModule : UmSearchModule :=
  (UmSearchModule.load zeroAddressLocals 9 twoSigungusFiles "/" twoSigungusNames).get
    (by decide +kernel)

theorem twoSigungus_loaded :
    UmSearchModule.load zeroAddressLocals 9 twoSigungusFiles "/" twoSigungusNames =
      some twoSigungusModule :=
  (Option.some_get _).symm

/-- The second sigungu is browsed down to the position of a ho. -/
theorem browsing_right_second :
    (run (Session.call 9) (Session.start twoSigungusModule)
      ([.getSigunguCount 0, .getDongCount 1, .getRoadCount 1, .getBunjiCount 0, .getHoCount 0,
        .jniGetHoData 0].map zeroInput)).map Prod.fst =
      some [.count 2, .count 1, .count 1, .count 1, .count 1, .ho 6 308 410] ∧
    Along (Session.call 9) (Session.Right 9) (Session.start twoSigungusModule)
      ([.getSigunguCount 0, .getDongCount 1, .getRoadCount 1, .getBunjiCount 0, .getHoCount 0,
        .jniGetHoData 0].map zeroInput) :=
  ⟨by decide +kernel, browsing_right twoSigungus_loaded (by decide +kernel)⟩

/-- The first sigungu is browsed down to its dongs. -/
def dongsOfFirst : List BrowseInput := [.getSigunguCount 0, .getDongCount 0].map zeroInput

/-- The first sigungu is browsed down to its hos, and then the second down to its dongs. -/
def hosThenDongs : List BrowseInput :=
  [.getSigunguCount 0, .getDongCount 0, .getBunjiCount 0, .getHoCount 0,
    .getDongCount 1].map zeroInput

/-- The session in which the roads of the second sigungu are asked for. -/
def roadsAfterDongs : Session :=
  ((run (Session.call 9) (Session.start twoSigungusModule) dongsOfFirst).get (by decide +kernel)).2

/-- The session in which a ho of the first sigungu is asked for. -/
def hoAfterDongs : Session :=
  ((run (Session.call 9) (Session.start twoSigungusModule) hosThenDongs).get (by decide +kernel)).2

/-- The roads of the first sigungu are loaded in place of those of the second. -/
theorem roadsAfterDongs_wrong : ¬ roadsAfterDongs.Right 9 (zeroInput (.getRoadCount 1)) := by
  intro right
  obtain ⟨helper, there⟩ := Option.isSome_iff_exists.mp
    (show (roadsAfterDongs.browser.um.helpers[0]?).isSome = true by decide +kernel)
  have sigungus : (roadsAfterDongs.browser.um.helpers[0]?).map SearchHelper.sigunguDataFs =
      some [⟨1, 0, 10⟩, ⟨2, 88, 49⟩] := by decide +kernel
  rw [there] at sigungus
  have listed : helper.sigunguDataFs[1]? = some ⟨2, 88, 49⟩ := by
    rw [Option.some.inj sigungus]
    rfl
  have loads := right 0 helper ⟨2, 88, 49⟩ (by decide +kernel) there listed
  -- The second sigungu has a road, and none is counted.
  have counted := congrArg (Option.map Prod.fst) loads.outcome
  revert counted
  decide +kernel

/-- The corner of the dong of the second sigungu is added to the position. -/
theorem hoAfterDongs_wrong : ¬ hoAfterDongs.Right 9 (zeroInput (.jniGetHoData 0)) := by
  -- The corners of the two dongs differ, and so do the positions that are told.
  intro right
  obtain ⟨helper, there⟩ := Option.isSome_iff_exists.mp
    (show (hoAfterDongs.browser.um.helpers[0]?).isSome = true by decide +kernel)
  have opened : (hoAfterDongs.browser.um.helpers[0]?).map (fun helper =>
      (helper.fp.data, helper.addrHeader.addrPosExtOfs)) = some (twoSigungus, 0) := by
    decide +kernel
  rw [there] at opened
  obtain ⟨data, posExtOfs⟩ := Prod.mk.inj (Option.some.inj opened)
  have answers := right ⟨0, ⟨.dong 0 0, 1, 1, 38⟩,
    some ⟨0, ⟨1, 0, 10⟩, [0xAC00], 1, ⟨1, 100, 200, 1, 0, 1, 20⟩⟩⟩ _ helper (by decide +kernel) rfl
    there
  rw [data, posExtOfs] at answers
  obtain ⟨next, called⟩ := answers ⟨by decide +kernel, by decide +kernel, by decide +kernel⟩
  have answer := congrArg (Option.map Prod.fst) called
  rw [Option.map_some] at answer
  dsimp only at answer
  revert answer
  decide +kernel

/--
Calls with indices in range go wrong in two ways.

`GetRoadCount` loads the roads of the sigungu whose dongs were listed last.
`JNI_GetHoData` places a ho in the dong that has taken the slot of its own.
-/
theorem browsing_wrong :
    UmSearchModule.load zeroAddressLocals 9 twoSigungusFiles "/" twoSigungusNames =
      some twoSigungusModule ∧
    (Along (Session.call 9) (fun session input => session.browser.inRange input.request)
        (Session.start twoSigungusModule) (dongsOfFirst ++ [zeroInput (.getRoadCount 1)]) ∧
      (run (Session.call 9) (Session.start twoSigungusModule)
        (dongsOfFirst ++ [zeroInput (.getRoadCount 1)])).map Prod.fst =
          some [.count 2, .count 1, .count 0] ∧
      ¬ Along (Session.call 9) (Session.Right 9) (Session.start twoSigungusModule)
        (dongsOfFirst ++ [zeroInput (.getRoadCount 1)])) ∧
    Along (Session.call 9) (fun session input => session.browser.inRange input.request)
        (Session.start twoSigungusModule) (hosThenDongs ++ [zeroInput (.jniGetHoData 0)]) ∧
      (run (Session.call 9) (Session.start twoSigungusModule)
        (hosThenDongs ++ [zeroInput (.jniGetHoData 0)])).map Prod.fst =
          some [.count 2, .count 1, .count 1, .count 1, .count 1, .ho 5 307 409] ∧
      ¬ Along (Session.call 9) (Session.Right 9) (Session.start twoSigungusModule)
        (hosThenDongs ++ [zeroInput (.jniGetHoData 0)]) := by
  refine ⟨twoSigungus_loaded, ⟨by decide +kernel, by decide +kernel, ?_⟩, by decide +kernel,
    by decide +kernel, ?_⟩
  · intro along
    exact roadsAfterDongs_wrong (along_last along (Option.some_get _).symm)
  · intro along
    exact hoAfterDongs_wrong (along_last along (Option.some_get _).symm)

end TwoSigungus

end AndroidApps.Gildroia
