import AndroidApps.Gildroia.PoiMoves

/-! What the views of the address search show, and which native calls leave it as it is. -/

namespace AndroidApps.Gildroia

section Requirements

/-- How far a view is from the menu. -/
def AddressPlace.level : AddressPlace → Nat
  | menu => 0
  | main => 1
  | sigungu _ => 2
  | dnr _ => 3
  | bna _ _ | roadBunji _ _ => 4
  | ho _ _ _ | roadHo _ _ _ => 5

/-- What a tab of a view lists. -/
inductive TabList where
  | sidos
  | listed (kind : ListKind)
  | apts

/-- The tabs of a view. -/
def AddressPlace.tabs : AddressPlace → List TabList
  | menu => []
  | main => [.sidos]
  | sigungu _ => [.listed .sigungu]
  | dnr _ => [.listed .dong, .listed .road]
  | bna _ _ => [.listed .bunji, .apts]
  | roadBunji _ _ => [.listed .bunji]
  | ho _ _ _ => [.listed .ho]
  | roadHo _ _ _ => [.listed .roadHo]

/-- The level of the views that show a list of the module. -/
def ListKind.level : ListKind → Nat
  | sigungu => 2
  | dong | road => 3
  | bunji => 4
  | ho | roadHo => 5

/-- The level of the views that show a list. -/
def TabList.level : TabList → Nat
  | sidos => 1
  | listed kind => kind.level
  | apts => 4

/-- The road of an index is listed. -/
def Browser.HasRoad (browser : Browser) (roadIdx : Nat) : Prop :=
  (browser.row .road roadIdx).isSome = true

/-- The variables of the native side are those of the choices that led to a view. -/
def AddressPlace.Chosen (session : Session) : AddressPlace → Prop
  | menu | main => True
  | sigungu nSidoIdx => session.asked.sido = some nSidoIdx
  | dnr (.sigungu nSidoIdx nSigunguIdx) =>
    session.browser.sigunguIdx = some nSigunguIdx ∧
      session.browser.list .dong = some (.helper nSidoIdx) ∧
      session.browser.list .road = some (.helper nSidoIdx)
  | dnr (.text _ _) =>
    session.browser.list .dong = some .names ∧ session.browser.list .road = some .names
  | bna _ nDongIdx =>
    session.browser.dongIdx = some nDongIdx ∧ ∀ slot, session.asked.rewritten slot = false
  | roadBunji _ nRoadIdx =>
    session.browser.roadIdx = some nRoadIdx ∧ session.browser.HasRoad nRoadIdx
  | ho _ _ nBunjiIdx =>
    session.browser.bunjiIdx = some nBunjiIdx ∧
      session.asked.selected = session.asked.listed[nBunjiIdx]? ∧
      session.asked.current = true ∧ ∀ slot, session.asked.rewritten slot = false
  | roadHo _ nRoadIdx nBunjiIdx =>
    session.browser.roadBunjiIdx = some nBunjiIdx ∧ session.browser.roadIdx = some nRoadIdx ∧
      session.browser.HasRoad nRoadIdx

/-- The apartments are those of the dong that led to a view. -/
def AddressPlace.HasApts (native : Native) : AddressPlace → Prop
  | bna _ nDongIdx => native.apts = some nDongIdx
  | menu | main | sigungu _ | dnr _ | roadBunji _ _ | ho _ _ _ | roadHo _ _ _ => True

/-- The native side holds these rows of a list: of the sidos, there are as many. -/
def Native.Holds (native : Native) : TabList → List ListRow → Prop
  | .sidos, rows => rows.length = native.um.helpers.length
  | .listed kind, rows => native.session.browser.rows kind = some rows
  | .apts, rows => ∃ poiDatas, native.cursor.poiDatas = some poiDatas ∧
    rows = poiDatas.map fun entry => .name entry.1

/-- A view shows what the native side holds, which is what its choices ask for. -/
structure AddressView.Shows (native : Native) (view : AddressView) : Prop where
  chosen : view.place.Chosen native.session
  apts : view.place.HasApts native
  lists : List.Forall₂ native.Holds view.place.tabs view.lists

/-- An apartment of the dong whose bunjis are listed has this index. -/
def Native.HasApt (native : Native) (poiIdx : Nat) : Prop :=
  native.apts = native.session.browser.dongIdx ∧
    ∃ poiDatas, native.cursor.poiDatas = some poiDatas ∧ poiIdx < poiDatas.length

/-- A call is inside the lists it reads, and works on what the calls before it asked for. -/
def Native.Fits (fuel : Nat) (native : Native) (input : ViewCall) : Prop :=
  match input.request with
  | .getSidoCount | .getDongNameByDCode _ => True
  | .getSidoName sidoIdx => sidoIdx < native.um.helpers.length
  | .browse request =>
    native.session.browser.inRange request = true ∧
      native.session.Right fuel ⟨input.locals.browse, request⟩
  | .row call idx => (native.session.browser.rowOf call idx).isSome = true
  | .jniGetRoadHoData roadHoIdx =>
    (native.session.browser.row .roadHo roadHoIdx).isSome = true ∧
      ∃ roadIdx, native.session.browser.roadIdx = some roadIdx ∧
        native.session.browser.HasRoad roadIdx
  | .getAptCount dongIdx =>
    (native.session.browser.row .dong dongIdx).isSome = true ∧
      native.session.browser.dongIdx = some dongIdx
  | .getPoiName poiIdx | .getPoiData poiIdx => native.HasApt poiIdx

end Requirements

section Frames

/-- What a call of a level leaves of the levels below it. -/
structure SameBelow (level : Nat) (before after : Session) : Prop where
  helpers : after.browser.um.helpers.length = before.browser.um.helpers.length
  sido : 2 < level → after.asked.sido = before.asked.sido ∧
    after.browser.rows .sigungu = before.browser.rows .sigungu
  regions : 3 < level → after.browser.sigunguIdx = before.browser.sigunguIdx ∧
    ∀ kind, kind = .dong ∨ kind = .road → after.browser.list kind = before.browser.list kind ∧
      after.browser.rows kind = before.browser.rows kind
  bunjis : 4 < level → after.browser.dongIdx = before.browser.dongIdx ∧
    after.browser.roadIdx = before.browser.roadIdx ∧
    after.browser.rows .bunji = before.browser.rows .bunji ∧
    after.asked.rewritten = before.asked.rewritten
  hos : 5 < level → after.browser.bunjiIdx = before.browser.bunjiIdx ∧
    after.browser.roadBunjiIdx = before.browser.roadBunjiIdx ∧
    after.browser.rows .ho = before.browser.rows .ho ∧
    after.browser.rows .roadHo = before.browser.rows .roadHo ∧ after.asked = before.asked

variable {level : Nat} {before middle after : Session}

theorem SameBelow.refl (level : Nat) (session : Session) : SameBelow level session session :=
  ⟨rfl, fun _ => ⟨rfl, rfl⟩, fun _ => ⟨rfl, fun _ _ => ⟨rfl, rfl⟩⟩, fun _ => ⟨rfl, rfl, rfl, rfl⟩,
    fun _ => ⟨rfl, rfl, rfl, rfl, rfl⟩⟩

theorem SameBelow.trans (first : SameBelow level before middle)
    (second : SameBelow level middle after) : SameBelow level before after where
  helpers := second.helpers.trans first.helpers
  sido below := ⟨(second.sido below).1.trans (first.sido below).1,
    (second.sido below).2.trans (first.sido below).2⟩
  -- What both calls leave is left by the two of them.
  regions below := by
    obtain ⟨sigunguIdx, lists⟩ := first.regions below
    obtain ⟨sigunguIdx', lists'⟩ := second.regions below
    exact ⟨sigunguIdx'.trans sigunguIdx, fun kind own =>
      ⟨(lists' kind own).1.trans (lists kind own).1, (lists' kind own).2.trans (lists kind own).2⟩⟩
  bunjis below := by
    obtain ⟨dongIdx, roadIdx, rows, rewritten⟩ := first.bunjis below
    obtain ⟨dongIdx', roadIdx', rows', rewritten'⟩ := second.bunjis below
    exact ⟨dongIdx'.trans dongIdx, roadIdx'.trans roadIdx, rows'.trans rows,
      rewritten'.trans rewritten⟩
  hos below := by
    obtain ⟨bunjiIdx, roadBunjiIdx, ho, roadHo, asked⟩ := first.hos below
    obtain ⟨bunjiIdx', roadBunjiIdx', ho', roadHo', asked'⟩ := second.hos below
    exact ⟨bunjiIdx'.trans bunjiIdx, roadBunjiIdx'.trans roadBunjiIdx, ho'.trans ho,
      roadHo'.trans roadHo, asked'.trans asked⟩

/-- A road is listed as long as the rows of the roads are the same. -/
theorem Browser.HasRoad.same {browser next : Browser} {roadIdx : Nat}
    (has : browser.HasRoad roadIdx) (rows : next.rows .road = browser.rows .road) :
    next.HasRoad roadIdx := by
  unfold HasRoad at has ⊢
  rwa [Browser.row_eq, rows, ← Browser.row_eq]

/-- Less is left of fewer levels. -/
theorem SameBelow.of_le {lower : Nat} (same : SameBelow level before after) (le : lower ≤ level) :
    SameBelow lower before after where
  helpers := same.helpers
  sido below := same.sido (Nat.lt_of_lt_of_le below le)
  regions below := same.regions (Nat.lt_of_lt_of_le below le)
  bunjis below := same.bunjis (Nat.lt_of_lt_of_le below le)
  hos below := same.hos (Nat.lt_of_lt_of_le below le)

/-- The choices of a view below the level of a call are those they were. -/
theorem AddressPlace.Chosen.below {place : AddressPlace} (chosen : place.Chosen before)
    (same : SameBelow level before after) (below : place.level < level) : place.Chosen after := by
  cases place with
  | menu => trivial
  | main => trivial
  | sigungu nSidoIdx => exact (same.sido below).1.trans chosen
  -- The lists of the dongs and of the roads are reached through the same variables as before.
  | dnr regions =>
    obtain ⟨sigunguIdx, kinds⟩ := same.regions below
    have dongs := (kinds .dong (.inl rfl)).1
    have roads := (kinds .road (.inr rfl)).1
    cases regions with
    | sigungu sido idx =>
      exact ⟨sigunguIdx.trans chosen.1, dongs.trans chosen.2.1, roads.trans chosen.2.2⟩
    | text text len => exact ⟨dongs.trans chosen.1, roads.trans chosen.2⟩
  | bna regions nDongIdx =>
    obtain ⟨dongIdx, _, _, rewritten⟩ := same.bunjis below
    refine ⟨dongIdx.trans chosen.1, ?_⟩
    rw [rewritten]
    exact chosen.2
  -- The road is listed one level below the view.
  | roadBunji regions nRoadIdx =>
    have higher : 3 < level := Nat.lt_of_succ_lt below
    obtain ⟨_, roadIdx, _, _⟩ := same.bunjis below
    exact ⟨roadIdx.trans chosen.1,
      chosen.2.same ((same.regions higher).2 .road (.inr rfl)).2⟩
  | ho regions nDongIdx nBunjiIdx =>
    obtain ⟨bunjiIdx, _, _, _, asked⟩ := same.hos below
    refine ⟨bunjiIdx.trans chosen.1, ?_⟩
    rw [asked]
    exact chosen.2
  -- The bunji was chosen on the level below, and the road on the one below that.
  | roadHo regions nRoadIdx nBunjiIdx =>
    have higher : 4 < level := Nat.lt_of_succ_lt below
    have highest : 3 < level := Nat.lt_of_succ_lt higher
    obtain ⟨_, roadBunjiIdx, _, _, _⟩ := same.hos below
    obtain ⟨_, roadIdx, _, _⟩ := same.bunjis higher
    exact ⟨roadBunjiIdx.trans chosen.1, roadIdx.trans chosen.2.1,
      chosen.2.2.same ((same.regions highest).2 .road (.inr rfl)).2⟩

/-- The lists below the level of a call hold the rows they did. -/
theorem SameBelow.rows (same : SameBelow level before after) {kind : ListKind}
    (below : kind.level < level) : after.browser.rows kind = before.browser.rows kind := by
  cases kind with
  | sigungu => exact (same.sido below).2
  | dong => exact ((same.regions below).2 .dong (.inl rfl)).2
  | road => exact ((same.regions below).2 .road (.inr rfl)).2
  | bunji => exact (same.bunjis below).2.2.1
  | ho => exact (same.hos below).2.2.1
  | roadHo => exact (same.hos below).2.2.2.1

/-- What a call of a level leaves on the native side: the module, and the levels below it. -/
structure Native.Leaves (level : Nat) (before after : Native) : Prop where
  loaded : after.loaded = before.loaded
  session : SameBelow level before.session after.session
  apts : 4 < level → after.apts = before.apts ∧ after.cursor.poiDatas = before.cursor.poiDatas

theorem Native.Leaves.refl (level : Nat) (native : Native) : Native.Leaves level native native :=
  ⟨rfl, .refl _ _, fun _ => ⟨rfl, rfl⟩⟩

theorem Native.Leaves.trans {before middle after : Native}
    (first : Native.Leaves level before middle) (second : Native.Leaves level middle after) :
    Native.Leaves level before after where
  loaded := second.loaded.trans first.loaded
  session := first.session.trans second.session
  apts below := ⟨(second.apts below).1.trans (first.apts below).1,
    (second.apts below).2.trans (first.apts below).2⟩

/-- A list below the level of a call holds what it did. -/
theorem Native.Holds.below {before after : Native} {list : TabList} {rows : List ListRow}
    (holds : before.Holds list rows) (leaves : Native.Leaves level before after)
    (below : list.level < level) : after.Holds list rows := by
  cases list with
  -- No call loads another sido.
  | sidos =>
    have same : after.um.helpers.length = before.um.helpers.length := leaves.session.helpers
    have held : rows.length = before.um.helpers.length := holds
    exact held.trans same.symm
  | listed kind =>
    have held : before.session.browser.rows kind = some rows := holds
    exact (leaves.session.rows below).trans held
  | apts =>
    obtain ⟨poiDatas, listed, shown⟩ := holds
    exact ⟨poiDatas, (leaves.apts below).2.trans listed, shown⟩

/-- No list of a view is above the view. -/
theorem AddressPlace.tabs_level {place : AddressPlace} {list : TabList} (own : list ∈ place.tabs) :
    list.level ≤ place.level := by
  cases place <;> simp only [tabs, List.mem_cons, List.not_mem_nil, or_false] at own <;>
    rcases own with rfl | rfl <;> exact Nat.le_refl _

/-- A view below the level of a call shows what it did. -/
theorem AddressView.Shows.below {before after : Native} {view : AddressView}
    (shows : view.Shows before) (leaves : Native.Leaves level before after)
    (below : view.place.level < level) : view.Shows after where
  chosen := shows.chosen.below leaves.session below
  apts := by
    have held := shows.apts
    obtain ⟨place, lists⟩ := view
    -- Only the view of bunjis and apartments has a tab of them.
    cases place with
    | bna regions nDongIdx => exact (leaves.apts below).1.trans held
    | menu | main | sigungu | dnr | roadBunji | ho | roadHo => trivial
  lists := by
    refine List.forall₂_iff_get.mpr ?_
    obtain ⟨same, holds⟩ := List.forall₂_iff_get.mp shows.lists
    -- Tab by tab, the list is of no higher level than its view.
    refine ⟨same, fun idx first second => (holds idx first second).below leaves ?_⟩
    exact Nat.lt_of_le_of_lt (AddressPlace.tabs_level (List.get_mem _ _)) below

/-- A list that is not written, through a pointer that is the same, shows the same rows. -/
theorem Browser.rows_of_writes {kind : Option ListKind} {browser next : Browser}
    (writes : UmSearchModule.Writes kind browser.um next.um) {other : ListKind}
    (different : some other ≠ kind) (list : next.list other = browser.list other) :
    next.rows other = browser.rows other := by
  rw [Browser.rows, Browser.rows, list, writes other different]

/-- There are as many helpers as before. -/
theorem UmSearchModule.Writes.helpers {kind : Option ListKind} {um next : UmSearchModule}
    (writes : UmSearchModule.Writes kind um next) : next.helpers.length = um.helpers.length := by
  -- The rows of a kind that is not written are there for the same helpers.
  obtain ⟨other, different⟩ : ∃ other, some other ≠ kind := by
    by_cases first : kind = some .sigungu
    · exact ⟨.dong, by simp [first]⟩
    · exact ⟨.sigungu, fun same => first same.symm⟩
  have there : ∀ sido, sido < next.helpers.length ↔ sido < um.helpers.length := by
    intro sido
    have rows := congrFun (writes other different) (.helper sido)
    rw [rows_helper, rows_helper] at rows
    have found := congrArg Option.isSome rows
    rw [Option.isSome_map, Option.isSome_map] at found
    have first : next.helpers[sido]?.isSome = true ↔ sido < next.helpers.length := by simp
    have second : um.helpers[sido]?.isSome = true ↔ sido < um.helpers.length := by simp
    rw [← first, ← second, found]
  -- So no index is inside one list and outside the other.
  exact Nat.le_antisymm (Nat.le_of_not_lt fun more => Nat.lt_irrefl _ ((there _).mp more))
    (Nat.le_of_not_lt fun more => Nat.lt_irrefl _ ((there _).mpr more))

/-- A call that writes lists of its level only leaves the levels below. -/
theorem SameBelow.of_writes {kind : Option ListKind}
    (writes : UmSearchModule.Writes kind before.browser.um after.browser.um)
    (deep : ∀ own, kind = some own → level ≤ own.level)
    (lists : ∀ other, some other ≠ kind → after.browser.list other = before.browser.list other)
    (sido : 2 < level → after.asked.sido = before.asked.sido)
    (sigunguIdx : 3 < level → after.browser.sigunguIdx = before.browser.sigunguIdx)
    (bunjis : 4 < level → after.browser.dongIdx = before.browser.dongIdx ∧
      after.browser.roadIdx = before.browser.roadIdx ∧
      after.asked.rewritten = before.asked.rewritten)
    (hos : 5 < level → after.browser.bunjiIdx = before.browser.bunjiIdx ∧
      after.browser.roadBunjiIdx = before.browser.roadBunjiIdx ∧ after.asked = before.asked) :
    SameBelow level before after := by
  -- A list of a lower level is none of those that are written.
  have different : ∀ other : ListKind, other.level < level → some other ≠ kind := by
    intro other below same
    exact Nat.not_lt.mpr (deep other same.symm) below
  have rows : ∀ other : ListKind, other.level < level →
      after.browser.rows other = before.browser.rows other := fun other below =>
    Browser.rows_of_writes writes (different other below) (lists other (different other below))
  refine ⟨writes.helpers, fun below => ⟨sido below, rows .sigungu below⟩,
    fun below => ⟨sigunguIdx below, ?_⟩, fun below => ?_, fun below => ?_⟩
  · rintro kind (rfl | rfl)
    · exact ⟨lists _ (different .dong below), rows .dong below⟩
    · exact ⟨lists _ (different .road below), rows .road below⟩
  · obtain ⟨dongIdx, roadIdx, rewritten⟩ := bunjis below
    exact ⟨dongIdx, roadIdx, rows .bunji below, rewritten⟩
  · obtain ⟨bunjiIdx, roadBunjiIdx, asked⟩ := hos below
    exact ⟨bunjiIdx, roadBunjiIdx, rows .ho below, rows .roadHo below, asked⟩

end Frames

section Calls

variable {locals : BrowseLocals} {fuel : Nat} {session after : Session} {answer : BrowseAnswer}

/-- A call has filled the list of a kind. -/
def Lists (kind : ListKind) (session : Session) (answer : BrowseAnswer) : Prop :=
  ∃ rows, session.browser.rows kind = some rows ∧ answer = .count rows.length

/-- `GetSigunguCount` lists the sigungus of the sido chosen. -/
theorem sigungus_listed {nSidoIdx : Nat}
    (called : session.call fuel ⟨locals, .getSigunguCount nSidoIdx⟩ = some (answer, after)) :
    SameBelow 2 session after ∧ Lists .sigungu after answer ∧
      (AddressPlace.sigungu nSidoIdx).Chosen after := by
  obtain ⟨returned, asked⟩ := Session.call_some called
  obtain ⟨⟨writes, filled⟩, next⟩ := Browser.getSigunguCount_fills returned
  refine ⟨.of_writes writes ?_ ?_ (by simp) (by simp) (by simp) (by simp), filled, ?_⟩
  · rintro own ⟨⟩
    exact Nat.le_refl _
  -- The variables of all other lists are the same.
  · intro other different
    rw [next]
    cases other <;> first | rfl | exact absurd rfl different
  · exact congrArg Asked.sido asked

/-- `GetDongCount` lists the dongs of the sigungu chosen, below the sido chosen. -/
theorem dongs_listed {nSidoIdx nSigunguIdx : Nat} (coherent : session.Coherent)
    (chosen : session.asked.sido = some nSidoIdx)
    (called : session.call fuel ⟨locals, .getDongCount nSigunguIdx⟩ = some (answer, after)) :
    SameBelow 3 session after ∧ Lists .dong after answer ∧
      after.browser.sigunguIdx = some nSigunguIdx ∧
      after.browser.list .dong = some (.helper nSidoIdx) := by
  obtain ⟨returned, asked⟩ := Session.call_some called
  have same : after.asked.sido = session.asked.sido := (congrArg Asked.sido asked).trans rfl
  -- The sigungus are those of the sido that was chosen last.
  have set : session.browser.pSigunguData ≠ none := by
    rw [coherent.chosen.pSigunguData, chosen]
    exact Option.some_ne_none _
  obtain ⟨⟨writes, filled⟩, sidoIdx, selected, next⟩ := Browser.getDongCount_fills set returned
  refine ⟨.of_writes writes ?_ ?_ (fun _ => same) (by simp) (by simp) (by simp), filled,
    ?_, ?_⟩
  · rintro own ⟨⟩
    exact Nat.le_refl _
  · intro other different
    rw [next]
    cases other <;> first | rfl | exact absurd rfl different
  · rw [next]
  -- The dongs are held by the helper of that sido.
  · rw [next, Option.some.inj (selected.symm.trans (coherent.chosen.sidoIdx.trans chosen))]
    rfl

/-- `GetSearchDongCount` lists the dongs found by name. -/
theorem dongNames_listed {text : Nat → UInt16} {nLen : Nat}
    (called : session.call fuel ⟨locals, .getSearchDongCount text nLen⟩ = some (answer, after)) :
    SameBelow 3 session after ∧ Lists .dong after answer ∧
      after.browser.list .dong = some .names := by
  obtain ⟨returned, asked⟩ := Session.call_some called
  have same : after.asked.sido = session.asked.sido := (congrArg Asked.sido asked).trans rfl
  obtain ⟨⟨writes, filled⟩, next⟩ := Browser.getSearchDongCount_fills returned
  refine ⟨.of_writes writes ?_ ?_ (fun _ => same) (by simp) (by simp) (by simp), filled,
    ?_⟩
  · rintro own ⟨⟩
    exact Nat.le_refl _
  · intro other different
    rw [next]
    cases other <;> first | rfl | exact absurd rfl different
  · rw [next]
    rfl

/-- The dongs listed just before are those listed still. -/
structure KeepsDongList (session after : Session) : Prop where
  sigunguIdx : after.browser.sigunguIdx = session.browser.sigunguIdx
  list : after.browser.list .dong = session.browser.list .dong
  rows : after.browser.rows .dong = session.browser.rows .dong

/-- `GetRoadCount` lists the roads of the sigungu of the last `GetDongCount`. -/
theorem roads_listed {nSidoIdx nSigunguIdx : Nat} (coherent : session.Coherent)
    (chosen : session.asked.sido = some nSidoIdx)
    (called : session.call fuel ⟨locals, .getRoadCount nSigunguIdx⟩ = some (answer, after)) :
    SameBelow 3 session after ∧ Lists .road after answer ∧ KeepsDongList session after ∧
      after.browser.list .road = some (.helper nSidoIdx) := by
  obtain ⟨returned, asked⟩ := Session.call_some called
  have same : after.asked.sido = session.asked.sido := (congrArg Asked.sido asked).trans rfl
  have set : session.browser.pSigunguData ≠ none := by
    rw [coherent.chosen.pSigunguData, chosen]
    exact Option.some_ne_none _
  obtain ⟨⟨writes, filled⟩, sidoIdx, selected, next⟩ := Browser.getRoadCount_fills nSigunguIdx set
    returned
  have lists : ∀ other, some other ≠ some ListKind.road →
      after.browser.list other = session.browser.list other := by
    intro other different
    rw [next]
    cases other <;> first | rfl | exact absurd rfl different
  refine ⟨.of_writes writes ?_ lists (fun _ => same) (by simp) (by simp) (by simp),
    filled, ⟨by rw [next], lists .dong (by decide), ?_⟩, ?_⟩
  · rintro own ⟨⟩
    exact Nat.le_refl _
  -- The dongs are still those that were listed before the roads.
  · exact Browser.rows_of_writes writes (by decide) (lists .dong (by decide))
  · rw [next, Option.some.inj (selected.symm.trans (coherent.chosen.sidoIdx.trans chosen))]
    rfl

/-- `GetSearchRoadCount` lists the roads found by name. -/
theorem roadNames_listed {text : Nat → UInt16} {nLen : Nat}
    (called : session.call fuel ⟨locals, .getSearchRoadCount text nLen⟩ = some (answer, after)) :
    SameBelow 3 session after ∧ Lists .road after answer ∧ KeepsDongList session after ∧
      after.browser.list .road = some .names := by
  obtain ⟨returned, asked⟩ := Session.call_some called
  have same : after.asked.sido = session.asked.sido := (congrArg Asked.sido asked).trans rfl
  obtain ⟨⟨writes, filled⟩, next⟩ := Browser.getSearchRoadCount_fills returned
  have lists : ∀ other, some other ≠ some ListKind.road →
      after.browser.list other = session.browser.list other := by
    intro other different
    rw [next]
    cases other <;> first | rfl | exact absurd rfl different
  refine ⟨.of_writes writes ?_ lists (fun _ => same) (by simp) (by simp) (by simp),
    filled, ⟨by rw [next], lists .dong (by decide), ?_⟩, ?_⟩
  · rintro own ⟨⟩
    exact Nat.le_refl _
  · exact Browser.rows_of_writes writes (by decide) (lists .dong (by decide))
  · rw [next]
    rfl

/-- A row of a list is there only if the variable of its kind points to a list. -/
theorem Browser.list_of_row {browser : Browser} {kind : ListKind} {idx : Nat}
    (there : (browser.row kind idx).isSome = true) : browser.list kind ≠ none := by
  intro unset
  rw [Browser.row_eq, Browser.rows, unset] at there
  cases there

/-- `GetBunjiCount` lists the bunjis of the dong chosen. -/
theorem bunjis_listed {nDongIdx : Nat} (regions : Regions)
    (there : (session.browser.row .dong nDongIdx).isSome = true)
    (called : session.call fuel ⟨locals, .getBunjiCount nDongIdx⟩ = some (answer, after)) :
    SameBelow 4 session after ∧ Lists .bunji after answer ∧
      (AddressPlace.bna regions nDongIdx).Chosen after := by
  obtain ⟨returned, asked⟩ := Session.call_some called
  have set : session.browser.pDongData ≠ none := Browser.list_of_row there
  obtain ⟨⟨writes, filled⟩, sido, next⟩ := Browser.getBunjiCount_fills set returned
  -- From this call on, no slot of a dong has been written.
  rw [Asked.after, if_neg (by rwa [Option.isNone_iff_eq_none])] at asked
  have same : after.asked.sido = session.asked.sido := (congrArg Asked.sido asked).trans rfl
  refine ⟨.of_writes writes ?_ ?_ (fun _ => same) (fun _ => by rw [next])
    (by simp) (by simp), filled, by rw [next], fun slot => by rw [asked]⟩
  · rintro own ⟨⟩
    exact Nat.le_refl _
  · intro other different
    rw [next]
    cases other <;> first | rfl | exact absurd rfl different

/-- `GetRoadBunjiCount` lists the bunjis of the road chosen. -/
theorem roadBunjis_filled {nRoadIdx : Nat} (regions : Regions)
    (there : session.browser.HasRoad nRoadIdx)
    (called : session.call fuel ⟨locals, .getRoadBunjiCount nRoadIdx⟩ = some (answer, after)) :
    SameBelow 4 session after ∧ Lists .bunji after answer ∧
      (AddressPlace.roadBunji regions nRoadIdx).Chosen after := by
  obtain ⟨returned, asked⟩ := Session.call_some called
  have set : session.browser.pRoadData ≠ none := Browser.list_of_row there
  obtain ⟨⟨writes, filled⟩, sido, next⟩ := Browser.getRoadBunjiCount_fills set returned
  rw [Asked.after, if_neg (by rwa [Option.isNone_iff_eq_none])] at asked
  have same : after.asked.sido = session.asked.sido := (congrArg Asked.sido asked).trans rfl
  have lists : ∀ other, some other ≠ some ListKind.bunji →
      after.browser.list other = session.browser.list other := by
    intro other different
    rw [next]
    cases other <;> first | rfl | exact absurd rfl different
  refine ⟨.of_writes writes ?_ lists (fun _ => same) (fun _ => by rw [next])
    (by simp) (by simp), filled, by rw [next], there.same ?_⟩
  · rintro own ⟨⟩
    exact Nat.le_refl _
  · exact Browser.rows_of_writes writes (by decide) (lists .road (by decide))

/-- `GetHoCount` lists the hos of the bunji chosen. -/
theorem hos_listed {nBunjiIdx : Nat} (regions : Regions) (nDongIdx : Nat)
    (there : (session.browser.row .bunji nBunjiIdx).isSome = true)
    (fresh : ∀ slot, session.asked.rewritten slot = false)
    (called : session.call fuel ⟨locals, .getHoCount nBunjiIdx⟩ = some (answer, after)) :
    SameBelow 5 session after ∧ Lists .ho after answer ∧
      (AddressPlace.ho regions nDongIdx nBunjiIdx).Chosen after := by
  obtain ⟨returned, asked⟩ := Session.call_some called
  have same : after.asked.sido = session.asked.sido := (congrArg Asked.sido asked).trans rfl
  -- A row of the bunjis is there, so that the pointer to their list is set.
  have set : session.browser.pBunjiData ≠ none := by
    have list := Browser.list_of_row there
    exact fun unset => list (by rw [Browser.list, unset]; rfl)
  obtain ⟨⟨writes, filled⟩, sido, next⟩ := Browser.getHoCount_fills set returned
  refine ⟨.of_writes writes ?_ ?_ (fun _ => same) (fun _ => by rw [next])
    (fun _ => ⟨by rw [next], by rw [next], by rw [asked]; rfl⟩) (by simp), filled, by rw [next],
    by rw [asked]; rfl, by rw [asked]; rfl, fun slot => by rw [asked]; exact fresh slot⟩
  · rintro own ⟨⟩
    exact Nat.le_refl _
  · intro other different
    rw [next]
    cases other <;> first | rfl | exact absurd rfl different

/-- `GetRoadHoCount` lists the hos of the bunji chosen, below the road chosen. -/
theorem roadHos_listed {nBunjiIdx nRoadIdx : Nat} (regions : Regions)
    (there : (session.browser.row .bunji nBunjiIdx).isSome = true)
    (road : session.browser.roadIdx = some nRoadIdx) (has : session.browser.HasRoad nRoadIdx)
    (called : session.call fuel ⟨locals, .getRoadHoCount nBunjiIdx⟩ = some (answer, after)) :
    SameBelow 5 session after ∧ Lists .roadHo after answer ∧
      (AddressPlace.roadHo regions nRoadIdx nBunjiIdx).Chosen after := by
  obtain ⟨returned, asked⟩ := Session.call_some called
  have same : after.asked.sido = session.asked.sido := (congrArg Asked.sido asked).trans rfl
  have set : session.browser.pBunjiData ≠ none := by
    have list := Browser.list_of_row there
    exact fun unset => list (by rw [Browser.list, unset]; rfl)
  obtain ⟨⟨writes, filled⟩, sido, next⟩ := Browser.getRoadHoCount_fills set returned
  have lists : ∀ other, some other ≠ some ListKind.roadHo →
      after.browser.list other = session.browser.list other := by
    intro other different
    rw [next]
    cases other <;> first | rfl | exact absurd rfl different
  refine ⟨.of_writes writes ?_ lists (fun _ => same) (fun _ => by rw [next])
    (fun _ => ⟨by rw [next], by rw [next], by rw [asked]; rfl⟩) (by simp), filled, by rw [next],
    by rw [next]; exact road, has.same ?_⟩
  · rintro own ⟨⟩
    exact Nat.le_refl _
  -- The roads are listed as before, and the chosen one among them.
  · exact Browser.rows_of_writes writes (by decide) (lists .road (by decide))

end Calls

end AndroidApps.Gildroia
