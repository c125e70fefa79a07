import AndroidApps.Gildroia.AddressFrames

/-! The native calls that create a view of the address search or open the map, one by one. -/

namespace AndroidApps.Gildroia

section Creation

variable {fuel : Nat} {session after : Session}

/-- What a view finds when it is created. -/
def AddressPlace.Ready (session : Session) : AddressPlace → Prop
  | menu | main | dnr (.text _ _) => True
  | sigungu nSidoIdx => nSidoIdx < session.browser.um.helpers.length
  | dnr (.sigungu nSidoIdx nSigunguIdx) =>
    session.asked.sido = some nSidoIdx ∧ (session.browser.row .sigungu nSigunguIdx).isSome = true
  | bna _ nDongIdx => (session.browser.row .dong nDongIdx).isSome = true
  | roadBunji _ nRoadIdx => session.browser.HasRoad nRoadIdx
  | ho _ _ nBunjiIdx =>
    (session.browser.row .bunji nBunjiIdx).isSome = true ∧
      ∀ slot, session.asked.rewritten slot = false
  | roadHo _ nRoadIdx nBunjiIdx =>
    (session.browser.row .bunji nBunjiIdx).isSome = true ∧
      session.browser.roadIdx = some nRoadIdx ∧ session.browser.HasRoad nRoadIdx

/-- A row of the sigungus is there for an index that can be chosen. -/
theorem inRange_of_sigungu {browser : Browser} {idx : Nat}
    (there : (browser.row .sigungu idx).isSome = true) :
    browser.inRange (.getDongCount idx) = true ∧ browser.inRange (.getRoadCount idx) = true := by
  obtain ⟨row, found⟩ := Option.isSome_iff_exists.mp there
  simp only [Browser.row, Browser.getSigunguName, Option.bind_eq_bind, Option.bind_eq_some_iff,
    Option.pure_def] at found
  obtain ⟨sido, pointer, helper, held, sigungu, atIndex, _⟩ := found
  simp [Browser.inRange, pointer, held, atIndex]

/-- So is a row of the dongs. -/
theorem inRange_of_dong {browser : Browser} {idx : Nat}
    (there : (browser.row .dong idx).isSome = true) :
    browser.inRange (.getBunjiCount idx) = true := by
  obtain ⟨row, found⟩ := Option.isSome_iff_exists.mp there
  simp only [Browser.row, Browser.getDongName, Option.bind_eq_bind, Option.bind_eq_some_iff,
    Option.pure_def] at found
  obtain ⟨list, pointer, dong, held, _⟩ := found
  simp [Browser.inRange, pointer, held]

/-- So is a row of the roads. -/
theorem inRange_of_road {browser : Browser} {idx : Nat} (there : browser.HasRoad idx) :
    browser.inRange (.getRoadBunjiCount idx) = true := by
  obtain ⟨row, found⟩ := Option.isSome_iff_exists.mp there
  simp only [Browser.row, Browser.getRoadName, Option.bind_eq_bind, Option.bind_eq_some_iff,
    Option.pure_def] at found
  obtain ⟨list, pointer, road, held, _⟩ := found
  simp [Browser.inRange, pointer, held]

/-- So is a row of the bunjis. -/
theorem inRange_of_bunji {browser : Browser} {idx : Nat}
    (there : (browser.row .bunji idx).isSome = true) :
    browser.inRange (.getHoCount idx) = true ∧ browser.inRange (.getRoadHoCount idx) = true := by
  obtain ⟨row, found⟩ := Option.isSome_iff_exists.mp there
  simp only [Browser.row, Browser.getBunjiValue, Option.bind_eq_bind, Option.bind_eq_some_iff,
    Option.pure_def] at found
  obtain ⟨sido, pointer, helper, held, bunji, atIndex, _⟩ := found
  simp [Browser.inRange, pointer, held, atIndex]

/-- So is a row of the hos. -/
theorem inRange_of_ho {browser : Browser} {idx : Nat}
    (there : (browser.row .ho idx).isSome = true) :
    browser.inRange (.jniGetHoData idx) = true := by
  obtain ⟨row, found⟩ := Option.isSome_iff_exists.mp there
  simp only [Browser.row, Browser.getHoValue, Option.bind_eq_bind, Option.bind_eq_some_iff,
    Option.pure_def] at found
  obtain ⟨sido, pointer, helper, held, ho, atIndex, _⟩ := found
  simp [Browser.inRange, pointer, held, atIndex]

/-- Positions of files and the result of the searches for POIs are no matter of the views. -/
theorem session_moved {um : UmSearchModule} (coherent : session.Coherent)
    (moved : UmSearchModule.OnlyMoved session.browser.um um) :
    Session.Coherent ⟨{ session.browser with um := um }, session.asked⟩ ∧
      SameBelow 6 session ⟨{ session.browser with um := um }, session.asked⟩ := by
  refine ⟨coherent.unchanged moved.shown moved.names rfl rfl rfl rfl rfl, ?_⟩
  -- No list is written, and no variable of the lists is.
  refine .of_writes moved.writes ?_ ?_ (fun _ => rfl) (fun _ => rfl) (fun _ => ⟨rfl, rfl, rfl⟩)
    (fun _ => ⟨rfl, rfl, rfl⟩)
  · intro own none'
    cases none'
  · intro other _
    cases other <;> rfl

variable {locals : ViewRequest → ViewLocals} {native : Native}

/-- Only positions of files and the result of the searches for POIs were moved. -/
structure Native.Moved (native next : Native) : Prop where
  coherent : next.session.Coherent
  leaves : Native.Leaves 6 native next

theorem Native.Moved.refl (coherent : native.session.Coherent) : native.Moved native :=
  ⟨coherent, .refl _ _⟩

theorem Native.Moved.trans {middle next : Native} (first : native.Moved middle)
    (second : middle.Moved next) : native.Moved next :=
  ⟨second.coherent, first.leaves.trans second.leaves⟩

/-- What is kept of a module that was moved. -/
theorem Native.moved_keepUm {um : UmSearchModule} (coherent : native.session.Coherent)
    (moved : UmSearchModule.OnlyMoved native.um um) : native.Moved (native.keepUm um) := by
  obtain ⟨still, same⟩ := session_moved coherent moved
  exact ⟨still, rfl, same, fun _ => ⟨rfl, rfl⟩⟩

section Reading

variable {source : ListSource}

/--
The rows of a list are read one after the other.

The induction is on the indices that are left, and the invariant holds behind each row.
-/
theorem rows_ensures (Inv : Native → Prop) (Row : Nat → ListRow → Prop) {idxs : List Nat}
    (fits : ∀ idx ∈ idxs, ∀ native, Inv native →
      Native.Fits fuel native ⟨locals (source.row idx), source.row idx⟩)
    (reads : ∀ idx ∈ idxs, ∀ native answer next, Inv native →
      native.call fuel ⟨locals (source.row idx), source.row idx⟩ = some (answer, next) →
        Inv next ∧ ∀ row, answer.toRow = some row → Row idx row) (kept : Inv native) :
    (source.rows locals idxs).Ensures (Native.call fuel) (Native.Fits fuel)
      (fun list next => Inv next ∧ List.Forall₂ Row idxs list) native := by
  induction idxs generalizing native with
  | nil => exact ⟨kept, .nil⟩
  | cons idx rest ih =>
    refine .bind (Calls.ensures_ask (fits idx List.mem_cons_self native kept) ?_)
    intro answer next called
    obtain ⟨inv, made⟩ := reads idx List.mem_cons_self native answer next kept called
    -- Without a row an exception ends the event, and nothing is left to show.
    cases shown : answer.toRow with
    | none => trivial
    | some row =>
      refine .bind ((ih (fun idx member => fits idx (List.mem_cons_of_mem _ member))
        (fun idx member => reads idx (List.mem_cons_of_mem _ member)) inv).mono ?_)
      intro list after outcome
      exact ⟨outcome.1, .cons (made row shown) outcome.2⟩

/-- `SetListData` asks for the count, and for the rows behind it. -/
theorem setListData_ensures {post : List ListRow → Native → Prop}
    (fits : Native.Fits fuel native ⟨locals source.count, source.count⟩)
    (counted : ∀ size next,
      native.call fuel ⟨locals source.count, source.count⟩ =
        some (.browse (.count size), next) →
      (source.rows locals (List.range size)).Ensures (Native.call fuel) (Native.Fits fuel) post
        next) :
    (source.setListData locals).Ensures (Native.call fuel) (Native.Fits fuel) post native := by
  refine .bind (Calls.ensures_ask fits fun answer next called => ?_)
  -- The count is a number, and any other answer is none that the call gives.
  cases answer with
  | browse answer =>
    cases answer with
    | count size => exact counted size next called
    | ho | noHo | null => trivial
  | row | text | roadHo | poi => trivial

/-- While there is a module, a call goes to it. -/
theorem Native.call_loaded (native : Native) (loaded : native.loaded = true) (input : ViewCall) :
    native.call fuel input = native.callLoaded fuel input :=
  if_pos loaded

/-- A list of the module is filled by one call, and read row by row. -/
theorem listed_ensures (call : RowCall) {request : BrowseCall} (Left : Session → Prop)
    (loaded : native.loaded = true) (coherent : native.session.Coherent)
    (inside : native.session.browser.inRange request = true)
    (meets : native.session.Meets ⟨(locals (.browse request)).browse, request⟩)
    (lists : ∀ answer after,
      native.session.call fuel ⟨(locals (.browse request)).browse, request⟩ =
        some (answer, after) → Lists call.kind after answer ∧ Left after) :
    (ListSource.setListData locals ⟨.browse request, .row call⟩).Ensures (Native.call fuel)
      (Native.Fits fuel)
      (fun list next => ∃ after, next = { native with session := after } ∧ after.Coherent ∧
        Left after ∧ after.browser.rows call.kind = some list) native := by
  refine setListData_ensures ⟨inside, coherent.right meets⟩ ?_
  intro size next called
  rw [Native.call_loaded native loaded] at called
  obtain ⟨⟨answer, after⟩, returned, same⟩ := Option.map_eq_some_iff.mp called
  cases same
  obtain ⟨⟨rows, held, counted⟩, left⟩ := lists _ after returned
  cases counted
  have row : ∀ idx, after.browser.rowOf call idx = rows[idx]? := by
    intro idx
    rw [Browser.rowOf_eq, Browser.row_eq, held]
    rfl
  -- No row that is read changes anything.
  refine (rows_ensures (fun other => other = { native with session := after })
    (fun idx row => rows[idx]? = some row) ?_ ?_ rfl).mono ?_
  -- Each index is below the count, and so the index of a row.
  · rintro idx member other rfl
    show (after.browser.rowOf call idx).isSome = true
    rw [row, List.getElem?_eq_getElem (List.mem_range.mp member)]
    rfl
  · rintro idx member other answer next rfl called
    rw [Native.call_loaded { native with session := after } loaded] at called
    obtain ⟨shown, read, same⟩ := Option.map_eq_some_iff.mp called
    cases same
    refine ⟨rfl, fun row' found => ?_⟩
    cases found
    rw [← row]
    exact read
  -- All rows were read, one for each index, and together they are the list.
  · rintro list other ⟨rfl, read⟩
    exact ⟨after, rfl, coherent.call returned, left, by rw [held, rows_of_range read]⟩

/-- The sidos are counted, and the name of each of them is read. -/
theorem sidos_ensures (loaded : native.loaded = true) (coherent : native.session.Coherent) :
    (ListSource.setListData locals ⟨.getSidoCount, .getSidoName⟩).Ensures (Native.call fuel)
      (Native.Fits fuel) (fun list next => native.Moved next ∧ next.Holds .sidos list) native := by
  refine setListData_ensures trivial fun size next called => ?_
  rw [Native.call_loaded native loaded] at called
  cases called
  refine (rows_ensures (fun other => native.Moved other) (fun _ _ => True) ?_ ?_
    (.refl coherent)).mono ?_
  · intro idx member other moved
    show idx < other.um.helpers.length
    have same : other.um.helpers.length = native.um.helpers.length := moved.leaves.session.helpers
    rw [same]
    exact List.mem_range.mp member
  -- The name is read from the texts, whose position is all that moves.
  · intro idx member other answer next moved called
    rw [Native.call_loaded other (moved.leaves.loaded.trans loaded)] at called
    obtain ⟨⟨text, um⟩, read, same⟩ := Option.map_eq_some_iff.mp called
    cases same
    exact ⟨moved.trans (Native.moved_keepUm moved.coherent (getSidoName_moved read)),
      fun _ _ => trivial⟩
  · rintro list other ⟨moved, read⟩
    have same : other.um.helpers.length = native.um.helpers.length := moved.leaves.session.helpers
    refine ⟨moved, ?_⟩
    show list.length = other.um.helpers.length
    rw [same, ← read.length_eq, List.length_range]

/-- `GetAptCount` makes the apartments of a listed dong the result, and leaves the lists. -/
theorem getAptCount_moved {locals : ViewLocals} {nDongIdx : Nat} {answer : ViewAnswer}
    {next : Native} (coherent : native.session.Coherent)
    (there : (native.session.browser.row .dong nDongIdx).isSome = true)
    (chosen : native.session.browser.dongIdx = some nDongIdx)
    (called : native.getAptCount fuel locals nDongIdx = some (answer, next)) :
    (next.loaded = native.loaded ∧ next.session.Coherent ∧
      SameBelow 6 native.session next.session ∧ next.apts = some nDongIdx) ∧
    ∃ poiDatas, next.cursor.poiDatas = some poiDatas ∧
      answer = .browse (.count poiDatas.length) := by
  have set := Browser.list_of_row there
  unfold Native.getAptCount at called
  split at called
  · rename_i unset
    exact absurd unset set
  · simp only [Option.bind_eq_bind, Option.bind_eq_some_iff, Option.pure_def, Option.some.injEq,
      Prod.mk.injEq] at called
    obtain ⟨pDong, _, found, searched, rfl, rfl⟩ := called
    obtain ⟨still, same⟩ := session_moved coherent (searchPoiCateDong_moved searched)
    -- The dong is the one that was chosen before.
    have browser : ({ native.session.browser with um := found.um, dongIdx := some nDongIdx } :
        Browser) = { native.session.browser with um := found.um } := by
      rw [← chosen]
    -- The search moves positions and sets the result, and the lists are as they were.
    refine ⟨⟨rfl, ?_, ?_, rfl⟩, _, rfl, rfl⟩
    · show Session.Coherent ⟨{ native.session.browser with
        um := found.um, dongIdx := some nDongIdx }, native.session.asked⟩
      rw [browser]
      exact still
    · show SameBelow 6 native.session ⟨{ native.session.browser with
        um := found.um, dongIdx := some nDongIdx }, native.session.asked⟩
      rw [browser]
      exact same

/-- A POI of the result is named. -/
theorem Native.poiName_eq (loaded : native.loaded = true) {poiDatas : PoiMap}
    (listed : native.cursor.poiDatas = some poiDatas) (poiIdx : Nat) :
    native.poi.name (·.getPoiNameAt poiIdx) = poiDatas[poiIdx]?.map fun entry => some entry.1 := by
  -- With a module the result is there.
  have result : native.poi.result = some native.cursor := by
    simp [PoiNative.result, Native.poi, loaded]
  unfold PoiNative.name
  rw [result, Option.bind_some]
  simp only [PoiCursor.getPoiNameAt, PoiCursor.element, listed]
  cases poiDatas[poiIdx]? <;> rfl

/-- The apartments of the dong whose bunjis are listed are counted and named. -/
theorem apts_ensures {nDongIdx : Nat} (loaded : native.loaded = true)
    (coherent : native.session.Coherent)
    (there : (native.session.browser.row .dong nDongIdx).isSome = true)
    (chosen : native.session.browser.dongIdx = some nDongIdx) :
    (ListSource.setListData locals ⟨.getAptCount nDongIdx, .getPoiName⟩).Ensures
      (Native.call fuel) (Native.Fits fuel)
      (fun list next => (next.loaded = native.loaded ∧ next.session.Coherent ∧
        SameBelow 6 native.session next.session ∧ next.apts = some nDongIdx) ∧
        next.Holds .apts list) native := by
  refine setListData_ensures ⟨there, chosen⟩ fun size after called => ?_
  rw [Native.call_loaded native loaded] at called
  obtain ⟨moved, poiDatas, listed, counted⟩ := getAptCount_moved coherent there chosen called
  cases counted
  have loaded' : after.loaded = true := moved.1.trans loaded
  have dong : after.apts = after.session.browser.dongIdx := by
    rw [moved.2.2.2, (moved.2.2.1.bunjis (by decide)).1, chosen]
  refine (rows_ensures (fun other => other = after)
    (fun idx row => (poiDatas.map fun entry => ListRow.name entry.1)[idx]? = some row) ?_ ?_
    rfl).mono ?_
  · rintro idx member other rfl
    exact ⟨dong, poiDatas, listed, List.mem_range.mp member⟩
  · rintro idx member other answer next rfl called
    rw [Native.call_loaded other loaded'] at called
    obtain ⟨chars, read, same⟩ := Option.map_eq_some_iff.mp called
    cases same
    refine ⟨rfl, fun row found => ?_⟩
    rw [Native.poiName_eq loaded' listed] at read
    obtain ⟨entry, held, rfl⟩ := Option.map_eq_some_iff.mp read
    cases found
    rw [List.getElem?_map, held]
    rfl
  · rintro list other ⟨rfl, read⟩
    refine ⟨moved, poiDatas, listed, rows_of_range ?_⟩
    rwa [List.length_map]

end Reading

section Places

/-- Less is left of fewer levels of the native side. -/
theorem Native.Leaves.of_le {level lower : Nat} {next : Native}
    (leaves : Native.Leaves level native next) (le : lower ≤ level) :
    Native.Leaves lower native next :=
  ⟨leaves.loaded, leaves.session.of_le le, fun below => leaves.apts (Nat.lt_of_lt_of_le below le)⟩

/-- Every view is below the level of the calls that only move positions. -/
theorem AddressPlace.level_lt (place : AddressPlace) : place.level < 6 := by
  cases place <;> simp [level]

/-- A view was created with lists, and the native side is behind it. -/
structure Created (place : AddressPlace) (native : Native) (lists : List (List ListRow))
    (next : Native) : Prop where
  coherent : next.session.Coherent
  leaves : Native.Leaves place.level native next
  shows : AddressView.Shows next ⟨place, lists⟩

/-- A view with one list of the module is created by one call, and by reading its rows. -/
theorem created_one {place : AddressPlace} {call : RowCall} {request : BrowseCall}
    (sources : place.sources = [⟨.browse request, .row call⟩])
    (tabs : place.tabs = [.listed call.kind]) (apts : ∀ native, place.HasApts native)
    (loaded : native.loaded = true) (coherent : native.session.Coherent)
    (inside : native.session.browser.inRange request = true)
    (meets : native.session.Meets ⟨(locals (.browse request)).browse, request⟩)
    (lists : ∀ answer after,
      native.session.call fuel ⟨(locals (.browse request)).browse, request⟩ =
        some (answer, after) →
      SameBelow place.level native.session after ∧ Lists call.kind after answer ∧
        place.Chosen after) :
    (ListSource.fill locals place.sources).Ensures (Native.call fuel) (Native.Fits fuel)
      (Created place native) native := by
  have list := listed_ensures call
    (fun after => SameBelow place.level native.session after ∧ place.Chosen after) loaded coherent
    inside meets fun answer after called =>
      have outcome := lists answer after called
      ⟨outcome.2.1, outcome.1, outcome.2.2⟩
  -- The only list is filled, and what is written with it is the choice of the view.
  rw [sources]
  refine .bind (list.mono ?_)
  rintro list next ⟨after, rfl, still, ⟨below, chosen⟩, held⟩
  refine Created.mk still ⟨rfl, below, fun _ => ⟨rfl, rfl⟩⟩ ⟨chosen, apts _, ?_⟩
  show List.Forall₂ _ place.tabs [list]
  rw [tabs]
  exact .cons held .nil

/-- A view of dongs and roads is created with two lists, of which the second leaves the dongs. -/
theorem created_two {regions : Regions} {first second : BrowseCall}
    (dongList : regions.dongList = ⟨.browse first, .row .getDongName⟩)
    (roadList : regions.roadList = ⟨.browse second, .row .getRoadName⟩)
    (loaded : native.loaded = true) (coherent : native.session.Coherent)
    (inside : native.session.browser.inRange first = true)
    (meets : native.session.Meets ⟨(locals (.browse first)).browse, first⟩)
    (lists : ∀ answer middle,
      native.session.call fuel ⟨(locals (.browse first)).browse, first⟩ = some (answer, middle) →
      SameBelow 3 native.session middle ∧ Lists .dong middle answer ∧
        middle.browser.inRange second = true ∧
        middle.Meets ⟨(locals (.browse second)).browse, second⟩ ∧
        ∀ answer' after,
          middle.call fuel ⟨(locals (.browse second)).browse, second⟩ = some (answer', after) →
          SameBelow 3 middle after ∧ Lists .road after answer' ∧ KeepsDongList middle after ∧
            (AddressPlace.dnr regions).Chosen after) :
    (ListSource.fill locals (AddressPlace.dnr regions).sources).Ensures (Native.call fuel)
      (Native.Fits fuel) (Created (.dnr regions) native) native := by
  have dongs := listed_ensures .getDongName
    (fun middle => ∃ answer, native.session.call fuel ⟨(locals (.browse first)).browse, first⟩ =
      some (answer, middle)) loaded coherent inside meets
    fun answer middle called => ⟨(lists answer middle called).2.1, answer, called⟩
  rw [AddressPlace.sources, dongList, roadList]
  -- The second list is filled where the first one has left the module.
  refine .bind (dongs.mono ?_)
  rintro dongs next ⟨middle, rfl, still, ⟨answer, called⟩, held⟩
  obtain ⟨below, _, inside', meets', later⟩ := lists answer middle called
  let behind : Native := { native with session := middle }
  have roads : (ListSource.setListData locals ⟨.browse second, .row .getRoadName⟩).Ensures
      (Native.call fuel) (Native.Fits fuel) _ behind :=
    listed_ensures .getRoadName
      (fun after => SameBelow 3 middle after ∧ KeepsDongList middle after ∧
        (AddressPlace.dnr regions).Chosen after) loaded still inside' meets'
      fun answer after called =>
        have outcome := later answer after called
        ⟨outcome.2.1, outcome.1, outcome.2.2⟩
  refine .bind (.bind (roads.mono ?_))
  rintro roads next ⟨after, rfl, still', ⟨below', keeps, chosen⟩, held'⟩
  refine Created.mk still' ⟨rfl, below.trans below', fun _ => ⟨rfl, rfl⟩⟩ ⟨chosen, trivial, ?_⟩
  exact .cons (keeps.rows.trans held) (.cons held' .nil)

/-- A view of bunjis and apartments is created with those of the dong chosen. -/
theorem created_bna {regions : Regions} {nDongIdx : Nat} (loaded : native.loaded = true)
    (coherent : native.session.Coherent)
    (there : (native.session.browser.row .dong nDongIdx).isSome = true) :
    (ListSource.fill locals (AddressPlace.bna regions nDongIdx).sources).Ensures
      (Native.call fuel) (Native.Fits fuel) (Created (.bna regions nDongIdx) native) native := by
  have bunjis : (ListSource.setListData locals
      ⟨.browse (.getBunjiCount nDongIdx), .row .getBunjiValue⟩).Ensures (Native.call fuel)
      (Native.Fits fuel) _ native :=
    listed_ensures .getBunjiValue (fun after => SameBelow 4 native.session after ∧
      (AddressPlace.bna regions nDongIdx).Chosen after) loaded coherent (inRange_of_dong there)
      trivial fun answer after called =>
        have outcome := bunjis_listed regions there called
        ⟨outcome.2.1, outcome.1, outcome.2.2⟩
  refine .bind (bunjis.mono ?_)
  rintro bunjis next ⟨middle, rfl, still, ⟨below, chosen⟩, held⟩
  let behind : Native := { native with session := middle }
  -- The dong is listed still, and it is the one whose bunjis were listed just now.
  have there' : (behind.session.browser.row .dong nDongIdx).isSome = true := by
    rw [Browser.row_eq] at there ⊢
    rwa [((below.regions (by decide)).2 .dong (.inl rfl)).2]
  have apts : (ListSource.setListData locals ⟨.getAptCount nDongIdx, .getPoiName⟩).Ensures
      (Native.call fuel) (Native.Fits fuel) _ behind :=
    apts_ensures loaded still there' chosen.1
  refine .bind (.bind (apts.mono ?_))
  rintro apts next ⟨⟨loaded', still', same, asked⟩, held'⟩
  have below' : SameBelow 4 middle next.session := same.of_le (by decide)
  refine Created.mk still'
    ⟨loaded', below.trans below', fun above => absurd above (Nat.lt_irrefl 4)⟩
    ⟨chosen.below same (AddressPlace.level_lt _), asked, ?_⟩
  exact .cons ((same.rows (by decide)).trans held) (.cons held' .nil)

/-- A view whose choices are listed is created with the lists of what was chosen. -/
theorem created {place : AddressPlace} (loaded : native.loaded = true)
    (coherent : native.session.Coherent) (ready : place.Ready native.session) :
    (ListSource.fill locals place.sources).Ensures (Native.call fuel) (Native.Fits fuel)
      (Created place native) native := by
  cases place with
  | menu => exact ⟨coherent, .refl _ _, trivial, trivial, .nil⟩
  | main =>
    refine .bind ((sidos_ensures loaded coherent).mono ?_)
    rintro list next ⟨moved, held⟩
    exact Created.mk moved.coherent (moved.leaves.of_le (by decide))
      ⟨trivial, trivial, .cons held .nil⟩
  -- Four views have one list of the module each.
  | sigungu nSidoIdx =>
    refine created_one rfl rfl (fun _ => trivial) loaded coherent ?_ trivial
      (fun answer after called => sigungus_listed called)
    simpa [Browser.inRange, AddressPlace.Ready] using ready
  | dnr regions =>
    cases regions with
    | sigungu nSidoIdx nSigunguIdx =>
      obtain ⟨chosen, there⟩ := ready
      refine created_two rfl rfl loaded coherent (inRange_of_sigungu there).1 trivial
        (fun answer middle called => ?_)
      obtain ⟨below, held, sigunguIdx, dongList⟩ := dongs_listed coherent chosen called
      have chosen' : middle.asked.sido = some nSidoIdx := by
        obtain ⟨_, asked⟩ := Session.call_some called
        rw [asked]
        exact chosen
      have there' : (middle.browser.row .sigungu nSigunguIdx).isSome = true := by
        rw [Browser.row_eq] at there ⊢
        rwa [(below.sido (by decide)).2]
      -- The roads are those of the sigungu whose dongs were listed just before.
      refine ⟨below, held, (inRange_of_sigungu there').2, sigunguIdx,
        fun answer' after called' => ?_⟩
      obtain ⟨below', held', keeps, roadList⟩ :=
        roads_listed (coherent.call called) chosen' called'
      exact ⟨below', held', keeps, keeps.sigunguIdx.trans sigunguIdx, keeps.list.trans dongList,
        roadList⟩
    -- Behind a search for a name both lists are those of what was found.
    | text searchText nLen =>
      refine created_two rfl rfl loaded coherent rfl trivial (fun answer middle called => ?_)
      obtain ⟨below, held, dongList⟩ := dongNames_listed called
      refine ⟨below, held, rfl, trivial, fun answer' after called' => ?_⟩
      obtain ⟨below', held', keeps, roadList⟩ := roadNames_listed called'
      exact ⟨below', held', keeps, keeps.list.trans dongList, roadList⟩
  | bna regions nDongIdx => exact created_bna loaded coherent ready
  | roadBunji regions nRoadIdx =>
    exact created_one rfl rfl (fun _ => trivial) loaded coherent (inRange_of_road ready) trivial
      (fun answer after called => roadBunjis_filled regions ready called)
  | ho regions nDongIdx nBunjiIdx =>
    exact created_one rfl rfl (fun _ => trivial) loaded coherent (inRange_of_bunji ready.1).1
      trivial (fun answer after called => hos_listed regions nDongIdx ready.1 ready.2 called)
  | roadHo regions nRoadIdx nBunjiIdx =>
    exact created_one rfl rfl (fun _ => trivial) loaded coherent (inRange_of_bunji ready.1).2
      trivial (fun answer after called => roadHos_listed regions ready.1 ready.2.1 ready.2.2 called)

/-- So the view that is shown was created. -/
theorem create_ensures {place : AddressPlace} (loaded : native.loaded = true)
    (coherent : native.session.Coherent) (ready : place.Ready native.session) :
    (place.create locals).Ensures (Native.call fuel) (Native.Fits fuel)
      (fun shown next => ∃ lists, shown = .view ⟨place, lists⟩ ∧ Created place native lists next)
      native :=
  .bind ((created loaded coherent ready).mono fun lists _ done => ⟨lists, rfl, done⟩)

end Places

section Clicks

/-- A row that is offered is one of a list that the native side holds. -/
theorem AddressView.Shows.offered {view : AddressView} {tab row : Nat} (shows : view.Shows native)
    (offered : view.offers tab row = true) :
    ∃ list rows, view.place.tabs[tab]? = some list ∧ native.Holds list rows ∧
      row < rows.length := by
  unfold AddressView.offers at offered
  obtain ⟨shown, found⟩ := Option.isSome_iff_exists.mp offered
  obtain ⟨rows, held, there⟩ := Option.bind_eq_some_iff.mp found
  obtain ⟨bound, same⟩ := List.getElem?_eq_some_iff.mp held
  obtain ⟨inside, _⟩ := List.getElem?_eq_some_iff.mp there
  -- What is shown in a tab is what the native side holds of its list.
  obtain ⟨size, holds⟩ := List.forall₂_iff_get.mp shows.lists
  have tabs : tab < view.place.tabs.length := size ▸ bound
  refine ⟨view.place.tabs[tab], rows, List.getElem?_eq_getElem tabs, ?_, inside⟩
  have here := holds tab tabs bound
  rwa [List.get_eq_getElem, List.get_eq_getElem, same] at here

/-- A row of a list of the module can be read. -/
theorem Native.Holds.there {kind : ListKind} {rows : List ListRow} {row : Nat}
    (holds : native.Holds (.listed kind) rows) (inside : row < rows.length) :
    (native.session.browser.row kind row).isSome = true := by
  have held : native.session.browser.rows kind = some rows := holds
  rw [Browser.row_eq, held, Option.bind_some, List.getElem?_eq_getElem inside]
  rfl

/-- A click on a row that is offered finds what the next view needs. -/
theorem ready_of_offered {view : AddressView} {place : AddressPlace} {tab row : Nat}
    (shows : view.Shows native) (offered : view.offers tab row = true)
    (next : view.place.next tab row = some place) : place.Ready native.session := by
  obtain ⟨list, rows, here, holds, inside⟩ := shows.offered offered
  obtain ⟨clicked, lists⟩ := view
  have chosen := shows.chosen
  -- A view with one tab offers no row of another.
  have only : ∀ {other : TabList} {idx : Nat}, [other][idx]? = some list → list = other :=
    fun held => List.mem_singleton.mp (List.mem_of_getElem? held)
  cases clicked with
  | menu => cases next
  | main =>
    cases next
    obtain rfl := only here
    have size : rows.length = native.um.helpers.length := holds
    exact Nat.lt_of_lt_of_eq inside size
  -- The sido was chosen before, and the sigungu is listed.
  | sigungu nSidoIdx =>
    cases next
    obtain rfl := only here
    exact ⟨chosen, holds.there inside⟩
  | dnr regions =>
    cases tab with
    | zero =>
      cases next
      cases here
      exact holds.there inside
    | succ tab =>
      cases next
      obtain rfl := only here
      exact holds.there inside
  | bna regions nDongIdx =>
    cases tab with
    | zero =>
      -- Since the bunjis were listed no slot of a dong was written.
      cases next
      cases here
      exact ⟨holds.there inside, chosen.2⟩
    | succ tab => cases next
  | roadBunji regions nRoadIdx =>
    cases next
    obtain rfl := only here
    exact ⟨holds.there inside, chosen⟩
  | ho regions nDongIdx nBunjiIdx => cases next
  | roadHo regions nRoadIdx nBunjiIdx => cases next

/-- `JNI_GetHoData` leaves all views. -/
theorem hoData_ensures {row : Nat} (loaded : native.loaded = true)
    (coherent : native.session.Coherent)
    (there : (native.session.browser.row .ho row).isSome = true)
    (meets : native.session.Meets
      ⟨(locals (.browse (.jniGetHoData row))).browse, .jniGetHoData row⟩) :
    (askFor locals (.browse (.jniGetHoData row))).Ensures (Native.call fuel) (Native.Fits fuel)
      (fun _ next => native.Moved next) native := by
  refine Calls.ensures_ask ⟨inRange_of_ho there, coherent.right meets⟩ fun answer next called => ?_
  rw [Native.call_loaded native loaded] at called
  obtain ⟨⟨answer', after⟩, returned, same⟩ := Option.map_eq_some_iff.mp called
  cases same
  obtain ⟨read, asked⟩ := Session.call_some returned
  have sido : after.asked.sido = native.session.asked.sido :=
    (congrArg Asked.sido asked).trans rfl
  -- It moves the position of a file, and writes no list.
  obtain ⟨writes, browser⟩ := Browser.jniGetHoData_writes read
  refine ⟨coherent.call returned, rfl, ?_, fun _ => ⟨rfl, rfl⟩⟩
  refine .of_writes writes ?_ ?_ (fun _ => sido) (fun _ => by rw [browser])
    (fun _ => ⟨by rw [browser], by rw [browser], by rw [asked]; rfl⟩)
    (fun _ => ⟨by rw [browser], by rw [browser], asked⟩)
  · intro own none'
    cases none'
  · intro other _
    rw [browser]
    cases other <;> rfl

/-- `GetRoadHoData` leaves all views, too. -/
theorem roadHoData_ensures {row nRoadIdx : Nat} (loaded : native.loaded = true)
    (coherent : native.session.Coherent)
    (there : (native.session.browser.row .roadHo row).isSome = true)
    (road : native.session.browser.roadIdx = some nRoadIdx)
    (has : native.session.browser.HasRoad nRoadIdx) :
    (askFor locals (.jniGetRoadHoData row)).Ensures (Native.call fuel) (Native.Fits fuel)
      (fun _ next => native.Moved next) native := by
  refine Calls.ensures_ask ⟨there, nRoadIdx, road, has⟩ fun answer next called => ?_
  rw [Native.call_loaded native loaded] at called
  obtain ⟨⟨values, browser⟩, read, same⟩ := Option.map_eq_some_iff.mp called
  cases same
  obtain ⟨moved, kept⟩ := Browser.jniGetRoadHoData_moves read
  rw [kept]
  exact Native.moved_keepUm coherent moved

/-- The name of a dong is read from the texts. -/
theorem dongName_ensures {dCode : Nat} (loaded : native.loaded = true)
    (coherent : native.session.Coherent) :
    (askFor locals (.getDongNameByDCode dCode)).Ensures (Native.call fuel) (Native.Fits fuel)
      (fun _ next => native.Moved next) native := by
  refine Calls.ensures_ask trivial fun answer next called => ?_
  rw [Native.call_loaded native loaded] at called
  obtain ⟨⟨text, textMng⟩, _, same⟩ := Option.map_eq_some_iff.mp called
  cases same
  exact Native.moved_keepUm coherent (.texts textMng _)

/-- `GetPoiData` leaves all views, and the apartments. -/
theorem aptData_ensures {row : Nat} (loaded : native.loaded = true)
    (coherent : native.session.Coherent) (has : native.HasApt row) :
    (askFor locals (.getPoiData row)).Ensures (Native.call fuel) (Native.Fits fuel)
      (fun _ next => native.Moved next) native := by
  refine Calls.ensures_ask has fun answer next called => ?_
  rw [Native.call_loaded native loaded] at called
  obtain ⟨⟨poi, after⟩, read, same⟩ := Option.map_eq_some_iff.mp called
  cases same
  have held : native.poi.module = some native.module := if_pos loaded
  -- It reads the POI and the names of its place, and leaves the result of the search.
  obtain ⟨module, kept, moved, cursor⟩ := getPoiData_moved held read
  obtain ⟨still, below⟩ := session_moved coherent moved
  unfold Native.keepPoi
  rw [kept]
  exact ⟨still, rfl, below, fun _ => ⟨rfl, cursor⟩⟩

/-- A click that opens the map makes calls that fit, and leaves all views. -/
theorem position_ensures {view : AddressView} {tab row : Nat}
    {position : Calls ViewCall ViewAnswer (Int × Int)} (loaded : native.loaded = true)
    (coherent : native.session.Coherent) (shows : view.Shows native)
    (offered : view.offers tab row = true)
    (clicked : view.place.position locals tab row = some position) :
    position.Ensures (Native.call fuel) (Native.Fits fuel) (fun _ next => native.Moved next)
      native := by
  obtain ⟨list, rows, here, holds, inside⟩ := shows.offered offered
  obtain ⟨place, lists⟩ := view
  have chosen := shows.chosen
  have apts := shows.apts
  have only : ∀ {other : TabList} {idx : Nat}, [other][idx]? = some list → list = other :=
    fun held => List.mem_singleton.mp (List.mem_of_getElem? held)
  cases place with
  | ho regions nDongIdx nBunjiIdx =>
    cases clicked
    obtain rfl := only here
    obtain ⟨_, _, current, fresh⟩ := chosen
    -- The bunjis are still those it was chosen from, and no slot was written since.
    have meets : (native.session.asked.selected.all fun entry =>
        native.session.asked.current && !native.session.asked.rewritten entry.bunji.pDong) =
        true := by
      simp [current, fresh]
    refine .bind ((hoData_ensures loaded coherent (holds.there inside) meets).mono ?_)
    intro answer next moved
    split
    · exact moved
    · trivial
  | roadHo regions nRoadIdx nBunjiIdx =>
    cases clicked
    obtain rfl := only here
    obtain ⟨_, road, has⟩ := chosen
    refine .bind ((roadHoData_ensures loaded coherent (holds.there inside) road has).mono ?_)
    intro answer next moved
    split
    · -- The old name of the dong is read behind the array.
      refine .bind ((dongName_ensures (moved.leaves.loaded.trans loaded) moved.coherent).mono ?_)
      intro name after behind
      exact moved.trans behind
    · trivial
  | bna regions nDongIdx =>
    cases tab with
    | zero => cases clicked
    | succ tab =>
      cases clicked
      obtain rfl := only here
      -- The row is one of the apartments of the dong whose bunjis are listed.
      obtain ⟨poiDatas, listed, rfl⟩ := holds
      have bound : row < poiDatas.length := by simpa using inside
      have has : native.HasApt row := ⟨apts.trans chosen.1.symm, poiDatas, listed, bound⟩
      refine .bind ((aptData_ensures loaded coherent has).mono ?_)
      intro answer next moved
      split
      · exact moved
      · trivial
  | menu => cases clicked
  | main => cases clicked
  | sigungu nSidoIdx => cases clicked
  | dnr regions => cases clicked
  | roadBunji regions nRoadIdx => cases clicked

end Clicks

end Creation

end AndroidApps.Gildroia
