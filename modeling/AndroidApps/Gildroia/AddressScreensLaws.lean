import AndroidApps.Gildroia.AddressCreation

/-! In every run of the address search its views show what the native side holds. -/

namespace AndroidApps.Gildroia

section Runs

variable {module : LHCodeModule} {fuel : Nat} {app next : AddressApp}
  {program : Calls ViewCall ViewAnswer ScreenChange}

/-- The calls of an event are made where the module is loaded, if it ever is. -/
theorem AddressApp.perform_some (called : app.perform module fuel program = some next) :
    ∃ shown native,
      program.run (Native.call fuel) (app.getInstance module).native = some (shown, native) ∧
        next = (app.getInstance module).shows native shown := by
  simp only [AddressApp.perform, Option.bind_eq_bind, Option.bind_eq_some_iff, Option.pure_def,
    Option.some.injEq] at called
  obtain ⟨⟨shown, native⟩, ran, rfl⟩ := called
  exact ⟨shown, native, ran, rfl⟩

/-- Going back leaves the top view, and the module is deleted behind the menu. -/
theorem AddressApp.goBack_cases (called : app.goBack module = some next) :
    ∃ view rest, app.views = view :: rest ∧
      (view.place = .menu ∧ next = { (app.getInstance module).exitModule with views := rest } ∨
        view.place ≠ .menu ∧ next = { app with views := rest }) := by
  unfold AddressApp.goBack at called
  split at called
  · cases called
  · rename_i view rest views
    refine ⟨view, rest, views, ?_⟩
    split at called
    · rename_i menu
      cases called
      exact .inl ⟨menu, rfl⟩
    · rename_i other
      cases called
      exact .inr ⟨other, rfl⟩

/-- An event opens the menu, goes back, or makes its calls. -/
theorem AddressApp.step_cases {event : AddressEvent}
    (taken : app.step module fuel event = some next) :
    (app.views = [] ∧ next = { app with views := [⟨.menu, []⟩] }) ∨
      app.goBack module = some next ∨
      ∃ program, app.calls event = some program ∧ app.perform module fuel program = some next := by
  cases event with
  | openMenu =>
    unfold AddressApp.step at taken
    dsimp only at taken
    split at taken
    · rename_i views
      cases taken
      exact .inl ⟨views, rfl⟩
    · cases taken
  | goBack => exact .inr (.inl taken)
  | openAddress locals => exact .inr (.inr (Option.bind_eq_some_iff.mp taken))
  | click tab row locals => exact .inr (.inr (Option.bind_eq_some_iff.mp taken))
  | search searchText nLen locals => exact .inr (.inr (Option.bind_eq_some_iff.mp taken))

/-- An event with calls opens the address search, is a click on a row, or searches for a name. -/
theorem AddressApp.calls_cases {event : AddressEvent} (asked : app.calls event = some program) :
    (∃ locals, app.views.head?.map AddressView.place = some .menu ∧
      program = AddressPlace.main.create locals) ∨
    (∃ tab row locals view rest, app.views = view :: rest ∧ view.offers tab row = true ∧
      ((∃ place, view.place.next tab row = some place ∧ program = place.create locals) ∨
        ∃ position, view.place.position locals tab row = some position ∧
          program = position >>= fun shown => pure (.map shown))) ∨
    ∃ searchText nLen locals, app.views.head?.map AddressView.place = some .main ∧
      program = (AddressPlace.dnr (.text searchText nLen)).create locals := by
  cases event with
  | openMenu => cases asked
  | goBack => cases asked
  -- Only the menu opens the address search.
  | openAddress locals =>
    unfold AddressApp.calls at asked
    dsimp only at asked
    split at asked
    · rename_i top
      cases asked
      exact .inl ⟨locals, top, rfl⟩
    · cases asked
  -- A row of the top view was clicked: there is a next view, or the map is opened.
  | click tab row locals =>
    unfold AddressApp.calls at asked
    dsimp only at asked
    split at asked
    · cases asked
    · rename_i view rest views
      unfold AddressView.onItemClick at asked
      split at asked
      · rename_i offered
        refine .inr (.inl ⟨tab, row, locals, view, rest, views, offered, ?_⟩)
        split at asked
        · rename_i place opened
          cases asked
          exact .inl ⟨place, opened, rfl⟩
        · obtain ⟨position, clicked, rfl⟩ := Option.map_eq_some_iff.mp asked
          exact .inr ⟨position, clicked, rfl⟩
      · cases asked
  -- A name is searched for in the address search itself.
  | search searchText nLen locals =>
    unfold AddressApp.calls at asked
    dsimp only at asked
    split at asked
    · rename_i top
      cases asked
      exact .inr (.inr ⟨searchText, nLen, locals, top, rfl⟩)
    · cases asked

/-- A view without rows: the menu, or an address search that lists no sido. -/
def AddressView.Idle (view : AddressView) : Prop :=
  view.place = .menu ∨ (view.place = .main ∧ view.lists = [[]])

/-- What every event preserves. -/
structure AddressApp.Kept (module : LHCodeModule) (app : AddressApp) : Prop where
  ordered : (app.views.map fun view => view.place.level).Pairwise (· > ·)
  unborn : app.isInit = false →
    app.native = (AddressApp.start module).native ∧
      ∀ view ∈ app.views, view.place = .menu ∧ view.lists = []
  loaded : app.native.loaded = true →
    app.native.session.Coherent ∧ ∀ view ∈ app.views, view.Shows app.native
  left : app.isInit = true → app.native.loaded = false → ∀ view ∈ app.views, view.Idle

/-- Where `getInstance` was called, it changes nothing. -/
theorem AddressApp.getInstance_of_init (init : app.isInit = true) :
    app.getInstance module = app :=
  if_pos init

/-- `getInstance` is no matter of the views. -/
theorem AddressApp.getInstance_views : (app.getInstance module).views = app.views := by
  unfold AddressApp.getInstance
  split <;> rfl

/-- Behind `getInstance` the module was loaded, at this time or before. -/
theorem AddressApp.Kept.getInstance (born : (Session.start module.um).Coherent)
    (kept : app.Kept module) :
    (app.getInstance module).Kept module ∧ (app.getInstance module).isInit = true := by
  unfold AddressApp.getInstance
  split
  · rename_i init
    exact ⟨kept, init⟩
  · rename_i init
    have unborn := kept.unborn (by simpa using init)
    -- There is nothing on the stack but the menu, which shows nothing.
    refine ⟨⟨kept.ordered, fun unset => (by cases unset), fun _ => ⟨?_, ?_⟩,
      fun _ unset => (by cases unset)⟩, rfl⟩
    · rw [unborn.1]
      exact born
    · rintro ⟨place, lists⟩ member
      obtain ⟨rfl, rfl⟩ : place = .menu ∧ lists = [] := unborn.2 _ member
      exact ⟨trivial, trivial, .nil⟩

/-- The views below the top are of lower levels. -/
theorem AddressApp.Kept.top (kept : app.Kept module) {view : AddressView}
    {rest : List AddressView} (views : app.views = view :: rest) :
    ∀ other ∈ app.views, other.place.level ≤ view.place.level := by
  have ordered := kept.ordered
  rw [views, List.map_cons] at ordered
  rw [views]
  intro other member
  -- It is the top view itself, or one below it.
  rcases List.mem_cons.mp member with rfl | below
  · exact Nat.le_refl _
  · exact Nat.le_of_lt ((List.pairwise_cons.mp ordered).1 _
      (List.mem_map.mpr ⟨other, below, rfl⟩))

/-- So they are, where only the place of the top is known. -/
theorem AddressApp.Kept.top_place (kept : app.Kept module) {place : AddressPlace}
    (top : app.views.head?.map AddressView.place = some place) :
    ∀ other ∈ app.views, other.place.level ≤ place.level := by
  obtain ⟨view, first, rfl⟩ := Option.map_eq_some_iff.mp top
  obtain ⟨rest, views⟩ := List.head?_eq_some_iff.mp first
  exact kept.top views

/-- Only the menu is of the lowest level. -/
theorem AddressPlace.menu_of_level {place : AddressPlace} (lowest : place.level = 0) :
    place = .menu := by
  cases place with
  | menu => rfl
  | _ => cases lowest

/-- The view that a click opens goes on top of the view that was clicked. -/
theorem AddressPlace.next_level {place opened : AddressPlace} {tab row : Nat}
    (next : place.next tab row = some opened) : opened.level = place.level + 1 := by
  cases place with
  | dnr regions =>
    cases tab with
    | zero | succ tab =>
      cases next
      rfl
  | bna regions nDongIdx =>
    cases tab with
    | zero =>
      cases next
      rfl
    | succ tab => cases next
  | main | sigungu | roadBunji =>
    cases next
    rfl
  | menu | ho | roadHo => cases next

/-- What is shown behind the calls of an event: a view above the others, or the map. -/
def AddressApp.Shown (app : AddressApp) (shown : ScreenChange) (next : Native) : Prop :=
  next.session.Coherent ∧
    match shown with
    | .view view => (∀ other ∈ app.views, other.place.level < view.place.level) ∧
      Native.Leaves view.place.level app.native next ∧ view.Shows next
    | .map _ => Native.Leaves 6 app.native next

/-- A view that is created on top of the others is shown. -/
theorem AddressApp.Kept.creates (kept : app.Kept module) (loaded : app.native.loaded = true)
    {place : AddressPlace} {locals : ViewRequest → ViewLocals}
    (higher : ∀ other ∈ app.views, other.place.level < place.level)
    (ready : place.Ready app.native.session) :
    (place.create locals).Ensures (Native.call fuel) (Native.Fits fuel) app.Shown app.native := by
  refine (create_ensures loaded (kept.loaded loaded).1 ready).mono ?_
  rintro _ next ⟨lists, rfl, done⟩
  exact ⟨done.coherent, higher, done.leaves, done.shows⟩

/-- The calls of an event all fit, and what is shown behind them is what the native side holds. -/
theorem AddressApp.Kept.ensures (kept : app.Kept module) (loaded : app.native.loaded = true)
    {event : AddressEvent} (asked : app.calls event = some program) :
    program.Ensures (Native.call fuel) (Native.Fits fuel) app.Shown app.native := by
  obtain ⟨coherent, shows⟩ := kept.loaded loaded
  rcases AddressApp.calls_cases asked with ⟨locals, top, rfl⟩ |
    ⟨tab, row, locals, view, rest, views, offered, clicked⟩ | ⟨text, nLen, locals, top, rfl⟩
  -- The address search stands on the menu.
  · exact kept.creates loaded
      (fun other member => Nat.lt_succ_of_le (kept.top_place top other member)) trivial
  -- What the clicked view shows is still held, and the row it offers is in it.
  · have shown := shows view (views ▸ List.mem_cons_self)
    rcases clicked with ⟨place, opened, rfl⟩ | ⟨position, opened, rfl⟩
    · refine kept.creates loaded (fun other member => ?_) (ready_of_offered shown offered opened)
      rw [AddressPlace.next_level opened]
      exact Nat.lt_succ_of_le (kept.top views other member)
    · refine .bind ((position_ensures loaded coherent shown offered opened).mono ?_)
      intro position next moved
      exact ⟨moved.coherent, moved.leaves⟩
  -- A search for a name needs no choice at all.
  · have ready : (AddressPlace.dnr (.text text nLen)).Ready app.native.session := trivial
    exact kept.creates loaded (fun other member =>
      Nat.lt_succ_of_lt (Nat.lt_succ_of_le (kept.top_place top other member))) ready

/-- Without a module the address search lists no sido. -/
theorem main_unloaded {native after : Native} {locals : ViewRequest → ViewLocals}
    {shown : ScreenChange} (unloaded : native.loaded = false)
    (ran : (AddressPlace.main.create locals).run (Native.call fuel) native = some (shown, after)) :
    shown = .view ⟨.main, [[]]⟩ ∧ after = native := by
  obtain ⟨loaded, rest⟩ := native
  cases unloaded
  cases ran
  exact ⟨rfl, rfl⟩

/-- Without a module a search for a name does not return. -/
theorem search_unloaded {native : Native} {locals : ViewRequest → ViewLocals}
    {searchText : Nat → UInt16} {nLen : Nat} (unloaded : native.loaded = false) :
    ((AddressPlace.dnr (.text searchText nLen)).create locals).run (Native.call fuel) native =
      none := by
  obtain ⟨loaded, rest⟩ := native
  cases unloaded
  rfl

/-- Without a module, an event with calls opens an address search that lists no sido. -/
theorem AddressApp.Kept.idle (kept : app.Kept module) (init : app.isInit = true)
    (unloaded : app.native.loaded = false) {event : AddressEvent} {shown : ScreenChange}
    {native : Native} (asked : app.calls event = some program)
    (ran : program.run (Native.call fuel) app.native = some (shown, native)) :
    (∀ other ∈ app.views, other.place.level < 1) ∧ shown = .view ⟨.main, [[]]⟩ ∧
      native = app.native := by
  rcases AddressApp.calls_cases asked with ⟨locals, top, rfl⟩ |
    ⟨tab, row, locals, view, rest, views, offered, clicked⟩ | ⟨text, nLen, locals, top, rfl⟩
  · exact ⟨fun other member => Nat.lt_succ_of_le (kept.top_place top other member),
      main_unloaded unloaded ran⟩
  · -- Neither of the views offers a row.
    rcases kept.left init unloaded view (views ▸ List.mem_cons_self) with menu | ⟨_, lists⟩
    · rcases clicked with ⟨place, opened, _⟩ | ⟨position, opened, _⟩
      · rw [menu] at opened
        cases opened
      · rw [menu] at opened
        cases opened
    · unfold AddressView.offers at offered
      rw [lists] at offered
      cases tab with
      | zero => cases offered
      | succ tab => cases offered
  -- The search goes through a null pointer.
  · rw [search_unloaded unloaded] at ran
    cases ran

/-- The calls of an event keep the invariant. -/
theorem AddressApp.Kept.perform (born : (Session.start module.um).Coherent)
    (kept : app.Kept module) {event : AddressEvent} (asked : app.calls event = some program)
    (called : app.perform module fuel program = some next) : next.Kept module := by
  obtain ⟨kept', init⟩ := kept.getInstance born
  obtain ⟨shown, native, ran, rfl⟩ := AddressApp.perform_some called
  have asked' : (app.getInstance module).calls event = some program := by
    rw [← asked]
    unfold AddressApp.calls
    rw [AddressApp.getInstance_views]
  generalize app.getInstance module = here at *
  -- The stack stays in order with a view of a higher level on it.
  have above : ∀ {view : AddressView},
      (∀ other ∈ here.views, other.place.level < view.place.level) →
      ((view :: here.views).map fun view => view.place.level).Pairwise (· > ·) := by
    intro view higher
    refine List.pairwise_cons.mpr ⟨?_, kept'.ordered⟩
    intro level member
    obtain ⟨other, own, rfl⟩ := List.mem_map.mp member
    exact higher other own
  have later : here.isInit = false → False := fun unset => by cases init.symm.trans unset
  cases loaded : here.native.loaded with
  -- The calls go to the module, and fit.
  | true =>
    have shows := (kept'.loaded loaded).2
    have outcome := (kept'.ensures loaded asked').of_run ran
    obtain ⟨coherent, outcome⟩ := outcome
    cases shown with
    | view view =>
      obtain ⟨higher, leaves, holds⟩ := outcome
      have still : native.loaded = true := leaves.loaded.trans loaded
      refine ⟨above higher, fun unset => (later unset).elim, fun _ => ⟨coherent, ?_⟩,
        fun _ unloaded => (by cases still.symm.trans unloaded)⟩
      -- The new view shows its lists, and those below are left alone.
      intro other member
      rcases List.mem_cons.mp member with rfl | below
      · exact holds
      · exact (shows other below).below leaves (higher other below)
    -- Nothing is put on the stack, and what was shown there is held still.
    | map position =>
      have still : native.loaded = true := outcome.loaded.trans loaded
      exact ⟨kept'.ordered, fun unset => (later unset).elim, fun _ => ⟨coherent, fun view member =>
        (shows view member).below outcome view.place.level_lt⟩,
        fun _ unloaded => (by cases still.symm.trans unloaded)⟩
  -- Without a module only an empty address search is opened.
  | false =>
    obtain ⟨higher, rfl, rfl⟩ := kept'.idle init loaded asked' ran
    refine ⟨above higher, fun unset => (later unset).elim,
      fun set => (by cases loaded.symm.trans set), fun _ _ view member => ?_⟩
    rcases List.mem_cons.mp member with rfl | below
    · exact .inr ⟨rfl, rfl⟩
    · exact kept'.left init loaded view below

/-- Going back keeps the invariant. -/
theorem AddressApp.Kept.goBack (born : (Session.start module.um).Coherent)
    (kept : app.Kept module) (called : app.goBack module = some next) : next.Kept module := by
  obtain ⟨view, rest, views, outcome⟩ := AddressApp.goBack_cases called
  have ordered := kept.ordered
  rw [views, List.map_cons] at ordered
  obtain ⟨higher, below⟩ := List.pairwise_cons.mp ordered
  rcases outcome with ⟨menu, rfl⟩ | ⟨_, rfl⟩
  · -- Below the menu there is no view, and the module is gone.
    have empty : rest = [] := by
      refine List.eq_nil_iff_forall_not_mem.mpr fun other member => ?_
      have lower := higher _ (List.mem_map.mpr ⟨other, member, rfl⟩)
      rw [menu] at lower
      exact Nat.not_lt_zero _ lower
    subst empty
    obtain ⟨_, init⟩ := kept.getInstance born
    refine ⟨.nil, fun unset => ?_, fun set => (by cases set), fun _ _ view member => ?_⟩
    · cases init.symm.trans unset
    · cases member
  -- The view on top is gone, and nothing is called.
  · have inside : ∀ view' ∈ rest, view' ∈ app.views := by
      intro other member
      rw [views]
      exact List.mem_cons_of_mem _ member
    refine ⟨below, fun unset => ?_, fun loaded => ?_, fun init unloaded other member => ?_⟩
    · exact ⟨(kept.unborn unset).1, fun other member => (kept.unborn unset).2 _ (inside _ member)⟩
    · exact ⟨(kept.loaded loaded).1, fun other member =>
        (kept.loaded loaded).2 _ (inside _ member)⟩
    · exact kept.left init unloaded _ (inside _ member)

/-- Every event keeps the invariant. -/
theorem AddressApp.Kept.step (born : (Session.start module.um).Coherent) (kept : app.Kept module)
    {event : AddressEvent} (taken : app.step module fuel event = some next) :
    next.Kept module := by
  rcases AddressApp.step_cases taken with ⟨_, rfl⟩ | called | ⟨program, asked, called⟩
  · -- The menu is the first view.
    refine ⟨List.pairwise_singleton _ _, fun unset => ⟨(kept.unborn unset).1, ?_⟩,
      fun loaded => ⟨(kept.loaded loaded).1, ?_⟩, fun _ _ => ?_⟩
    · intro view member
      obtain rfl := List.mem_singleton.mp member
      exact ⟨rfl, rfl⟩
    · intro view member
      obtain rfl := List.mem_singleton.mp member
      exact ⟨trivial, trivial, .nil⟩
    · intro view member
      obtain rfl := List.mem_singleton.mp member
      exact .inl rfl
  -- The view on top is left.
  · exact kept.goBack born called
  -- The native calls of the event are made.
  · exact kept.perform born asked called

/-- The application keeps the invariant from its start on. -/
theorem AddressApp.Kept.start (module : LHCodeModule) : (AddressApp.start module).Kept module :=
  ⟨.nil, fun _ => ⟨rfl, fun _ member => by cases member⟩, fun set => (by cases set),
    fun set => (by cases set)⟩

/-- In every run the invariant is kept. -/
theorem kept_of_run (born : (Session.start module.um).Coherent) {events : List AddressEvent}
    (ran : Events.run (AddressApp.step module fuel) (.start module) events = some app) :
    app.Kept module :=
  Events.run_invariant (AddressApp.Kept module) (fun _ _ _ kept taken => kept.step born taken)
    (.start module) ran

/-- Uninitialised variables of a view that happen to be zero. -/
def zeroViewLocals : ViewLocals where
  browse := (zeroInput (.getSigunguCount 0)).locals
  poi := ⟨fun _ => zeroPoiLocals, zeroCallLocals.position, 0⟩
  code := ⟨0, 0, 0, 0⟩

/-- The file with the two sigungus, and an apartment in the administrative dong 7. -/
def sigungusWithApt : List UInt8 :=
  -- The apartment at 134, and the tables of its category up to the index at 184.
  twoSigungus.take 134 ++
  leBytes 4 1 ++ leBytes 4 196 ++ leBytes 4 134 ++
  leBytes 2 1 ++ leBytes 4 1 ++ leBytes 4 142 ++
  leBytes 2 1 ++ leBytes 4 1 ++ leBytes 4 146 ++
  leBytes 4 1 ++ leBytes 2 15 ++ leBytes 4 1 ++ leBytes 4 156 ++ leBytes 4 166 ++
  leBytes 4 7 ++ leBytes 4 134 ++ leBytes 4 184 ++
  -- The body of the apartment at 196, and the headers.
  leBytes 4 200001 ++ leBytes 2 0 ++ leBytes 2 0 ++ leBytes 4 320 ++ leBytes 4 420 ++
  [0, 0, 0, 0, 0, 0, 184, 1, 0, 0, 0, 0].flatMap (leBytes 4) ++
  [0, 134, 134, 260].flatMap (leBytes 4)

/-- The only file that can be opened is that of the first sido. -/
def sigungusWithAptFiles (path : String) : Option File :=
  if path = sidoPath "/" "su" then some ⟨sigungusWithApt, 0, by decide +kernel⟩ else none

/-- The names of the two sigungus, with one of their sido. -/
def twoSigungusSidoNames : TextMng :=
  { twoSigungusNames with
    nameFp := ⟨twoSigungusNames.nameFp.data ++ leBytes 4 1 ++ leBytes 1 0 ++ leBytes 4 1, 0,
      by decide +kernel⟩
    sidoOfs := 48 }

/--
The module over that file.

In its table the dong of the first sigungu lists no administrative dong, and that of the second 7.
-/
def aptModule : LHCodeModule :=
  .load ((UmSearchModule.load zeroAddressLocals 9 sigungusWithAptFiles "/"
      twoSigungusSidoNames).get (by decide +kernel))
    (some ⟨[7, 100001, 0, 0, 200001, 0, 1, 4, 2].flatMap (leBytes 4), 0, by decide +kernel⟩)

theorem aptModule_loaded :
    UmSearchModule.load zeroAddressLocals 9 sigungusWithAptFiles "/" twoSigungusSidoNames =
      some aptModule.um :=
  (Option.some_get _).symm

/-- The second sigungu is chosen, then the first, and an apartment of the second is shown. -/
def browsedBack : List AddressEvent :=
  let click tab row := AddressEvent.click tab row fun _ => zeroViewLocals
  [.openMenu, .openAddress fun _ => zeroViewLocals, click 0 0, click 0 1, click 0 0, .goBack,
    click 1 0, .goBack, .goBack, click 0 0, click 0 0, .goBack, .goBack, click 0 1, click 0 0,
    click 0 0, click 0 0, .goBack, click 1 0]

/-- The module is gone for good. -/
structure AddressApp.Gone (module : LHCodeModule) (app : AddressApp) : Prop where
  kept : app.Kept module
  init : app.isInit = true
  unloaded : app.native.loaded = false

/-- No event brings the module back. -/
theorem AddressApp.Gone.step (born : (Session.start module.um).Coherent) (gone : app.Gone module)
    {event : AddressEvent} (taken : app.step module fuel event = some next) :
    next.Gone module := by
  have kept := gone.kept.step born taken
  suffices still : next.isInit = true ∧ next.native.loaded = false from ⟨kept, still.1, still.2⟩
  rcases AddressApp.step_cases taken with ⟨_, rfl⟩ | called | ⟨program, asked, called⟩
  · exact ⟨gone.init, gone.unloaded⟩
  -- Leaving the menu once more deletes nothing, and `is_init` is set.
  · obtain ⟨view, rest, views, ⟨_, rfl⟩ | ⟨_, rfl⟩⟩ := AddressApp.goBack_cases called
    · rw [AddressApp.getInstance_of_init gone.init]
      exact ⟨gone.init, rfl⟩
    · exact ⟨gone.init, gone.unloaded⟩
  · obtain ⟨shown, native, ran, rfl⟩ := AddressApp.perform_some called
    rw [AddressApp.getInstance_of_init gone.init] at ran ⊢
    -- The calls leave the native side as it is.
    obtain ⟨_, rfl, rfl⟩ := gone.kept.idle gone.init gone.unloaded asked ran
    exact ⟨gone.init, gone.unloaded⟩

/--
Once the menu has been left, no address is found any more.

The module is deleted with the menu, and `is_init` keeps it from being loaded again: the list of
sidos is empty from then on, no view below it is ever opened, and a search for a name does not
return, as it goes through a null pointer.
-/
theorem menu_left_for_good {locals : AddressLocals} {passes : Nat} {fopen : String → Option File}
    {pPath : String} {textMng : TextMng}
    (loaded : UmSearchModule.load locals passes fopen pPath textMng = some module.um)
    (events : List AddressEvent)
    (ran : Events.run (AddressApp.step module fuel) (.start module) events = some app)
    (menu : app.views.head?.map AddressView.place = some .menu)
    (left : app.step module fuel .goBack = some next) (later : List AddressEvent)
    (final : AddressApp)
    (ran' : Events.run (AddressApp.step module fuel) next later = some final) :
    (∀ view ∈ final.views, view.Idle) ∧
      ∀ searchText nLen locals pass, final.perform module pass
        ((AddressPlace.dnr (.text searchText nLen)).create locals) = none := by
  have born : (Session.start module.um).Coherent := .start loaded
  have kept := kept_of_run born ran
  -- The menu is on top, so that going back deletes the module.
  have gone : next.Gone module := by
    have after := kept.step born left
    obtain ⟨view, first, place⟩ := Option.map_eq_some_iff.mp menu
    obtain ⟨rest, views⟩ := List.head?_eq_some_iff.mp first
    simp only [AddressApp.step, AddressApp.goBack, views, place, Option.some.injEq] at left
    subst left
    exact ⟨after, (kept.getInstance born).2, rfl⟩
  have still : final.Gone module :=
    Events.run_invariant (AddressApp.Gone module) (fun _ _ _ gone taken => gone.step born taken)
      gone ran'
  refine ⟨still.kept.left still.init still.unloaded, ?_⟩
  -- `getInstance` does not load the module again, and the first call finds none.
  intro searchText nLen locals pass
  rw [AddressApp.perform, AddressApp.getInstance_of_init still.init,
    search_unloaded still.unloaded]
  rfl

/-- The search is opened behind a menu that was left, over a module with one sido: it lists none. -/
theorem menu_left_for_good_reopened :
    ∃ app next final,
      Events.run (AddressApp.step aptModule 9) (.start aptModule)
        [.openMenu, .openAddress fun _ => zeroViewLocals, .goBack] = some app ∧
      app.step aptModule 9 .goBack = some next ∧
      Events.run (AddressApp.step aptModule 9) next
        [.openMenu, .openAddress fun _ => zeroViewLocals] = some final ∧
      final.views.length = 2 ∧ ∀ view ∈ final.views, view.Idle := by
  have ends : ((Events.run (AddressApp.step aptModule 9) (.start aptModule)
      [.openMenu, .openAddress fun _ => zeroViewLocals, .goBack]).bind fun app =>
        if (app.views.head?.map fun view => view.place.level) = some 0 then
          (app.step aptModule 9 .goBack).bind fun next =>
            (Events.run (AddressApp.step aptModule 9) next
              [.openMenu, .openAddress fun _ => zeroViewLocals]).map fun final =>
                final.views.length
        else none) = some 2 := by
    decide +kernel
  obtain ⟨app, ran, ends⟩ := Option.bind_eq_some_iff.mp ends
  split at ends
  · rename_i top
    obtain ⟨view, first, lowest⟩ := Option.map_eq_some_iff.mp top
    have menu : app.views.head?.map AddressView.place = some .menu := by
      rw [first, Option.map_some, AddressPlace.menu_of_level lowest]
    obtain ⟨next, left, ends⟩ := Option.bind_eq_some_iff.mp ends
    obtain ⟨final, ran', size⟩ := Option.map_eq_some_iff.mp ends
    exact ⟨app, next, final, ran, left, ran', size,
      (menu_left_for_good aptModule_loaded _ ran menu left _ final ran').1⟩
  · cases ends

end Runs

end AndroidApps.Gildroia
