import AndroidApps.Gildroia.CategoryScreens
import AndroidApps.Gildroia.PoiSearches

/-! The result screens of the search by category, over the native calls that fill them. -/

namespace AndroidApps.Gildroia

section Source

/-- The native calls behind a result screen, each of which may end the application. -/
structure PoiNatives (σ : Type) where
  getCatePoiCount : JString → Bool → σ → Option σ
  moveFirstPoiData : σ → Option (Bool × σ)
  moveNextPoiData : σ → Option (Bool × σ)
  getPoiName : σ → Option JString
  getPoiBranchName : σ → Option (Option JString × σ)
  getPoiData : Nat → σ → Option (Option PoiData × σ)

/-- What a click on a POI saves as the last result and hands to the map. -/
structure PoiOnMap where
  poi : PoiData
  name : JString

namespace SearchPoiCategoryResult

variable {σ : Type} (natives : PoiNatives σ)

/-- The searches for the codes, of which all but the first add to what was found. -/
def searchCodes : List JString → Bool → σ → Option σ
  | [], _, native => some native
  | code :: rest, bAddData, native =>
    (natives.getCatePoiCount code bAddData native).bind (searchCodes rest true)

/-- The row of a POI, with the name of its branch if it has one. -/
def rowOf (name : JString) : Option JString → JString
  | some branchName => name ++ 0x20 :: branchName
  | none => name

/-- One pass of the loop over the POIs. -/
def listPass (vars : List JString × σ) : (List JString × σ) ⊕ Option (List JString × σ) :=
  match natives.getPoiBranchName vars.2 with
  | none => .inr none
  | some (branchName, native) =>
    match natives.getPoiName native with
    | none => .inr none
    | some name =>
      let list := vars.1 ++ [rowOf name branchName]
      match natives.moveNextPoiData native with
      | none => .inr none
      | some (true, native) => .inl (list, native)
      | some (false, native) => .inr (some (list, native))

/-- `SetListData`: all codes are searched for, and each POI that was found is listed. -/
def setListData (fuel : Nat) (dbCursor : List JString) (native : σ) : Option (List JString × σ) :=
  (searchCodes natives dbCursor false native).bind fun native =>
    match natives.moveFirstPoiData native with
    | none => none
    | some (false, native) => some ([], native)
    | some (true, native) => (Loop.run (listPass natives) fuel ([], native)).join

/-- `onItemClick`, which throws for a POI that is null and for a row behind the list. -/
def onItemClick (list : List JString) (position : Nat) (native : σ) : Option (PoiOnMap × σ) := do
  let (poiData, native) ← natives.getPoiData position native
  let poiData ← poiData
  let name ← list[position]?
  return (⟨poiData, name⟩, native)

end SearchPoiCategoryResult

/-- A screen with what it lists. -/
inductive CateView where
  | category (view : SearchPoiCategory)
  | result (dbCursor list : List JString)

/-- The screen without the rows of its POIs. -/
def CateView.screen : CateView → CateScreen
  | category view => .category view
  | result dbCursor _ => .result dbCursor

/-- The native side, the screens with the one shown first, and where the map was opened last. -/
structure CateApp (σ : Type) where
  native : σ
  screens : List CateView
  opened : Bool
  map : Option PoiOnMap

namespace CateApp

variable {table : List CateData} {σ : Type}

/-- The search is opened. -/
def start (sqlite : Select.Database table) (native : σ) : CateApp σ :=
  ⟨native, [.category (SearchPoiCategory.onCreate sqlite)], true, none⟩

/-- A screen is created and shown, if there is one to change to. -/
def changeScreen (natives : PoiNatives σ) (fuel : Nat) (app : CateApp σ) :
    Option CateScreen → Option (CateApp σ)
  | none => some app
  | some (.category view) => some { app with screens := .category view :: app.screens }
  | some (.result dbCursor) =>
    (SearchPoiCategoryResult.setListData natives fuel dbCursor app.native).map
      fun (list, native) =>
        { app with native := native, screens := .result dbCursor list :: app.screens }

/-- What an input does, unless it ends the application. -/
def step (sqlite : Select.Database table) (natives : PoiNatives σ) (fuel : Nat)
    (app : CateApp σ) : CateInput → Option (CateApp σ)
  | .click position =>
    match app.screens with
    | [] => some app
    | .category view :: below => do
      let (view, next) ← view.onItemClick sqlite app.opened position
      changeScreen natives fuel { app with screens := .category view :: below } next
    | .result _ list :: _ =>
      (SearchPoiCategoryResult.onItemClick natives list position app.native).map
        fun (shown, native) => { app with native := native, map := some shown }
  | .back =>
    match app.screens with
    | [] => some app
    | view :: below =>
      some { app with
        screens := below, opened := CateSearch.destroyed app.opened view.screen }

end CateApp

/--
The calls of the search module itself, with the number of those that were made.

Each of them has uninitialised variables of its own.
-/
def poiNatives (locals : Nat → PoiNativeLocals) (fuel : Nat) : PoiNatives (PoiNative × Nat) where
  getCatePoiCount code bAddData state :=
    (state.1.getCatePoiCount (locals state.2) fuel code 0 bAddData).map fun native =>
      (native, state.2 + 1)
  moveFirstPoiData state :=
    (state.1.move PoiCursor.moveFirstPoiData).map fun (onElement, native) =>
      (onElement, native, state.2)
  moveNextPoiData state :=
    (state.1.move PoiCursor.moveNextPoiData).map fun (onElement, native) =>
      (onElement, native, state.2)
  getPoiName state := (state.1.name PoiCursor.getPoiName).join
  getPoiBranchName state :=
    (state.1.getPoiBranchName (locals state.2) fuel).map fun (branchName, native) =>
      (branchName, native, state.2 + 1)
  getPoiData poiIdx state :=
    (state.1.getPoiData (locals state.2) fuel poiIdx).map fun (poiData, native) =>
      (poiData, native, state.2 + 1)

end Source

section Trails

open CateApp SearchPoiCategoryResult

variable {table : List CateData} {σ : Type} {natives : PoiNatives σ} {fuel : Nat}

/-- The search without its native side: which screens are shown, and whether they are open. -/
def CateApp.forget (app : CateApp σ) : CateSearch := ⟨app.screens.map CateView.screen, app.opened⟩

/-- A result lists what the native calls gave for its codes when it was opened. -/
def CateView.Listed (natives : PoiNatives σ) (fuel : Nat) (view : CateView) : Prop :=
  ∀ dbCursor list, view = .result dbCursor list →
    ∃ before after, setListData natives fuel dbCursor before = some (list, after)

/-- A screen presents a path: it shows what the path is about, and a result lists its POIs. -/
structure Presents (table : List CateData) (natives : PoiNatives σ) (fuel : Nat) (path : CatePath)
    (view : CateView) : Prop where
  shows : Shows table path view.screen
  listed : view.Listed natives fuel

/-- When an input ends the application. -/
inductive CateApp.Ends (sqlite : Select.Database table) (natives : PoiNatives σ) (fuel : Nat)
    (app : CateApp σ) : CateInput → Prop
  /-- A list of categories is clicked behind its end. -/
  | behind {view : SearchPoiCategory} {below : List CateView} {position : Nat}
    (shown : app.screens = .category view :: below) (outside : view.list.length ≤ position) :
    Ends sqlite natives fuel app (.click position)
  /-- The native calls of a result that is opened do not return. -/
  | opening {view next : SearchPoiCategory} {below : List CateView} {position : Nat}
    {dbCursor : List JString} (shown : app.screens = .category view :: below)
    (opens : view.onItemClick sqlite app.opened position = some (next, some (.result dbCursor)))
    (fails : setListData natives fuel dbCursor app.native = none) :
    Ends sqlite natives fuel app (.click position)
  /-- A POI is clicked that the native side does not give, or behind the list. -/
  | chosen {dbCursor list : List JString} {below : List CateView} {position : Nat}
    (shown : app.screens = .result dbCursor list :: below)
    (fails : (∀ poiData native, natives.getPoiData position app.native ≠
      some (some poiData, native)) ∨ list.length ≤ position) :
    Ends sqlite natives fuel app (.click position)

/-- A change of screens puts the new one in front, whatever the native side does. -/
theorem changeScreen_forget {app next : CateApp σ} {screen : Option CateScreen}
    (changed : app.changeScreen natives fuel screen = some next) :
    next.forget = ⟨screen.toList ++ app.forget.screens, app.opened⟩ := by
  cases screen with
  | none =>
    cases changed
    rfl
  | some screen =>
    cases screen with
    | category view =>
      cases changed
      rfl
    | result dbCursor =>
      obtain ⟨⟨list, native⟩, _, rfl⟩ := Option.map_eq_some_iff.mp changed
      rfl

/-- A step is one of the search without its native side. -/
theorem step_forget {sqlite : Select.Database table} {app next : CateApp σ} {input : CateInput}
    (taken : app.step sqlite natives fuel input = some next) :
    CateSearch.step sqlite app.forget input = some next.forget := by
  obtain ⟨native, screens, opened, map⟩ := app
  cases input with
  | click position =>
    cases screens with
    | nil =>
      cases taken
      rfl
    | cons view below =>
      cases view with
      | category view =>
        obtain ⟨⟨after, screen⟩, clicked, changed⟩ := Option.bind_eq_some_iff.mp taken
        rw [changeScreen_forget changed]
        simp [CateApp.forget, CateSearch.step, CateView.screen, clicked]
      | result dbCursor list =>
        obtain ⟨⟨shown, native⟩, _, rfl⟩ := Option.map_eq_some_iff.mp taken
        rfl
  | back =>
    cases screens with
    | nil =>
      cases taken
      rfl
    | cons view below =>
      cases taken
      rfl

/-- A new screen is listed, and those below it stay as they are. -/
theorem changeScreen_listed {app next : CateApp σ} {screen : Option CateScreen}
    (listed : ∀ view ∈ app.screens, view.Listed natives fuel)
    (changed : app.changeScreen natives fuel screen = some next) :
    ∀ view ∈ next.screens, view.Listed natives fuel := by
  cases screen with
  | none =>
    cases changed
    exact listed
  | some screen =>
    cases screen with
    | category view =>
      cases changed
      refine List.forall_mem_cons.mpr ⟨?_, listed⟩
      rintro dbCursor list ⟨⟩
    | result dbCursor =>
      obtain ⟨⟨list, native⟩, given, rfl⟩ := Option.map_eq_some_iff.mp changed
      refine List.forall_mem_cons.mpr ⟨?_, listed⟩
      rintro _ _ ⟨⟩
      exact ⟨app.native, native, given⟩

/-- Whatever is done, each result lists what the native calls gave for its codes. -/
theorem step_listed {sqlite : Select.Database table} {app next : CateApp σ} {input : CateInput}
    (listed : ∀ view ∈ app.screens, view.Listed natives fuel)
    (taken : app.step sqlite natives fuel input = some next) :
    ∀ view ∈ next.screens, view.Listed natives fuel := by
  obtain ⟨native, screens, opened, map⟩ := app
  cases input with
  | click position =>
    cases screens with
    | nil =>
      cases taken
      exact listed
    | cons view below =>
      obtain ⟨_, others⟩ := List.forall_mem_cons.mp listed
      cases view with
      | category view =>
        obtain ⟨⟨after, screen⟩, _, changed⟩ := Option.bind_eq_some_iff.mp taken
        refine changeScreen_listed (List.forall_mem_cons.mpr ⟨?_, others⟩) changed
        rintro dbCursor list ⟨⟩
      | result dbCursor list =>
        obtain ⟨⟨shown, native⟩, _, rfl⟩ := Option.map_eq_some_iff.mp taken
        exact listed
  | back =>
    cases screens with
    | nil =>
      cases taken
      exact listed
    | cons view below =>
      cases taken
      exact (List.forall_mem_cons.mp listed).2

/-- Screens that show their paths, and whose results are listed, present the paths. -/
theorem presents_of {paths : List CatePath} {screens : List CateView}
    (shown : List.Forall₂ (Shows table) paths (screens.map CateView.screen))
    (listed : ∀ view ∈ screens, view.Listed natives fuel) :
    List.Forall₂ (Presents table natives fuel) paths screens := by
  rw [List.forall₂_map_right_iff] at shown
  induction shown with
  | nil => exact .nil
  | cons shows others ih =>
    obtain ⟨first, rest⟩ := List.forall_mem_cons.mp listed
    exact .cons ⟨shows, first⟩ (ih rest)

/-- A click on a list of categories fails where its code, or the result it opens, does. -/
theorem click_none {sqlite : Select.Database table} {app : CateApp σ} {view : SearchPoiCategory}
    {below : List CateView} {position : Nat} (shown : app.screens = .category view :: below)
    (failed : app.step sqlite natives fuel (.click position) = none) :
    view.onItemClick sqlite app.opened position = none ∨
      ∃ next dbCursor,
        view.onItemClick sqlite app.opened position = some (next, some (.result dbCursor)) ∧
        setListData natives fuel dbCursor app.native = none := by
  obtain ⟨native, screens, opened, map⟩ := app
  cases shown
  cases clicked : view.onItemClick sqlite opened position with
  | none => exact .inl rfl
  | some clickedTo =>
    obtain ⟨next, screen⟩ := clickedTo
    simp only [CateApp.step, clicked, Option.bind_eq_bind, Option.bind_some] at failed
    -- Only a result is filled by calls that can fail.
    cases screen with
    | none => cases failed
    | some screen =>
      cases screen with
      | category child => cases failed
      | result dbCursor => exact .inr ⟨next, dbCursor, rfl, Option.map_eq_none_iff.mp failed⟩

/-- A click on a row of a result fails where the native side gives no POI, or behind the list. -/
theorem onItemClick_none {list : List JString} {position : Nat} {native : σ} :
    SearchPoiCategoryResult.onItemClick natives list position native = none ↔
      (∀ poiData after, natives.getPoiData position native ≠ some (some poiData, after)) ∨
        list.length ≤ position := by
  unfold SearchPoiCategoryResult.onItemClick
  cases given : natives.getPoiData position native with
  | none => simp
  | some answer =>
    obtain ⟨poiData, after⟩ := answer
    cases poiData with
    | none => simp
    | some poiData =>
      cases named : list[position]? with
      | none => simpa [named] using List.getElem?_eq_none_iff.mp named
      | some name => simpa [named] using (List.getElem?_eq_some_iff.mp named).1

/-- The application ends in three cases, and in no others. -/
theorem step_none_iff (sqlite : Select.Database table) {app : CateApp σ} {paths : List CatePath}
    (on : OnTrail table app.forget paths) (input : CateInput) :
    app.step sqlite natives fuel input = none ↔ app.Ends sqlite natives fuel input := by
  constructor
  · intro failed
    cases input with
    | back =>
      obtain ⟨native, screens, opened, map⟩ := app
      cases screens <;> cases failed
    | click position =>
      cases shown : app.screens with
      | nil =>
        rw [CateApp.step, shown] at failed
        cases failed
      | cons top below =>
        cases top with
        | category view =>
          rcases click_none shown failed with thrown | ⟨next, dbCursor, opens, fails⟩
          · -- The search without its native side fails as well, so that this is behind the list.
            have stuck : CateSearch.step sqlite app.forget (.click position) = none := by
              simp [CateSearch.step, CateApp.forget, shown, CateView.screen, thrown]
            obtain ⟨held, others, _, screens, same, outside⟩ := (thrown_iff sqlite on _).mp stuck
            cases same
            rw [CateApp.forget, shown] at screens
            cases screens
            exact .behind shown outside
          · exact .opening shown opens fails
        | result dbCursor list =>
          rw [CateApp.step, shown] at failed
          exact .chosen shown (onItemClick_none.mp (Option.map_eq_none_iff.mp failed))
  · intro ends
    cases ends with
    | @behind view below position shown outside =>
      -- A step of the application would be one of the search without its native side.
      have stuck : CateSearch.step sqlite app.forget (.click position) = none := by
        refine (thrown_iff sqlite on _).mpr ⟨view, below.map CateView.screen, position, ?_, rfl,
          outside⟩
        simp [CateApp.forget, shown, CateView.screen]
      by_contra taken
      obtain ⟨next, taken⟩ := Option.ne_none_iff_exists'.mp taken
      cases stuck.symm.trans (step_forget taken)
    | opening shown opens fails =>
      simp [CateApp.step, shown, opens, CateApp.changeScreen, fails]
    | chosen shown fails =>
      simp only [CateApp.step, shown]
      exact Option.map_eq_none_iff.mpr (onItemClick_none.mpr fails)

/-- The screens follow one trail, and each result lists what its native calls gave. -/
def FollowsTrail (table : List CateData) (natives : PoiNatives σ) (fuel : Nat) (app : CateApp σ) :
    Prop :=
  (∃ paths, OnTrail table app.forget paths) ∧ ∀ view ∈ app.screens, view.Listed natives fuel

/-- The first screen is on the trail it begins. -/
theorem start_followsTrail (sqlite : Select.Database table) (native : σ) :
    FollowsTrail table natives fuel (start sqlite native) := by
  refine ⟨⟨[.top], start_onTrail sqlite⟩, ?_⟩
  intro view member
  rw [List.mem_singleton.mp member]
  rintro dbCursor list ⟨⟩

/-- What is done on a trail stays on one. -/
theorem step_followsTrail (sqlite : Select.Database table) {app next : CateApp σ} {input : CateInput}
    (follows : FollowsTrail table natives fuel app)
    (taken : app.step sqlite natives fuel input = some next) :
    FollowsTrail table natives fuel next :=
  ⟨step_onTrail sqlite follows.1 (step_forget taken), step_listed follows.2 taken⟩

/-- A list of categories leads to each screen of its codes, if the calls of a result return. -/
theorem opens_trail (sqlite : Select.Database table) {app : CateApp σ} {path deeper : CatePath}
    {below : List CatePath} {code : Int32} (on : OnTrail table app.forget (path :: below))
    (entry : path.Entry table code) (leads : path.next table code = some deeper)
    (returns : ∀ under dbCursor, deeper = .result under →
      Shows table deeper (.result dbCursor) →
        (setListData natives fuel dbCursor app.native).isSome = true) :
    ∃ position next, app.step sqlite natives fuel (.click position) = some next ∧
      OnTrail table next.forget (deeper :: path :: below) ∧
      ((∀ under, deeper ≠ .result under) → next.native = app.native) := by
  obtain ⟨native, screens, opened, map⟩ := app
  cases screens with
  | nil => cases on.shown
  | cons top screens =>
    obtain ⟨shows, others⟩ := List.forall₂_cons.mp on.shown
    cases top with
    | result dbCursor list =>
      cases shows
      cases entry
    | category view =>
      obtain ⟨position, chosen⟩ := entry_listed shows entry
      obtain ⟨_, after, taken, on'⟩ := click_onTrail sqlite on chosen
      rw [leads] at on'
      -- The click opens a screen of the deeper path.
      simp only [CateSearch.step, Option.bind_eq_bind, Option.bind_eq_some_iff] at taken
      obtain ⟨⟨fields, screen⟩, clicked, opensTo⟩ := taken
      cases opensTo
      cases screen with
      | none =>
        -- There would be a screen too few for the path.
        have more := on'.shown.length_eq
        have fewer := others.length_eq
        simp at more fewer
        omega
      | some screen =>
        obtain ⟨deeperShows, _⟩ := List.forall₂_cons.mp on'.shown
        have stepped (after : Option (CateApp σ)) (changed : changeScreen natives fuel
            ⟨native, .category fields :: screens, opened, map⟩ (some screen) = after) :
            CateApp.step sqlite natives fuel ⟨native, .category view :: screens, opened, map⟩
              (.click position) = after := by
          have clicked : view.onItemClick sqlite opened position = _ := clicked
          simp only [CateApp.step, clicked, Option.bind_eq_bind, Option.bind_some]
          exact changed
        cases screen with
        -- A list of categories makes no native call.
        | category child => exact ⟨position, _, stepped _ rfl, on', fun _ => rfl⟩
        | result dbCursor =>
          cases deeperShows with
          | @result under _ distinct occupied codes =>
            -- A result is there once its calls have returned.
            obtain ⟨⟨list, given⟩, filled⟩ := Option.isSome_iff_exists.mp
              (returns under dbCursor rfl (.result distinct occupied codes))
            refine ⟨position, _, stepped _ (congrArg (Option.map _) filled), on', ?_⟩
            exact fun other => absurd rfl (other under)

/-- Each trail can be gone, if the calls for the result it may end with return. -/
theorem trail_gone (sqlite : Select.Database table) (native : σ) {paths : List CatePath}
    (trail : Trail table paths)
    (returns : ∀ under dbCursor, paths.head? = some (.result under) →
      Shows table (.result under) (.result dbCursor) →
        (setListData natives fuel dbCursor native).isSome = true) :
    ∃ inputs app, Events.run (step sqlite natives fuel) (start sqlite native) inputs = some app ∧
      OnTrail table app.forget paths ∧
      ((∀ under, paths.head? ≠ some (.result under)) → app.native = native) := by
  induction trail with
  | start => exact ⟨[], start sqlite native, rfl, start_onTrail sqlite, fun _ => rfl⟩
  | @deeper path deeper below code before entry leads ih =>
    -- Nothing is opened from a result, so that no native call was made before.
    have noResult : ∀ under, path ≠ .result under := by
      rintro under rfl
      cases entry
    obtain ⟨inputs, app, ran, on, same⟩ := ih fun under _ first =>
      absurd (Option.some.inj first) (noResult under)
    have same := same fun under first => noResult under (Option.some.inj first)
    have listed : ∀ under dbCursor, deeper = .result under →
        Shows table deeper (.result dbCursor) →
          (setListData natives fuel dbCursor app.native).isSome = true := by
      rintro under dbCursor rfl shows
      rw [same]
      exact returns under dbCursor rfl shows
    obtain ⟨position, next, taken, on', kept⟩ := opens_trail sqlite on entry leads listed
    refine ⟨inputs ++ [.click position], next, Events.run_append ran ?_, on', fun other => ?_⟩
    · rw [Events.run, taken]
      rfl
    · rw [kept fun under here => other under (congrArg some here), same]

end Trails

section Rows

open SearchPoiCategoryResult

variable {locals : PoiNativeLocals} {fuel : Nat} {native after : PoiNative}

/-- A read of a POI leaves the result and the place of the iterator as they are. -/
structure PoiNative.SameResult (native after : PoiNative) : Prop where
  poiDatas : after.cursor.poiDatas = native.cursor.poiDatas
  iterator : after.cursor.poiDatasIterator = native.cursor.poiDatasIterator
  headerIdx : after.cursor.poiHeaderIdx = native.cursor.poiHeaderIdx

/-- The cache points to a POI of the result behind a read. -/
theorem readAt_cache {place : Option Nat}
    (read : native.readAt locals fuel place = some after) :
    native.SameResult after ∧ ∃ module entry body next, native.module = some module ∧
      native.cursor.element place = some entry ∧
      module.getSearchPoiResult fuel locals.position entry.2 = some (body, next) ∧
      after.cursor.poiHeader = some entry.2 ∧ after.cursor.poiBody = some body := by
  unfold PoiNative.readAt at read
  split at read
  · rename_i module entry loaded held
    -- The header comes from the result and the body from the file.
    obtain ⟨⟨body, next⟩, given, rfl⟩ := Option.map_eq_some_iff.mp read
    exact ⟨⟨rfl, rfl, rfl⟩, module, entry, body, next, loaded, held, given, rfl, rfl⟩
  · cases read

/-- The name of a branch is read without a change of the result. -/
theorem getPoiBranchName_same {branchName : Option JString}
    (given : native.getPoiBranchName locals fuel = some (branchName, after)) :
    native.SameResult after := by
  obtain ⟨loaded, load, answered⟩ := Option.bind_eq_some_iff.mp given
  have same : native.SameResult loaded := by
    unfold PoiNative.load at load
    split at load
    · -- The iterator has moved since the last read, so that the POI is read first.
      obtain ⟨read, reads, rfl⟩ := Option.map_eq_some_iff.mp load
      obtain ⟨kept, _⟩ := readAt_cache reads
      exact ⟨kept.poiDatas, kept.iterator, kept.headerIdx⟩
    · cases load
      exact ⟨rfl, rfl, rfl⟩
  split at answered
  · cases answered
    exact same
  · cases answered

/-- Only the variables of a result that is still there are used. -/
theorem result_eq {cursor : PoiCursor} (there : native.result = some cursor) :
    cursor = native.cursor := by
  unfold PoiNative.result at there
  split at there
  · cases there
  · exact (Option.some.inj there).symm

/-- A call that moves the iterator does to the variables what it does without the module. -/
theorem move_some {call : PoiCursor → Option (PoiAnswer × PoiCursor)} {onElement : Bool}
    (moved : native.move call = some (onElement, after)) :
    ∃ cursor, call native.cursor = some (.moved onElement, cursor) ∧
      after = { native with cursor := cursor } := by
  unfold PoiNative.move at moved
  split at moved
  · rename_i answered
    obtain ⟨there, result, called⟩ := Option.bind_eq_some_iff.mp answered
    obtain rfl := result_eq result
    cases moved
    exact ⟨_, called, rfl⟩
  · cases moved

/-- The name at the iterator is that of the POI it is on. -/
theorem name_some {name : JString}
    (given : (native.name PoiCursor.getPoiName).join = some name) :
    ∃ entry, native.cursor.element native.cursor.poiDatasIterator = some entry ∧
      name = entry.1 := by
  obtain ⟨_, answered, rfl⟩ := Option.join_eq_some_iff.mp given |> fun named =>
    (⟨some name, named, rfl⟩ : ∃ chars, native.name PoiCursor.getPoiName = some chars ∧
      chars = some name)
  unfold PoiNative.name at answered
  split at answered
  · rename_i chars cursor called
    obtain ⟨there, result, named⟩ := Option.bind_eq_some_iff.mp called
    obtain rfl := result_eq result
    obtain ⟨entry, held, same⟩ := Option.map_eq_some_iff.mp named
    cases same
    cases answered
    exact ⟨entry, held, rfl⟩
  · cases answered

/-- The row of a POI is its name, with that of a branch if it has one. -/
def RowOf (entry : List UInt16 × PoiHeader) (row : JString) : Prop :=
  ∃ branchName, row = rowOf entry.1 branchName

/-- The loop over the POIs stands on one of them, and the ones before it are listed. -/
structure Listing (poiDatas : PoiMap) (list : List JString) (native : PoiNative) : Prop where
  result : native.cursor.poiDatas = some poiDatas
  headerIdx : native.cursor.poiHeaderIdx = -1
  place : native.cursor.poiDatasIterator = some list.length
  rows : List.Forall₂ RowOf (poiDatas.take list.length) list

/-- A pass that returns has listed a POI and asked for the next one. -/
theorem listPass_some {σ : Type} {natives : PoiNatives σ} {vars next : List JString × σ}
    {goesOn : Bool} (passed : listPass natives vars =
      if goesOn then .inl next else .inr (some next)) :
    ∃ branchName read name last, natives.getPoiBranchName vars.2 = some (branchName, read) ∧
      natives.getPoiName read = some name ∧
      natives.moveNextPoiData read = some (goesOn, last) ∧
      next = (vars.1 ++ [rowOf name branchName], last) := by
  unfold listPass at passed
  cases branch : natives.getPoiBranchName vars.2 with
  | none => cases goesOn <;> simp [branch] at passed
  | some answer =>
    obtain ⟨branchName, read⟩ := answer
    -- Where one of the calls fails, the pass fails as well.
    cases named : natives.getPoiName read with
    | none => cases goesOn <;> simp [branch, named] at passed
    | some name =>
      cases moved : natives.moveNextPoiData read with
      | none => cases goesOn <;> simp [branch, named, moved] at passed
      | some answer =>
        obtain ⟨onElement, last⟩ := answer
        refine ⟨branchName, read, name, last, rfl, named, ?_⟩
        cases onElement <;> cases goesOn <;> simp [branch, named, moved] at passed <;>
          simp [moved, passed]

/-- A pass lists the POI that the loop stands on, and goes on if there is another one. -/
theorem Listing.pass {poiDatas : PoiMap} {calls : Nat → PoiNativeLocals}
    {vars next : List JString × PoiNative × Nat} (goesOn : Bool)
    (listing : Listing poiDatas vars.1 vars.2.1) (inside : vars.1.length < poiDatas.length)
    (passed : listPass (poiNatives calls fuel) vars =
      if goesOn then .inl next else .inr (some next)) :
    Listing poiDatas next.1 next.2.1 ∧ goesOn = decide (next.1.length < poiDatas.length) := by
  obtain ⟨branchName, read, name, last, branch, named, moved, rfl⟩ := listPass_some passed
  obtain ⟨⟨_, native⟩, given, same⟩ := Option.map_eq_some_iff.mp branch
  obtain ⟨rfl, rfl⟩ := Prod.mk.inj same
  obtain ⟨⟨onElement, later⟩, shifted, same⟩ := Option.map_eq_some_iff.mp moved
  obtain ⟨rfl, rfl⟩ := Prod.mk.inj same
  have kept := getPoiBranchName_same given
  have held : native.cursor.poiDatas = some poiDatas := kept.poiDatas.trans listing.result
  have placed : native.cursor.poiDatasIterator = some vars.1.length :=
    kept.iterator.trans listing.place
  -- The name is that of the POI the iterator stands on.
  obtain ⟨entry, here, rfl⟩ := name_some named
  simp only [PoiCursor.element, held, placed] at here
  -- The iterator goes on by one, and stands on a POI unless that was the last one.
  obtain ⟨cursor, called, rfl⟩ := move_some shifted
  simp only [PoiCursor.moveNextPoiData, held, placed, if_pos inside, Option.some.injEq,
    Prod.mk.injEq, PoiAnswer.moved.injEq] at called
  obtain ⟨rfl, rfl⟩ := called
  refine ⟨⟨rfl, kept.headerIdx.trans listing.headerIdx, ?_, ?_⟩, ?_⟩
  · simp
  · -- The row that is new belongs to the POI that was just read.
    rw [List.length_append, List.length_singleton, List.take_add_one, here]
    exact List.rel_append listing.rows (.cons ⟨_, rfl⟩ .nil)
  · simp

/-- The searches for some codes leave a result, of which no POI was read yet. -/
theorem searchCodes_result {calls : Nat → PoiNativeLocals} :
    ∀ {dbCursor : List JString} {bAddData : Bool} {state last : PoiNative × Nat},
      searchCodes (poiNatives calls fuel) dbCursor bAddData state = some last → dbCursor ≠ [] →
      ∃ poiDatas, last.1.cursor.poiDatas = some poiDatas ∧ last.1.cursor.poiHeaderIdx = -1
  | [], _, _, _, _, occupied => absurd rfl occupied
  | code :: rest, bAddData, state, last, searched, _ => by
    obtain ⟨middle, counted, later⟩ := Option.bind_eq_some_iff.mp searched
    cases rest with
    -- What this search left is overwritten by the next one.
    | cons other rest => exact searchCodes_result later (List.cons_ne_nil _ _)
    | nil =>
      cases later
      -- The last search leaves its own result.
      obtain ⟨native, found, rfl⟩ := Option.map_eq_some_iff.mp counted
      unfold PoiNative.getCatePoiCount at found
      split at found
      · cases found
      · rw [if_pos rfl] at found
        obtain ⟨module, _, found⟩ := Option.bind_eq_some_iff.mp found
        obtain ⟨next, _, rfl⟩ := Option.map_eq_some_iff.mp found
        exact ⟨next.um.poiHeaders, rfl, rfl⟩

/-- A list has a row for each POI of the result, and the POI that was read last is of the result. -/
structure ShowsResult (poiDatas : PoiMap) (list : List JString) (native : PoiNative) : Prop where
  result : native.cursor.poiDatas = some poiDatas
  rows : List.Forall₂ RowOf poiDatas list
  cached : ∀ place : Nat, native.cursor.poiHeaderIdx = place →
    ∃ entry, poiDatas[place]? = some entry ∧ native.cursor.poiHeader = some entry.2

/-- `SetListData` lists the POIs that the searches have found, each of them once. -/
theorem setListData_shows {calls : Nat → PoiNativeLocals} {passes : Nat} {dbCursor : List JString}
    {list : List JString} {state middle last : PoiNative × Nat} {poiDatas : PoiMap}
    (filled : setListData (poiNatives calls fuel) passes dbCursor state = some (list, last))
    (searched : searchCodes (poiNatives calls fuel) dbCursor false state = some middle)
    (held : middle.1.cursor.poiDatas = some poiDatas)
    (unread : middle.1.cursor.poiHeaderIdx = -1) : ShowsResult poiDatas list last.1 := by
  have listed := filled
  rw [setListData, searched, Option.bind_some] at listed
  cases first : (poiNatives calls fuel).moveFirstPoiData middle with
  | none => simp [first] at listed
  | some answer =>
    obtain ⟨onElement, begun⟩ := answer
    obtain ⟨⟨there, native⟩, shifted, same⟩ := Option.map_eq_some_iff.mp first
    obtain ⟨rfl, rfl⟩ := Prod.mk.inj same
    obtain ⟨cursor, called, rfl⟩ := move_some shifted
    simp only [PoiCursor.moveFirstPoiData, held, Option.some.injEq, Prod.mk.injEq,
      PoiAnswer.moved.injEq] at called
    obtain ⟨rfl, rfl⟩ := called
    by_cases empty : poiDatas.length = 0
    · -- Without a POI the list stays empty.
      simp only [first, empty, Nat.lt_irrefl, decide_false, Option.some.injEq,
        Prod.mk.injEq] at listed
      obtain ⟨rfl, rfl⟩ := listed
      rw [List.length_eq_zero_iff] at empty
      subst empty
      exact ⟨rfl, .nil, fun place index => absurd (unread.symm.trans index) (by omega)⟩
    · have more : 0 < poiDatas.length := Nat.pos_of_ne_zero empty
      simp only [first, more, decide_true, Option.join_eq_some_iff] at listed
      -- The loop stands on a POI whenever it goes on, and behind the last one when it ends.
      refine Loop.run_post
        (fun vars : List JString × PoiNative × Nat =>
          Listing poiDatas vars.1 vars.2.1 ∧ vars.1.length < poiDatas.length)
        (fun result => ∀ list last, result = some (list, last) →
          ShowsResult poiDatas list last.1) ?_ ?_ ?_ listed list last rfl
      · rintro vars next ⟨listing, inside⟩ passed
        obtain ⟨again, goes⟩ := listing.pass true inside passed
        exact ⟨again, of_decide_eq_true goes.symm⟩
      · rintro vars result ⟨listing, inside⟩ passed list last rfl
        obtain ⟨ended, stops⟩ := listing.pass false inside passed
        have all : poiDatas.take list.length = poiDatas :=
          List.take_of_length_le (Nat.le_of_not_lt (of_decide_eq_false stops.symm))
        -- Every POI has its row then, and none was loaded by its index.
        refine ⟨ended.result, all ▸ ended.rows, fun place index => ?_⟩
        exact absurd (ended.headerIdx.symm.trans index) (by omega)
      · exact ⟨⟨rfl, unread, rfl, .nil⟩, more⟩

/-- What `SetListData` lists is the result that the variables hold behind it. -/
theorem setListData_rows {calls : Nat → PoiNativeLocals} {passes : Nat} {dbCursor : List JString}
    {list : List JString} {state last : PoiNative × Nat} (occupied : dbCursor ≠ [])
    (filled : setListData (poiNatives calls fuel) passes dbCursor state = some (list, last)) :
    ∃ poiDatas, ShowsResult poiDatas list last.1 := by
  obtain ⟨middle, searched, _⟩ := Option.bind_eq_some_iff.mp filled
  obtain ⟨poiDatas, held, unread⟩ := searchCodes_result searched occupied
  exact ⟨poiDatas, setListData_shows filled searched held unread⟩

/-- Loading a POI by its index makes it the one that was read last. -/
theorem ShowsResult.load {poiDatas : PoiMap} {list : List JString} {position : Nat}
    (shows : ShowsResult poiDatas list native)
    (loaded : native.loadAt locals fuel position = some after) :
    ShowsResult poiDatas list after ∧ after.cursor.poiHeaderIdx = position := by
  unfold PoiNative.loadAt at loaded
  split at loaded
  · -- The POI is read, and its index is kept.
    obtain ⟨read, reads, rfl⟩ := Option.map_eq_some_iff.mp loaded
    obtain ⟨same, _, entry, _, _, _, held, _, header, _⟩ := readAt_cache reads
    simp only [PoiCursor.element, shows.result] at held
    refine ⟨⟨same.poiDatas.trans shows.result, shows.rows, fun place index => ?_⟩, rfl⟩
    have index : (position : Int) = place := index
    obtain rfl : position = place := Int.ofNat.inj index
    exact ⟨entry, held, header⟩
  · -- It was the one that was loaded last, and nothing is read.
    rename_i cached
    cases loaded
    exact ⟨shows, not_ne_iff.mp fun other => cached (.inr other)⟩

/-- What a getter returns is computed from the POI that was read last. -/
theorem cached_some {answer : PoiHeader → PoiBody → PoiAnswer} {value : PoiAnswer}
    (given : native.cached answer = some value) :
    ∃ header body, native.cursor.poiHeader = some header ∧ value = answer header body := by
  unfold PoiNative.cached at given
  split at given
  · cases given
  · obtain ⟨answered, found, rfl⟩ := Option.map_eq_some_iff.mp given
    unfold PoiCursor.fromCache at found
    split at found
    · rename_i header body held _
      cases found
      exact ⟨header, body, held, rfl⟩
    · cases found

/-- A POI that is asked for by its index is the one at that place of the result. -/
theorem ShowsResult.chosen {poiDatas : PoiMap} {list : List JString} {position : Nat}
    {poi : PoiData} (shows : ShowsResult poiDatas list native)
    (given : native.getPoiData locals fuel position = some (some poi, after)) :
    ShowsResult poiDatas list after ∧ ∃ entry, poiDatas[position]? = some entry ∧
      after.cursor.poiHeader = some entry.2 ∧ poi.catePoi = (entry.2.info.cateFlag == 1) := by
  unfold PoiNative.getPoiData at given
  split at given
  · split at given
    · cases given
    · simp only [Option.bind_eq_bind, Option.bind_eq_some_iff] at given
      obtain ⟨loaded, load, next, _, values, valued, branch, _, phone, _, given⟩ := given
      obtain ⟨shown, index⟩ := shows.load load
      obtain ⟨entry, held, header⟩ := shown.cached position index
      obtain ⟨_, body, same, rfl⟩ := cached_some valued
      cases header.symm.trans same
      -- The array holds what the header and the body say, and the texts belong to the same POI.
      unfold poiDataOf at given
      split at given
      · rename_i values _ _ array _ _
        obtain ⟨names, _, filled⟩ := Option.bind_eq_some_iff.mp given
        cases array
        cases filled
        exact ⟨⟨shown.result, shown.rows, shown.cached⟩, entry, held, header, rfl⟩
      · cases given
  · cases given

end Rows

section Pois

open SearchPoiCategoryResult

variable {data text : List UInt8} {catePoiOfs : Nat}

/-- The leaf of the three codes that a text is cut to. -/
def CodeLeaf (data : List UInt8) (catePoiOfs : Nat) (code : JString) (leaf : Nat × Nat) : Prop :=
  ∃ code1 code2 code3, cateCode code = some (code1, code2, code3) ∧
    CateLeaf data catePoiOfs code1 code2 code3 leaf

/-- Searches that add to a result add the POIs at the leaves of their codes. -/
theorem searchCodes_add (locals : Nat → PoiNativeLocals) (tree : CateTree data text catePoiOfs)
    (leaf : JString → Nat × Nat) (dbCursor : List JString) :
    ∀ (state : PoiNative × Nat) (module : LHCodeModule), state.1.module = some module →
      module.SidoReady data text catePoiOfs →
      state.1.cursor.poiDatas = some module.um.poiHeaders →
      state.1.cursor.poiHeaderIdx = -1 →
      (∀ code ∈ dbCursor, CodeLeaf data catePoiOfs code (leaf code)) →
      ∃ last next, Loop.Yields
          (fun fuel => searchCodes (poiNatives locals fuel) dbCursor true state) last ∧
        last.1.cursor.poiDatas = some next ∧ last.1.cursor.poiHeaderIdx = -1 ∧
        next.Perm ((dbCursor.flatMap fun code => leafEntries 0 data text (leaf code)) ++
          module.um.poiHeaders) := by
  induction dbCursor with
  | nil =>
    intro state module _ _ held unread _
    exact ⟨state, _, Loop.yields_of_eq fun _ => rfl, held, unread, List.Perm.refl _⟩
  | cons code rest ih =>
    intro state module loaded ready held unread leaves
    obtain ⟨own, others⟩ := List.forall_mem_cons.mp leaves
    obtain ⟨code1, code2, code3, cut, found⟩ := own
    -- The first code adds its leaf, and the others go on from what it leaves.
    obtain ⟨after, next, ⟨enough, counted⟩, loaded', ready', same, added⟩ :=
      PoiNative.getCatePoiCount_found (locals state.2) loaded ready tree cut found true
    obtain ⟨last, result, ⟨more, later⟩, held', unread', inserted⟩ :=
      ih (after, state.2 + 1) next loaded' ready' (by rw [same]; rfl) (by rw [same]; rfl) others
    refine ⟨last, result, ⟨max enough more, fun fuel longer => ?_⟩, held', unread', ?_⟩
    · have counted : state.1.getCatePoiCount (locals state.2) fuel code 0 true = some after :=
        counted fuel (by omega)
      have later : searchCodes (poiNatives locals fuel) rest true (after, state.2 + 1) = some last :=
        later fuel (by omega)
      simp only [searchCodes, poiNatives, counted, Option.map_some, Option.bind_some]
      exact later
    · rw [List.flatMap_cons]
      -- The order is another one: a later leaf stands in front of an earlier one.
      refine inserted.trans ((added.append_left _).trans ?_)
      rw [if_pos rfl, ← List.append_assoc]
      exact List.perm_append_comm.append_right _

/--
A result lists the POIs at the leaves of its codes, each as often as the leaves have it.

The first search clears what was found before, and the others add to it.
-/
theorem setListData_pois (locals : Nat → PoiNativeLocals) (tree : CateTree data text catePoiOfs)
    (leaf : JString → Nat × Nat) {dbCursor : List JString} (occupied : dbCursor ≠ [])
    {state : PoiNative × Nat} {module : LHCodeModule} (loaded : state.1.module = some module)
    (ready : module.SidoReady data text catePoiOfs)
    (leaves : ∀ code ∈ dbCursor, CodeLeaf data catePoiOfs code (leaf code)) :
    ∃ poiDatas : PoiMap,
      poiDatas.Perm (dbCursor.flatMap fun code => leafEntries 0 data text (leaf code)) ∧
      ∃ enough, ∀ fuel, enough ≤ fuel → ∀ passes list last,
        setListData (poiNatives locals fuel) passes dbCursor state = some (list, last) →
          ShowsResult poiDatas list last.1 := by
  cases dbCursor with
  | nil => exact absurd rfl occupied
  | cons code rest =>
    obtain ⟨own, others⟩ := List.forall_mem_cons.mp leaves
    obtain ⟨code1, code2, code3, cut, found⟩ := own
    -- The first search is told to clear the result, so that only its leaf is left.
    obtain ⟨after, next, ⟨enough, counted⟩, loaded', ready', same, added⟩ :=
      PoiNative.getCatePoiCount_found (locals state.2) loaded ready tree cut found false
    obtain ⟨middle, poiDatas, ⟨more, later⟩, held, unread, inserted⟩ :=
      searchCodes_add locals tree leaf rest (after, state.2 + 1) next loaded' ready'
        (by rw [same]; rfl) (by rw [same]; rfl) others
    refine ⟨poiDatas, ?_, max enough more, fun fuel longer passes list last filled => ?_⟩
    · rw [if_neg Bool.false_ne_true, List.append_nil] at added
      rw [List.flatMap_cons]
      exact (inserted.trans (added.append_left _)).trans List.perm_append_comm
    · have counted : state.1.getCatePoiCount (locals state.2) fuel code 0 false = some after :=
        counted fuel (by omega)
      have later : searchCodes (poiNatives locals fuel) rest true (after, state.2 + 1) =
          some middle := later fuel (by omega)
      refine setListData_shows filled ?_ held unread
      simp only [searchCodes, poiNatives, counted, Option.map_some, Option.bind_some]
      exact later

end Pois

section Search

open CateApp SearchPoiCategoryResult

variable {table : List CateData} {locals : Nat → PoiNativeLocals} {fuel : Nat}

/-- The result that is shown is the one that the native variables hold. -/
def ResultHeld (app : CateApp (PoiNative × Nat)) : Prop :=
  ∀ dbCursor list below, app.screens = .result dbCursor list :: below →
    ∃ poiDatas, ShowsResult poiDatas list app.native.1

/-- A click on a row of a result that opens the map does so at the POI of the row. -/
theorem click_chosen {sqlite : Select.Database table} {app next : CateApp (PoiNative × Nat)}
    {dbCursor list : List JString} {below : List CateView} {position : Nat} {poiDatas : PoiMap}
    (shown : app.screens = .result dbCursor list :: below)
    (shows : ShowsResult poiDatas list app.native.1)
    (taken : app.step sqlite (poiNatives locals fuel) fuel (.click position) = some next) :
    next.screens = app.screens ∧ ShowsResult poiDatas list next.native.1 ∧
      ∃ entry, poiDatas[position]? = some entry ∧
        next.native.1.cursor.poiHeader = some entry.2 ∧
        next.map.map PoiOnMap.name = list[position]? := by
  simp only [CateApp.step, shown] at taken
  obtain ⟨⟨onMap, native⟩, clicked, rfl⟩ := Option.map_eq_some_iff.mp taken
  simp only [SearchPoiCategoryResult.onItemClick, Option.bind_eq_bind,
    Option.bind_eq_some_iff] at clicked
  obtain ⟨⟨_, read⟩, given, poi, rfl, name, named, same⟩ := clicked
  cases same
  obtain ⟨⟨_, after⟩, chosen, same⟩ := Option.map_eq_some_iff.mp given
  cases same
  -- The POI that is handed to the map was loaded by the place of its row.
  obtain ⟨later, entry, held, header, _⟩ := shows.chosen chosen
  exact ⟨shown.symm, later, entry, held, header, named.symm⟩

/-- No screen was opened from a result. -/
theorem not_below_result {search : CateSearch} {paths : List CatePath} {top : CateScreen}
    {dbCursor : List JString} {below : List CateScreen} (on : OnTrail table search paths)
    (shown : search.screens = top :: .result dbCursor :: below) : False := by
  have shows := on.shown
  rw [shown] at shows
  obtain ⟨path, rest, _, others, rfl⟩ := List.forall₂_cons_right_iff.mp shows
  obtain ⟨before, paths, result, _, rfl⟩ := List.forall₂_cons_right_iff.mp others
  cases on.trail.resolve_left (List.cons_ne_nil _ _) with
  | deeper trail entry leads =>
    cases result
    cases entry

/-- A result is shown only as long as no other search is made. -/
theorem step_resultHeld (sqlite : Select.Database table) {app next : CateApp (PoiNative × Nat)}
    {input : CateInput} (follows : FollowsTrail table (poiNatives locals fuel) fuel app)
    (held : ResultHeld app)
    (taken : app.step sqlite (poiNatives locals fuel) fuel input = some next) :
    ResultHeld next := by
  obtain ⟨⟨paths, on⟩, _⟩ := step_followsTrail sqlite follows taken
  obtain ⟨⟨pathsBefore, onBefore⟩, _⟩ := follows
  intro dbCursor list below shown
  have before := held
  obtain ⟨native, screens, opened, map⟩ := app
  cases screens with
  | nil => cases input <;> cases taken <;> cases shown
  | cons top rest =>
    cases input with
    | back =>
      cases taken
      -- The screen behind the one that is left is a list of categories.
      have shown : rest = .result dbCursor list :: below := shown
      subst shown
      exact (not_below_result onBefore rfl).elim
    | click position =>
      cases top with
      | result codes rows =>
        obtain ⟨poiDatas, shows⟩ := held codes rows rest rfl
        -- A click on the result loads one of its POIs and leaves the list.
        obtain ⟨same, later, _⟩ := click_chosen rfl shows taken
        rw [same] at shown
        cases shown
        exact ⟨poiDatas, later⟩
      | category view =>
        obtain ⟨⟨fields, screen⟩, _, changed⟩ := Option.bind_eq_some_iff.mp taken
        cases screen with
        | none =>
          cases changed
          cases shown
        | some screen =>
          cases screen with
          | category child =>
            cases changed
            cases shown
          | result codes =>
            obtain ⟨⟨rows, after⟩, filled, rfl⟩ := Option.map_eq_some_iff.mp changed
            cases shown
            -- There is a code, so that the result is the one that was just found.
            obtain ⟨path, _, shows, _⟩ := List.forall₂_cons_right_iff.mp on.shown
            cases shows with
            | result distinct occupied _ =>
              exact setListData_rows (List.ne_nil_of_length_pos occupied) filled

/-- The invariant of a run: one trail, whose result on top is the one the variables hold. -/
theorem run_invariant (sqlite : Select.Database table) (native : PoiNative)
    {inputs : List CateInput} {app : CateApp (PoiNative × Nat)}
    (ran : Events.run (step sqlite (poiNatives locals fuel) fuel) (start sqlite (native, 0))
      inputs = some app) :
    FollowsTrail table (poiNatives locals fuel) fuel app ∧ ResultHeld app := by
  refine Events.run_invariant (fun app => FollowsTrail table (poiNatives locals fuel) fuel app ∧
    ResultHeld app) ?_ ⟨start_followsTrail sqlite _, ?_⟩ ran
  · rintro app input next ⟨follows, held⟩ taken
    exact ⟨step_followsTrail sqlite follows taken, step_resultHeld sqlite follows held taken⟩
  · rintro dbCursor list below ⟨⟩

end Search

end AndroidApps.Gildroia
