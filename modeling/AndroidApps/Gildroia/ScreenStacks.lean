import AndroidApps.Gildroia.UIScreen

/-! When the two stacks of an activity agree with each other and with the static view. -/

namespace AndroidApps.Gildroia.UIApp

section Properties

/-- The stacks of an activity agree, are not empty, and have the static view on top. -/
structure Stacked (app : UIApp) (screen : Nat) : Prop where
  length : (app.screens screen).viewStack.length = (app.screens screen).screenStack.length
  positive : 1 ≤ (app.screens screen).viewStack.length
  top : (app.screens screen).viewStack.head? = app.makeScreenView

/-- The stacks of the activity agree, and `goBack` was never executed on short ones. -/
structure Sound (app : UIApp) : Prop where
  back : app.shortBack = false
  stacked : ∀ screen, app.current = some screen → Stacked app screen

/-- No activity is resumed behind another one that was opened over it. -/
def ResumesNone (app : UIApp) : UIEvent → Prop
  | .destroy screen => app.current = some screen → app.live = [screen]
  | _ => True

/-- A new activity shows a new view, and not the one that is left of an earlier activity. -/
def ShowsNew (app : UIApp) : UIEvent → Prop
  | .create rotation none => app.stored = rotation.orien ∨ app.makeScreenView = none
  | .create _ (some name) => name = JString.ofString "GPSFileList"
  | _ => True

/-- The static view was made, and the views on the stack belong to the activity. -/
structure Owned (app : UIApp) : Prop where
  known : ∀ view, app.makeScreenView = some view → view < app.viewCount
  owned : ∀ screen, app.current = some screen → ∀ view ∈ (app.screens screen).viewStack,
    view < app.viewCount ∧ (app.views view).thisScreen = some screen

end Properties

section Steps

variable {app next : UIApp}

/-- What an event leaves of the stacks that only changes other fields of a view. -/
structure SameStacks (app next : UIApp) : Prop where
  makeScreenView : next.makeScreenView = app.makeScreenView
  viewCount : app.viewCount ≤ next.viewCount
  screens : next.screens = app.screens
  current : ∀ screen, next.current = some screen → app.current = some screen
  shortBack : next.shortBack = app.shortBack
  thisScreen : ∀ view < app.viewCount, (next.views view).thisScreen = (app.views view).thisScreen

/-- The stacks agree as before. -/
theorem SameStacks.sound (same : SameStacks app next) (sound : Sound app) : Sound next := by
  refine ⟨same.shortBack.trans sound.back, fun screen current => ?_⟩
  obtain ⟨length, positive, top⟩ := sound.stacked screen (same.current screen current)
  rw [← same.screens] at length positive top
  exact ⟨length, positive, top.trans same.makeScreenView.symm⟩

/-- The views belong to the activity as before. -/
theorem SameStacks.owned (same : SameStacks app next) (owned : Owned app) : Owned next := by
  -- No view was made or moved, and the number of views has not become smaller.
  constructor
  · intro view there
    rw [same.makeScreenView] at there
    exact Nat.lt_of_lt_of_le (owned.known view there) same.viewCount
  · intro screen current view member
    rw [same.screens] at member
    obtain ⟨known, mine⟩ := owned.owned screen (same.current screen current) view member
    exact ⟨Nat.lt_of_lt_of_le known same.viewCount, (same.thisScreen view known).trans mine⟩

/-- A view with other fields changed has the screen it had. -/
theorem thisScreen_update {views : Nat → UIScreenView} {changed : Nat} {fields : UIScreenView}
    (same : fields.thisScreen = (views changed).thisScreen) (view : Nat) :
    (Function.update views changed fields view).thisScreen = (views view).thisScreen := by
  -- The view is the changed one or another one.
  by_cases here : view = changed
  · rw [here, Function.update_self, same]
  · rw [Function.update_of_ne here]

/-- The history of pages of a view is no matter of the stacks. -/
theorem pageHistory_same (app : UIApp) (view pages : Nat) :
    SameStacks app { app with
      views := Function.update app.views view { app.views view with pageHistory := pages } } := by
  refine ⟨rfl, Nat.le_refl _, rfl, fun _ => id, rfl, fun other _ => ?_⟩
  refine thisScreen_update ?_ other
  rfl

/-- A new view is on no stack. -/
theorem newView_same (app : UIApp) (orientation : Int) (isFileList : Bool) :
    SameStacks app (app.newView orientation isFileList) := by
  refine ⟨rfl, Nat.le_succ _, rfl, fun _ => id, rfl, fun view known => ?_⟩
  exact congrArg UIScreenView.thisScreen (Function.update_of_ne (Nat.ne_of_lt known) _ _)

/-- A configuration change leaves the stacks. -/
theorem onConfigurationChanged_same (app : UIApp) (orientation : Int) :
    SameStacks app (app.onConfigurationChanged orientation) := by
  -- Only the orientation of the view that is shown is another.
  refine ⟨rfl, Nat.le_refl _, rfl, fun _ => id, rfl, fun view _ => ?_⟩
  unfold onConfigurationChanged
  cases shown : app.makeScreenView with
  | none => rfl
  | some top =>
    show (Function.update app.views top { app.views top with orientation := orientation }
      view).thisScreen = (app.views view).thisScreen
    refine thisScreen_update ?_ view
    rfl

/-- The fields of an activity behind `changeScreen`, when the view is already shown. -/
theorem changeScreen_again (screen : Nat) {view : Nat} (shown : app.makeScreenView = some view) :
    ((app.changeScreen screen view).screens screen).viewStack = (app.screens screen).viewStack ∧
      ((app.changeScreen screen view).screens screen).screenStack =
        (app.screens screen).screenStack := by
  simp [changeScreen, shown]

/-- The fields of an activity behind `changeScreen`, when the view is another one. -/
theorem changeScreen_other (screen : Nat) {view : Nat} (other : app.makeScreenView ≠ some view) :
    ((app.changeScreen screen view).screens screen).viewStack =
        view :: (app.screens screen).viewStack ∧
      ((app.changeScreen screen view).screens screen).screenStack =
        app.layoutCount :: (app.screens screen).screenStack := by
  simp [changeScreen, other]

/-- The views of the activity stay its own, and the one that is shown becomes its own. -/
theorem changeScreen_owned {screen view : Nat} (owned : Owned app)
    (current : app.current = some screen) (known : view < app.viewCount) :
    Owned (app.changeScreen screen view) := by
  constructor
  · intro other there
    cases there
    exact known
  · intro screen' current' other member
    obtain rfl : screen' = screen := Option.some.inj (current'.symm.trans current)
    -- The view itself is given the activity, and the others had it before.
    have mine : ((app.changeScreen screen' view).views view).thisScreen = some screen' := by
      simp [changeScreen]
    by_cases same : other = view
    · rw [same]
      exact ⟨known, mine⟩
    · have before : other ∈ (app.screens screen').viewStack := by
        by_cases shown : app.makeScreenView = some view
        · rwa [(changeScreen_again _ shown).1] at member
        · rw [(changeScreen_other _ shown).1] at member
          exact (List.mem_cons.mp member).resolve_left same
      obtain ⟨made, belongs⟩ := owned.owned screen' current other before
      refine ⟨made, ?_⟩
      rw [← belongs]
      exact congrArg UIScreenView.thisScreen (Function.update_of_ne same _ _)

/-- Showing a view keeps stacks that agree, if one that is shown already is on top of them. -/
theorem changeScreen_sound {screen view : Nat} (back : app.shortBack = false)
    (current : app.current = some screen)
    (length : (app.screens screen).viewStack.length = (app.screens screen).screenStack.length)
    (top : app.makeScreenView = some view → (app.screens screen).viewStack.head? = some view) :
    Sound (app.changeScreen screen view) := by
  -- A view that is shown already is not pushed, and any other goes on both stacks.
  refine ⟨back, fun screen' current' => ?_⟩
  obtain rfl : screen' = screen := Option.some.inj (current'.symm.trans current)
  by_cases shown : app.makeScreenView = some view
  · obtain ⟨views, screens⟩ := changeScreen_again screen' shown
    obtain ⟨rest, stack⟩ := List.head?_eq_some_iff.mp (top shown)
    refine ⟨by rw [views, screens, length], ?_, by rw [views, top shown]; rfl⟩
    rw [views, stack, List.length_cons]
    omega
  · obtain ⟨views, screens⟩ := changeScreen_other screen' shown
    refine ⟨by rw [views, screens, List.length_cons, List.length_cons, length], ?_,
      by rw [views]; rfl⟩
    rw [views, List.length_cons]
    omega

/-- Going back takes one element from each stack, and the next one is shown. -/
theorem goBack_sound {screen : Nat} (owned : Owned app) (sound : Sound app)
    (current : app.current = some screen) (enough : 1 < (app.screens screen).screenStack.length) :
    Sound (app.goBack screen) ∧ Owned (app.goBack screen) := by
  obtain ⟨length, _, _⟩ := sound.stacked screen current
  have mine := owned.owned screen current
  match stack : (app.screens screen).viewStack with
  | [] =>
    rw [stack, List.length_nil] at length
    omega
  | [_] =>
    rw [stack, List.length_singleton] at length
    omega
  | first :: second :: rest =>
    rw [stack, List.length_cons, List.length_cons] at length
    rw [stack] at mine
    -- Both stacks are long enough, so nothing is thrown.
    have result : app.goBack screen = { app with
        makeScreenView := some second
        screens := Function.update app.screens screen
          ⟨(app.screens screen).screenStack.drop 1, second :: rest,
            ((app.screens screen).screenStack.drop 1).head?⟩ } := by
      have short : ¬ (app.screens screen).screenStack.length < 2 := by omega
      simp [goBack, stack, sound.back, short]
    rw [result]
    refine ⟨⟨sound.back, fun screen' current' => ?_⟩, fun view there => ?_,
      fun screen' current' view member => ?_⟩
    · obtain rfl : screen' = screen := Option.some.inj (current'.symm.trans current)
      refine ⟨?_, ?_, ?_⟩
      · simp only [Function.update_self, List.length_cons, List.length_drop]
        omega
      · simp
      · simp
    · cases there
      exact (mine second (by simp)).1
    · obtain rfl : screen' = screen := Option.some.inj (current'.symm.trans current)
      simp only [Function.update_self] at member
      exact mine view (List.mem_cons_of_mem first member)

/-- The back key goes back only from stacks with two elements at least. -/
theorem onKeyUp_sound {screen : Nat} (owned : Owned app) (sound : Sound app)
    (current : app.current = some screen) (taken : app.onKeyUp screen = some next) :
    Sound next ∧ Owned next := by
  unfold onKeyUp at taken
  split at taken
  · rename_i enough
    obtain ⟨view, shown, went⟩ := Option.bind_eq_some_iff.mp taken
    obtain ⟨_, positive, top⟩ := sound.stacked screen current
    -- The static view is on top, so it belongs to this activity.
    obtain ⟨rest, stack⟩ := List.head?_eq_some_iff.mp (top.trans shown)
    have mine := (owned.owned screen current view (stack ▸ List.mem_cons_self)).2
    unfold viewGoBack at went
    simp only at went
    split at went
    · cases went
      have same := pageHistory_same app view ((app.views view).pageHistory - 1)
      exact ⟨same.sound sound, same.owned owned⟩
    · rw [mine, Option.map_some] at went
      cases went
      exact goBack_sound owned sound current enough
  · cases taken
    exact ⟨sound, owned⟩

end Steps

section Creation

variable {app : UIApp}

/-- A new activity, before anything is shown in it. -/
def opened (app : UIApp) : UIApp :=
  { app with
    screens := Function.update app.screens app.screenCount ⟨[], [], none⟩
    screenCount := app.screenCount + 1
    live := app.screenCount :: app.live }

theorem opened_fields (app : UIApp) : app.opened.screens app.screenCount = ⟨[], [], none⟩ :=
  Function.update_self ..

/-- Nothing is on the stacks of a new activity. -/
theorem opened_owned (owned : Owned app) : Owned app.opened := by
  refine ⟨owned.known, fun screen current view member => ?_⟩
  cases current
  rw [opened_fields] at member
  cases member

/-- A new view is the only one of a new activity. -/
theorem showNew_sound (owned : Owned app) (back : app.shortBack = false) (orien : Int)
    (isFileList : Bool) :
    Sound (app.opened.showNew app.screenCount orien isFileList) ∧
      Owned (app.opened.showNew app.screenCount orien isFileList) := by
  -- A new view is not the static one, so that it is pushed on the empty stacks.
  have made := (newView_same app.opened orien isFileList).owned (opened_owned owned)
  have fields : (app.opened.newView orien isFileList).screens app.screenCount = ⟨[], [], none⟩ :=
    opened_fields app
  refine ⟨changeScreen_sound back rfl ?_ fun shown => ?_,
    changeScreen_owned made rfl (Nat.lt_succ_self _)⟩
  · rw [fields]
  · -- The static view is an older one.
    exact absurd (owned.known _ shown) (Nat.lt_irrefl _)

/-- Without a new view the stacks of a new activity are empty. -/
theorem not_sound_of_empty {screen : Nat} (current : app.current = some screen)
    (empty : (app.screens screen).viewStack = []) : ¬ Sound app := by
  intro sound
  have positive := (sound.stacked screen current).positive
  rw [empty, List.length_nil] at positive
  omega

/-- The creation of an activity whose intent names no view. -/
theorem onCreate_none (app : UIApp) (rotation : Rotation) :
    app.onCreate rotation none =
      if app.stored = rotation.orien then
        app.opened.showNew app.screenCount rotation.orien false
      else
        match app.makeScreenView with
        | some view => app.opened.changeScreen app.screenCount view
        | none => app.opened.showNew app.screenCount rotation.orien false := rfl

/-- The creation of an activity whose intent names a view. -/
theorem onCreate_some (app : UIApp) (rotation : Rotation) (name : JString) :
    app.onCreate rotation (some name) =
      if name = JString.ofString "GPSFileList" then
        app.opened.showNew app.screenCount rotation.orien true
      else app.opened := rfl

/-- An activity is sound behind its creation exactly when it shows a new view. -/
theorem onCreate_iff (owned : Owned app) (sound : Sound app) (rotation : Rotation)
    (viewName : Option JString) :
    Owned (app.onCreate rotation viewName) ∧
      (Sound (app.onCreate rotation viewName) ↔ ShowsNew app (.create rotation viewName)) := by
  -- The stacks of a new activity are empty, and only a view that is not shown yet is pushed.
  cases viewName with
  | none =>
    by_cases stored : app.stored = rotation.orien
    · have result : app.onCreate rotation none =
          app.opened.showNew app.screenCount rotation.orien false := if_pos stored
      obtain ⟨good, mine⟩ := showNew_sound owned sound.back rotation.orien false
      rw [result]
      exact ⟨mine, iff_of_true good (.inl stored)⟩
    · cases shown : app.makeScreenView with
      | none =>
        have result : app.onCreate rotation none =
            app.opened.showNew app.screenCount rotation.orien false := by
          rw [onCreate_none, if_neg stored, shown]
        obtain ⟨good, mine⟩ := showNew_sound owned sound.back rotation.orien false
        rw [result]
        exact ⟨mine, iff_of_true good (.inr shown)⟩
      | some view =>
        -- The view that is left is shown again, and nothing is pushed.
        have result : app.onCreate rotation none =
            app.opened.changeScreen app.screenCount view := by
          rw [onCreate_none, if_neg stored, shown]
        have again := changeScreen_again app.screenCount
          (show app.opened.makeScreenView = some view from shown)
        rw [opened_fields] at again
        rw [result]
        refine ⟨changeScreen_owned (opened_owned owned) rfl (owned.known view shown), ?_⟩
        refine iff_of_false (not_sound_of_empty rfl again.1) ?_
        rintro (same | none)
        · exact stored same
        · rw [shown] at none
          cases none
  | some name =>
    rw [onCreate_some]
    by_cases fileList : name = JString.ofString "GPSFileList"
    · obtain ⟨good, mine⟩ := showNew_sound owned sound.back rotation.orien true
      rw [if_pos fileList]
      exact ⟨mine, iff_of_true good fileList⟩
    · rw [if_neg fileList]
      refine ⟨opened_owned owned, iff_of_false (not_sound_of_empty rfl ?_) fileList⟩
      rw [opened_fields]

end Creation

section Runs

/-- Where no activity is resumed, the one in front behind a destruction was in front before. -/
theorem current_of_erase {app : UIApp} {screen front : Nat}
    (alone : ResumesNone app (.destroy screen)) :
    { app with live := app.live.erase screen }.current = some front →
      app.current = some front := by
  unfold ResumesNone current at *
  match stack : app.live with
  | [] => exact id
  | first :: rest =>
    rw [stack] at alone
    intro left
    by_cases same : first = screen
    · -- The activity in front was the only one.
      subst same
      have single := alone rfl
      simp only [List.cons.injEq, true_and] at single
      simp [single] at left
    · simpa [stack, same] using left

/-- Every event but a creation keeps the stacks, where no activity is resumed. -/
theorem step_iff {app next : UIApp} {event : UIEvent} (owned : Owned app) (sound : Sound app)
    (alone : ResumesNone app event) (taken : app.step event = some next) :
    Owned next ∧ (Sound next ↔ ShowsNew app event) := by
  -- The creation of an activity is the only event that can leave stacks that are empty.
  cases event with
  | newView orientation isFileList =>
    cases taken
    have same := newView_same app orientation isFileList
    exact ⟨same.owned owned, iff_of_true (same.sound sound) trivial⟩
  | changeScreen view =>
    simp only [step] at taken
    split at taken
    · rename_i screen view current
      split at taken
      · rename_i known
        cases taken
        obtain ⟨length, _, top⟩ := sound.stacked screen current
        exact ⟨changeScreen_owned owned current known,
          iff_of_true (changeScreen_sound sound.back current length top.trans) trivial⟩
      · cases taken
    · cases taken
      exact ⟨owned, iff_of_true sound trivial⟩
    · cases taken
  | openPage view =>
    simp only [step] at taken
    split at taken
    · cases taken
      have same := pageHistory_same app view ((app.views view).pageHistory + 1)
      exact ⟨same.owned owned, iff_of_true (same.sound sound) trivial⟩
    · cases taken
  | back =>
    obtain ⟨screen, current, taken⟩ := Option.bind_eq_some_iff.mp taken
    obtain ⟨good, mine⟩ := onKeyUp_sound owned sound current taken
    exact ⟨mine, iff_of_true good trivial⟩
  | configurationChanged orientation =>
    cases taken
    have same := onConfigurationChanged_same app orientation
    exact ⟨same.owned owned, iff_of_true (same.sound sound) trivial⟩
  | destroy screen =>
    simp only [step] at taken
    split at taken
    · cases taken
      have same : SameStacks app { app with live := app.live.erase screen } :=
        ⟨rfl, Nat.le_refl _, rfl, fun front => current_of_erase alone, rfl, fun _ _ => rfl⟩
      exact ⟨same.owned owned, iff_of_true (same.sound sound) trivial⟩
    · cases taken
  | create rotation viewName =>
    cases taken
    exact onCreate_iff owned sound rotation viewName

/--
The stacks stay as they should be when every new activity shows a new view and none is resumed
behind another one.

Where none is resumed, they stay so exactly when every new activity shows a new view. It shows the
view that is left of an earlier one when the stored orientation is another.
-/
theorem screenStacks_iff (stored : Int) (events : List UIEvent) :
    (Events.Along UIApp.step (fun app event => ResumesNone app event ∧ ShowsNew app event)
        (started stored) events →
      Events.Always UIApp.step Sound (started stored) events) ∧
    (Events.Along UIApp.step ResumesNone (started stored) events →
      (Events.Always UIApp.step Sound (started stored) events ↔
        Events.Along UIApp.step ShowsNew (started stored) events)) := by
  -- One event at a time, and a new application has no activity.
  have exact : Events.Along UIApp.step ResumesNone (started stored) events →
      (Events.Always UIApp.step Sound (started stored) events ↔
        Events.Along UIApp.step ShowsNew (started stored) events) :=
    Events.always_iff_along_of Owned
      (fun _ _ _ owned sound alone taken => (step_iff owned sound alone taken).1)
      (fun _ _ _ owned sound alone taken => (step_iff owned sound alone taken).2)
      ⟨nofun, nofun⟩ ⟨rfl, nofun⟩
  refine ⟨fun both => ?_, exact⟩
  obtain ⟨alone, shows⟩ := Events.along_and.mp both
  exact (exact alone).mpr shows

/-- The display is turned while an activity runs, and turned back before the next one is made. -/
def turnedBack : List UIEvent :=
  [.create .rotation0 none, .configurationChanged orientationLandscape, .destroy 0,
    .create .rotation0 none]

/-- The list of files is opened over the main screen and left again. -/
def leftFileList : List UIEvent :=
  [.create .rotation0 none, .create .rotation0 (some (JString.ofString "GPSFileList")), .destroy 1]

/--
The second activity shows the old view and has nothing on its stacks.

An activity that is resumed behind the list of files has its own view on top, and not the static
one.
-/
theorem screenStacks_turnedBack :
    ¬ Events.Always UIApp.step Sound (started orientationPortrait) turnedBack ∧
      ¬ Events.Always UIApp.step Sound (started orientationPortrait) leftFileList := by
  constructor
  · -- The run is followed event by event to the state in which the old view is shown.
    intro always
    obtain ⟨_, created⟩ := always
    obtain ⟨_, turned⟩ := created _ rfl
    obtain ⟨_, destroyed⟩ := turned _ rfl
    obtain ⟨_, again⟩ := destroyed _ rfl
    have sound := again _ rfl
    exact absurd (sound.stacked 1 rfl).positive (by decide)
  · intro always
    obtain ⟨_, created⟩ := always
    obtain ⟨_, covered⟩ := created _ rfl
    obtain ⟨_, left⟩ := covered _ rfl
    have sound := left _ rfl
    exact absurd (sound.stacked 0 rfl).top (by decide)

end Runs

end AndroidApps.Gildroia.UIApp
