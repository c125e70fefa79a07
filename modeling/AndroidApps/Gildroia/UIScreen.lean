import AndroidApps.Lib.Events
import AndroidApps.Lib.Utf8
import Mathlib.Logic.Function.Basic

/-! The stacks of screens of an activity, and the static view that outlives the activity. -/

namespace AndroidApps.Gildroia

section Model

/-- A `UIScreenView`; a `GPSFileList` goes back through its pages before it leaves. -/
structure UIScreenView where
  orientation : Int
  thisScreen : Option Nat
  isFileList : Bool
  pageHistory : Nat
  deriving DecidableEq

/-- The fields of one `UIScreen`; the stacks hold layouts and views, the top first. -/
structure UIScreen where
  screenStack : List Nat
  viewStack : List Nat
  contentView : Option Nat
  deriving DecidableEq

/--
All activities and views made so far, the static view and the stored orientation.

The activities that live stand in a list, the one in front first. The last field tells that `goBack`
was executed on stacks with fewer than two elements.
-/
structure UIApp where
  makeScreenView : Option Nat
  views : Nat → UIScreenView
  viewCount : Nat
  screens : Nat → UIScreen
  screenCount : Nat
  live : List Nat
  stored : Int
  layoutCount : Nat
  shortBack : Bool

/-- `Configuration.ORIENTATION_PORTRAIT`. -/
def orientationPortrait : Int := 1

/-- `Configuration.ORIENTATION_LANDSCAPE`. -/
def orientationLandscape : Int := 2

/-- How the display is turned. -/
inductive Rotation where
  | rotation0
  | rotation90
  | rotation180
  | rotation270
  deriving DecidableEq

/-- The orientation of a rotation. -/
def Rotation.orien : Rotation → Int
  | .rotation0 => orientationPortrait
  | .rotation180 => orientationPortrait
  | .rotation90 => orientationLandscape
  | .rotation270 => orientationLandscape

/-- What can happen to the screens. -/
inductive UIEvent where
  | newView (orientation : Int) (isFileList : Bool)
  | changeScreen (view : Option Nat)
  | openPage (view : Nat)
  | back
  | configurationChanged (orientation : Int)
  | destroy (screen : Nat)
  | create (rotation : Rotation) (viewName : Option JString)

namespace UIApp

/-- A process that was just started. -/
def started (stored : Int) : UIApp :=
  ⟨none, fun _ => ⟨0, none, false, 0⟩, 0, fun _ => ⟨[], [], none⟩, 0, [], stored, 0, false⟩

/-- The activity in front, which the events go to. -/
def current (app : UIApp) : Option Nat := app.live.head?

/-- A new view, which has not been shown yet. -/
def newView (app : UIApp) (orientation : Int) (isFileList : Bool) : UIApp :=
  { app with
    views := Function.update app.views app.viewCount ⟨orientation, none, isFileList, 0⟩
    viewCount := app.viewCount + 1 }

/-- `changeScreen` of an activity, with a view that is not null. -/
def changeScreen (app : UIApp) (screen view : Nat) : UIApp :=
  let runReflash := app.makeScreenView = some view
  let orien := (app.views (app.makeScreenView.getD view)).orientation
  let ll := app.layoutCount
  let fields := app.screens screen
  { app with
    makeScreenView := some view
    -- `onCreate` of the view sets its screen.
    views := Function.update app.views view
      { app.views view with thisScreen := some screen, orientation := orien }
    screens := Function.update app.screens screen
      { screenStack := if runReflash then fields.screenStack else ll :: fields.screenStack
        viewStack := if runReflash then fields.viewStack else view :: fields.viewStack
        contentView := some ll }
    layoutCount := ll + 1 }

/-- `goBack` of an activity; it throws where a stack has no last element. -/
def goBack (app : UIApp) (screen : Nat) : UIApp :=
  let fields := app.screens screen
  let app := { app with
    shortBack := app.shortBack || fields.viewStack.length < 2 || fields.screenStack.length < 2 }
  match fields.viewStack with
  | [] => app
  -- Behind the last element there is none to show.
  | _ :: [] => { app with
      screens := Function.update app.screens screen { fields with viewStack := [] } }
  | _ :: view :: rest =>
    let screenStack := fields.screenStack.drop 1
    { app with
      makeScreenView := some view
      screens := Function.update app.screens screen
        ⟨screenStack, view :: rest, screenStack.head?⟩ }

/-- `goBack` of a view. -/
def viewGoBack (app : UIApp) (view : Nat) : Option UIApp :=
  let fields := app.views view
  if fields.isFileList ∧ 0 < fields.pageHistory then
    some { app with
      views := Function.update app.views view
        { fields with pageHistory := fields.pageHistory - 1 } }
  else fields.thisScreen.map app.goBack

/-- `onKeyUp` with the back key; a short stack leaves the key to the system. -/
def onKeyUp (app : UIApp) (screen : Nat) : Option UIApp :=
  if 1 < (app.screens screen).screenStack.length then app.makeScreenView.bind app.viewGoBack
  else some app

/-- A new `MainScreenView` or `GPSFileList` is made and shown. -/
def showNew (app : UIApp) (screen : Nat) (orien : Int) (isFileList : Bool) : UIApp :=
  (app.newView orien isFileList).changeScreen screen app.viewCount

/-- `onCreate` of an activity, whose intent may name a view. It comes in front of the others. -/
def onCreate (app : UIApp) (rotation : Rotation) (viewName : Option JString) : UIApp :=
  let screen := app.screenCount
  let app := { app with
    screens := Function.update app.screens screen ⟨[], [], none⟩
    screenCount := screen + 1
    live := screen :: app.live }
  match viewName with
  | none =>
    if app.stored = rotation.orien then app.showNew screen rotation.orien false
    else
      -- The display was turned: the view that was shown last is shown again.
      match app.makeScreenView with
      | some view => app.changeScreen screen view
      | none => app.showNew screen rotation.orien false
  | some name =>
    -- No other name leads to a view, and nothing is shown.
    if name = JString.ofString "GPSFileList" then app.showNew screen rotation.orien true else app

/-- `onConfigurationChanged`. -/
def onConfigurationChanged (app : UIApp) (orientation : Int) : UIApp :=
  { app with
    views := match app.makeScreenView with
      | none => app.views
      | some view =>
        Function.update app.views view { app.views view with orientation := orientation }
    stored := orientation }

/-- What an event does, if it can happen. -/
def step (app : UIApp) : UIEvent → Option UIApp
  | .newView orientation isFileList => some (app.newView orientation isFileList)
  | .changeScreen view =>
    match app.current, view with
    | some screen, some view =>
      if view < app.viewCount then some (app.changeScreen screen view) else none
    -- A null view is passed over.
    | some _, none => some app
    | none, _ => none
  | .openPage view =>
    -- Only a list of files has pages.
    if (app.views view).isFileList then
      some { app with
        views := Function.update app.views view
          { app.views view with pageHistory := (app.views view).pageHistory + 1 } }
    else none
  | .back => app.current.bind app.onKeyUp
  | .configurationChanged orientation => some (app.onConfigurationChanged orientation)
  -- When the activity in front is destroyed, the one behind it is resumed as it was left.
  | .destroy screen =>
    if screen ∈ app.live then some { app with live := app.live.erase screen } else none
  | .create rotation viewName => some (app.onCreate rotation viewName)

end UIApp

end Model

end AndroidApps.Gildroia
