import AndroidApps.Lib.Events
import Mathlib.Logic.Function.Basic

/-! The buttons of a view, their touch handler, and what it does to a button that is disabled. -/

namespace AndroidApps.Gildroia

section Buttons

/-- A place on the screen. -/
structure Point where
  x : Int32
  y : Int32
  deriving DecidableEq

/-- `BUTTON_NORMAL`, `BUTTON_DOWN` and `BUTTON_DISENABLE`. -/
inductive ButtonStatus where
  | normal
  | down
  | disenable
  deriving DecidableEq

/-- Whether a click on a button calls a listener, or checks the button and unchecks it. -/
inductive ButtonKind where
  | click
  | check
  deriving DecidableEq

/-- A button, or what is derived from one. -/
structure UIButton where
  startPoint : Point
  endPoint : Point
  kind : ButtonKind
  status : ButtonStatus
  /-- Whether there is a listener. -/
  clickListener : Bool
  moveMode : Bool
  checked : Bool
  visible : Bool
  deriving DecidableEq

namespace UIButton

/-- `checkInPoint`. -/
def checkInPoint (button : UIButton) (pt : Point) : Bool :=
  if !button.visible then false
  else if pt.y < button.startPoint.y ∨ pt.y > button.endPoint.y then false
  else if pt.x < button.startPoint.x ∨ pt.x > button.endPoint.x then false
  else true

/-- `setStatusNormal`, `setStatusDonw` and `setStatusDisable`. -/
def setStatus (button : UIButton) (status : ButtonStatus) : UIButton :=
  { button with status := status, moveMode := false }

/-- `setStatusMoveMode`. -/
def setStatusMoveMode (button : UIButton) : UIButton := { button with moveMode := true }

/-- `Move`. -/
def move (button : UIButton) (x y : Int32) : UIButton :=
  if button.moveMode then
    { button with
      startPoint := ⟨button.startPoint.x + x, button.startPoint.y + y⟩
      endPoint := ⟨button.endPoint.x + x, button.endPoint.y + y⟩ }
  else button

end UIButton

/-- What the application does with a button. -/
inductive ButtonCall where
  | setStatusNormal
  | setStatusDonw
  | setStatusDisable
  | setStatusMoveMode
  | setVisible (visible : Bool)
  | setOnClickListener (clickListener : Bool)
  | move (x y : Int32)
  deriving DecidableEq

/-- A call on a button. -/
def UIButton.call (button : UIButton) : ButtonCall → UIButton
  | .setStatusNormal => button.setStatus .normal
  | .setStatusDonw => button.setStatus .down
  | .setStatusDisable => button.setStatus .disenable
  | .setStatusMoveMode => button.setStatusMoveMode
  | .setVisible visible => { button with visible := visible }
  | .setOnClickListener clickListener => { button with clickListener := clickListener }
  | .move x y => button.move x y

end Buttons

section Controls

/-- The fields of the controls that the handler uses, and the listeners that it has called. -/
structure UIControls where
  buttons : Nat → UIButton
  /-- The registered buttons, the last one first. -/
  buttonsEvent : List Nat
  touchPoint : Point
  touchDownPoint : Point
  currentButton : Option Nat
  clicks : List Nat

/-- The types of touch events that are handled. -/
inductive TouchAction where
  | down
  | up
  | move
  deriving DecidableEq

namespace UIControls

/-- A button is changed. -/
def onButton (controls : UIControls) (button : Nat) (change : UIButton → UIButton) : UIControls :=
  { controls with
    buttons := Function.update controls.buttons button (change (controls.buttons button)) }

/-- A call of the application on one of the buttons. -/
def call (controls : UIControls) (call : Nat × ButtonCall) : UIControls :=
  controls.onButton call.1 (·.call call.2)

/-- `regist_button`. -/
def registButton (controls : UIControls) (button : Nat) (fields : UIButton) : UIControls :=
  { controls.onButton button fun _ => fields with
    buttonsEvent := button :: controls.buttonsEvent }

/-- `sendClickedAction` of each kind of button, with the calls that a listener makes. -/
def sendClickedAction (controls : UIControls) (button : Nat) (listener : List (Nat × ButtonCall)) :
    UIControls :=
  let fields := controls.buttons button
  if fields.status = .disenable ∨ fields.moveMode then controls
  else
    match fields.kind with
    | .check => controls.onButton button fun fields => { fields with checked := !fields.checked }
    | .click =>
      if fields.clickListener then
        listener.foldl call { controls with clicks := controls.clicks ++ [button] }
      else controls

/-- The first of the registered buttons that a point is in. -/
def buttonAt (controls : UIControls) (pt : Point) : Option Nat :=
  controls.buttonsEvent.find? fun button => (controls.buttons button).checkInPoint pt

/-- `onTouchEvent`, with the calls that a listener makes if one is called. -/
def onTouchEvent (controls : UIControls) (action : TouchAction) (pt : Point)
    (listener : List (Nat × ButtonCall)) : Bool × UIControls :=
  let controls := { controls with touchPoint := pt }
  match action with
  | .down =>
    let controls := { controls with touchDownPoint := pt, currentButton := none }
    match controls.buttonAt pt with
    | some button =>
      (true, { controls with currentButton := some button }.onButton button (·.setStatus .down))
    | none => (false, controls)
  | .up =>
    match controls.currentButton with
    | some button =>
      let controls :=
        if (controls.buttons button).checkInPoint pt then
          controls.sendClickedAction button listener
        else controls
      (true, controls.onButton button (·.setStatus .normal))
    | none => (false, controls)
  | .move =>
    match controls.currentButton with
    | some button =>
      if (controls.buttons button).moveMode then
        let moved := controls.onButton button
          (·.move (pt.x - controls.touchDownPoint.x) (pt.y - controls.touchDownPoint.y))
        (true, { moved with touchDownPoint := pt })
      else if !(controls.buttons button).checkInPoint pt then
        (true, { controls.onButton button (·.setStatus .normal) with currentButton := none })
      else (true, controls)
    | none => (false, controls)

/-- `onLongClick`. -/
def onLongClick (controls : UIControls) : Bool × UIControls :=
  match controls.currentButton with
  | some button =>
    if (controls.buttons button).checkInPoint controls.touchPoint then
      (true, controls.onButton button UIButton.setStatusMoveMode)
    else (false, controls)
  | none => (false, controls)

end UIControls

end Controls

section Watching

/-- What happens to the controls. -/
inductive UIInput where
  | touch (action : TouchAction) (pt : Point) (listener : List (Nat × ButtonCall))
  | longClick
  | call (call : Nat × ButtonCall)
  | regist (button : Nat) (fields : UIButton)

/-- Whether the application holds a button disabled, behind one more call. -/
def heldBehind (held : Nat → Bool) (call : Nat × ButtonCall) : Nat → Bool :=
  match call.2 with
  | .setStatusDisable => Function.update held call.1 true
  | .setStatusNormal | .setStatusDonw => Function.update held call.1 false
  | _ => held

/-- Controls, with the buttons that are held disabled and those that were clicked while held. -/
structure WatchedControls where
  controls : UIControls
  held : Nat → Bool
  clickedHeld : List Nat

namespace WatchedControls

/-- What is watched behind a touch, which may have called a listener. -/
def behind (watched : WatchedControls) (next : UIControls) (listener : List (Nat × ButtonCall)) :
    WatchedControls :=
  let fired := next.clicks.drop watched.controls.clicks.length
  ⟨next, if fired = [] then watched.held else listener.foldl heldBehind watched.held,
    watched.clickedHeld ++ fired.filter watched.held⟩

/-- What an input leads to; a button is registered once. -/
def step (watched : WatchedControls) : UIInput → Option WatchedControls
  | .touch action pt listener =>
    some (watched.behind (watched.controls.onTouchEvent action pt listener).2 listener)
  | .longClick => some { watched with controls := watched.controls.onLongClick.2 }
  | .call call =>
    some { watched with
      controls := watched.controls.call call, held := heldBehind watched.held call }
  | .regist button fields =>
    if button ∈ watched.controls.buttonsEvent then none
    else some { watched with
      controls := watched.controls.registButton button fields
      held := Function.update watched.held button false }

/-- The buttons that are held are disabled, and no listener of one was called. -/
structure Kept (watched : WatchedControls) : Prop where
  disabled : ∀ button, watched.held button = true →
    (watched.controls.buttons button).status = .disenable
  silent : watched.clickedHeld = []

/-- Whether letting a button go calls its listener. -/
def Fires (controls : UIControls) (button : Nat) (pt : Point) : Prop :=
  let fields := controls.buttons button
  fields.checkInPoint pt ∧ fields.status ≠ .disenable ∧ fields.moveMode = false ∧
    fields.kind = .click ∧ fields.clickListener

instance (controls : UIControls) (button : Nat) (pt : Point) :
    Decidable (Fires controls button pt) :=
  inferInstanceAs (Decidable (_ ∧ _))

/-- A touch event does not set the status of a button that is held. -/
def Spares (watched : WatchedControls) : UIInput → Prop
  | .touch .down pt _ =>
    ∀ button, watched.controls.buttonAt pt = some button → watched.held button = false
  | .touch .up pt listener =>
    ∀ button, watched.controls.currentButton = some button →
      (if Fires watched.controls button pt then listener.foldl heldBehind watched.held
        else watched.held) button = false
  | .touch .move pt _ =>
    ∀ button, watched.controls.currentButton = some button →
      (watched.controls.buttons button).moveMode = false →
      (watched.controls.buttons button).checkInPoint pt = false → watched.held button = false
  | _ => True

end WatchedControls

end Watching

section Holding

variable {buttons : Nat → UIButton} {held : Nat → Bool}

/-- All buttons that are held are disabled. -/
def Holding (buttons : Nat → UIButton) (held : Nat → Bool) : Prop :=
  ∀ button, held button = true → (buttons button).status = .disenable

/-- A change that leaves the status leaves the buttons as disabled as they are. -/
theorem holding_congr {button : Nat} {fields : UIButton}
    (same : fields.status = (buttons button).status) :
    Holding (Function.update buttons button fields) held ↔ Holding buttons held := by
  refine forall_congr' fun other => ?_
  by_cases here : other = button
  · subst here
    rw [Function.update_self, same]
  · rw [Function.update_of_ne here]

/-- Another status for a button is right exactly if the button is not held. -/
theorem holding_iff_released {button : Nat} {fields : UIButton} (holding : Holding buttons held)
    (other : fields.status ≠ .disenable) :
    Holding (Function.update buttons button fields) held ↔ held button = false := by
  -- Only the changed button can break the rule, and it does if it is held.
  constructor
  · intro after
    cases kept : held button with
    | false => rfl
    | true =>
      have disabled := after button kept
      rw [Function.update_self] at disabled
      exact absurd disabled other
  · intro released another kept
    have elsewhere : another ≠ button := by
      intro same
      rw [same, released] at kept
      contradiction
    rw [Function.update_of_ne elsewhere]
    exact holding another kept

/-- A status is set and the button is held or released along with it. -/
theorem holding_set {button : Nat} {fields : UIButton} {holds : Bool}
    (holding : Holding buttons held) (right : holds = true → fields.status = .disenable) :
    Holding (Function.update buttons button fields) (Function.update held button holds) := by
  -- The changed button keeps the rule by itself, and the others keep it as before.
  intro another kept
  by_cases here : another = button
  · subst here
    rw [Function.update_self] at kept ⊢
    exact right kept
  · rw [Function.update_of_ne here] at kept ⊢
    exact holding another kept

/-- Moving a button leaves its status. -/
theorem UIButton.move_status (button : UIButton) (x y : Int32) :
    (button.move x y).status = button.status := by
  unfold UIButton.move
  split
  · rfl
  · rfl

/-- A change of a button is no matter if it leaves the status. -/
theorem holding_onButton {controls : UIControls} (holding : Holding controls.buttons held)
    (button : Nat) {change : UIButton → UIButton}
    (same : ∀ fields, (change fields).status = fields.status) :
    Holding (controls.onButton button change).buttons held :=
  (holding_congr (same (controls.buttons button))).mpr holding

/-- The calls of the application hold and release what they disable and enable. -/
theorem holding_call {controls : UIControls} (holding : Holding controls.buttons held)
    (call : Nat × ButtonCall) :
    Holding (controls.call call).buttons (heldBehind held call) := by
  -- The calls that set a status are those that change what is held.
  obtain ⟨button, what⟩ := call
  cases what with
  | setStatusNormal => exact holding_set holding nofun
  | setStatusDonw => exact holding_set holding nofun
  | setStatusDisable => exact holding_set holding fun _ => rfl
  | setStatusMoveMode => exact holding_onButton holding button fun _ => rfl
  | setVisible visible => exact holding_onButton holding button fun _ => rfl
  | setOnClickListener clickListener => exact holding_onButton holding button fun _ => rfl
  | move x y => exact holding_onButton holding button fun fields => fields.move_status x y

/-- So do all calls of a listener. -/
theorem holding_calls (calls : List (Nat × ButtonCall)) : ∀ {controls : UIControls}
    {held : Nat → Bool}, Holding controls.buttons held →
      Holding (calls.foldl UIControls.call controls).buttons (calls.foldl heldBehind held) := by
  induction calls with
  | nil => exact id
  | cons call calls ih => exact fun holding => ih (holding_call holding call)

end Holding

section Steps

namespace WatchedControls

variable {watched : WatchedControls} {pt : Point} {listener : List (Nat × ButtonCall)}

/-- Calls of the application call no listener. -/
theorem clicks_calls (calls : List (Nat × ButtonCall)) (controls : UIControls) :
    (calls.foldl UIControls.call controls).clicks = controls.clicks := by
  induction calls generalizing controls with
  | nil => rfl
  | cons call calls ih => exact ih (controls.call call)

/-- A click that calls a listener is recorded, and the listener's calls are made. -/
theorem sendClickedAction_fires (controls : UIControls) {button : Nat}
    (fires : Fires controls button pt) (listener : List (Nat × ButtonCall)) :
    controls.sendClickedAction button listener =
      listener.foldl UIControls.call { controls with clicks := controls.clicks ++ [button] } := by
  obtain ⟨-, enabled, still, kind, listens⟩ := fires
  simp [UIControls.sendClickedAction, enabled, still, kind, listens]

/-- A click that calls no listener changes no status and records nothing. -/
theorem sendClickedAction_silent (controls : UIControls) {button : Nat}
    (inside : (controls.buttons button).checkInPoint pt = true)
    (silent : ¬ Fires controls button pt) (listener : List (Nat × ButtonCall)) :
    (controls.sendClickedAction button listener).clicks = controls.clicks ∧
      ∀ held, Holding controls.buttons held →
        Holding (controls.sendClickedAction button listener).buttons held := by
  unfold UIControls.sendClickedAction
  dsimp only
  split
  · exact ⟨rfl, fun _ holding => holding⟩
  · rename_i enabled
    rw [not_or, Bool.not_eq_true] at enabled
    split
    · exact ⟨rfl, fun _ holding => holding_onButton holding button fun _ => rfl⟩
    · -- A click button that is enabled would call the listener that it has.
      rename_i kind
      rw [if_neg fun listens => silent ⟨inside, enabled.1, enabled.2, kind, listens⟩]
      exact ⟨rfl, fun _ holding => holding⟩

/-- Behind a touch that calls no listener, the same buttons are held. -/
theorem behind_quiet (kept : watched.Kept) {next : UIControls}
    (quiet : next.clicks = watched.controls.clicks) (listener : List (Nat × ButtonCall)) :
    (watched.behind next listener).Kept ↔ Holding next.buttons watched.held := by
  -- No click is new.
  have none : next.clicks.drop watched.controls.clicks.length = [] := by
    rw [quiet, List.drop_length]
  have same : watched.behind next listener = ⟨next, watched.held, watched.clickedHeld⟩ := by
    simp [behind, none]
  rw [same]
  exact ⟨fun after => after.disabled, fun holding => ⟨holding, kept.silent⟩⟩

/-- Behind a touch that calls a listener, the listener may have held and released buttons. -/
theorem behind_fired (kept : watched.Kept) {next : UIControls} {button : Nat}
    (fired : next.clicks = watched.controls.clicks ++ [button])
    (free : watched.held button = false) (listener : List (Nat × ButtonCall)) :
    (watched.behind next listener).Kept ↔
      Holding next.buttons (listener.foldl heldBehind watched.held) := by
  -- One click is new, on a button that was not held.
  have one : next.clicks.drop watched.controls.clicks.length = [button] := by
    rw [fired, List.drop_left]
  have same : watched.behind next listener =
      ⟨next, listener.foldl heldBehind watched.held, watched.clickedHeld⟩ := by
    simp [behind, one, free]
  rw [same]
  exact ⟨fun after => after.disabled, fun holding => ⟨holding, kept.silent⟩⟩

/-- A touch that begins on a button is right exactly if the button is not held. -/
theorem down_kept_iff (kept : watched.Kept) (pt : Point) (listener : List (Nat × ButtonCall)) :
    (watched.behind (watched.controls.onTouchEvent .down pt listener).2 listener).Kept ↔
      watched.Spares (.touch .down pt listener) := by
  -- The button is looked for in the controls as they were.
  have same : ({ watched.controls with
      touchPoint := pt, touchDownPoint := pt, currentButton := none } : UIControls).buttonAt pt =
        watched.controls.buttonAt pt := rfl
  cases found : watched.controls.buttonAt pt with
  | none =>
    have next : (watched.controls.onTouchEvent .down pt listener).2 = { watched.controls with
        touchPoint := pt, touchDownPoint := pt, currentButton := none } := by
      simp [UIControls.onTouchEvent, same, found]
    rw [behind_quiet kept (by rw [next]), next]
    exact iff_of_true kept.disabled (by simp [Spares, found])
  | some button =>
    have next : (watched.controls.onTouchEvent .down pt listener).2 = { watched.controls with
        touchPoint := pt, touchDownPoint := pt, currentButton := some button }.onButton button
          (·.setStatus .down) := by
      simp [UIControls.onTouchEvent, same, found]
    rw [behind_quiet kept (by rw [next]; rfl), next]
    refine (holding_iff_released kept.disabled (by simp [UIButton.setStatus])).trans ?_
    simp [Spares, found]

/-- The controls when a button is let go, before its status is set. -/
def letGo (controls : UIControls) (button : Nat) (pt : Point)
    (listener : List (Nat × ButtonCall)) : UIControls :=
  if (controls.buttons button).checkInPoint pt then
    { controls with touchPoint := pt }.sendClickedAction button listener
  else { controls with touchPoint := pt }

/-- Letting go without a listener holds and records what was held and recorded. -/
theorem letGo_silent {controls : UIControls} {button : Nat} (silent : ¬ Fires controls button pt)
    {held : Nat → Bool} (holding : Holding controls.buttons held)
    (listener : List (Nat × ButtonCall)) :
    (letGo controls button pt listener).clicks = controls.clicks ∧
      Holding (letGo controls button pt listener).buttons held := by
  -- Outside the button nothing is sent, and inside it the click comes to nothing.
  unfold letGo
  split
  · rename_i inside
    obtain ⟨clicks, keeps⟩ :=
      sendClickedAction_silent { controls with touchPoint := pt } inside silent listener
    exact ⟨clicks, keeps held holding⟩
  · exact ⟨rfl, holding⟩

/-- Letting go with a listener records the click and does what the listener does. -/
theorem letGo_fires {controls : UIControls} {button : Nat} (fires : Fires controls button pt)
    {held : Nat → Bool} (holding : Holding controls.buttons held)
    (listener : List (Nat × ButtonCall)) :
    (letGo controls button pt listener).clicks = controls.clicks ++ [button] ∧
      Holding (letGo controls button pt listener).buttons (listener.foldl heldBehind held) := by
  -- The click comes first, and the calls of the listener follow.
  have clicked : letGo controls button pt listener = listener.foldl UIControls.call
      { controls with touchPoint := pt, clicks := controls.clicks ++ [button] } := by
    rw [letGo, if_pos fires.1]
    exact sendClickedAction_fires { controls with touchPoint := pt } fires listener
  rw [clicked, clicks_calls]
  exact ⟨rfl, holding_calls listener holding⟩

/-- Letting go is right exactly if the button is not held behind what its listener does. -/
theorem up_kept_iff (kept : watched.Kept) (pt : Point) (listener : List (Nat × ButtonCall)) :
    (watched.behind (watched.controls.onTouchEvent .up pt listener).2 listener).Kept ↔
      watched.Spares (.touch .up pt listener) := by
  cases current : watched.controls.currentButton with
  | none =>
    have next : (watched.controls.onTouchEvent .up pt listener).2 =
        { watched.controls with touchPoint := pt } := by
      simp [UIControls.onTouchEvent, current]
    rw [behind_quiet kept (by rw [next]), next]
    exact iff_of_true kept.disabled (by simp [Spares, current])
  | some button =>
    have next : (watched.controls.onTouchEvent .up pt listener).2 =
        (letGo watched.controls button pt listener).onButton button (·.setStatus .normal) := by
      simp [UIControls.onTouchEvent, current, letGo]
    by_cases fires : Fires watched.controls button pt
    · -- An enabled button is not held, but its listener may disable it.
      have free : watched.held button = false := by
        by_contra held
        exact fires.2.1 (kept.disabled button (by simpa using held))
      obtain ⟨clicks, holding⟩ := letGo_fires fires kept.disabled listener
      rw [behind_fired kept (by rw [next]; exact clicks) free, next]
      refine (holding_iff_released holding (by simp [UIButton.setStatus])).trans ?_
      simp [Spares, current, fires]
    · obtain ⟨clicks, holding⟩ := letGo_silent fires kept.disabled listener
      rw [behind_quiet kept (by rw [next]; exact clicks), next]
      refine (holding_iff_released holding (by simp [UIButton.setStatus])).trans ?_
      simp [Spares, current, fires]

/-- Leaving a button is right exactly if the button is not held. -/
theorem move_kept_iff (kept : watched.Kept) (pt : Point) (listener : List (Nat × ButtonCall)) :
    (watched.behind (watched.controls.onTouchEvent .move pt listener).2 listener).Kept ↔
      watched.Spares (.touch .move pt listener) := by
  cases current : watched.controls.currentButton with
  | none =>
    have next : (watched.controls.onTouchEvent .move pt listener).2 =
        { watched.controls with touchPoint := pt } := by
      simp [UIControls.onTouchEvent, current]
    rw [behind_quiet kept (by rw [next]), next]
    exact iff_of_true kept.disabled (by simp [Spares, current])
  | some button =>
    by_cases moves : (watched.controls.buttons button).moveMode = true
    · -- A button in move mode goes along with the touch.
      have quiet : (watched.controls.onTouchEvent .move pt listener).2.clicks =
          watched.controls.clicks := by
        simp [UIControls.onTouchEvent, current, moves, UIControls.onButton]
      have next : (watched.controls.onTouchEvent .move pt listener).2.buttons =
          (watched.controls.onButton button (·.move (pt.x - watched.controls.touchDownPoint.x)
            (pt.y - watched.controls.touchDownPoint.y))).buttons := by
        simp [UIControls.onTouchEvent, current, moves, UIControls.onButton]
      rw [behind_quiet kept quiet, next]
      refine iff_of_true ?_ (by simp [Spares, current, moves])
      exact holding_onButton kept.disabled button fun fields => fields.move_status _ _
    · by_cases inside : (watched.controls.buttons button).checkInPoint pt = true
      · have next : (watched.controls.onTouchEvent .move pt listener).2 =
            { watched.controls with touchPoint := pt } := by
          simp [UIControls.onTouchEvent, current, moves, inside]
        rw [behind_quiet kept (by rw [next]), next]
        exact iff_of_true kept.disabled (by simp [Spares, current, inside])
      · have quiet : (watched.controls.onTouchEvent .move pt listener).2.clicks =
            watched.controls.clicks := by
          simp [UIControls.onTouchEvent, current, moves, inside, UIControls.onButton]
        have next : (watched.controls.onTouchEvent .move pt listener).2.buttons =
            (watched.controls.onButton button (·.setStatus .normal)).buttons := by
          simp [UIControls.onTouchEvent, current, moves, inside, UIControls.onButton]
        rw [behind_quiet kept quiet, next]
        refine (holding_iff_released kept.disabled (by simp [UIButton.setStatus])).trans ?_
        simp [Spares, current, moves, inside]

/-- A long click sets no status. -/
theorem holding_longClick {controls : UIControls} {held : Nat → Bool}
    (holding : Holding controls.buttons held) : Holding controls.onLongClick.2.buttons held := by
  -- The mode for moving is no status.
  unfold UIControls.onLongClick
  split
  · split
    · exact holding_onButton holding _ fun _ => rfl
    · exact holding
  · exact holding

/-- A button that is held stays disabled exactly as long as no touch sets its status. -/
theorem disabled_iff (controls : UIControls) (inputs : List UIInput) :
    Events.Always step Kept ⟨controls, fun _ => false, []⟩ inputs ↔
      Events.Along step Spares ⟨controls, fun _ => false, []⟩ inputs := by
  -- The condition on each input is what keeps the rule behind it.
  have start : Kept ⟨controls, fun _ => false, []⟩ := ⟨nofun, rfl⟩
  refine Events.always_iff_along (fun _ => True) (fun _ _ _ _ _ _ => trivial) ?_ trivial start
  intro watched input next _ kept taken
  match input with
  | .touch .down pt listener =>
    cases taken
    exact down_kept_iff kept pt listener
  | .touch .up pt listener =>
    cases taken
    exact up_kept_iff kept pt listener
  | .touch .move pt listener =>
    cases taken
    exact move_kept_iff kept pt listener
  | .longClick =>
    cases taken
    refine iff_of_true ⟨?_, kept.silent⟩ trivial
    exact holding_longClick kept.disabled
  | .call call =>
    cases taken
    exact iff_of_true ⟨holding_call kept.disabled call, kept.silent⟩ trivial
  | .regist button fields =>
    rw [step, Option.ite_none_left_eq_some] at taken
    cases taken.2
    exact iff_of_true ⟨holding_set kept.disabled nofun, kept.silent⟩ trivial

/-- A button that is disabled, anywhere on the screen. -/
def wideButton : UIButton := ⟨⟨0, 0⟩, ⟨9, 9⟩, .click, .normal, true, false, false, true⟩

/-- A disabled button is clicked. -/
theorem disabled_clicked :
    ¬ Events.Always step Kept
      ⟨⟨fun _ => wideButton, [0], ⟨0, 0⟩, ⟨0, 0⟩, none, []⟩, fun _ => false, []⟩
      [.call (0, .setStatusDisable), .touch .down ⟨5, 5⟩ [], .touch .up ⟨5, 5⟩ []] := by
  intro always
  have silent := ((((always.2 _ rfl).2 _ rfl).2 _ rfl)).silent
  exact absurd silent (by decide)

end WatchedControls

end Steps

end AndroidApps.Gildroia
