import AndroidApps.Gildroia.UIControls

/-! Whole gestures on the buttons of a view: taps, drags, and touches that come to nothing. -/

namespace AndroidApps.Gildroia

section Boards

/-- A gesture of one finger, with the moves behind a long click if there is one. -/
structure Gesture where
  down : Point
  moves : List Point
  dragged : Option (List Point)
  up : Point
  /-- What a listener does if the gesture calls one. -/
  listener : List (Nat × ButtonCall)

/-- What is done to a view between and by gestures. -/
inductive ViewInput where
  | gesture (gesture : Gesture)
  | call (call : Nat × ButtonCall)
  | regist (button : Nat) (fields : UIButton)

namespace UIControls

/-- A finger moves from point to point. -/
def moveTo (controls : UIControls) (points : List Point) : UIControls :=
  points.foldl (fun controls pt => (controls.onTouchEvent .move pt []).2) controls

/-- The touch events of a gesture, one after the other. -/
def touch (controls : UIControls) (gesture : Gesture) : UIControls :=
  let down := (controls.onTouchEvent .down gesture.down []).2.moveTo gesture.moves
  -- A long click comes where the finger lies still, between the moves before and behind it.
  let held := match gesture.dragged with
    | none => down
    | some moves => down.onLongClick.2.moveTo moves
  (held.onTouchEvent .up gesture.up gesture.listener).2

/-- What an input does to the controls. -/
def after (controls : UIControls) : ViewInput → UIControls
  | .gesture gesture => controls.touch gesture
  | .call call => controls.call call
  | .regist button fields => controls.registButton button fields

end UIControls

/-- A button without its status. -/
def UIButton.face (button : UIButton) : UIButton := { button with status := .normal }

/-- A board of buttons, as a user sees it: what is on it, what lies in front, what was clicked. -/
structure Board where
  buttons : Nat → UIButton
  front : List Nat
  clicks : List Nat

namespace Board

/-- A button is changed. -/
def onButton (board : Board) (button : Nat) (change : UIButton → UIButton) : Board :=
  { board with
    buttons := Function.update board.buttons button (change (board.buttons button)).face }

/-- A call of the application. -/
def call (board : Board) (call : Nat × ButtonCall) : Board :=
  board.onButton call.1 (·.call call.2)

/-- The button in front at a point. -/
def buttonAt (board : Board) (pt : Point) : Option Nat :=
  board.front.find? fun button => (board.buttons button).checkInPoint pt

/-- A button is clicked: it is checked or unchecked, or its listener does what it does. -/
def click (board : Board) (button : Nat) (listener : List (Nat × ButtonCall)) : Board :=
  match (board.buttons button).kind with
  | .check => board.onButton button fun fields => { fields with checked := !fields.checked }
  | .click =>
    if (board.buttons button).clickListener then
      listener.foldl call { board with clicks := board.clicks ++ [button] }
    else board

/-- A button that does not move any more. -/
def still (fields : UIButton) : UIButton := { fields with moveMode := false }

/-- A button that went along from one point to another. -/
def carry (origin target : Point) (fields : UIButton) : UIButton :=
  { fields with
    startPoint := ⟨fields.startPoint.x + (target.x - origin.x),
      fields.startPoint.y + (target.y - origin.y)⟩
    endPoint := ⟨fields.endPoint.x + (target.x - origin.x),
      fields.endPoint.y + (target.y - origin.y)⟩ }

/--
What a gesture comes to.

It is about the button in front where it begins, and to nothing once it has left that button.
A long click makes it carry the button along; without one it clicks the button if it ends on it.
-/
def play (board : Board) (gesture : Gesture) : Board :=
  match board.buttonAt gesture.down with
  | none => board
  | some button =>
    let board := board.onButton button still
    let fields := board.buttons button
    if gesture.moves.all fields.checkInPoint then
      match gesture.dragged with
      | none =>
        if fields.checkInPoint gesture.up then
          (board.click button gesture.listener).onButton button still
        else board
      | some moves => board.onButton button (carry gesture.down (moves.getLastD gesture.down))
    else board

/-- What an input does to a board. -/
def after (board : Board) : ViewInput → Board
  | .gesture gesture => board.play gesture
  | .call call => board.call call
  | .regist button fields =>
    { board.onButton button fun _ => fields with front := button :: board.front }

end Board

/-- The board that controls show. -/
def UIControls.board (controls : UIControls) : Board :=
  ⟨fun button => (controls.buttons button).face, controls.buttonsEvent, controls.clicks⟩

end Boards

section Faces

variable {controls : UIControls} {button : Nat} {change : UIButton → UIButton}

/-- A change of a button does not look at its status. -/
def Blind (change : UIButton → UIButton) : Prop :=
  ∀ fields, (change fields.face).face = (change fields).face

/-- Such a change is one of the button on the board. -/
theorem board_onButton (blind : Blind change) :
    (controls.onButton button change).board = controls.board.onButton button change := by
  unfold UIControls.board UIControls.onButton Board.onButton
  congr 1
  funext other
  dsimp only
  by_cases here : other = button
  · subst here
    rw [Function.update_self, Function.update_self, blind]
  · rw [Function.update_of_ne here, Function.update_of_ne here]

/-- Every call on a button is such a change. -/
theorem blind_call (what : ButtonCall) : Blind (·.call what) := by
  intro fields
  cases what with
  -- Only `move` asks for a field, and that field is not the status.
  | move x y =>
    unfold UIButton.call UIButton.move UIButton.face
    dsimp only
    split
    · rfl
    · rfl
  | _ => rfl

/-- So is moving it. -/
theorem blind_move (x y : Int32) : Blind (·.move x y) := blind_call (.move x y)

/-- Moving a button does not end its going along. -/
theorem move_moveMode (fields : UIButton) (x y : Int32) :
    (fields.move x y).moveMode = fields.moveMode := by
  unfold UIButton.move
  split
  · rfl
  · rfl

/-- The button that is changed. -/
theorem onButton_self (controls : UIControls) (button : Nat) (change : UIButton → UIButton) :
    (controls.onButton button change).buttons button = change (controls.buttons button) :=
  Function.update_self ..

/-- The calls of the application are those on the board. -/
theorem board_calls (calls : List (Nat × ButtonCall)) (controls : UIControls) :
    (calls.foldl UIControls.call controls).board = calls.foldl Board.call controls.board := by
  induction calls generalizing controls with
  | nil => rfl
  | cons call calls ih =>
    rw [List.foldl_cons, List.foldl_cons, ih]
    exact congrArg (calls.foldl Board.call) (board_onButton (blind_call call.2))

end Faces

section Events

variable {controls : UIControls} {button : Nat}

/-- The finger comes down beside all buttons. -/
theorem down_beside {pt : Point} (none : controls.buttonAt pt = none)
    (listener : List (Nat × ButtonCall)) :
    (controls.onTouchEvent .down pt listener).2 =
      { controls with touchPoint := pt, touchDownPoint := pt, currentButton := .none } := by
  have same : ({ controls with
      touchPoint := pt, touchDownPoint := pt, currentButton := .none } : UIControls).buttonAt pt =
        controls.buttonAt pt := rfl
  simp [UIControls.onTouchEvent, same, none]

/-- The finger comes down on a button. -/
theorem down_on {pt : Point} (found : controls.buttonAt pt = some button)
    (listener : List (Nat × ButtonCall)) :
    (controls.onTouchEvent .down pt listener).2 =
      { controls with
        touchPoint := pt
        touchDownPoint := pt
        currentButton := some button }.onButton button (·.setStatus .down) := by
  have same : ({ controls with
      touchPoint := pt, touchDownPoint := pt, currentButton := none } : UIControls).buttonAt pt =
        controls.buttonAt pt := rfl
  simp [UIControls.onTouchEvent, same, found]

/-- Without a current button a finger that moves or goes up does nothing. -/
theorem touch_nothing (current : controls.currentButton = none) {action : TouchAction}
    (later : action ≠ .down) (pt : Point) (listener : List (Nat × ButtonCall)) :
    (controls.onTouchEvent action pt listener).2 = { controls with touchPoint := pt } := by
  cases action with
  | down => exact absurd rfl later
  | up => simp [UIControls.onTouchEvent, current]
  | move => simp [UIControls.onTouchEvent, current]

/-- A button in move mode goes along with the finger. -/
theorem move_along (current : controls.currentButton = some button)
    (moving : (controls.buttons button).moveMode = true) (pt : Point)
    (listener : List (Nat × ButtonCall)) :
    (controls.onTouchEvent .move pt listener).2 =
      { { controls with touchPoint := pt }.onButton button
          (·.move (pt.x - controls.touchDownPoint.x) (pt.y - controls.touchDownPoint.y)) with
        touchDownPoint := pt } := by
  simp [UIControls.onTouchEvent, current, moving]

/-- The finger stays on the current button. -/
theorem move_inside (current : controls.currentButton = some button)
    (stands : (controls.buttons button).moveMode = false) {pt : Point}
    (inside : (controls.buttons button).checkInPoint pt = true)
    (listener : List (Nat × ButtonCall)) :
    (controls.onTouchEvent .move pt listener).2 = { controls with touchPoint := pt } := by
  simp [UIControls.onTouchEvent, current, stands, inside]

/-- The finger leaves the current button. -/
theorem move_outside (current : controls.currentButton = some button)
    (stands : (controls.buttons button).moveMode = false) {pt : Point}
    (outside : (controls.buttons button).checkInPoint pt = false)
    (listener : List (Nat × ButtonCall)) :
    (controls.onTouchEvent .move pt listener).2 =
      { { controls with touchPoint := pt }.onButton button (·.setStatus .normal) with
        currentButton := none } := by
  simp [UIControls.onTouchEvent, current, stands, outside]

/-- The finger goes up with a current button, which may be clicked. -/
theorem up_current (current : controls.currentButton = some button) (pt : Point)
    (listener : List (Nat × ButtonCall)) :
    (controls.onTouchEvent .up pt listener).2 =
      (if (controls.buttons button).checkInPoint pt then
        { controls with touchPoint := pt }.sendClickedAction button listener
      else { controls with touchPoint := pt }).onButton button (·.setStatus .normal) := by
  simp [UIControls.onTouchEvent, current]

end Events

section Touches

variable {controls : UIControls} {board : Board} {button : Nat} {origin pt : Point}
  {listener : List (Nat × ButtonCall)}

/-- The button of a board that is changed. -/
theorem Board.onButton_self (board : Board) (button : Nat) (change : UIButton → UIButton) :
    (board.onButton button change).buttons button = (change (board.buttons button)).face :=
  Function.update_self ..

/-- A change that leaves a button as it looks leaves the board. -/
theorem Board.onButton_same {change : UIButton → UIButton}
    (same : (change (board.buttons button)).face = board.buttons button) :
    board.onButton button change = board := by
  unfold Board.onButton
  rw [same, Function.update_eq_self]

/-- The second of two changes of a button looks at what the first one left. -/
theorem Board.onButton_twice {first second : UIButton → UIButton} (blind : Blind second) :
    (board.onButton button first).onButton button second =
      board.onButton button (second ∘ first) := by
  unfold Board.onButton
  dsimp only
  rw [Function.update_self, Function.update_idem, blind]
  rfl

/-- The button in front at a point has the point on it. -/
theorem Board.buttonAt_inside (found : board.buttonAt pt = some button) :
    (board.buttons button).checkInPoint pt = true := by
  have inside := List.find?_some found
  exact inside

/-- Two changes of a button are one on the board if they leave it looking the same. -/
theorem Board.onButton_congr {first second : UIButton → UIButton}
    (same : (first (board.buttons button)).face = (second (board.buttons button)).face) :
    board.onButton button first = board.onButton button second := by
  unfold Board.onButton
  rw [same]

/-- A button is pressed that is not moving. -/
structure Pressed (board : Board) (button : Nat) (origin : Point) (controls : UIControls) :
    Prop where
  current : controls.currentButton = some button
  shown : controls.board = board
  down : (controls.buttons button).status = .down
  stands : (controls.buttons button).moveMode = false
  began : controls.touchDownPoint = origin

/-- No button is pressed. -/
structure Released (board : Board) (controls : UIControls) : Prop where
  current : controls.currentButton = none
  shown : controls.board = board

/-- The fields of a pressed button are those of the board. -/
theorem Pressed.fields (pressed : Pressed board button origin controls) :
    board.buttons button = (controls.buttons button).face := by
  rw [← pressed.shown]
  rfl

/-- A finger that comes down presses the button in front. -/
theorem pressed_down (found : controls.board.buttonAt pt = some button)
    (listener : List (Nat × ButtonCall)) :
    Pressed (controls.board.onButton button Board.still) button pt
      (controls.onTouchEvent .down pt listener).2 := by
  rw [down_on found]
  refine ⟨rfl, ?_, ?_, ?_, rfl⟩
  · -- On the board the press itself is nothing: its status is not shown there.
    exact board_onButton (fun _ => rfl)
  · simp [UIControls.onButton, UIButton.setStatus]
  · simp [UIControls.onButton, UIButton.setStatus]

/-- Without a pressed button no move does anything. -/
theorem Released.moveTo (released : Released board controls) (points : List Point) :
    Released board (controls.moveTo points) := by
  induction points generalizing controls with
  | nil => exact released
  | cons pt rest ih =>
    refine ih ?_
    show Released board (controls.onTouchEvent .move pt []).2
    rw [touch_nothing released.current (by decide)]
    exact ⟨released.current, released.shown⟩

/-- Nor does a long click. -/
theorem Released.longClick (released : Released board controls) :
    Released board controls.onLongClick.2 := by
  simp [UIControls.onLongClick, released.current, released]

/-- Nor does the finger that goes up. -/
theorem Released.up (released : Released board controls) :
    (controls.onTouchEvent .up pt listener).2.board = board := by
  rw [touch_nothing released.current (by decide)]
  exact released.shown

/-- A finger that stays on a button keeps it pressed. -/
theorem Pressed.stay (pressed : Pressed board button origin controls)
    (inside : (board.buttons button).checkInPoint pt = true) :
    Pressed board button origin (controls.onTouchEvent .move pt []).2 ∧
      (controls.onTouchEvent .move pt []).2.touchPoint = pt := by
  rw [pressed.fields] at inside
  -- A button that stands still is left alone as long as the finger is on it.
  rw [move_inside pressed.current pressed.stands inside]
  exact ⟨⟨pressed.current, pressed.shown, pressed.down, pressed.stands, pressed.began⟩, rfl⟩

/-- A finger that leaves a button releases it, and nothing has happened to the board. -/
theorem Pressed.leave (pressed : Pressed board button origin controls)
    (outside : (board.buttons button).checkInPoint pt = false) :
    Released board (controls.onTouchEvent .move pt []).2 := by
  have fields := pressed.fields
  rw [fields] at outside
  have shown : (({ controls with touchPoint := pt } : UIControls).onButton button
      (·.setStatus .normal)).board = board := by
    rw [board_onButton fun _ => rfl]
    show controls.board.onButton button (·.setStatus .normal) = board
    rw [pressed.shown]
    -- What is left of the press is the status, which the board does not have.
    apply Board.onButton_same
    rw [fields]
    have stands := pressed.stands
    unfold UIButton.setStatus UIButton.face
    dsimp only
    rw [← stands]
  rw [move_outside pressed.current pressed.stands outside]
  exact ⟨rfl, shown⟩

/-- A finger that moves about stays on the button all the time, or has left it. -/
theorem Pressed.moveTo (pressed : Pressed board button origin controls)
    (reached : controls.touchPoint = pt) (points : List Point) :
    if points.all (board.buttons button).checkInPoint then
      Pressed board button origin (controls.moveTo points) ∧
        (controls.moveTo points).touchPoint = points.getLastD pt
    else Released board (controls.moveTo points) := by
  induction points generalizing controls pt with
  | nil => exact ⟨pressed, reached⟩
  | cons next rest ih =>
    rw [List.all_cons, List.getLastD_cons]
    have moved : controls.moveTo (next :: rest) =
      (controls.onTouchEvent .move next []).2.moveTo rest := rfl
    rw [moved]
    cases inside : (board.buttons button).checkInPoint next with
    | true =>
      -- The finger is still on the button, and the rest is moved from there.
      obtain ⟨stays, there⟩ := pressed.stay inside
      rw [Bool.true_and]
      exact ih stays there
    | false =>
      -- Once it has left the button, the other moves do nothing.
      rw [Bool.false_and, if_neg Bool.false_ne_true]
      exact (pressed.leave inside).moveTo rest

/-- A button is carried along, and the board is as it was in the beginning. -/
structure Carried (board : Board) (button : Nat) (origin pt : Point) (controls : UIControls) :
    Prop where
  current : controls.currentButton = some button
  moving : (controls.buttons button).moveMode = true
  shown : controls.board.onButton button Board.still = board.onButton button (Board.carry origin pt)
  reached : controls.touchDownPoint = pt

/-- Nothing is carried from a point to itself. -/
theorem carry_self (pt : Point) (fields : UIButton) : Board.carry pt pt fields = fields := by
  unfold Board.carry
  simp only [Int32.sub_self, Int32.add_zero]

/-- Going along to a point and from there to another one is going along to the other one. -/
theorem carry_carry (first second third : Point) (fields : UIButton) :
    Board.carry second third (Board.carry first second fields) =
      Board.carry first third fields := by
  have along : ∀ start a b c : Int32, start + (b - a) + (c - b) = start + (c - a) := by grind
  unfold Board.carry
  simp only [along]

/-- A long click on a pressed button makes it go along from where the finger came down. -/
theorem Pressed.longClick (pressed : Pressed board button origin controls)
    (inside : (board.buttons button).checkInPoint controls.touchPoint = true) :
    Carried board button origin origin controls.onLongClick.2 := by
  have fields := pressed.fields
  rw [fields] at inside
  have on : (controls.buttons button).checkInPoint controls.touchPoint = true := inside
  have next : controls.onLongClick.2 = controls.onButton button UIButton.setStatusMoveMode := by
    simp [UIControls.onLongClick, pressed.current, on]
  rw [next]
  refine ⟨pressed.current, ?_, ?_, pressed.began⟩
  · simp [UIControls.onButton, UIButton.setStatusMoveMode]
  · rw [board_onButton fun _ => rfl, pressed.shown, Board.onButton_twice fun _ => rfl]
    apply Board.onButton_congr
    -- Nothing but the mode was changed, and the button did not move before.
    rw [carry_self, fields]
    have stands := pressed.stands
    unfold UIButton.face
    dsimp only [Function.comp, Board.still, UIButton.setStatusMoveMode]
    rw [← stands]

/-- The button goes along with the next move. -/
theorem Carried.move (carried : Carried board button origin pt controls) (next : Point) :
    Carried board button origin next (controls.onTouchEvent .move next []).2 := by
  have moving := carried.moving
  have shown : (({ controls with touchPoint := next } : UIControls).onButton button
      (·.move (next.x - pt.x) (next.y - pt.y))).board.onButton button Board.still =
        board.onButton button (Board.carry origin next) := by
    rw [board_onButton (blind_move _ _)]
    show (controls.board.onButton button _).onButton button _ = _
    calc (controls.board.onButton button (·.move (next.x - pt.x) (next.y - pt.y))).onButton button
          Board.still
      _ = (controls.board.onButton button Board.still).onButton button (Board.carry pt next) := by
        rw [Board.onButton_twice fun _ => rfl, Board.onButton_twice fun _ => rfl]
        apply Board.onButton_congr
        show (Board.still (UIButton.move (controls.buttons button).face _ _)).face = _
        unfold UIButton.move
        rw [if_pos (show (controls.buttons button).face.moveMode = true from moving)]
        rfl
      -- The way so far, and the last piece of it.
      _ = (board.onButton button (Board.carry origin pt)).onButton button
          (Board.carry pt next) := by rw [carried.shown]
      _ = board.onButton button (Board.carry origin next) := by
        rw [Board.onButton_twice fun _ => rfl]
        apply Board.onButton_congr
        rw [Function.comp, carry_carry]
  rw [move_along carried.current carried.moving, carried.reached]
  refine ⟨carried.current, ?_, shown, rfl⟩
  exact (congrArg UIButton.moveMode (onButton_self _ _ _)).trans
    ((move_moveMode _ _ _).trans moving)

/-- In the end it was carried from where the finger came down to where it moved last. -/
theorem Carried.moveTo (carried : Carried board button origin pt controls) (points : List Point) :
    Carried board button origin (points.getLastD pt) (controls.moveTo points) := by
  -- By the moves: the point that is reached is where the next one begins.
  induction points generalizing controls pt with
  | nil => exact carried
  | cons next rest ih =>
    rw [List.getLastD_cons]
    exact ih (carried.move next)

/-- The finger that goes up leaves a carried button where it is. -/
theorem Carried.up (carried : Carried board button origin pt controls) (last : Point) :
    (controls.onTouchEvent .up last listener).2.board =
      board.onButton button (Board.carry origin pt) := by
  have moving := carried.moving
  have quiet : ({ controls with touchPoint := last } : UIControls).sendClickedAction button
      listener = { controls with touchPoint := last } := by
    unfold UIControls.sendClickedAction
    dsimp only
    -- In move mode `sendClickedAction` returns before it calls anything.
    rw [if_pos (Or.inr moving)]
  rw [up_current carried.current, quiet, ite_self, board_onButton fun _ => rfl]
  exact carried.shown

/-- A click on a button that is down is one on the board. -/
theorem board_sendClickedAction (enabled : (controls.buttons button).status ≠ .disenable)
    (stands : (controls.buttons button).moveMode = false) :
    (controls.sendClickedAction button listener).board =
      controls.board.click button listener := by
  unfold UIControls.sendClickedAction Board.click
  dsimp only
  rw [if_neg (by simp [enabled, stands])]
  have kind : (controls.board.buttons button).kind = (controls.buttons button).kind := rfl
  rw [kind]
  -- A check button turns itself over, and the others call their listener if they have one.
  cases (controls.buttons button).kind with
  | check => exact board_onButton fun _ => rfl
  | click =>
    have listens : (controls.board.buttons button).clickListener =
      (controls.buttons button).clickListener := rfl
    dsimp only
    rw [listens]
    cases (controls.buttons button).clickListener with
    | true => exact board_calls listener _
    | false => rfl

/-- The finger that goes up on a pressed button clicks it, and elsewhere it does nothing. -/
theorem Pressed.up (pressed : Pressed board button origin controls) (last : Point) :
    (controls.onTouchEvent .up last listener).2.board =
      if (board.buttons button).checkInPoint last then
        (board.click button listener).onButton button Board.still
      else board := by
  have fields := pressed.fields
  have inside : (board.buttons button).checkInPoint last =
      (controls.buttons button).checkInPoint last := by
    rw [fields]
    rfl
  rw [up_current pressed.current, board_onButton fun _ => rfl, inside]
  split
  · -- It is down, so that the click comes through.
    rw [board_sendClickedAction]
    · show (controls.board.click button listener).onButton button _ = _
      rw [pressed.shown]
      rfl
    · show (controls.buttons button).status ≠ .disenable
      rw [pressed.down]
      decide
    · exact pressed.stands
  · -- It went up elsewhere: only the status is set back.
    show controls.board.onButton button _ = board
    rw [pressed.shown]
    apply Board.onButton_same
    rw [fields]
    have stands := pressed.stands
    unfold UIButton.setStatus UIButton.face
    dsimp only
    rw [← stands]

end Touches

section Runs

/-- The point a finger reached last is on the button if all its points are. -/
theorem inside_last {fields : UIButton} {points : List Point} {origin : Point}
    (began : fields.checkInPoint origin = true) (stays : points.all fields.checkInPoint = true) :
    fields.checkInPoint (points.getLastD origin) = true := by
  -- The last point is where the finger came down, or one of those it moved to.
  have member : points.getLastD origin ∈ origin :: points := List.getLastD_mem_cons
  rcases List.mem_cons.mp member with same | listed
  · rw [same]
    exact began
  · exact List.all_eq_true.mp stays _ listed

/-- A gesture comes to what it comes to on the board. -/
theorem board_touch (controls : UIControls) (gesture : Gesture) :
    (controls.touch gesture).board = controls.board.play gesture := by
  unfold UIControls.touch Board.play
  cases found : controls.board.buttonAt gesture.down with
  | none =>
    -- The finger came down beside all buttons, and nothing else of the gesture does anything.
    have released : Released controls.board
        ((controls.onTouchEvent .down gesture.down []).2.moveTo gesture.moves) := by
      rw [down_beside found]
      have nothing : Released controls.board { controls with
          touchPoint := gesture.down, touchDownPoint := gesture.down, currentButton := none } :=
        ⟨rfl, rfl⟩
      exact nothing.moveTo gesture.moves
    dsimp only
    cases gesture.dragged with
    | none => exact released.up
    | some moves => exact (released.longClick.moveTo moves).up
  | some button =>
    -- It came down on a button, which is pressed until the finger leaves it.
    have down := pressed_down found []
    have there : (controls.onTouchEvent .down gesture.down []).2.touchPoint = gesture.down := by
      rw [down_on found]
      rfl
    have moved := down.moveTo there gesture.moves
    dsimp only
    split at moved
    · rename_i stays
      rw [if_pos stays]
      cases gesture.dragged with
      | none => exact moved.1.up gesture.up
      | some moves =>
        -- The long click meets the button where the finger is.
        have began : ((controls.board.onButton button Board.still).buttons button).checkInPoint
            gesture.down = true := by
          rw [Board.onButton_self]
          exact Board.buttonAt_inside found
        have inside := inside_last began stays
        rw [← moved.2] at inside
        exact ((moved.1.longClick inside).moveTo moves).up gesture.up
    · -- It has left the button, and neither a long click nor the end of the touch finds one.
      rename_i left
      rw [if_neg left]
      cases gesture.dragged with
      | none => exact moved.up
      | some moves => exact (moved.longClick.moveTo moves).up

/-- A button that is registered is one on the board, in front of the others. -/
theorem board_registButton (controls : UIControls) (button : Nat) (fields : UIButton) :
    (controls.registButton button fields).board =
      { controls.board.onButton button fun _ => fields with
        front := button :: controls.board.front } := by
  have put : (controls.onButton button fun _ => fields).board =
      controls.board.onButton button fun _ => fields := board_onButton fun _ => rfl
  rw [← put]
  rfl

/-- What an input does to controls is what it does to the board that they show. -/
theorem board_after (controls : UIControls) (input : ViewInput) :
    (controls.after input).board = controls.board.after input := by
  cases input with
  | gesture gesture => exact board_touch controls gesture
  | call call => exact board_onButton (blind_call call.2)
  | regist button fields => exact board_registButton controls button fields

/--
Over every run the controls do what the board says.

A tap clicks the button in front, wherever the finger went on it, and nothing once it left it.
A long click drags the button by the way from the first point to the last one, and clicks nothing.
The status of a button decides nothing of this, so that a disabled button is clicked as well.
-/
theorem gestures_refine (controls : UIControls) (inputs : List ViewInput) :
    (inputs.foldl UIControls.after controls).board =
      inputs.foldl Board.after controls.board := by
  induction inputs generalizing controls with
  | nil => rfl
  | cons input rest ih => rw [List.foldl_cons, List.foldl_cons, ih, board_after]

end Runs

end AndroidApps.Gildroia
