import AndroidApps.Lib.JavaTextLaws
import AndroidApps.TouchPc.DeviceConnector

/-! The device that `getevent -p` is searched for, over the connections of one object. -/

namespace AndroidApps.TouchPc

section Outputs

/-- A line that is neither the head of a block nor a name. -/
structure OtherLine where
  text : JString
  noDevice : ¬ JString.ofString "add device" <+: JString.trim text
  noName : ¬ JString.ofString "name:" <+: JString.trim text

/-- A line with a name, behind some blanks. -/
structure NameLine where
  indent : JString
  name : JString
  blanks : ∀ unit ∈ indent, JString.isBlank unit = true
  noColon : 0x3A ∉ name

/-- A line of a block behind its head. -/
inductive BlockLine where
  | name (line : NameLine)
  | other (line : OtherLine)

/-- A block of the output: a device with its number and its path, and the lines about it. -/
structure DeviceBlock where
  number : JString
  path : JString
  body : List BlockLine
  plainNumber : 0x3A ∉ number
  plainPath : 0x3A ∉ path

/-- The output of `getevent -p`. -/
structure DeviceOutput where
  preamble : List OtherLine
  blocks : List DeviceBlock

/-- A connection: what `sendevent` has printed, and what `getevent -p` has. -/
structure Connection where
  usage : List JString
  output : DeviceOutput

/-- Whether a name is that of a touch device. -/
def isTouch (name : JString) : Bool :=
  JString.contains name (JString.ofString "touchscreen") ||
    JString.contains name (JString.ofString "touch_dev")

/-- Whether a line gives a block the name of a touch device. -/
def BlockLine.touch : BlockLine → Bool
  | name line => isTouch line.name
  | other _ => false

/-- A line as it is printed. -/
def BlockLine.text : BlockLine → JString
  | name line => line.indent ++ (JString.ofString "name" ++ 0x3A :: line.name)
  | other line => line.text

namespace DeviceBlock

/-- The head of a block as it is printed. -/
def head (block : DeviceBlock) : JString :=
  JString.ofString "add device " ++ block.number ++ 0x3A :: 0x20 :: block.path

/-- The lines of a block. -/
def lines (block : DeviceBlock) : List JString := block.head :: block.body.map BlockLine.text

/-- Whether a block has the name of a touch device. -/
def touch (block : DeviceBlock) : Bool := block.body.any BlockLine.touch

/-- The device of a block. -/
def device (block : DeviceBlock) : JString := JString.trim block.path

end DeviceBlock

/-- The lines of an output. -/
def DeviceOutput.lines (output : DeviceOutput) : List JString :=
  output.preamble.map OtherLine.text ++ output.blocks.flatMap DeviceBlock.lines

/-- The first block of a connection with the name of a touch device. -/
def Connection.touchBlock (connection : Connection) : Option DeviceBlock :=
  connection.output.blocks.find? DeviceBlock.touch

namespace TouchEvent

/-- The lines of a connection, each passed to the callback of its command. -/
def connected (event : TouchEvent) (connection : Connection) : TouchEvent :=
  let event := connection.usage.foldl (fun event line => event.checkIsEnable line) event
  connection.output.lines.foldl (fun event line => event.getTouchEventDevice line) event

/-- A new object behind some connections. -/
def afterAll (connections : List Connection) : TouchEvent := connections.foldl connected .new

end TouchEvent

/-- Behind each connection, the device is that of its first touch block, if it has one. -/
def FollowsDevice (connections : List Connection) : Prop :=
  ∀ earlier last, earlier ++ [last] <+: connections → ∀ block, last.touchBlock = some block →
    (TouchEvent.afterAll (earlier ++ [last])).deviceName = some block.device

/-- The touch devices of all connections are the same one, and it has a path. -/
def OneDevice (connections : List Connection) : Prop :=
  ∀ first ∈ connections, ∀ block, first.touchBlock = some block → block.device ≠ [] ∧
    ∀ second ∈ connections, ∀ other, second.touchBlock = some other → block.device = other.device

end Outputs

section Lines

variable {event : TouchEvent}

namespace TouchEvent

/-- Once a device is found, no line changes anything. -/
theorem getTouchEventDevice_found (found : event.found = true) (data : JString) :
    event.getTouchEventDevice data = event := if_pos found

/-- The head of a block is remembered, unless its path is blank. -/
def headed (event : TouchEvent) (block : DeviceBlock) : TouchEvent :=
  if block.device = [] then event else { event with findDeviceName := some block.device }

/-- What the head of a block does. -/
theorem getTouchEventDevice_head (searching : event.found = false) (block : DeviceBlock) :
    event.getTouchEventDevice block.head = event.headed block := by
  -- A head begins with the keyword and has its path behind the only colon.
  obtain ⟨rest, word⟩ : ∃ rest, JString.ofString "add device " ++ block.number = 0x61 :: rest := by
    rw [JString.ofString_ofList]
    exact ⟨_, rfl⟩
  have begins : JString.ofString "add device" <+: 0x61 :: rest := by
    rw [← word, JString.ofString_ofList, JString.ofString_ofList]
    exact ⟨0x20 :: block.number, rfl⟩
  have plain : 0x3A ∉ 0x61 :: rest := by
    rw [← word, JString.ofString_ofList, List.mem_append]
    exact not_or.mpr ⟨by decide, block.plainNumber⟩
  have visible : JString.isBlank 0x61 = false ∧ JString.isBlank 0x3A = false := by decide
  have printed : block.head = 0x61 :: rest ++ 0x3A :: 0x20 :: block.path := by
    rw [DeviceBlock.head, word]
  have pieces := JString.split_trim (0x20 :: block.path) plain (by simp [block.plainPath])
    visible.1 visible.2
  have starts : (JString.ofString "add device").isPrefixOf (JString.trim block.head) = true := by
    rw [List.isPrefixOf_iff_prefix, printed, JString.trim_word _ _ visible.1 visible.2]
    exact begins.trans (List.prefix_append _ _)
  have space : JString.trim (0x20 :: block.path) = block.device :=
    JString.trim_blanks (by simp [JString.isBlank] : ∀ unit ∈ [0x20], JString.isBlank unit = true)
      block.path
  have left : (0x20 :: block.path).rdropWhile JString.isBlank = [] ↔ block.device = [] := by
    rw [← space, JString.trim_eq_nil_iff, List.rdropWhile_eq_nil_iff]
  rw [← printed] at pieces
  rw [getTouchEventDevice, searching, if_neg Bool.false_ne_true, if_pos starts, pieces, headed]
  by_cases blank : block.device = []
  · rw [if_pos (left.mpr blank), if_pos blank]
  · have name := (JString.trim_rdropWhile (0x20 :: block.path)).trans space
    simp only [if_neg (mt left.mp blank), if_neg blank, name, searching]

/-- Any other line changes nothing. -/
theorem getTouchEventDevice_other (line : OtherLine) (event : TouchEvent) :
    event.getTouchEventDevice line.text = event := by
  have device : (JString.ofString "add device").isPrefixOf (JString.trim line.text) = false :=
    Bool.eq_false_iff.mpr (mt List.isPrefixOf_iff_prefix.mp line.noDevice)
  have name : (JString.ofString "name:").isPrefixOf (JString.trim line.text) = false :=
    Bool.eq_false_iff.mpr (mt List.isPrefixOf_iff_prefix.mp line.noName)
  simp [getTouchEventDevice, device, name]

/-- Blanks at the end of a name do not hide that of a touch device. -/
theorem isTouch_rdropWhile (name : JString) :
    isTouch (name.rdropWhile JString.isBlank) = isTouch name := by
  -- Neither of the two words ends with a blank.
  have first : ∀ last, (JString.ofString "touchscreen").getLast? = some last →
      JString.isBlank last = false := by
    rw [JString.ofString_ofList]
    rintro last ⟨⟩
    decide
  have second : ∀ last, (JString.ofString "touch_dev").getLast? = some last →
      JString.isBlank last = false := by
    rw [JString.ofString_ofList]
    rintro last ⟨⟩
    decide
  rw [isTouch, JString.contains_rdropWhile name first, JString.contains_rdropWhile name second,
    isTouch]

/-- A name that is empty is not that of a touch device. -/
theorem isTouch_nil : isTouch [] = false := by
  rw [isTouch, JString.ofString_ofList, JString.ofString_ofList]
  decide

/-- What a line with a name does. -/
theorem getTouchEventDevice_name (searching : event.found = false) (line : NameLine) :
    event.getTouchEventDevice (line.indent ++ (JString.ofString "name" ++ 0x3A :: line.name)) =
      if isTouch line.name then { event with deviceName := event.findDeviceName, found := true }
      else event := by
  -- The line is trimmed and cut at its colon, and is no head of a block.
  have word : JString.ofString "name" = 0x6E :: [0x61, 0x6D, 0x65] := by
    rw [JString.ofString_ofList]
    rfl
  have visible : JString.isBlank 0x6E = false ∧ JString.isBlank 0x3A = false := by decide
  have trimmed := JString.trim_word [0x61, 0x6D, 0x65] line.name visible.1 visible.2
  have pieces := JString.split_trim line.name
    (by decide : (0x3A : UInt16) ∉ [0x6E, 0x61, 0x6D, 0x65])
    line.noColon visible.1 visible.2
  have device : (JString.ofString "add device").isPrefixOf
      (JString.trim (0x6E :: [0x61, 0x6D, 0x65] ++ 0x3A :: line.name)) = false := by
    rw [trimmed, JString.ofString_ofList]
    rfl
  have starts : (JString.ofString "name:").isPrefixOf
      (JString.trim (0x6E :: [0x61, 0x6D, 0x65] ++ 0x3A :: line.name)) = true := by
    rw [trimmed, JString.ofString_ofList]
    rfl
  simp only [getTouchEventDevice, searching, JString.trim_blanks line.blanks, word, device, starts,
    pieces, Bool.false_eq_true, if_false, if_true]
  rw [← isTouch_rdropWhile]
  by_cases blank : line.name.rdropWhile JString.isBlank = []
  · simp only [blank, isTouch_nil, if_true, Bool.false_eq_true, if_false]
  · simp only [blank, if_false]
    rfl

/-- What a line of a block does. -/
theorem getTouchEventDevice_body (searching : event.found = false) (line : BlockLine) :
    event.getTouchEventDevice line.text =
      if line.touch then { event with deviceName := event.findDeviceName, found := true }
      else event := by
  cases line with
  | name line => exact getTouchEventDevice_name searching line
  | other line => exact getTouchEventDevice_other line event

end TouchEvent

end Lines

section Runs

variable {event : TouchEvent}

namespace TouchEvent

/-- Once a device is found, no lines change anything. -/
theorem foldl_found (found : event.found = true) (lines : List JString) :
    lines.foldl (fun event line => event.getTouchEventDevice line) event = event := by
  induction lines with
  | nil => rfl
  | cons line lines ih => rw [List.foldl_cons, getTouchEventDevice_found found, ih]

/-- The lines of a block behind its head find a device if one of them has its name. -/
theorem foldl_body (searching : event.found = false) (body : List BlockLine) :
    (body.map BlockLine.text).foldl (fun event line => event.getTouchEventDevice line) event =
      if body.any BlockLine.touch then
        { event with deviceName := event.findDeviceName, found := true }
      else event := by
  -- Behind the line that finds the device, the others change nothing.
  induction body with
  | nil => rfl
  | cons line body ih =>
    rw [List.map_cons, List.foldl_cons, getTouchEventDevice_body searching, List.any_cons]
    cases line.touch with
    | true => exact foldl_found rfl _
    | false => exact ih

/-- The head of a block does not end the search. -/
theorem headed_found (event : TouchEvent) (block : DeviceBlock) :
    (event.headed block).found = event.found := by
  rw [headed]
  split
  · rfl
  · rfl

/-- The lines of a block. -/
theorem foldl_block (searching : event.found = false) (block : DeviceBlock) :
    block.lines.foldl (fun event line => event.getTouchEventDevice line) event =
      if block.touch then
        { event.headed block with deviceName := (event.headed block).findDeviceName, found := true }
      else event.headed block := by
  have still := (headed_found event block).trans searching
  rw [DeviceBlock.lines, List.foldl_cons, getTouchEventDevice_head searching, foldl_body still,
    DeviceBlock.touch]

/-- Lines that are neither heads nor names change nothing. -/
theorem foldl_preamble (preamble : List OtherLine) (event : TouchEvent) :
    (preamble.map OtherLine.text).foldl (fun event line => event.getTouchEventDevice line) event =
      event := by
  induction preamble with
  | nil => rfl
  | cons line preamble ih =>
    rw [List.map_cons, List.foldl_cons, getTouchEventDevice_other, ih]

/-- No device without a path is remembered or set. -/
structure Named (event : TouchEvent) : Prop where
  deviceName : event.deviceName ≠ some []
  findDeviceName : event.findDeviceName ≠ some []

/-- A head that is remembered has a path. -/
theorem Named.headed (named : Named event) (block : DeviceBlock) : Named (event.headed block) := by
  rw [TouchEvent.headed]
  split
  next => exact named
  next path => exact ⟨named.deviceName, by simpa using path⟩

/-- What some blocks do while a device is searched for. -/
structure Searched (event next : TouchEvent) (touch : Option DeviceBlock) : Prop where
  found : next.found = touch.isSome
  named : Named event → Named next
  device : ∀ block, touch = some block → block.device ≠ [] → next.deviceName = some block.device

/-- The blocks of an output set the device of the first touch block. -/
theorem foldl_blocks (searching : event.found = false) (blocks : List DeviceBlock) :
    Searched event
      ((blocks.flatMap DeviceBlock.lines).foldl (fun event line => event.getTouchEventDevice line)
        event)
      (blocks.find? DeviceBlock.touch) := by
  induction blocks generalizing event with
  | nil => exact ⟨searching, id, nofun⟩
  | cons block blocks ih =>
    rw [List.flatMap_cons, List.foldl_append, foldl_block searching, List.find?_cons]
    cases block.touch with
    | true =>
      rw [if_pos rfl, foldl_found rfl]
      refine ⟨rfl, fun named => ?_, fun given same path => ?_⟩
      · exact ⟨(named.headed block).findDeviceName, (named.headed block).findDeviceName⟩
      · cases same
        simp [headed, path]
    | false =>
      -- The head may be remembered, and the search goes on.
      have later := ih ((headed_found event block).trans searching)
      exact ⟨later.found, fun named => later.named (named.headed block), later.device⟩

/-- What `sendevent` prints does not matter for the device. -/
theorem foldl_usage (usage : List JString) (event : TouchEvent) : ∃ enable,
    usage.foldl (fun event line => event.checkIsEnable line) event =
      { event with enable := enable } := by
  -- Only the flag is written.
  induction usage generalizing event with
  | nil => exact ⟨event.enable, rfl⟩
  | cons line usage ih =>
    obtain ⟨enable, same⟩ := ih (event.checkIsEnable line)
    refine ⟨enable, same.trans ?_⟩
    rw [checkIsEnable]
    split
    · rfl
    · rfl

/-- A connection made while a device is searched for. -/
theorem connected_searching (searching : event.found = false) (connection : Connection) :
    Searched event (event.connected connection) connection.touchBlock := by
  -- The usage comes first and leaves the search as it is.
  obtain ⟨enable, usage⟩ := foldl_usage connection.usage event
  rw [connected, usage, DeviceOutput.lines, List.foldl_append, foldl_preamble]
  have still : ({ event with enable := enable } : TouchEvent).found = false := searching
  have blocks := foldl_blocks still connection.output.blocks
  exact ⟨blocks.found, fun named => blocks.named ⟨named.deviceName, named.findDeviceName⟩,
    blocks.device⟩

/-- A connection made when a device has been found. -/
theorem connected_found (found : event.found = true) (connection : Connection) :
    ∃ enable, event.connected connection = { event with enable := enable } := by
  obtain ⟨enable, usage⟩ := foldl_usage connection.usage event
  refine ⟨enable, ?_⟩
  have still : ({ event with enable := enable } : TouchEvent).found = true := found
  rw [connected, usage]
  exact foldl_found still _

/-- One more connection. -/
theorem afterAll_snoc (connections : List Connection) (last : Connection) :
    afterAll (connections ++ [last]) = (afterAll connections).connected last := by
  rw [afterAll, List.foldl_append]
  rfl

/-- Either no connection had a touch device, or the device of one of them was found. -/
inductive Known (connections : List Connection) (event : TouchEvent) : Prop
  /-- The search goes on. -/
  | searching (found : event.found = false)
      (none : ∀ connection ∈ connections, connection.touchBlock = none)
  /-- The search is over. -/
  | found (found : event.found = true) (connection : Connection) (member : connection ∈ connections)
      (block : DeviceBlock) (touch : connection.touchBlock = some block)
      (device : block.device ≠ [] → event.deviceName = some block.device)

/-- What is known behind some connections. -/
theorem afterAll_known (connections : List Connection) :
    Known connections (afterAll connections) ∧ Named (afterAll connections) := by
  -- The connections are made one after the other, so the last one is taken off.
  induction connections using List.reverseRecOn with
  | nil => exact ⟨.searching rfl nofun, nofun, nofun⟩
  | append_singleton connections last ih =>
    obtain ⟨known, named⟩ := ih
    rw [afterAll_snoc]
    cases known with
    | found found connection member block touch device =>
      obtain ⟨enable, same⟩ := connected_found found last
      rw [same]
      exact ⟨.found found connection (List.mem_append_left _ member) block touch device,
        named.deviceName, named.findDeviceName⟩
    | searching searching none =>
      have searched := connected_searching searching last
      refine ⟨?_, searched.named named⟩
      have ended := searched.found
      cases touch : last.touchBlock with
      | none =>
        rw [touch] at ended
        refine .searching ended fun connection member => ?_
        rcases List.mem_append.mp member with before | now
        · exact none connection before
        · rw [List.mem_singleton.mp now, touch]
      | some block =>
        rw [touch] at ended
        exact .found ended last (by simp) block touch (searched.device block touch)

/-- Once a device is found, later connections leave it. -/
theorem afterAll_append {connections : List Connection}
    (found : (afterAll connections).found = true)
    (more : List Connection) :
    (afterAll (connections ++ more)).deviceName = (afterAll connections).deviceName ∧
      (afterAll (connections ++ more)).found = true := by
  -- The later connections are added one at a time.
  induction more using List.reverseRecOn with
  | nil => simp [found]
  | append_singleton more last ih =>
    obtain ⟨enable, same⟩ := connected_found ih.2 last
    rw [← List.append_assoc, afterAll_snoc, same]
    exact ih

end TouchEvent

/-- The device behind a connection with a touch device stays. -/
theorem FollowsDevice.stays {connections : List Connection} (follows : FollowsDevice connections)
    {earlier others : List Connection} {last next : Connection}
    (shorter : earlier ++ [last] <+: others ++ [next]) (made : others ++ [next] <+: connections)
    {block other : DeviceBlock} (touch : last.touchBlock = some block)
    (touchOther : next.touchBlock = some other) : block.device = other.device := by
  -- The later connection finds the device of the earlier one.
  have device := follows earlier last (shorter.trans made) block touch
  have deviceOther := follows others next made other touchOther
  have found : (TouchEvent.afterAll (earlier ++ [last])).found = true := by
    cases (TouchEvent.afterAll_known (earlier ++ [last])).1 with
    | searching searching none =>
      rw [none last (by simp)] at touch
      contradiction
    | found found => exact found
  obtain ⟨more, whole⟩ := shorter
  have kept := (TouchEvent.afterAll_append found more).1
  rw [whole, device, deviceOther] at kept
  exact (Option.some.inj kept).symm

/-- A connection is the last one of some that were made. -/
theorem exists_prefix {connections : List Connection} {connection : Connection}
    (member : connection ∈ connections) : ∃ earlier, earlier ++ [connection] <+: connections := by
  obtain ⟨earlier, later, rfl⟩ := List.append_of_mem member
  exact ⟨earlier, later, by simp⟩

/-- The device follows the connections exactly if they all have the same one. -/
theorem discovery_follows_iff (connections : List Connection) :
    FollowsDevice connections ↔ OneDevice connections := by
  constructor
  · intro follows first member block touch
    obtain ⟨earlier, made⟩ := exists_prefix member
    constructor
    · intro empty
      have device := follows earlier first made block touch
      rw [empty] at device
      exact (TouchEvent.afterAll_known _).2.deviceName device
    · intro second memberSecond other touchOther
      obtain ⟨others, madeOther⟩ := exists_prefix memberSecond
      -- One of the two connections was made before the other.
      rcases List.prefix_or_prefix_of_prefix made madeOther with before | behind
      · exact follows.stays before madeOther touch touchOther
      · exact (follows.stays behind made touchOther touch).symm
  · intro one earlier last made block touch
    cases (TouchEvent.afterAll_known (earlier ++ [last])).1 with
    | searching searching none =>
      rw [none last (by simp)] at touch
      contradiction
    | found found connection member other touchOther device =>
      obtain ⟨path, same⟩ := one connection (made.subset member) other touchOther
      rw [device path, same last (made.subset (by simp)) block touch]

/-- A device whose touch screen has this path. -/
def screenAt (path : JString) (plain : 0x3A ∉ path) : Connection where
  usage := []
  output.preamble := []
  output.blocks := [{
    number := JString.decimal 1
    path := path
    body := [.name ⟨[], JString.ofString "touchscreen", nofun, by
      rw [JString.ofString_ofList]
      decide⟩]
    plainNumber := by decide
    plainPath := plain }]

/-- The touch screen is found. -/
theorem screenAt_touch (path : JString) (plain : 0x3A ∉ path) :
    ∃ block, (screenAt path plain).touchBlock = some block ∧ block.device = JString.trim path := by
  have word : isTouch (JString.ofString "touchscreen") = true := by
    rw [isTouch, JString.contains_iff.mpr (List.infix_refl _), Bool.true_or]
  refine ⟨_, List.find?_cons_of_pos ?_, rfl⟩
  simp [DeviceBlock.touch, BlockLine.touch, word]

/-- The touch screen of a first device. -/
def firstScreen : Connection :=
  screenAt (JString.ofString "/dev/input/event1") (by
    rw [JString.ofString_ofList]
    decide)

/-- The touch screen of a second device. -/
def secondScreen : Connection :=
  screenAt (JString.ofString "/dev/input/event2") (by
    rw [JString.ofString_ofList]
    decide)

/-- The touch screen of a second device is not taken over. -/
theorem discovery_second : ¬ FollowsDevice [firstScreen, secondScreen] := by
  -- Both connections have a touch device, and the paths differ.
  intro follows
  obtain ⟨block, touch, device⟩ := screenAt_touch (JString.ofString "/dev/input/event1") _
  obtain ⟨other, touchOther, deviceOther⟩ := screenAt_touch (JString.ofString "/dev/input/event2") _
  have before : [] ++ [firstScreen] <+: [firstScreen] ++ [secondScreen] := List.prefix_append _ _
  have same := follows.stays before (List.prefix_refl _) touch touchOther
  rw [device, deviceOther, JString.ofString_ofList, JString.ofString_ofList] at same
  exact absurd same (by decide)

end Runs

end AndroidApps.TouchPc
