import AndroidApps.CommonLib.HdmiNotification
import AndroidApps.CommonLib.HdmiRulesLaws

/-! Which lines of the log change the connection: patterns against lines in lower case. -/

namespace AndroidApps.CommonLib

section Rules

/-- A letter of A to Z in lower case. -/
def lowerUnit (unit : UInt16) : UInt16 := if 0x41 ≤ unit ∧ unit ≤ 0x5A then unit + 0x20 else unit

/-- The lists of the rules are of one length, which is the one that was counted. -/
structure AlignedRules (watch : HdmiWatch) : Prop where
  dirs : watch.tables.logConnectionsDir.length = watch.logLength
  connections : watch.tables.logConnections.length = watch.logLength
  disconnections : watch.tables.logDisconnections.length = watch.logLength

namespace HdmiWatch

variable (watch : HdmiWatch)

/-- The modes and the patterns that matter while something is connected, or while nothing is. -/
def rules (connected : Bool) : List (UInt16 × JString) :=
  watch.tables.logConnectionsDir.zip
    (if connected then watch.tables.logDisconnections else watch.tables.logConnections)

/-- A rule applies to a line as it stands. -/
def Hits (connected : Bool) (data : JString) : Prop :=
  ∃ rule ∈ watch.rules connected, WdhcTables.ruleMatches data rule.1 rule.2 = true

/-- A rule applies to a line when the case of the letters is ignored. -/
def HitsIgnoringCase (connected : Bool) (data : JString) : Prop :=
  ∃ rule ∈ watch.rules connected,
    WdhcTables.ruleMatches (watch.toLowerCase data) rule.1 (watch.toLowerCase rule.2) = true

/-- A rule that ignores the case has a pattern without capitals. -/
def HitsInLowerCase (connected : Bool) (data : JString) : Prop :=
  ∃ rule ∈ watch.rules connected, watch.toLowerCase rule.2 = rule.2 ∧
    WdhcTables.ruleMatches (watch.toLowerCase data) rule.1 (watch.toLowerCase rule.2) = true

/-- The words that a line has to contain. -/
def mentions (data : JString) : Bool :=
  JString.contains data (JString.ofString "hdmi") ||
  JString.contains data (JString.ofString "tvout")

end HdmiWatch

/-- A line with one of the words in any case of its letters. -/
def MentionsAnyCase (data : JString) : Prop :=
  ∃ part, part <:+: data ∧
    (part.map lowerUnit = JString.ofString "hdmi" ∨ part.map lowerUnit = JString.ofString "tvout")

namespace HdmiState

variable (watch : HdmiWatch) (state : HdmiState) (data : JString)

/-- `OnLogcatData` with a line, from its start to its end, with no other thread in between. -/
def Finishes (final : HdmiState) : Prop :=
  final.logcat = .idle ∧
    ∃ count, Events.run (HdmiState.step watch) state (.line data :: List.replicate count .logcat) =
      some final

/-- What a line that is spoken of does to the connection. -/
structure Handles (final : HdmiState) : Prop where
  finishes : Finishes watch state data final
  changed : watch.Hits state.isHdmiConnected data → final.isHdmiConnected = !state.isHdmiConnected
  unchanged : ¬ watch.HitsIgnoringCase state.isHdmiConnected data → final = state

/-- A line that mentions a display is handled. -/
def HandlesLine : Prop := MentionsAnyCase data → ∃ final, Handles watch state data final

/-- Whether `OnLogcatData` finds a pattern in a line. -/
def found : Bool :=
  HdmiWatch.mentions (watch.toLowerCase data) &&
    (watch.rules state.isHdmiConnected).any fun rule =>
      WdhcTables.ruleMatches (watch.toLowerCase data) rule.1 rule.2

/-- What `OnLogcatData` leaves. -/
def afterLine : HdmiState :=
  if found watch state data then (state.setConnected !state.isHdmiConnected).sendNotification
  else state

end HdmiState

end Rules

section Laws

namespace HdmiState

variable {watch : HdmiWatch} {state : HdmiState} {data : JString}

/-- The comparison that a state calls for. -/
theorem compareTo_rules (aligned : AlignedRules watch) (connected : Bool) (data : JString) :
    watch.tables.compareTo watch.logLength
        (if connected then watch.tables.logDisconnections else watch.tables.logConnections) data =
      some ((watch.rules connected).any fun rule => WdhcTables.ruleMatches data rule.1 rule.2) := by
  -- The loop counts one list and reads the two others at the same places.
  have same : watch.tables.logConnectionsDir.length =
      (if connected then watch.tables.logDisconnections
        else watch.tables.logConnections).length := by
    rw [aligned.dirs]
    cases connected with
    | true => exact aligned.disconnections.symm
    | false => exact aligned.connections.symm
  rw [← aligned.dirs, WdhcTables.compareTo_zip same]
  rfl

/-- A call of `OnLogcatData` comes to its end in the state that the patterns decide. -/
theorem finishes_afterLine (data : JString) (aligned : AlignedRules watch)
    (idle : state.logcat = .idle) :
    Finishes watch state data (afterLine watch state data) := by
  have entered : state.step watch (.line data) = some (state.onLogcatData watch data) := by
    rw [step, idle]
  have guarded : (!(watch.toLowerCase data).contains (JString.ofString "hdmi") &&
      !(watch.toLowerCase data).contains (JString.ofString "tvout")) =
      !HdmiWatch.mentions (watch.toLowerCase data) := by
    rw [HdmiWatch.mentions, Bool.not_or]
  cases words : HdmiWatch.mentions (watch.toLowerCase data) with
  | false =>
    -- The line is given up at once.
    have same : afterLine watch state data = state := by
      rw [afterLine, found, words, Bool.false_and, if_neg Bool.false_ne_true]
    have left : state.onLogcatData watch data = state := by
      rw [onLogcatData, guarded, words]
      rfl
    rw [same]
    refine ⟨idle, 0, ?_⟩
    rw [Events.run_cons]
    exact ⟨state, entered.trans (congrArg some left), rfl⟩
  | true =>
    have looked := compareTo_rules aligned state.isHdmiConnected (watch.toLowerCase data)
    have start : state.step watch (.line data) = some { state with
        logcat := .entered (watch.toLowerCase data) state.isHdmiConnected } := by
      rw [entered, onLogcatData, guarded, words]
      rfl
    rw [afterLine, found, words, Bool.true_and]
    obtain ⟨flag, listener, posts, thread, main, changes, delivered⟩ := state
    cases idle
    generalize ((watch.rules flag).any fun rule =>
      WdhcTables.ruleMatches (watch.toLowerCase data) rule.1 rule.2) = hit at looked ⊢
    have plugged : flag = false → watch.tables.compareTo watch.logLength
        watch.tables.logConnections (watch.toLowerCase data) = some hit := by
      rintro rfl
      exact looked
    have unplugged : flag = true → watch.tables.compareTo watch.logLength
        watch.tables.logDisconnections (watch.toLowerCase data) = some hit := by
      rintro rfl
      exact looked
    cases hit with
    | true =>
      -- The flag is read, the pattern is found, and the change is noticed and posted.
      refine ⟨rfl, 4, Events.run_cons.mpr ⟨_, start, ?_⟩⟩
      cases flag with
      | true =>
        simp [Events.run, List.replicate, step, stepLogcat, unplugged, setConnected,
          sendNotification]
      | false =>
        simp [Events.run, List.replicate, step, stepLogcat, plugged, setConnected,
          sendNotification]
    | false =>
      refine ⟨rfl, 3, Events.run_cons.mpr ⟨_, start, ?_⟩⟩
      cases flag with
      | true => simp [Events.run, List.replicate, step, stepLogcat, unplugged]
      | false => simp [Events.run, List.replicate, step, stepLogcat, plugged]

/-- A call of `OnLogcatData` has one end. -/
theorem Finishes.unique {first second : HdmiState} (one : Finishes watch state data first)
    (other : Finishes watch state data second) : first = second := by
  -- The first step is the line itself, and an idle reader makes no step of its own.
  obtain ⟨ended, few, ran⟩ := one
  obtain ⟨also, many, again⟩ := other
  obtain ⟨next, taken, later⟩ := Events.run_cons.mp ran
  obtain ⟨next', taken', later'⟩ := Events.run_cons.mp again
  rw [taken] at taken'
  cases taken'
  have stuck : ∀ state : HdmiState, state.logcat = .idle → state.step watch .logcat = none := by
    intro state idle
    rw [step, stepLogcat, idle]
  exact Events.run_replicate_unique stuck later ended later' also

/-- The flag behind a line is the other one exactly if a pattern was found. -/
theorem afterLine_flag : (afterLine watch state data).isHdmiConnected = !state.isHdmiConnected ↔
    found watch state data = true := by
  rw [afterLine]
  cases found watch state data with
  | true => simp [setConnected, sendNotification]
  | false => simp

/-- A line to which a rule applies has the pattern of the rule in it. -/
theorem infix_of_ruleMatches {data src : JString} {dir : UInt16}
    (applies : WdhcTables.ruleMatches data dir src = true) : src <:+: data := by
  -- Every mode asks for the pattern somewhere in the line.
  unfold WdhcTables.ruleMatches at applies
  split at applies
  · exact JString.contains_iff.mp applies
  · split at applies
    · exact (List.isSuffixOf_iff_suffix.mp applies).isInfix
    · split at applies
      · exact (List.isPrefixOf_iff_prefix.mp applies).isInfix
      · rw [decide_eq_true_eq] at applies
        exact applies ▸ List.infix_refl data

/-- A pattern found in a line in lower case has no capitals. -/
theorem found_iff
    (stays : ∀ text piece, piece <:+: watch.toLowerCase text → watch.toLowerCase piece = piece) :
    found watch state data = true ↔
      HdmiWatch.mentions (watch.toLowerCase data) = true ∧
        watch.HitsInLowerCase state.isHdmiConnected data := by
  -- A pattern is compared as it is with a line in lower case.
  rw [found, Bool.and_eq_true, List.any_eq_true, HdmiWatch.HitsInLowerCase]
  refine and_congr_right fun _ => exists_congr fun rule => and_congr_right fun _ => ?_
  constructor
  · intro applies
    have lower := stays _ _ (infix_of_ruleMatches applies)
    exact ⟨lower, lower.symm ▸ applies⟩
  · rintro ⟨lower, applies⟩
    rwa [lower] at applies

/--
A line is handled as it should be exactly if a rule without capitals sees what any rule sees.

The hypothesis is what the lower case of a text is documented to be: no part of it has capitals.
-/
theorem onLogcatData_handles_iff (watch : HdmiWatch) (state : HdmiState) (data : JString)
    (aligned : AlignedRules watch) (idle : state.logcat = .idle)
    (stays : ∀ text piece, piece <:+: watch.toLowerCase text →
      watch.toLowerCase piece = piece) :
    HandlesLine watch state data ↔
      (MentionsAnyCase data → watch.Hits state.isHdmiConnected data →
        HdmiWatch.mentions (watch.toLowerCase data) = true ∧
          watch.HitsInLowerCase state.isHdmiConnected data) := by
  have ends := finishes_afterLine data aligned idle
  refine forall_congr' fun _ => ?_
  rw [← found_iff stays, ← afterLine_flag]
  constructor
  · rintro ⟨final, handled⟩ hits
    rw [ends.unique handled.finishes]
    exact handled.changed hits
  · intro changes
    refine ⟨_, ends, changes, fun missed => ?_⟩
    cases hit : found watch state data with
    | true =>
      -- What is found in lower case is found when the case is ignored.
      obtain ⟨-, rule, listed, -, applies⟩ := (found_iff stays).mp hit
      exact absurd ⟨rule, listed, applies⟩ missed
    | false => rw [afterLine, hit, if_neg Bool.false_ne_true]

/-- No letter is lowered twice. -/
theorem lowerUnit_lowerUnit (unit : UInt16) : lowerUnit (lowerUnit unit) = lowerUnit unit := by
  by_cases capital : 0x41 ≤ unit ∧ unit ≤ 0x5A
  · -- What a capital becomes is above the capitals.
    have above : ¬ (0x41 ≤ unit + 0x20 ∧ unit + 0x20 ≤ 0x5A) := by
      simp only [UInt16.le_iff_toNat_le, UInt16.toNat_add, UInt16.reduceToNat] at capital ⊢
      omega
    have once : lowerUnit unit = unit + 0x20 := if_pos capital
    rw [once, lowerUnit, if_neg above]
  · have once : lowerUnit unit = unit := if_neg capital
    rw [once, once]

/-- Lines are lowered letter by letter. -/
theorem builtInWatch_stays (text piece : JString)
    (part : piece <:+: builtInWatch.toLowerCase text) :
    builtInWatch.toLowerCase piece = piece := by
  -- A part of a text in lower case has no capitals left to change.
  have lowered : ∀ unit ∈ piece, lowerUnit unit = id unit := by
    intro unit member
    have inside : unit ∈ text.map lowerUnit := part.subset member
    obtain ⟨capital, -, rfl⟩ := List.mem_map.mp inside
    exact lowerUnit_lowerUnit capital
  exact (List.map_congr_left lowered).trans (List.map_id piece)

/-- The built-in rules are aligned. -/
theorem builtInWatch_aligned : AlignedRules builtInWatch := by
  -- Counting one of the lists is enough, the others are as long.
  have aligned := (WdhcTables.aligned_iff staticInfo).mpr staticInfo_balanced
  have dirs : (WdhcTables.ofLines staticInfo).logConnectionsDir.length = 8 := by
    rw [WdhcTables.ofLines_dirs]
    unfold staticInfo
    repeat rw [JString.ofString_ofList]
    decide +kernel
  have connections := aligned.dirs_length.symm.trans dirs
  exact ⟨dirs, connections, aligned.connections_length.symm.trans connections⟩

/-- A line of the log that mentions a display. -/
def audioLine : JString := JString.ofString "W/AudioService: HDMI connected"

/-- The built-in rules and a line that tells that a display was connected. -/
theorem onLogcatData_handles_audio :
    HandlesLine builtInWatch .new audioLine ↔
      (MentionsAnyCase audioLine → builtInWatch.Hits false audioLine →
        HdmiWatch.mentions (builtInWatch.toLowerCase audioLine) = true ∧
          builtInWatch.HitsInLowerCase false audioLine) :=
  onLogcatData_handles_iff builtInWatch .new audioLine builtInWatch_aligned rfl builtInWatch_stays

/-- A line of a driver. -/
def driverLine : JString := JString.ofString "E/LIBHDMI(  99): HDMIStart()"

/-- A built-in pattern with capitals, with which no line in lower case can end. -/
theorem onLogcatData_driverLine : ¬ HandlesLine builtInWatch .new driverLine := by
  -- The line hits a rule as it stands, but its pattern has capitals that a lowered line has not.
  intro handles
  have mentioned : MentionsAnyCase driverLine :=
    ⟨JString.ofString "HDMI", ⟨JString.ofString "E/LIB", JString.ofString "(  99): HDMIStart()",
      by decide +kernel⟩, .inl (by decide +kernel)⟩
  have hits : builtInWatch.Hits false driverLine := by
    unfold HdmiWatch.Hits HdmiWatch.rules builtInWatch staticInfo driverLine
    repeat rw [JString.ofString_ofList]
    decide +kernel
  have missed : found builtInWatch .new driverLine = false := by
    unfold found HdmiWatch.mentions HdmiWatch.rules builtInWatch staticInfo driverLine
    repeat rw [JString.ofString_ofList]
    decide +kernel
  obtain ⟨final, handled⟩ := handles mentioned
  have same := handled.finishes.unique (finishes_afterLine driverLine builtInWatch_aligned rfl)
  have changed := handled.changed hits
  rw [same, afterLine_flag, missed] at changed
  simp at changed

end HdmiState

end Laws

end AndroidApps.CommonLib
