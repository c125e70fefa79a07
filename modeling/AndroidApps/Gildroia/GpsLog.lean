import AndroidApps.Gildroia.GpsThread
import AndroidApps.Lib.JavaTextLaws
import AndroidApps.Lib.Utf8

/-! The lines of a GPS log, what is read from them, and a log that is played from end to end. -/

namespace AndroidApps.Gildroia

open JString

section Source

/-- The arguments of a `java.util.Date`. -/
structure LogDate where
  year : Int
  month : Int
  date : Int
  hrs : Int
  min : Int
  sec : Int
  deriving DecidableEq

/-- The arguments of `OnGpsLogLocation`. -/
structure LogLocation (δ φ : Type) where
  lon : δ
  lat : δ
  speed : φ
  angle : φ
  date : LogDate
  deriving DecidableEq

/-- `Double.valueOf`, `Float.valueOf` and `Character.digit`. -/
structure LogReaders (δ φ : Type) where
  double : JString → Option δ
  float : JString → Option φ
  digits : CharacterDigit

variable {δ φ : Type}

/-- `Integer.valueOf` of a part of a text. -/
def LogReaders.part (readers : LogReaders δ φ) (text : JString) (first last : Int) : Option Int :=
  (substring text first last).bind (parseInt readers.digits.digit)

/-- `parseLocationLog`: what is passed on to the listener if anything is, or an exception. -/
def parseLocationLog (readers : LogReaders δ φ) (logString : JString) :
    Option (Option (LogLocation δ φ)) :=
  match split 0x20 logString with
  | token0 :: token1 :: _ :: _ :: _ :: speed :: _ :: _ :: _ :: token9 :: _ :: date :: time ::
      _ => do
    let strLat ← substring token0 2 (token0.length - 1)
    let strLon ← substring token1 1 (token1.length - 1)
    let course ← substring token9 0 (token9.length - 1)
    let nYear ← readers.part date 0 4
    let nMon ← readers.part date 5 7
    let nDay ← readers.part date 8 10
    let nHour ← readers.part time 0 2
    let nMin ← readers.part time 3 5
    let nSec ← readers.part time 6 8
    let lon ← readers.double strLon
    let lat ← readers.double strLat
    let speed ← readers.float speed
    let angle ← readers.float course
    return some ⟨lon, lat, speed, angle, ⟨nYear - 1900, nMon - 1, nDay, nHour, nMin, nSec⟩⟩
  | _ => some none

end Source

section Lines

/-- The decimal digits of a number, in a fixed width. -/
def padded : Nat → Nat → JString
  | 0, _ => []
  | width + 1, value => padded width (value / 10) ++ [digitUnit (value % 10)]

/-- A unit of a word of a log. -/
def LogPlain (unit : UInt16) : Prop := unit < 0x80 ∧ unit ≠ 0x20 ∧ unit ≠ 0x0A

instance : DecidablePred LogPlain := fun _ => inferInstanceAs (Decidable (_ ∧ _))

/-- A word of a log. -/
abbrev LogWord : Type := { word : JString // ∀ unit ∈ word, LogPlain unit }

/-- A line of a log: its numbers, its signs, and the words that are passed over. -/
structure LogLine where
  latSign : { unit : UInt16 // LogPlain unit }
  latitude : LogWord
  lonSign : { unit : UInt16 // LogPlain unit }
  longitude : LogWord
  accuracy : LogWord × LogWord × LogWord
  speed : LogWord
  labels : LogWord × LogWord × LogWord
  course : LogWord
  mark : LogWord
  year : Fin 10000
  month : Fin 100
  day : Fin 100
  hour : Fin 100
  minute : Fin 100
  second : Fin 100
  timeZone : LogWord
  zoned : timeZone.1 ≠ []

namespace LogLine

/-- The date of a line. -/
def date (line : LogLine) : JString :=
  padded 4 line.year ++ 0x2D :: (padded 2 line.month ++ 0x2D :: padded 2 line.day)

/-- The time of a line. -/
def time (line : LogLine) : JString :=
  padded 2 line.hour ++ 0x3A :: (padded 2 line.minute ++ 0x3A :: padded 2 line.second)

/-- The words of a line in front of the last one. -/
def words (line : LogLine) : List JString :=
  [0x3C :: line.latSign :: (line.latitude.1 ++ [0x2C]),
    line.lonSign :: (line.longitude.1 ++ [0x3E]),
    line.accuracy.1, line.accuracy.2.1, line.accuracy.2.2, line.speed, line.labels.1,
    line.labels.2.1, line.labels.2.2, line.course.1 ++ [0x29], line.mark, line.date, line.time]

/-- The text of a line. -/
def text (line : LogLine) : JString := [0x20].intercalate (line.words ++ [line.timeZone.1])

/-- What a line says. -/
def location {δ φ : Type} (readers : LogReaders δ φ) (line : LogLine) :
    Option (LogLocation δ φ) := do
  let lon ← readers.double line.longitude
  let lat ← readers.double line.latitude
  let speed ← readers.float line.speed
  let angle ← readers.float line.course
  return ⟨lon, lat, speed, angle,
    ⟨(line.year : Nat) - 1900, (line.month : Nat) - 1, (line.day : Nat), (line.hour : Nat),
      (line.minute : Nat), (line.second : Nat)⟩⟩

end LogLine

end Lines

section Padding

/-- A padded number has as many units as its width says. -/
theorem padded_length (width : Nat) : ∀ value, (padded width value).length = width := by
  induction width with
  | zero => exact fun _ => rfl
  | succ width ih => simp [padded, ih]

/-- The units of a padded number are digits. -/
theorem mem_padded {unit : UInt16} {width : Nat} : ∀ {value : Nat}, unit ∈ padded width value →
    ∃ digit < 10, digitUnit digit = unit := by
  induction width with
  | zero => exact fun member => absurd member List.not_mem_nil
  | succ width ih =>
    intro value member
    rcases List.mem_append.mp member with before | last
    · exact ih before
    · exact ⟨value % 10, Nat.mod_lt _ (by decide), (List.mem_singleton.mp last).symm⟩

/-- The digits of a padded number are read one by one. -/
theorem mapM_padded (digits : CharacterDigit) (width : Nat) : ∀ value : Nat, ∃ values,
    (padded width value).mapM digits.digit = some values ∧
      Nat.ofDigits 10 values.reverse = value % 10 ^ width := by
  -- The induction takes the last digit off, which is the lowest one.
  induction width with
  | zero => exact fun value => ⟨[], rfl, by simp [Nat.mod_one]⟩
  | succ width ih =>
    intro value
    obtain ⟨values, read, number⟩ := ih (value / 10)
    have last : digits.digit (digitUnit (value % 10)) = some (value % 10) :=
      digit_digitUnit (Nat.mod_lt _ (by decide))
    refine ⟨values ++ [value % 10], ?_, ?_⟩
    · simp [padded, List.mapM_append, read, last]
    · rw [List.reverse_append, List.reverse_singleton, List.singleton_append, Nat.ofDigits_cons,
        number, Nat.pow_succ', Nat.mod_mul]

/-- A padded number is read as itself, if it fits its width and an `int`. -/
theorem parseInt_padded (digits : CharacterDigit) {width value : Nat} (filled : width ≠ 0)
    (fits : value < 10 ^ width) (small : width ≤ 9) :
    parseInt digits.digit (padded width value) = some (value : Int) := by
  have some : padded width value ≠ [] := by
    intro empty
    exact filled (by simpa [empty] using (padded_length width value).symm)
  have unsigned : ∀ sign : UInt16, sign < 0x30 → ∀ rest, padded width value ≠ sign :: rest := by
    intro sign below rest first
    obtain ⟨digit, single, same⟩ :=
      mem_padded (first ▸ List.mem_cons_self : sign ∈ padded width value)
    exact digitUnit_ne single below same
  obtain ⟨values, read, number⟩ := mapM_padded digits width value
  rw [parseInt_unsigned digits (unsigned 0x2D (by decide)) (unsigned 0x2B (by decide)), magnitude,
    magnitudeIn, if_neg some, read, Option.map_some, number, Nat.mod_eq_of_lt fits,
    Option.bind_some, checked, if_pos]
  -- Nine digits are fewer than an `int` has room for.
  have bound : 10 ^ width ≤ 10 ^ 9 := Nat.pow_le_pow_right (by decide) small
  omega

end Padding

section Reading

namespace LogLine

variable {δ φ : Type} (readers : LogReaders δ φ) (line : LogLine)

/-- The units of a padded number are plain. -/
theorem plain_padded {unit : UInt16} {width value : Nat} (member : unit ∈ padded width value) :
    LogPlain unit := by
  obtain ⟨digit, single, rfl⟩ := mem_padded member
  exact ⟨digitUnit_small single, digitUnit_ne single (by decide), digitUnit_ne single (by decide)⟩

/-- The words of a line are plain. -/
theorem plain_words : ∀ word ∈ line.words ++ [line.timeZone.1], ∀ unit ∈ word, LogPlain unit := by
  have number : ∀ width value, ∀ unit ∈ padded width value, LogPlain unit :=
    fun _ _ _ => plain_padded
  have signs : LogPlain 0x3C ∧ LogPlain 0x2C ∧ LogPlain 0x3E ∧ LogPlain 0x29 ∧ LogPlain 0x2D ∧
      LogPlain 0x3A := by
    decide
  -- A word is one that was given, with a mark at its ends, or is made of padded numbers.
  simp only [words, date, time, List.cons_append, List.nil_append, List.forall_mem_cons,
    List.forall_mem_append]
  simp only [signs, line.latSign.2, line.lonSign.2, List.not_mem_nil, false_imp_iff, forall_const,
    true_and, and_true]
  exact ⟨line.latitude.2, line.longitude.2, line.accuracy.1.2, line.accuracy.2.1.2,
    line.accuracy.2.2.2, line.speed.2, line.labels.1.2, line.labels.2.1.2, line.labels.2.2.2,
    line.course.2, line.mark.2, ⟨number 4 _, number 2 _, number 2 _⟩,
    ⟨number 2 _, number 2 _, number 2 _⟩, line.timeZone.2⟩

/-- The text of a line is cut into its words. -/
theorem split_text : split 0x20 line.text = line.words ++ [line.timeZone.1] := by
  refine split_intercalate (List.cons_ne_nil _ _) ?_ line.zoned
  intro word member blank
  exact (line.plain_words word member 0x20 blank).2.1 rfl

/-- A number between two parts of a text is read. -/
theorem part_padded (front : JString) (width value : Nat) (back : JString) {first last : Int}
    (begins : first = front.length) (ends : last = ((front.length + width : Nat) : Int))
    (filled : width ≠ 0) (fits : value < 10 ^ width) (small : width ≤ 9) :
    readers.part (front ++ (padded width value ++ back)) first last = some (value : Int) := by
  rw [LogReaders.part, substring_middle rfl begins (by rw [ends, padded_length]), Option.bind_some,
    parseInt_padded readers.digits filled fits small]

/-- The three numbers of a date or a time, the first one of some width. -/
theorem part_three (sign : UInt16) (width value second third : Nat) (filled : width ≠ 0)
    (small : width ≤ 9) (fits : value < 10 ^ width) (fits₂ : second < 100) (fits₃ : third < 100) :
    let text := padded width value ++ sign :: (padded 2 second ++ sign :: padded 2 third)
    readers.part text 0 width = some (value : Int) ∧
      readers.part text (width + 1) (width + 3) = some (second : Int) ∧
      readers.part text (width + 4) (width + 6) = some (third : Int) := by
  intro text
  refine ⟨?_, ?_, ?_⟩
  · refine part_padded readers [] width value _ rfl ?_ filled fits small
    simp
  · -- The second number stands behind the first one and a sign.
    have put : text = (padded width value ++ [sign]) ++
        (padded 2 second ++ sign :: padded 2 third) := by simp [text]
    rw [put]
    refine part_padded readers _ 2 second _ ?_ ?_ (by decide) fits₂ (by decide)
    · simp [padded_length]
    · simp [padded_length]
      omega
  · -- The third number stands behind both and another sign.
    have put : text = (padded width value ++ sign :: (padded 2 second ++ [sign])) ++
        (padded 2 third ++ []) := by simp [text]
    rw [put]
    refine part_padded readers _ 2 third _ ?_ ?_ (by decide) fits₃ (by decide)
    · simp [padded_length]
    · simp [padded_length]
      omega

/-- The part of a word behind some marks and in front of the last one. -/
theorem substring_marked (front middle : JString) (last : UInt16) (first : Int)
    (begins : first = front.length) :
    substring (front ++ (middle ++ [last])) first
      ((front ++ (middle ++ [last])).length - 1) = some middle := by
  refine substring_middle rfl begins ?_
  simp only [List.length_append, List.length_singleton]
  omega

/-- A line is read as what it says, with the numbers behind its signs. -/
theorem parseLocationLog_text :
    parseLocationLog readers line.text = (line.location readers).map some := by
  obtain ⟨year, month, day⟩ := part_three readers 0x2D 4 line.year line.month line.day (by decide)
    (by decide) line.year.isLt line.month.isLt line.day.isLt
  obtain ⟨hour, minute, second⟩ := part_three readers 0x3A 2 line.hour line.minute line.second
    (by decide) (by decide) line.hour.isLt line.minute.isLt line.second.isLt
  -- The sign of the latitude is cut off with its bracket, and so is that of the longitude.
  have lat := substring_marked [0x3C, line.latSign.1] line.latitude.1 0x2C 2 rfl
  have lon := substring_marked [line.lonSign.1] line.longitude.1 0x3E 1 rfl
  have course := substring_marked [] line.course.1 0x29 0 rfl
  simp only [List.cons_append, List.nil_append] at lat lon course
  rw [parseLocationLog, split_text]
  simp only [words, List.cons_append, List.nil_append, lat, lon, course, date, time]
  simp only [Nat.cast_ofNat, Int.reduceAdd] at year month day hour minute second
  simp only [year, month, day, hour, minute, second, location, Option.bind_eq_bind,
    Option.bind_some, Option.pure_def]
  -- What is left is the reading of the four numbers, in the same order on both sides.
  cases readers.double line.longitude.1 with
  | none => rfl
  | some lon =>
    cases readers.double line.latitude.1 with
    | none => rfl
    | some lat =>
      cases readers.float line.speed.1 with
      | none => rfl
      | some speed => cases readers.float line.course.1 <;> rfl

end LogLine

end Reading

section Playing

open GpsThread

variable {δ φ : Type} (readers : LogReaders δ φ)

/-- The bytes of a line, and of the end of the line. -/
def LogLine.bytes (line : LogLine) : List UInt8 := ascii line.text ++ [0x0A]

/-- The bytes of some lines. -/
def logBytes (lines : List LogLine) : List UInt8 := lines.flatMap LogLine.bytes

/-- A line of plain units and blanks is read up to its end. -/
theorem readOneLineStream_ascii (rest : List UInt8) : ∀ {line : JString},
    (∀ unit ∈ line, unit < 0x80 ∧ unit ≠ 0x0A) →
      Global.readOneLineStream (ascii line ++ 0x0A :: rest) = (line, rest) := by
  intro line
  induction line with
  | nil => exact fun _ => rfl
  | cons unit line ih =>
    intro plain
    obtain ⟨⟨small, noEnd⟩, others⟩ := List.forall_mem_cons.mp plain
    have back := toUInt16_toUInt8 small
    -- The byte of the unit is no end of a line, as the unit can be told from it.
    have byte : unit.toUInt8 ≠ 0x0A := by
      intro same
      rw [same] at back
      exact noEnd back.symm
    show Global.readOneLineStream (unit.toUInt8 :: (ascii line ++ 0x0A :: rest)) = _
    rw [Global.readOneLineStream, if_neg byte, ih others, back]

/-- The units of the text of a line are those of its words, and blanks. -/
theorem LogLine.plain_text (line : LogLine) :
    ∀ unit ∈ line.text, unit < 0x80 ∧ unit ≠ 0x0A := by
  obtain ⟨first, others, words⟩ : ∃ first others,
      line.words ++ [line.timeZone.1] = first :: others := ⟨_, _, rfl⟩
  have plain := line.plain_words
  intro unit member
  rw [text, words, intercalate_cons] at member
  rw [words] at plain
  rcases List.mem_append.mp member with here | behind
  · have of := plain first List.mem_cons_self unit here
    exact ⟨of.1, of.2.2⟩
  · -- In front of each other word there is a blank.
    obtain ⟨word, among, inside⟩ := List.mem_flatMap.mp behind
    rcases List.mem_cons.mp inside with rfl | inside
    · decide
    · have of := plain word (List.mem_cons_of_mem _ among) unit inside
      exact ⟨of.1, of.2.2⟩

/-- A line is longer than twenty units. -/
theorem LogLine.long_text (line : LogLine) : 20 < line.text.length := by
  -- The date and the time are long enough with the blanks between the words.
  simp only [text, words, List.cons_append, intercalate_cons, List.flatMap_cons,
    List.length_append, List.length_cons, date, time, padded_length]
  omega

variable {ρ : Type} {parse : JString → Option (Option ρ)} {gps : GpsThread ρ} {thread : Nat}
  {phase other : LogPhase} {url : JString}

/-- A thread whose turn it is takes the step of its place. -/
theorem step_goes (there : gps.threads[thread]? = some phase) (running : gps.crash = none) :
    step parse gps (.goes thread) = gps.goes parse thread phase := by
  simp [step, running, there]

/-- A thread stands where it has come to. -/
theorem enter_there (there : gps.threads[thread]? = some phase) (other : LogPhase) :
    (gps.enter thread other).threads[thread]? = some other :=
  List.getElem?_set_self (List.getElem?_eq_some_iff.mp there).1

/-- A thread that goes on twice has come to the second place. -/
theorem enter_enter (gps : GpsThread ρ) (thread : Nat) (phase other : LogPhase) :
    (gps.enter thread phase).enter thread other = gps.enter thread other := by
  simp [GpsThread.enter]

/-- More was reported. -/
def hear (gps : GpsThread ρ) (reports : List (JString × ρ)) : GpsThread ρ :=
  { gps with reports := gps.reports ++ reports }

/-- A line is reported in four steps, from one test of the loop to the next. -/
theorem play_line {line : JString} {report : ρ} {inputStream rest : List UInt8}
    (read : Global.readOneLineStream inputStream = (line, rest)) (long : 20 < line.length)
    (parsed : parse line = some (some report))
    (there : gps.threads[thread]? = some (.testing url inputStream))
    (told : gps.gpsLogThreadRunning = true) (running : gps.crash = none) :
    Events.run (step parse) gps (List.replicate 4 (.goes thread)) =
      some ((hear gps [(url, report)]).enter thread (.testing url rest)) := by
  -- The loop is gone on with, since the thread was not told to stop.
  have first : step parse gps (.goes thread) =
      some (gps.enter thread (.reading url inputStream)) := by
    rw [step_goes there running, goes, if_pos told]
  -- The line is long enough to be one of a location.
  have second : step parse (gps.enter thread (.reading url inputStream)) (.goes thread) =
      some (gps.enter thread (.parsing url rest line)) := by
    rw [step_goes (enter_there there _) running, goes, read]
    simp only [if_neg (Nat.not_le.mpr long), enter_enter]
  have third : step parse (gps.enter thread (.parsing url rest line)) (.goes thread) =
      some ((hear gps [(url, report)]).enter thread (.sleeping url rest)) := by
    rw [step_goes (enter_there there _) running, goes, parsed]
    simp only [enter_enter]
    rfl
  have fourth : step parse ((hear gps [(url, report)]).enter thread (.sleeping url rest))
      (.goes thread) = some ((hear gps [(url, report)]).enter thread (.testing url rest)) := by
    have there : (hear gps [(url, report)]).threads[thread]? = _ := there
    rw [step_goes (enter_there there _) running, goes, enter_enter]
  refine Events.run_cons.mpr ⟨_, first, Events.run_cons.mpr ⟨_, second, ?_⟩⟩
  exact Events.run_cons.mpr ⟨_, third, Events.run_cons.mpr ⟨_, fourth, rfl⟩⟩

/-- The lines of a log are reported one after the other, up to the end of the log. -/
theorem play_lines {rest : List UInt8} (short : (Global.readOneLineStream rest).1.length ≤ 20)
    {lines : List LogLine} : ∀ {gps : GpsThread (LogLocation δ φ)} {locations},
      lines.mapM (LogLine.location readers) = some locations →
      gps.threads[thread]? = some (.testing url (logBytes lines ++ rest)) →
      gps.gpsLogThreadRunning = true → gps.crash = none →
      Events.run (step (parseLocationLog readers)) gps
          (List.replicate (4 * lines.length + 3) (.goes thread)) =
        some ((hear gps (locations.map (url, ·))).enter thread .opening) := by
  induction lines with
  | nil =>
    intro gps locations said there told running
    obtain rfl : [] = locations := by simpa using said
    -- A short line ends the log, and the thread comes back to where it opens it.
    have first : step (parseLocationLog readers) gps (.goes thread) =
        some (gps.enter thread (.reading url rest)) := by
      rw [step_goes there running, goes, if_pos told]
      rfl
    have second : step (parseLocationLog readers) (gps.enter thread (.reading url rest))
        (.goes thread) = some (gps.enter thread (.closing true)) := by
      rw [step_goes (enter_there there _) running, goes]
      simp only [if_pos short, enter_enter]
    have third : step (parseLocationLog readers) (gps.enter thread (.closing true))
        (.goes thread) = some (gps.enter thread .opening) := by
      rw [step_goes (enter_there there _) running, goes, if_pos rfl, enter_enter]
    have nothing : hear gps [] = gps := by simp [hear]
    rw [List.map_nil, nothing]
    exact Events.run_cons.mpr ⟨_, first, Events.run_cons.mpr ⟨_, second,
      Events.run_cons.mpr ⟨_, third, rfl⟩⟩⟩
  | cons line lines ih =>
    intro gps locations said there told running
    rw [List.mapM_cons] at said
    obtain ⟨location, one, said⟩ := Option.bind_eq_some_iff.mp said
    obtain ⟨others, more, said⟩ := Option.bind_eq_some_iff.mp said
    cases said
    -- The first line is what stands in front of the first end of a line.
    have read : Global.readOneLineStream (logBytes (line :: lines) ++ rest) =
        (line.text, logBytes lines ++ rest) := by
      rw [logBytes, List.flatMap_cons, LogLine.bytes, List.append_assoc, List.append_assoc]
      exact readOneLineStream_ascii _ line.plain_text
    have parsed : parseLocationLog readers line.text = some (some location) := by
      rw [line.parseLocationLog_text, one, Option.map_some]
    have steps : 4 * (line :: lines).length + 3 = 4 + (4 * lines.length + 3) := by
      rw [List.length_cons]
      omega
    rw [steps, List.replicate_add]
    -- Four steps report it, and the others belong to the lines behind it.
    refine Events.run_append (play_line read line.long_text parsed there told running) ?_
    have next : (hear gps [(url, location)]).threads[thread]? = _ := there
    rw [ih more (enter_there next _) told running]
    simp [hear, GpsThread.enter]

/-- The steps of the caller that ask for a log while none is played. -/
def asked (url : JString) : List GpsEvent := .play url :: List.replicate 4 .proceed

/-- One round of a log that is played from its beginning to its end. -/
def lap (log : List UInt8) (lines : Nat) : List GpsEvent :=
  .opens 0 (some log) :: List.replicate (4 * lines + 3) (.goes 0)

/-- A thread stands where it opens the log of a URL, and has not been told to stop. -/
structure OpensLog (gps : GpsThread ρ) (url : JString) : Prop where
  there : gps.threads[0]? = some .opening
  url : gps.gpsLogUrl = url
  told : gps.gpsLogThreadRunning = true
  running : gps.crash = none

/-- Each round reports the locations of all lines, and leads back to where the log is opened. -/
theorem play_rounds {lines : List LogLine} {locations : List (LogLocation δ φ)} {rest : List UInt8}
    (said : lines.mapM (LogLine.location readers) = some locations)
    (short : (Global.readOneLineStream rest).1.length ≤ 20) (rounds : Nat) :
    ∀ {gps : GpsThread (LogLocation δ φ)}, OpensLog gps url → ∃ final,
      Events.run (step (parseLocationLog readers)) gps
        (List.replicate rounds (lap (logBytes lines ++ rest) lines.length)).flatten = some final ∧
      final.reports = gps.reports ++
        (List.replicate rounds (locations.map (url, ·))).flatten := by
  induction rounds with
  | zero =>
    intro gps _
    exact ⟨gps, rfl, (List.append_nil _).symm⟩
  | succ rounds ih =>
    intro gps opening
    obtain ⟨there, rfl, told, running⟩ := opening
    have opened : step (parseLocationLog readers) gps (.opens 0 (some (logBytes lines ++ rest))) =
        some (gps.enter 0 (.testing gps.gpsLogUrl (logBytes lines ++ rest))) := by
      simp [step, running, there]
    have tests : (gps.enter 0 (.testing gps.gpsLogUrl (logBytes lines ++ rest))).threads[0]? =
        some (.testing gps.gpsLogUrl (logBytes lines ++ rest)) := enter_there there _
    have played := play_lines readers short said tests told running
    -- The thread stands again where it did, with the locations of one more round.
    have stands : (hear (gps.enter 0 (.testing gps.gpsLogUrl (logBytes lines ++ rest)))
        (locations.map (gps.gpsLogUrl, ·))).threads[0]? = _ := tests
    have again := enter_there stands .opening
    obtain ⟨final, ran, heard⟩ := ih ⟨again, rfl, told, running⟩
    refine ⟨final, ?_, ?_⟩
    · rw [List.replicate_succ, List.flatten_cons]
      exact Events.run_append (Events.run_cons.mpr ⟨_, opened, played⟩) ran
    · rw [heard, List.replicate_succ, List.flatten_cons, ← List.append_assoc]
      rfl

/--
A log is played line by line, as often as there is time for.

Whatever numbers, signs and words its lines have, and with a last line that is short or missing,
each round reports the locations of all lines in their order.
-/
theorem log_played (readers : LogReaders δ φ) (lines : List LogLine)
    (locations : List (LogLocation δ φ)) (rest : List UInt8) (url : JString) (rounds : Nat)
    (said : lines.mapM (LogLine.location readers) = some locations)
    (short : (Global.readOneLineStream rest).1.length ≤ 20) :
    ∃ gps, Events.run (step (parseLocationLog readers)) {} (asked url ++
        (List.replicate rounds (lap (logBytes lines ++ rest) lines.length)).flatten) = some gps ∧
      gps.reports =
        (List.replicate rounds (locations.map (url, ·))).flatten := by
  let first : GpsThread (LogLocation δ φ) :=
    { gpsLogThread := some 0
      gpsLogThreadRunning := true
      gpsLogUrl := url
      threads := [.opening] }
  have started : Events.run (step (parseLocationLog readers)) {} (asked url) = some first := rfl
  have opening : OpensLog first url := ⟨rfl, rfl, rfl, rfl⟩
  obtain ⟨gps, ran, heard⟩ := play_rounds readers said short rounds opening
  exact ⟨gps, Events.run_append started ran, heard⟩

/-- Readers that take a text for the number it stands for. -/
def textReaders : LogReaders JString JString := ⟨some, some, .ascii⟩

/-- A word that is written in ASCII. -/
def someWord : LogWord := ⟨[0x33, 0x37, 0x2E, 0x35], by simp [LogPlain]⟩

/-- A line of a log in the north and the west. -/
def someLine : LogLine where
  latSign := ⟨0x2B, by decide⟩
  latitude := someWord
  lonSign := ⟨0x2D, by decide⟩
  longitude := someWord
  accuracy := (someWord, someWord, someWord)
  speed := someWord
  labels := (someWord, someWord, someWord)
  course := someWord
  mark := someWord
  year := 2010
  month := 12
  day := 1
  hour := 10
  minute := 11
  second := 12
  timeZone := someWord
  zoned := by decide

/-- A log of two lines is played three times; the sign of its longitude is passed over. -/
theorem log_played_twice :
    ∃ gps, Events.run (step (parseLocationLog textReaders)) {} (asked [0x61] ++
        (List.replicate 3 (lap (logBytes [someLine, someLine] ++ []) 2)).flatten) = some gps ∧
      gps.reports.map (fun report => report.2.lon) = List.replicate 6 someWord.1 := by
  obtain ⟨gps, ran, heard⟩ := log_played textReaders [someLine, someLine]
    (List.replicate 2 ⟨someWord.1, someWord.1, someWord.1, someWord.1, ⟨110, 11, 1, 10, 11, 12⟩⟩)
    [] [0x61] 3 rfl (by decide)
  refine ⟨gps, ran, ?_⟩
  rw [heard]
  rfl

end Playing

section Switching

/-- The line that a log thread is about to parse, if it is about to parse one, can be parsed. -/
def LogPhase.Parses {ρ : Type} (parse : JString → Option (Option ρ)) : LogPhase → Prop
  | .reading _ inputStream =>
    20 < (Global.readOneLineStream inputStream).1.length →
      parse (Global.readOneLineStream inputStream).1 ≠ none
  | .parsing _ _ line => parse line ≠ none
  | _ => True

namespace GpsThread

variable {ρ : Type} {parse : JString → Option (Option ρ)} {gps next : GpsThread ρ}
  {thread : Nat} {phase : LogPhase} {event : GpsEvent}

/-- A thread that comes to another place leaves the lines of the others as they are. -/
theorem parses_set {other : LogPhase} (parses : ∀ phase ∈ gps.threads, phase.Parses parse)
    (there : other.Parses parse) :
    ∀ phase ∈ gps.threads.set thread other, phase.Parses parse := by
  intro phase member
  rcases List.mem_or_eq_of_mem_set member with before | same
  · exact parses phase before
  · exact same ▸ there

/-- A log thread that was told to stop ends no application, and comes to no other line. -/
theorem parses_goes (parses : ∀ phase ∈ gps.threads, phase.Parses parse)
    (stopped : gps.gpsLogThreadRunning = false) (running : gps.crash = none)
    (there : gps.threads[thread]? = some phase) (taken : gps.goes parse thread phase = some next) :
    next.crash = none ∧ ∀ phase ∈ next.threads, phase.Parses parse := by
  have here := parses phase (List.mem_of_getElem? there)
  cases phase with
  | created => cases taken
  | opening => cases taken
  | finished => cases taken
  | testing url inputStream =>
    -- The loop is left without a further line.
    cases taken
    rw [stopped]
    exact ⟨running, parses_set parses trivial⟩
  | reading url inputStream =>
    cases taken
    refine ⟨running, parses_set parses ?_⟩
    split_ifs with short
    · trivial
    · -- The line that was read is the one that can be parsed.
      exact here (Nat.lt_of_not_le short)
  | parsing url inputStream line =>
    rw [goes] at taken
    cases parsed : parse line with
    -- An exception would have come of a line that cannot be parsed.
    | none => exact absurd parsed here
    | some report =>
      rw [parsed] at taken
      cases taken
      exact ⟨running, parses_set parses trivial⟩
  | sleeping url inputStream =>
    cases taken
    exact ⟨running, parses_set parses trivial⟩
  | closing again =>
    cases taken
    refine ⟨running, parses_set parses ?_⟩
    split_ifs <;> trivial
  | leaving =>
    cases taken
    exact ⟨running, parses_set parses trivial⟩
  | clearing =>
    cases taken
    exact ⟨running, parses_set parses trivial⟩

/-- No step but the caller's ends the application once the thread was told to stop. -/
theorem parses_step (parses : ∀ phase ∈ gps.threads, phase.Parses parse)
    (stopped : gps.gpsLogThreadRunning = false) (running : gps.crash = none)
    (other : event ≠ .proceed) (taken : step parse gps event = some next) :
    next.crash = none ∧ ∀ phase ∈ next.threads, phase.Parses parse := by
  obtain ⟨_, ⟨url, rfl, _, rfl⟩ | ⟨rfl, _⟩ |
    ⟨thread, inputStream, rfl, _, rfl⟩ | ⟨thread, phase, rfl, there, taken⟩⟩ := step_cases taken
  · exact ⟨running, parses⟩
  · exact absurd rfl other
  · refine ⟨running, parses_set parses ?_⟩
    cases inputStream <;> trivial
  · exact parses_goes parses stopped running there taken

/-- From the `join` of a call, the thread can always come to its end first. -/
theorem joining_crash {url : JString} :
    ∀ {gps : GpsThread ρ}, Inv gps → gps.call = .joining url → gps.crash = none →
      (∀ phase ∈ gps.threads, phase.Parses parse) →
      ∃ later final, Events.run (step parse) gps later = some final ∧
        final.crash = some .nullPointer := by
  intro gps
  -- The induction is on what is left to the thread; with nothing left, the field has been cleared.
  induction distance : gps.left using Nat.strong_induction_on generalizing gps with
  | _ distance ih =>
    intro inv joins running parses
    have facts := inv
    unfold Inv at facts
    rw [joins] at facts
    obtain ⟨playing, stopped⟩ := facts
    rcases playing with quiet | alone
    · refine ⟨[.proceed], { gps with crash := some .nullPointer }, ?_, rfl⟩
      simp [Events.run, step, running, GpsThread.proceed, joins, quiet.field]
    · have playing : Playing gps := Or.inr alone
      obtain ⟨last, single, alive, _⟩ := alone
      obtain ⟨event, other, enabled⟩ := turn_enabled parse single alive running
      obtain ⟨next, taken⟩ := Option.isSome_iff_exists.mp enabled
      obtain ⟨nearer, stays⟩ := left_step playing stopped (by simp [joins]) other taken
      obtain ⟨running, parses⟩ := parses_step parses stopped running other taken
      obtain ⟨later, final, ran, crashed⟩ :=
        ih next.left (distance ▸ nearer) rfl (step_inv inv taken).1 (stays.trans joins)
          running parses
      exact ⟨event :: later, final, Events.run_cons.mpr ⟨next, taken, ran⟩, crashed⟩

/--
Each call that finds a log playing can end the application, even if its lines can be parsed.

The thread that is told to stop may come to its end and clear the field before the caller reads it
again for `join`; it parses at most the line that it is at.
-/
theorem switch_can_crash (parse : JString → Option (Option ρ)) (events : List GpsEvent)
    (gps : GpsThread ρ) (url : JString) (ran : Events.run (step parse) {} events = some gps)
    (called : gps.call = .stopping url) (running : gps.crash = none)
    (parses : ∀ phase ∈ gps.threads, phase.Parses parse) :
    ∃ later final, Events.run (step parse) gps later = some final ∧
      final.crash = some .nullPointer := by
  have taken : step parse gps .proceed =
      some { gps with gpsLogThreadRunning := false, call := .joining url } := by
    simp [step, running, GpsThread.proceed, called]
  obtain ⟨later, final, ran', crashed⟩ :=
    joining_crash (step_inv (run_inv ran) taken).1 rfl running parses
  exact ⟨.proceed :: later, final, Events.run_cons.mpr ⟨_, taken, ran'⟩, crashed⟩

/-- A log is switched while its line is read, and the application ends. -/
theorem switch_can_crash_reading :
    ∃ gps, Events.run (step (parseLocationLog textReaders)) {}
        (asked [0x61] ++ [.opens 0 (some (logBytes [someLine])), .goes 0, .play [0x62]]) =
          some gps ∧
      ∃ later final, Events.run (step (parseLocationLog textReaders)) gps later = some final ∧
        final.crash = some .nullPointer := by
  obtain ⟨gps, ran⟩ : ∃ gps, Events.run (step (parseLocationLog textReaders)) {}
      (asked [0x61] ++ [.opens 0 (some (logBytes [someLine])), .goes 0, .play [0x62]]) =
        some gps := ⟨_, rfl⟩
  refine ⟨gps, ran, switch_can_crash _ _ gps [0x62] ran ?_ ?_ ?_⟩
  · cases ran
    rfl
  · cases ran
    rfl
  · -- The only thread reads the line, which is parsed.
    have read : Global.readOneLineStream (logBytes [someLine]) = (someLine.text, []) := by
      rw [logBytes, List.flatMap_singleton, LogLine.bytes]
      exact readOneLineStream_ascii [] someLine.plain_text
    cases ran
    intro phase member
    obtain rfl : phase = .reading [0x61] (logBytes [someLine]) := List.mem_singleton.mp member
    intro _
    rw [read, someLine.parseLocationLog_text]
    simp [LogLine.location, textReaders]

end GpsThread

end Switching

end AndroidApps.Gildroia
