import AndroidApps.CommonLib.HttpDownload

/-! When a download brings the whole resource, and when it only says so. -/

namespace AndroidApps.CommonLib

section Streams

/-- All bytes of a stream. -/
def body (arrivals : List Arrival) : List UInt8 :=
  arrivals.flatMap fun arrival => match arrival with
    | .bytes data => data
    | .fault => []

/-- A stream that ends without an exception. -/
def Intact (arrivals : List Arrival) : Prop := Arrival.fault ∉ arrivals

instance (arrivals : List Arrival) : Decidable (Intact arrivals) := by
  unfold Intact
  infer_instance

/-- What a `read` says of the stream and of what is left of it. -/
theorem readNext_cases (size : Nat) (arrivals : List Arrival) :
    (readNext size arrivals = .ended ∧ body arrivals = [] ∧ Intact arrivals) ∨
      (readNext size arrivals = .fault ∧ ¬ Intact arrivals) ∨
      ∃ data rest, readNext size arrivals = .count data rest ∧
        body arrivals = data ++ body rest ∧ (Intact arrivals ↔ Intact rest) := by
  -- Arrivals without bytes are skipped, so that the first one with bytes or a fault decides.
  induction arrivals with
  | nil => exact .inl ⟨rfl, rfl, nofun⟩
  | cons arrival arrivals ih =>
    match arrival with
    | .fault => exact .inr (.inl ⟨rfl, fun intact => intact List.mem_cons_self⟩)
    | .bytes [] =>
      have same : Intact (.bytes [] :: arrivals) ↔ Intact arrivals := by simp [Intact]
      rw [readNext, same]
      exact ih
    | .bytes (byte :: data) =>
      refine .inr (.inr ⟨_, _, rfl, ?_, ?_⟩)
      · simp only [body, List.flatMap_cons, ← List.append_assoc, List.take_append_drop]
      · simp [Intact]

end Streams

section Copying

variable (disk : Disk) (path : JString) (contentLength : Int)

/-- The message that a pass of the loop sends. -/
def percentMessage (percent : Int) : DownloadStatus × Int := (.readingPercent, percent)

/-- The loop ends when `read` returns nothing. -/
theorem copyLoop_ended {size : Nat} {arrivals : List Arrival} (ended : read size arrivals = .ended)
    (nSendBytes : Int) (progress : Progress) :
    copyLoop disk path contentLength size arrivals nSendBytes progress = (progress, .done) := by
  -- The other two outcomes of the read contradict the one it had.
  rw [copyLoop]
  split
  · rfl
  · rename_i other
    cases ended.symm.trans other
  · rename_i other
    cases ended.symm.trans other

/-- The loop ends when `read` throws. -/
theorem copyLoop_fault {size : Nat} {arrivals : List Arrival} (fault : read size arrivals = .fault)
    (nSendBytes : Int) (progress : Progress) :
    copyLoop disk path contentLength size arrivals nSendBytes progress = (progress, .caught) := by
  -- The other two outcomes of the read contradict the one it had.
  rw [copyLoop]
  split
  · rename_i other
    cases fault.symm.trans other
  · rfl
  · rename_i other
    cases fault.symm.trans other

/-- A pass of the loop writes what `read` has returned, if there is room for it. -/
theorem copyLoop_count {size : Nat} {arrivals rest : List Arrival} {data : List UInt8}
    (came : read size arrivals = .count data rest) (nSendBytes : Int) (progress : Progress) :
    copyLoop disk path contentLength size arrivals nSendBytes progress =
      if ((progress.files path).getD []).length + data.length ≤ disk.room then
        copyLoop disk path contentLength size rest (nSendBytes + data.length)
          ((progress.append path data).send .readingPercent
            (percentOf (nSendBytes + data.length) contentLength))
      else (progress, .caught) := by
  -- The other two outcomes of the read contradict the one it had.
  rw [copyLoop]
  split
  · rename_i other
    cases came.symm.trans other
  · rename_i other
    cases came.symm.trans other
  · rename_i other
    cases came.symm.trans other
    rfl

/--
What the loop leaves in the partial file, and what it has said meanwhile.

It comes to its end when the stream does and there is room for all of it.
-/
structure Copied (arrivals : List Arrival) (progress : Progress) (content : List UInt8)
    (result : Progress × Outcome) : Prop where
  messages : ∃ percents : List Int,
    result.1.messages = progress.messages ++ percents.map percentMessage
  complete : Intact arrivals → content.length + (body arrivals).length ≤ disk.room →
    result.2 = .done ∧
      result.1.files = Function.update progress.files path (some (content ++ body arrivals))
  broken : ¬ (Intact arrivals ∧ content.length + (body arrivals).length ≤ disk.room) →
    result.2 = .caught

/-- The loop copies a stream. -/
theorem copyLoop_copied {size : Nat} (filled : size ≠ 0) (arrivals : List Arrival) :
    ∀ (nSendBytes : Int) (progress : Progress) (content : List UInt8),
      progress.files path = some content → content.length ≤ disk.room →
      Copied disk path arrivals progress content
        (copyLoop disk path contentLength size arrivals nSendBytes progress) := by
  -- A pass leaves less of the stream, so the induction is on how much there is.
  induction bound : weight arrivals using Nat.strongRecOn generalizing arrivals with
  | ind bound ih =>
    intro nSendBytes progress content opened room
    subst bound
    have next : read size arrivals = readNext size arrivals := if_neg filled
    rcases readNext_cases size arrivals with ⟨ended, empty, intact⟩ | ⟨fault, broken⟩ |
      ⟨data, rest, came, whole, same⟩
    · rw [copyLoop_ended disk path contentLength (next.trans ended)]
      refine ⟨⟨[], (List.append_nil _).symm⟩, fun _ _ => ⟨rfl, ?_⟩, fun not => ?_⟩
      · rw [empty, List.append_nil, ← opened, Function.update_eq_self]
      · rw [empty, List.length_nil] at not
        exact absurd ⟨intact, room⟩ not
    · rw [copyLoop_fault disk path contentLength (next.trans fault)]
      exact ⟨⟨[], (List.append_nil _).symm⟩, fun intact => absurd intact broken, fun _ => rfl⟩
    · have came := next.trans came
      rw [copyLoop_count disk path contentLength came, opened, Option.getD_some]
      split
      · rename_i fits
        have later := ih _ (weight_of_read came) rest rfl (nSendBytes + data.length)
          ((progress.append path data).send .readingPercent
            (percentOf (nSendBytes + data.length) contentLength))
          (content ++ data) (by simp [Progress.send, Progress.append, opened])
          (by rw [List.length_append]; exact fits)
        have length : (content ++ data).length + (body rest).length =
            content.length + (body arrivals).length := by
          rw [whole, List.length_append, List.length_append, Nat.add_assoc]
        obtain ⟨⟨percents, said⟩, complete, broken⟩ := later
        rw [length, ← same] at complete broken
        refine ⟨⟨percentOf (nSendBytes + data.length) contentLength :: percents, ?_⟩,
          fun intact enough => ?_, broken⟩
        · rw [said, List.map_cons]
          simp only [Progress.send, Progress.append, List.append_assoc, List.singleton_append]
          rfl
        · obtain ⟨done, files⟩ := complete intact enough
          refine ⟨done, ?_⟩
          rw [files, whole, ← List.append_assoc]
          exact Function.update_idem _ _ _
      · rename_i full
        refine ⟨⟨[], (List.append_nil _).symm⟩, fun _ fits => ?_, fun _ => rfl⟩
        rw [whole, List.length_append] at fits
        omega

/-- What comes in through a buffer of some size. -/
def received (size : Nat) (arrivals : List Arrival) : List UInt8 :=
  if size = 0 then [] else body arrivals

/-- The loop has nothing to read into, or reads all of the stream and finds room for it. -/
def Copies (size : Nat) (arrivals : List Arrival) : Prop :=
  size = 0 ∨ (Intact arrivals ∧ (body arrivals).length ≤ disk.room)

/-- The loop copies what comes in into a file that was opened anew, or an exception ends it. -/
theorem copyLoop_opened (size : Nat) (arrivals : List Arrival) (nSendBytes : Int)
    {progress : Progress} (opened : progress.files path = some []) :
    (∃ percents : List Int,
      (copyLoop disk path contentLength size arrivals nSendBytes progress).1.messages =
        progress.messages ++ percents.map percentMessage) ∧
      (Copies disk size arrivals →
        (copyLoop disk path contentLength size arrivals nSendBytes progress).2 = .done ∧
        (copyLoop disk path contentLength size arrivals nSendBytes progress).1.files =
          Function.update progress.files path (some (received size arrivals))) ∧
      (¬ Copies disk size arrivals →
        (copyLoop disk path contentLength size arrivals nSendBytes progress).2 = .caught) := by
  -- An empty buffer ends the loop at once; otherwise the loop starts with nothing in the file.
  by_cases empty : size = 0
  · have ended : read size arrivals = .ended := if_pos empty
    rw [copyLoop_ended disk path contentLength ended]
    refine ⟨⟨[], (List.append_nil _).symm⟩, fun _ => ⟨rfl, ?_⟩, fun not => absurd (.inl empty) not⟩
    rw [received, if_pos empty, ← opened, Function.update_eq_self]
  · obtain ⟨messages, complete, broken⟩ := copyLoop_copied disk path contentLength empty arrivals
      nSendBytes progress [] opened (Nat.zero_le _)
    simp only [List.length_nil, Nat.zero_add, List.nil_append] at complete broken
    refine ⟨messages, ?_, ?_⟩
    · rintro (zero | ⟨intact, fits⟩)
      · exact absurd zero empty
      · rw [received, if_neg empty]
        exact complete intact fits
    · intro not
      exact broken fun both => not (.inr both)

end Copying

section Moving

/-- The partial file is another file than the destination. -/
theorem partialPath_ne (strDestPath : JString) : partialPath strDestPath ≠ strDestPath := by
  -- The path of the partial file is longer.
  intro same
  have lengths := congrArg List.length same
  rw [partialPath, List.length_append] at lengths
  have suffix : (JString.ofString ".download").length = 9 := by decide
  omega

/-- A move to where no file is. -/
theorem moveFile_absent (disk : Disk) {files : Files} {src dest : JString} {content : List UInt8}
    (there : files src = some content) (absent : files dest = none) :
    moveFile disk files src dest =
      (disk.renames, if disk.renames then
        Function.update (Function.update files src none) dest (some content) else files) := by
  -- There is nothing to be replaced, so that all depends on the renaming.
  simp only [moveFile, there, absent, Option.isSome_none, Bool.false_eq_true, false_and, if_false]
  cases disk.renames with
  | true => rfl
  | false => rfl

end Moving

section Transfer

variable (disk : Disk) (strDestPath : JString) (contentLength downloaded : Int)

/-- No exception is thrown while the content is read, and the buffer has this size. -/
structure Undisturbed (stream : InputStream) (size : Nat) : Prop where
  opens : (stream.opens && disk.opens) = true
  available : stream.available = some size
  copies : Copies disk size stream.arrivals
  closes : (stream.closes && disk.flushes && disk.closes) = true

/-- Messages that are sent while the content is read. -/
def whileReading (percents : List Int) : List (DownloadStatus × Int) :=
  (.reading, 0) :: percents.map percentMessage

/-- What is read without an exception is moved to the destination. -/
theorem readWrite_undisturbed {stream : InputStream} {size : Nat}
    (undisturbed : Undisturbed disk stream size) {progress : Progress}
    (absent : progress.files strDestPath = none) :
    ∃ percents files,
      readWrite disk strDestPath contentLength downloaded (some stream) progress =
        (⟨files, progress.messages ++ whileReading percents ++
          [(.reading, if disk.renames then 1 else -1)]⟩, .done) ∧
      (disk.renames = true → files strDestPath = some (received size stream.arrivals)) := by
  -- The loop comes to its end, the files are closed, and the partial file is moved.
  obtain ⟨opens, available, copies, closes⟩ := undisturbed
  obtain ⟨⟨percents, said⟩, complete, _⟩ := copyLoop_opened disk (partialPath strDestPath)
    contentLength size stream.arrivals downloaded
    (show ((progress.create (partialPath strDestPath)).send .reading 0).files
      (partialPath strDestPath) = some [] from Function.update_self ..)
  obtain ⟨done, copied⟩ := complete copies
  simp only [readWrite, opens, if_true, available]
  rcases result : copyLoop disk (partialPath strDestPath) contentLength size stream.arrivals
    downloaded ((progress.create (partialPath strDestPath)).send .reading 0) with ⟨after, outcome⟩
  rw [result] at said done copied
  obtain rfl : outcome = .done := done
  simp only at said copied
  have there : after.files (partialPath strDestPath) = some (received size stream.arrivals) := by
    rw [copied, Function.update_self]
  have still : after.files strDestPath = none := by
    rw [copied, Function.update_of_ne (partialPath_ne strDestPath).symm]
    exact (Function.update_of_ne (partialPath_ne strDestPath).symm _ _).trans absent
  refine ⟨percents, if disk.renames then
    Function.update (Function.update after.files (partialPath strDestPath) none) strDestPath
      (some (received size stream.arrivals)) else after.files, ?_, ?_⟩
  · simp only [closes, if_true, moveFile_absent disk there still, Progress.send, said,
      Progress.create, whileReading, List.append_assoc, List.cons_append, List.nil_append]
  · intro renames
    rw [if_pos renames, Function.update_self]

/-- An exception while the content is read is caught, and nothing more is said. -/
theorem readWrite_disturbed {stream : InputStream}
    (disturbed : ∀ size, ¬ Undisturbed disk stream size) (progress : Progress) :
    (readWrite disk strDestPath contentLength downloaded (some stream) progress).2 = .caught ∧
      ((readWrite disk strDestPath contentLength downloaded (some stream) progress).1.messages =
          progress.messages ∨
        ∃ percents,
          (readWrite disk strDestPath contentLength downloaded (some stream) progress).1.messages =
            progress.messages ++ whileReading percents) := by
  -- Each step of the block that can fail is looked at in turn; all failures are caught alike.
  by_cases opens : (stream.opens && disk.opens) = true
  · cases available : stream.available with
    | none =>
      have caught : readWrite disk strDestPath contentLength downloaded (some stream) progress =
          (progress.create (partialPath strDestPath), .caught) := by
        simp only [readWrite, opens, if_true, available]
      rw [caught]
      exact ⟨rfl, .inl rfl⟩
    | some size =>
      obtain ⟨⟨percents, said⟩, complete, broken⟩ := copyLoop_opened disk (partialPath strDestPath)
        contentLength size stream.arrivals downloaded
        (show ((progress.create (partialPath strDestPath)).send .reading 0).files
          (partialPath strDestPath) = some [] from Function.update_self ..)
      simp only [readWrite, opens, if_true, available]
      rcases result : copyLoop disk (partialPath strDestPath) contentLength size stream.arrivals
        downloaded ((progress.create (partialPath strDestPath)).send .reading 0) with
        ⟨after, outcome⟩
      rw [result] at said complete broken
      simp only [Progress.send, Progress.create, List.append_assoc, List.singleton_append] at said
      by_cases copies : Copies disk size stream.arrivals
      · -- All of the content was copied, so that closing the files has failed.
        obtain rfl : outcome = .done := (complete copies).1
        have unclosed : ¬ (stream.closes && disk.flushes && disk.closes) = true :=
          fun closes => disturbed size ⟨opens, available, copies, closes⟩
        simp only [unclosed]
        exact ⟨rfl, .inr ⟨percents, said⟩⟩
      · obtain rfl : outcome = .caught := broken copies
        exact ⟨rfl, .inr ⟨percents, said⟩⟩
  · have caught : readWrite disk strDestPath contentLength downloaded (some stream) progress =
        (progress, .caught) := if_neg opens
    rw [caught]
    exact ⟨rfl, .inl rfl⟩

end Transfer

section Download

variable (digits : JString.CharacterDigit) (server : Server) (disk : Disk) (strDestPath : JString)
  (files : Files)

/-- The download says that reading and writing has succeeded. -/
def SaysReadWrite (progress : Progress) : Prop := (.readWrite, statusSuccess) ∈ progress.messages

/-- The download says that the partial file was moved. -/
def SaysMoved (progress : Progress) : Prop := (.reading, 1) ∈ progress.messages

/-- A response that the download accepts, and the size it announces. -/
structure Accepts (response : HttpResponse) (total : Int) : Prop where
  answered : server (rangeHeader (downloadedSize files strDestPath)) = some response
  status : response.statusCode = 200
  announced : announcedLength digits response = some total
  positive : total ≠ 0

/-- The messages before the content of an accepted response is read. -/
def acceptedMessages : List (DownloadStatus × Int) :=
  [(.connection, statusTry), (.connection, statusSuccess), (.contentLength, statusTry),
    (.contentLength, statusSuccess), (.readWrite, statusTry)]

/-- No message before the content is read or while it is read says that the download succeeded. -/
theorem not_said (percents : List Int) :
    (.readWrite, statusSuccess) ∉ acceptedMessages ++ whileReading percents ∧
      (.reading, 1) ∉ acceptedMessages ++ whileReading percents := by
  -- The messages while the content is read tell percents, and the others are known one by one.
  have early (message : DownloadStatus × Int) (type : message.1 ≠ .readingPercent) :
      message ∈ acceptedMessages ++ whileReading percents →
        message ∈ acceptedMessages ++ [(.reading, 0)] := by
    intro member
    simp only [List.mem_append, whileReading, List.mem_cons, List.mem_map] at member ⊢
    rcases member with before | first | ⟨percent, _, rfl⟩
    · exact .inl before
    · exact .inr (.inl first)
    · exact absurd rfl type
  constructor
  · intro member
    exact absurd (early _ (by decide) member) (by decide)
  · intro member
    exact absurd (early _ (by decide) member) (by decide)

variable {digits server disk strDestPath files} {response : HttpResponse} {total : Int}

/-- A download without a destination file goes on to read an accepted response. -/
theorem run_accepted (absent : files strDestPath = none)
    (accepts : Accepts digits server strDestPath files response total) :
    HttpDownload.run digits server disk strDestPath files =
      match readWrite disk strDestPath total (downloadedSize files strDestPath) response.content
          ⟨files, acceptedMessages⟩ with
      | (progress, .done) => (progress.send .readWrite statusSuccess, .done)
      | (progress, .caught) => (progress.send .readWrite statusFailed, .done)
      | (progress, .thrown) => (progress, .thrown) := by
  -- The checks before the content is read are passed one after the other.
  obtain ⟨answered, status, announced, positive⟩ := accepts
  simp only [HttpDownload.run, absent, Option.isSome_none, Bool.false_eq_true, if_false, answered,
    status, ne_eq, not_true_eq_false, announced, positive]
  rfl

/-- An undisturbed transfer succeeds, and its result is what came in. -/
theorem run_undisturbed (absent : files strDestPath = none)
    (accepts : Accepts digits server strDestPath files response total) {stream : InputStream}
    (content : response.content = some stream) {size : Nat}
    (undisturbed : Undisturbed disk stream size) :
    SaysReadWrite (HttpDownload.run digits server disk strDestPath files).1 ∧
      (SaysMoved (HttpDownload.run digits server disk strDestPath files).1 ↔
        disk.renames = true) ∧
      (disk.renames = true →
        (HttpDownload.run digits server disk strDestPath files).1.files strDestPath =
          some (received size stream.arrivals)) := by
  -- Nobody but the last two messages tells of success, and the first of these tells of the move.
  obtain ⟨percents, after, result, moved⟩ := readWrite_undisturbed disk strDestPath total
    (downloadedSize files strDestPath) undisturbed
    (show (⟨files, acceptedMessages⟩ : Progress).files strDestPath = none from absent)
  rw [run_accepted absent accepts, content, result]
  refine ⟨List.mem_append_right _ List.mem_cons_self, ?_, moved⟩
  constructor
  · intro said
    rcases List.mem_append.mp said with before | last
    · rcases List.mem_append.mp before with early | final
      · exact absurd early (not_said percents).2
      · -- The last message of the block tells whether the file was moved.
        by_contra stays
        rw [if_neg stays] at final
        exact absurd final (by decide)
    · exact absurd last (by decide)
  · intro renames
    refine List.mem_append_left _ (List.mem_append_right _ ?_)
    rw [if_pos renames]
    exact List.mem_cons_self

/-- A disturbed transfer does not say that it succeeded. -/
theorem run_disturbed (absent : files strDestPath = none)
    (accepts : Accepts digits server strDestPath files response total)
    (disturbed : ∀ stream size, response.content = some stream → ¬ Undisturbed disk stream size) :
    ¬ SaysReadWrite (HttpDownload.run digits server disk strDestPath files).1 := by
  -- Without content or behind an exception, none of the messages sent tells of success.
  rw [run_accepted absent accepts]
  cases content : response.content with
  | none =>
    intro said
    have before : (DownloadStatus.readWrite, statusSuccess) ∈ acceptedMessages := said
    exact absurd before (by decide)
  | some stream =>
    obtain ⟨caught, messages⟩ := readWrite_disturbed disk strDestPath total
      (downloadedSize files strDestPath) (fun size => disturbed stream size content)
      ⟨files, acceptedMessages⟩
    rcases result : readWrite disk strDestPath total (downloadedSize files strDestPath)
      (some stream) ⟨files, acceptedMessages⟩ with ⟨after, outcome⟩
    rw [result] at caught messages
    obtain rfl : outcome = .caught := caught
    intro said
    rcases List.mem_append.mp said with before | last
    · rcases messages with same | ⟨percents, more⟩
      · have same : after.messages = acceptedMessages := same
        rw [same] at before
        exact absurd before (by decide)
      · rw [more] at before
        exact absurd before (not_said percents).1
    · exact absurd last (by decide)

/-- A response with another status or without a size is not read. -/
theorem run_rejected (absent : files strDestPath = none)
    (answered : server (rangeHeader (downloadedSize files strDestPath)) = some response)
    (rejected : ¬ (response.statusCode = 200 ∧
      ∃ total, announcedLength digits response = some total ∧ total ≠ 0)) :
    ¬ SaysReadWrite (HttpDownload.run digits server disk strDestPath files).1 := by
  simp only [HttpDownload.run, absent, Option.isSome_none, Bool.false_eq_true, if_false, answered]
  -- In all three cases the messages so far are known.
  have only (messages : List (DownloadStatus × Int))
      (other : (DownloadStatus.readWrite, statusSuccess) ∉ messages) :
      ¬ SaysReadWrite ⟨files, messages⟩ := other
  by_cases status : response.statusCode = 200
  · rw [if_neg (not_not.mpr status)]
    cases announced : announcedLength digits response with
    | none =>
      exact only [(.connection, statusTry), (.connection, statusSuccess),
        (.contentLength, statusTry)] (by decide)
    | some total =>
      have zero : total = 0 := by
        by_contra known
        exact rejected ⟨status, total, announced, known⟩
      simp only [zero, if_true]
      exact only [(.connection, statusTry), (.connection, statusSuccess),
        (.contentLength, statusTry), (.contentLength, statusFailed)] (by decide)
  · rw [if_pos status]
    exact only [(.connection, statusTry), (.connection, statusFailed)] (by decide)

end Download

section Complete

variable (digits : JString.CharacterDigit) (server : Server) (disk : Disk) (strDestPath : JString)
  (files : Files)

/--
A download that says it has succeeded is complete exactly when the transfer can be trusted.

That is, when it is undisturbed only if `available` was positive and the whole resource came in.
-/
theorem run_complete_iff (resource : List UInt8) {response : HttpResponse}
    (accepts : Accepts digits server strDestPath files response resource.length) :
    (SaysReadWrite (HttpDownload.run digits server disk strDestPath files).1 →
      SaysMoved (HttpDownload.run digits server disk strDestPath files).1 →
      (HttpDownload.run digits server disk strDestPath files).1.files strDestPath =
        some resource) ↔
    ∀ stream size, files strDestPath = none → response.content = some stream →
      Undisturbed disk stream size → disk.renames = true →
      0 < size ∧ body stream.arrivals = resource := by
  -- Only an undisturbed transfer says that it has succeeded, and then the file is what came in.
  have filled : resource ≠ [] := by
    rintro rfl
    exact accepts.positive rfl
  constructor
  · intro complete stream size absent content undisturbed renames
    obtain ⟨said, moved, result⟩ := run_undisturbed absent accepts content undisturbed
    have whole := complete said (moved.mpr renames)
    rw [result renames] at whole
    have whole := Option.some.inj whole
    unfold received at whole
    split at whole
    · exact absurd whole.symm filled
    · rename_i room
      exact ⟨Nat.pos_of_ne_zero room, whole⟩
  · intro trusted said moved
    cases there : files strDestPath with
    | some old =>
      -- A destination file ends the download before anything is read.
      simp only [HttpDownload.run, there, Option.isSome_some, if_true] at said
      have only : (DownloadStatus.readWrite, statusSuccess) ∈
        [(DownloadStatus.existFile, statusSuccess)] := said
      exact absurd only (by decide)
    | none =>
      by_cases undisturbed : ∃ stream size, response.content = some stream ∧
          Undisturbed disk stream size
      · obtain ⟨stream, size, content, undisturbed⟩ := undisturbed
        obtain ⟨_, moves, result⟩ := run_undisturbed there accepts content undisturbed
        have renames := moves.mp moved
        obtain ⟨room, whole⟩ := trusted stream size there content undisturbed renames
        rw [result renames, received, if_neg (Nat.pos_iff_ne_zero.mp room), whole]
      · refine absurd said (run_disturbed there accepts fun stream size content free => ?_)
        exact undisturbed ⟨stream, size, content, free⟩

/-- What a server may answer that has the resource and follows the standard. -/
def Compliant (resource : List UInt8) (downloaded : Int) (response : HttpResponse)
    (stream : InputStream) : Prop :=
  (response.statusCode = 200 ∧ body stream.arrivals = resource) ∨
    ((rangeHeader downloaded).isSome ∧ response.statusCode = 206 ∧
      response.contentRange = [JString.ofString "bytes " ++ JString.decimal downloaded ++
        JString.ofString "-" ++ JString.decimal (resource.length - 1 : Int) ++
        JString.ofString "/" ++ JString.decimal resource.length] ∧
      body stream.arrivals = resource.drop downloaded.toNat)

/-- Nothing goes wrong on the way from the server to the destination file. -/
structure NoError (stream : InputStream) (size : Nat) : Prop where
  opens : (stream.opens && disk.opens) = true
  available : stream.available = some size
  intact : Intact stream.arrivals
  room : (body stream.arrivals).length ≤ disk.room
  closes : (stream.closes && disk.flushes && disk.closes) = true
  renames : disk.renames = true

/--
A download from a server that follows the standard brings the resource only in one case.

The answer has to be a full one that has a `Content-Range` header all the same, with a size that is
not zero, and the buffer must not be empty.
-/
theorem run_succeeds_iff (resource : List UInt8) (filled : resource ≠ [])
    (absent : files strDestPath = none) {response : HttpResponse}
    (answered : server (rangeHeader (downloadedSize files strDestPath)) = some response)
    {stream : InputStream} (content : response.content = some stream)
    (compliant : Compliant resource (downloadedSize files strDestPath) response stream)
    {size : Nat} (noError : NoError disk stream size) :
    ((HttpDownload.run digits server disk strDestPath files).1.files strDestPath = some resource ∧
      SaysReadWrite (HttpDownload.run digits server disk strDestPath files).1) ↔
    response.statusCode = 200 ∧ 0 < size ∧
      ∃ total, announcedLength digits response = some total ∧ total ≠ 0 := by
  -- A partial answer is refused for its status, and a full one for a missing size.
  obtain ⟨opens, available, intact, room, closes, renames⟩ := noError
  have undisturbed : Undisturbed disk stream size :=
    ⟨opens, available, .inr ⟨intact, room⟩, closes⟩
  constructor
  · rintro ⟨result, said⟩
    by_cases accepted : response.statusCode = 200 ∧
        ∃ total, announcedLength digits response = some total ∧ total ≠ 0
    · obtain ⟨status, total, announced, known⟩ := accepted
      have accepts : Accepts digits server strDestPath files response total :=
        ⟨answered, status, announced, known⟩
      obtain ⟨_, _, moved⟩ := run_undisturbed absent accepts content undisturbed
      refine ⟨status, Nat.pos_of_ne_zero fun empty => ?_, total, announced, known⟩
      -- An empty buffer leaves an empty file.
      rw [moved renames, received, if_pos empty] at result
      exact filled (Option.some.inj result).symm
    · exact absurd said (run_rejected absent answered accepted)
  · rintro ⟨status, positive, total, announced, known⟩
    have accepts : Accepts digits server strDestPath files response total :=
      ⟨answered, status, announced, known⟩
    obtain ⟨said, _, result⟩ := run_undisturbed absent accepts content undisturbed
    refine ⟨?_, said⟩
    have whole : body stream.arrivals = resource := by
      rcases compliant with ⟨_, whole⟩ | ⟨_, partly, _⟩
      · exact whole
      · rw [status] at partly
        cases partly
    rw [result renames, received, if_neg (Nat.pos_iff_ne_zero.mp positive), whole]

/-- A disk with room for one byte, on which nothing fails. -/
def smallDisk : Disk := ⟨true, 1, true, true, true, true⟩

/-- A path. -/
def somePath : JString := JString.ofString "/sdcard/map"

/-- A resource of one byte, as it comes in behind some value of `available`. -/
def oneByte (size : Nat) : InputStream := ⟨true, some size, [.bytes [7]], true⟩

/-- A full answer. -/
def fullAnswer (contentRange : List JString) (size : Nat) : HttpResponse :=
  ⟨200, contentRange, some (oneByte size)⟩

/-- A full answer as the standard has it, without a `Content-Range` header. -/
theorem run_succeeds_plainAnswer :
    Compliant [7] 0 (fullAnswer [] 1) (oneByte 1) ∧
    (((HttpDownload.run .ascii (fun _ => some (fullAnswer [] 1)) smallDisk somePath
        fun _ => none).1.files somePath = some [7] ∧
      SaysReadWrite (HttpDownload.run .ascii (fun _ => some (fullAnswer [] 1)) smallDisk
        somePath fun _ => none).1) ↔
    200 = 200 ∧ 0 < 1 ∧
      ∃ total, announcedLength .ascii (fullAnswer [] 1) = some total ∧ total ≠ 0) :=
  ⟨.inl ⟨rfl, rfl⟩,
    run_succeeds_iff .ascii (fun _ => some (fullAnswer [] 1)) smallDisk somePath
      (fun _ => none) [7] (List.cons_ne_nil _ _) rfl rfl rfl (.inl ⟨rfl, rfl⟩)
      ⟨rfl, rfl, by decide, by decide, rfl, rfl⟩⟩

/-- The download of a full answer without a `Content-Range` header fails. -/
theorem run_plainAnswer_fails :
    ¬ ((HttpDownload.run .ascii (fun _ => some (fullAnswer [] 1)) smallDisk somePath
        fun _ => none).1.files somePath = some [7] ∧
      SaysReadWrite (HttpDownload.run .ascii (fun _ => some (fullAnswer [] 1)) smallDisk
        somePath fun _ => none).1) := by
  rintro ⟨result, _⟩
  exact absurd result (by decide +kernel)

/-- A header that announces one byte. -/
def oneByteRange : JString := JString.ofString "bytes 0-0/1"

/-- A byte that comes in behind its header is there at the end. -/
theorem run_complete_wholeByte :
    Accepts .ascii (fun _ => some (fullAnswer [oneByteRange] 1)) somePath (fun _ => none)
        (fullAnswer [oneByteRange] 1) 1 ∧
      (HttpDownload.run .ascii (fun _ => some (fullAnswer [oneByteRange] 1))
        smallDisk somePath fun _ => none).1.files somePath = some [7] := by
  -- One byte comes, and a stream that gives one byte has no other content.
  have accepts : Accepts .ascii (fun _ => some (fullAnswer [oneByteRange] 1)) somePath
      (fun _ => none) (fullAnswer [oneByteRange] 1) 1 := ⟨rfl, rfl, by decide +kernel, by decide⟩
  have undisturbed : Undisturbed smallDisk (oneByte 1) 1 :=
    ⟨rfl, rfl, .inr ⟨by decide, by decide⟩, rfl⟩
  obtain ⟨said, moved, _⟩ := run_undisturbed rfl accepts rfl undisturbed
  refine ⟨accepts, (run_complete_iff .ascii _ smallDisk somePath (fun _ => none) [7] accepts).mpr
    ?_ said (moved.mpr rfl)⟩
  intro stream size _ content undisturbed _
  cases content
  cases undisturbed.available
  exact ⟨by decide, rfl⟩

/-- An empty buffer: the download says that it has succeeded, and the file is empty. -/
theorem run_complete_emptyBuffer :
    ¬ (SaysReadWrite (HttpDownload.run .ascii (fun _ => some (fullAnswer [oneByteRange] 0))
        smallDisk somePath fun _ => none).1 →
      SaysMoved (HttpDownload.run .ascii (fun _ => some (fullAnswer [oneByteRange] 0))
        smallDisk somePath fun _ => none).1 →
      (HttpDownload.run .ascii (fun _ => some (fullAnswer [oneByteRange] 0))
        smallDisk somePath fun _ => none).1.files somePath = some [7]) := by
  -- The buffer has no room, so the first read returns 0 and is taken for the end of the stream.
  intro complete
  have accepts : Accepts .ascii (fun _ => some (fullAnswer [oneByteRange] 0)) somePath
      (fun _ => none) (fullAnswer [oneByteRange] 0) 1 := ⟨rfl, rfl, by decide +kernel, by decide⟩
  have undisturbed : Undisturbed smallDisk (oneByte 0) 0 := ⟨rfl, rfl, .inl rfl, rfl⟩
  obtain ⟨said, moved, result⟩ := run_undisturbed rfl accepts rfl undisturbed
  have whole := complete said (moved.mpr rfl)
  rw [result rfl] at whole
  exact absurd (Option.some.inj whole) (by decide)

end Complete

end AndroidApps.CommonLib
