import AndroidApps.Lib.Utf8
import Mathlib.Logic.Function.Basic

/-! The download of a file: one request, a transfer into a partial file, and its move at the end. -/

namespace AndroidApps.CommonLib

section Streams

/-- What comes in from the server: some bytes, or an `IOException`. -/
inductive Arrival where
  | bytes (data : List UInt8)
  | fault
  deriving DecidableEq

/-- The content of a response, which ends behind its last arrival. -/
structure InputStream where
  /-- Whether `getContent` succeeds. -/
  opens : Bool
  /-- What `available` says, unless it throws. -/
  available : Option Nat
  arrivals : List Arrival
  /-- Whether `close` succeeds. -/
  closes : Bool

/-- What a call of `read` does. -/
inductive ReadResult where
  | count (data : List UInt8) (rest : List Arrival)
  | ended
  | fault

/-- As much of what has come in next as there is room for. -/
def readNext (size : Nat) : List Arrival → ReadResult
  | [] => .ended
  | .fault :: _ => .fault
  | .bytes [] :: rest => readNext size rest
  | .bytes (byte :: data) :: rest =>
    .count ((byte :: data).take size) (.bytes ((byte :: data).drop size) :: rest)

/-- `read` into a buffer; nothing fits into an empty one, which the caller takes for the end. -/
def read (size : Nat) (arrivals : List Arrival) : ReadResult :=
  if size = 0 then .ended else readNext size arrivals

/-- How much is still to be read. -/
def weight (arrivals : List Arrival) : Nat :=
  (arrivals.map fun arrival => match arrival with
    | .bytes data => data.length
    | .fault => 0).sum

/-- A `read` that returns something leaves less behind. -/
theorem weight_of_read {size : Nat} {arrivals rest : List Arrival} {data : List UInt8}
    (came : read size arrivals = .count data rest) : weight rest < weight arrivals := by
  -- Arrivals of no bytes are passed over, and the first one with bytes gives some of them away.
  unfold read at came
  split at came
  · cases came
  · rename_i filled
    induction arrivals with
    | nil => cases came
    | cons arrival arrivals ih =>
      match arrival with
      | .fault => cases came
      | .bytes [] =>
        have later := ih came
        simpa [weight] using later
      | .bytes (byte :: more) =>
        cases came
        simp only [weight, List.map_cons, List.sum_cons, List.length_drop, List.length_cons]
        omega

end Streams

section Files

/-- The files, by their paths. -/
abbrev Files := JString → Option (List UInt8)

/-- Whether the disk does what it is asked for, and how long a file it can write. -/
structure Disk where
  opens : Bool
  room : Nat
  flushes : Bool
  closes : Bool
  deletes : Bool
  renames : Bool

/-- `FileManager.moveFile`. -/
def moveFile (disk : Disk) (files : Files) (src dest : JString) : Bool × Files :=
  match files src with
  | none => (false, files)
  | some content =>
    let files :=
      if (files dest).isSome ∧ src ≠ dest ∧ disk.deletes then Function.update files dest none
      else files
    if disk.renames then
      (true, Function.update (Function.update files src none) dest (some content))
    else (false, files)

end Files

section Download

/-- The types of the messages that a download sends. -/
inductive DownloadStatus where
  | connection
  | contentLength
  | readWrite
  | reading
  | readingPercent
  | existFile
  deriving DecidableEq

/-- `DOWNLOAD_STATUS_TRY`. -/
def statusTry : Int := 0

/-- `DOWNLOAD_STATUS_SUCCESS`. -/
def statusSuccess : Int := 1

/-- `DOWNLOAD_STATUS_FAILED`. -/
def statusFailed : Int := -1

/-- A response, with the values of its `Content-Range` headers and its content, if it has one. -/
structure HttpResponse where
  statusCode : Nat
  contentRange : List JString
  content : Option InputStream

/-- The server, asked with a `Range` header or without one; no answer is an exception. -/
abbrev Server := Option JString → Option HttpResponse

/-- The files and the messages sent so far. -/
structure Progress where
  files : Files
  messages : List (DownloadStatus × Int)

/-- `sendEventMessage`. -/
def Progress.send (progress : Progress) (type : DownloadStatus) (value : Int) : Progress :=
  { progress with messages := progress.messages ++ [(type, value)] }

/-- `new FileOutputStream`: what the file has held is lost. -/
def Progress.create (progress : Progress) (path : JString) : Progress :=
  { progress with files := Function.update progress.files path (some []) }

/-- `outputStream.write`. -/
def Progress.append (progress : Progress) (path : JString) (data : List UInt8) : Progress :=
  { progress with
    files := Function.update progress.files path (some ((progress.files path).getD [] ++ data)) }

/-- A value as a `long`. -/
def toLong (value : Int) : Int := value.bmod (2 ^ 64)

/-- A value as an `int`. -/
def toInt (value : Int) : Int := value.bmod (2 ^ 32)

/-- How much of the resource has come in, in percent. -/
def percentOf (nSendBytes contentLength : Int) : Int :=
  toInt ((toLong (nSendBytes * 100)).tdiv contentLength)

/-- How a part of a download ends: with its last statement, with a caught exception, or another. -/
inductive Outcome where
  | done
  | caught
  | thrown
  deriving DecidableEq

/-- The loop that reads into the buffer and writes to the partial file. -/
def copyLoop (disk : Disk) (path : JString) (contentLength : Int) (size : Nat)
    (arrivals : List Arrival) (nSendBytes : Int) (progress : Progress) : Progress × Outcome :=
  match _came : read size arrivals with
  | .ended => (progress, .done)
  | .fault => (progress, .caught)
  | .count data rest =>
    -- The disk is full where the bytes do not fit.
    if ((progress.files path).getD []).length + data.length ≤ disk.room then
      let sent := nSendBytes + data.length
      copyLoop disk path contentLength size rest sent
        ((progress.append path data).send .readingPercent (percentOf sent contentLength))
    else (progress, .caught)
termination_by weight arrivals
decreasing_by exact weight_of_read _came

/-- The path of the partial file. -/
def partialPath (strDestPath : JString) : JString := strDestPath ++ JString.ofString ".download"

/-- The block that reads the content and moves the partial file. -/
def readWrite (disk : Disk) (strDestPath : JString) (contentLength downloadedSize : Int)
    (content : Option InputStream) (progress : Progress) : Progress × Outcome :=
  match content with
  -- A response without an entity has no content to ask for.
  | none => (progress, .thrown)
  | some inputStream =>
    if inputStream.opens && disk.opens then
      -- A partial file of an earlier download is emptied by this.
      let progress := progress.create (partialPath strDestPath)
      match inputStream.available with
      -- `available` throws.
      | none => (progress, .caught)
      | some size =>
        let progress := progress.send .reading 0
        match copyLoop disk (partialPath strDestPath) contentLength size inputStream.arrivals
            downloadedSize progress with
        | (progress, .done) =>
          if inputStream.closes && disk.flushes && disk.closes then
            let (bResult, files) :=
              moveFile disk progress.files (partialPath strDestPath) strDestPath
            ({ progress with files }.send .reading (if bResult then 1 else -1), .done)
          else (progress, .caught)
        | ended => ended
    else (progress, .caught)

variable (digits : JString.CharacterDigit)

/-- The size of the resource from the first `Content-Range` header, unless it is no number. -/
def announcedLength (response : HttpResponse) : Option Int :=
  match response.contentRange with
  -- Without the header the size stays as it was initialised.
  | [] => some 0
  | value :: _ =>
    match JString.split 0x2F value with
    | _ :: total :: _ => JString.parseLong digits.digit total
    | _ => some 0

/-- `downloadedSize`. -/
def downloadedSize (files : Files) (strDestPath : JString) : Int :=
  match files (partialPath strDestPath) with
  | none => 0
  | some content => toInt content.length

/-- The `Range` header of the request. -/
def rangeHeader (downloadedSize : Int) : Option JString :=
  if 0 < downloadedSize then
    some (JString.ofString "bytes=" ++ JString.decimal downloadedSize ++ JString.ofString "-")
  else none

/-- `HttpDownload.run`, with how it ends. -/
def HttpDownload.run (server : Server) (disk : Disk) (strDestPath : JString) (files : Files) :
    Progress × Outcome :=
  let progress : Progress := ⟨files, []⟩
  if (files strDestPath).isSome then (progress.send .existFile statusSuccess, .done)
  else
    let downloaded := downloadedSize files strDestPath
    let progress := progress.send .connection statusTry
    match server (rangeHeader downloaded) with
    | none => (progress.send .connection statusFailed, .done)
    | some response =>
      -- The answer to a range has the code 206, and is refused.
      if response.statusCode ≠ 200 then (progress.send .connection statusFailed, .done)
      else
        let progress := (progress.send .connection statusSuccess).send .contentLength statusTry
        match announcedLength digits response with
        | none => (progress, .thrown)
        | some contentLength =>
          if contentLength = 0 then (progress.send .contentLength statusFailed, .done)
          else
            let progress := (progress.send .contentLength statusSuccess).send .readWrite statusTry
            match readWrite disk strDestPath contentLength downloaded response.content progress with
            | (progress, .done) => (progress.send .readWrite statusSuccess, .done)
            | (progress, .caught) => (progress.send .readWrite statusFailed, .done)
            | (progress, .thrown) => (progress, .thrown)

end Download

end AndroidApps.CommonLib
