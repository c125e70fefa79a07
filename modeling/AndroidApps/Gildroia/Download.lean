import AndroidApps.Lib.JavaText
import Mathlib.Logic.Function.Basic

/-! The download of the map files: transfers that can end anywhere, and the versions recorded. -/

namespace AndroidApps.Gildroia

/-- `DownloadFileInfo`, in which a version that was not given is null. -/
structure DownloadFileInfo where
  baseItems : Bool := false
  filename : JString := []
  description : Option JString := none
  version : Option JString := none
  updateDate : Option JString := none
  deriving DecidableEq

/-- The files in the search path, and the version preference of each, which is 0 until it is set. -/
structure Device where
  files : JString → Option (List UInt8)
  preferences : JString → Int

section Listing

-- `Character.digit` belongs to the library of the platform.
variable (digit : UInt16 → Option Nat)

/-- The version a file is offered with, which is read from its text. -/
def DownloadFileInfo.number (info : DownloadFileInfo) : Option Int :=
  info.version.bind (JString.parseInt digit)

/-- One item of a line of the file list. -/
def setItem (info : DownloadFileInfo) (strItem : JString) (nIndex : Nat) : DownloadFileInfo :=
  match nIndex with
  -- The first case runs on into the second.
  | 0 => { info with baseItems := strItem == [0x30], filename := strItem }
  | 1 => { info with filename := strItem }
  | 2 => { info with description := some strItem }
  | 3 => { info with version := some strItem }
  | 4 => { info with updateDate := some strItem }
  | _ => info

/-- The items of a line of the file list. -/
def readLine (oneLineInfo : JString) : DownloadFileInfo :=
  (oneLineInfo.tokens (· == 0x2C)).zipIdx.foldl (fun info (item, nIndex) =>
    setItem info item.trim nIndex) {}

/-- Whether a line of the file list is read: it is not short, and no comment. -/
def isInfoLine (oneLineInfo : JString) : Bool :=
  decide (2 ≤ oneLineInfo.length) && oneLineInfo.take 2 != [0x2F, 0x2F]

/-- A file is offered, among the base files or the others, when its version is new. -/
def addInfo (preferences : JString → Int) (info : DownloadFileInfo) (newVer : Int)
    (infos : List DownloadFileInfo × List DownloadFileInfo) :
    List DownloadFileInfo × List DownloadFileInfo :=
  if preferences info.filename < newVer then
    if info.baseItems then (info :: infos.1, infos.2) else (infos.1, info :: infos.2)
  else infos

/-- The loop over the lines of the file list, which a version that is no number ends. -/
def checkLines (preferences : JString → Int) :
    List JString → Option (List DownloadFileInfo × List DownloadFileInfo)
  | [] => some ([], [])
  | line :: lines =>
    if isInfoLine line.trim then
      match (readLine line.trim).number digit with
      | none => none
      | some newVer =>
        (checkLines preferences lines).map (addInfo preferences (readLine line.trim) newVer)
    else checkLines preferences lines

/-- `checkUpdateFiles` on the text of the file list: the base files offered, and the others. -/
def checkUpdateFiles (preferences : JString → Int) (text : JString) :
    Option (List DownloadFileInfo × List DownloadFileInfo) :=
  checkLines digit preferences (text.tokens fun unit => unit == 0x0D || unit == 0x0A)

end Listing

section Transfers

/-- An exception: an `IOException`, which the transfer swallows, or one of another class. -/
inductive Thrown where
  | io
  | other
  deriving DecidableEq

/-- What a pass of the transfer meets in `read`, and in the `write` behind it. -/
inductive ReadStep where
  | gives (count : Nat)
  | throws (thrown : Thrown)
  | writeThrows (count kept : Nat) (thrown : Thrown)

/--
What a transfer meets.

An exception comes before the local file is opened, or behind that and before the first `read`, or
during the passes, or when the streams are closed.
-/
inductive Transfer where
  | unopened (thrown : Thrown)
  | unread (thrown : Thrown)
  | reads (available : Nat) (steps : List ReadStep) (closing : Option Thrown)

/-- How many bytes `read` puts into the buffer: at least one, if there is one and room for it. -/
def bufferLength (available count left : Nat) : Nat := min (min available (max 1 count)) left

/-- The loop of the transfer: what it has written, and the exception that ended it. -/
def transferLoop (available : Nat) :
    List ReadStep → List UInt8 → List UInt8 → List UInt8 × Option Thrown
  -- The stream ends here, whether or not all of the body came through.
  | [], _, written => (written, none)
  | .gives count :: steps, rest, written =>
    let length := bufferLength available count rest.length
    if length = 0 then (written, none)
    else transferLoop available steps (rest.drop length) (written ++ rest.take length)
  | .throws thrown :: _, _, written => (written, some thrown)
  | .writeThrows count kept thrown :: _, rest, written =>
    let length := bufferLength available count rest.length
    if length = 0 then (written, none)
    else (written ++ (rest.take length).take kept, some thrown)

/-- `downLoadFileFromWebServer`: the local file behind it, and whether an exception escapes. -/
def downLoadFileFromWebServer (body : List UInt8) (file : Option (List UInt8)) :
    Transfer → Option (List UInt8) × Bool
  | .unopened thrown => (file, thrown == .other)
  -- Opening the local file has emptied it.
  | .unread thrown => (some [], thrown == .other)
  | .reads available steps closing =>
    let (written, thrown) := transferLoop available steps body []
    (some written, thrown.or closing == some .other)

end Transfers

section Thread

variable (digit : UInt16 → Option Nat) (served : JString → List UInt8)

/-- The local file behind the transfer of an entry. -/
def Device.store (device : Device) (entry : DownloadFileInfo × Transfer) : Device :=
  { device with
    files := Function.update device.files entry.1.filename
      (downLoadFileFromWebServer (served entry.1.filename) (device.files entry.1.filename)
        entry.2).1 }

/-- `edit.putInt` and `commit`. -/
def Device.putInt (device : Device) (filename : JString) (version : Int) : Device :=
  { device with preferences := Function.update device.preferences filename version }

/-- `download_thread2`: the loop over the files selected, which an exception that escapes ends. -/
def downloadThread2 : Device → List (DownloadFileInfo × Transfer) → Device
  | device, [] => device
  | device, entry :: rest =>
    let escapes := (downLoadFileFromWebServer (served entry.1.filename)
      (device.files entry.1.filename) entry.2).2
    let device := device.store served entry
    if escapes then device
    else match entry.1.number digit with
      | none => device
      | some version => downloadThread2 (device.putInt entry.1.filename version) rest

end Thread

end AndroidApps.Gildroia
