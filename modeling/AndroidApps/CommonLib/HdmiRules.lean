import AndroidApps.CommonLib.SecureStorage

/-! The rules by which lines of the log tell of a display, and how they are loaded. -/

namespace AndroidApps.CommonLib

/-- The lists of a `watchDogHdmiConnection`, in which a rule is spread over several. -/
structure WdhcTables where
  logFilters : List JString
  logConnections : List JString
  logDisconnections : List JString
  logConnectionsDir : List UInt16
  deriving DecidableEq

namespace WdhcTables

/-- The lists of a new object. -/
def empty : WdhcTables := ⟨[], [], [], []⟩

/-- What an info line begins with. -/
def logFilterWord : JString := JString.ofString "logFilter:"

/-- `logFilters.add`. -/
def addFilter (tables : WdhcTables) (text : JString) : WdhcTables :=
  { tables with logFilters := tables.logFilters ++ [text] }

/-- `logConnectionsDir.add`. -/
def addDir (tables : WdhcTables) (dir : UInt16) : WdhcTables :=
  { tables with logConnectionsDir := tables.logConnectionsDir ++ [dir] }

/-- `logConnections.add`. -/
def addConnection (tables : WdhcTables) (text : JString) : WdhcTables :=
  { tables with logConnections := tables.logConnections ++ [text] }

/-- `logDisconnections.add`. -/
def addDisconnection (tables : WdhcTables) (text : JString) : WdhcTables :=
  { tables with logDisconnections := tables.logDisconnections ++ [text] }

/-- `addWdhcInfos`. -/
def addWdhcInfos (tables : WdhcTables) (strInfo : JString) : WdhcTables :=
  if logFilterWord.isPrefixOf strInfo then
    match JString.split 0x2C (strInfo.drop logFilterWord.length) with
    | [] => tables
    | tag :: rest =>
      let tables := if 3 < tag.length then tables.addFilter tag else tables
      match rest with
      | [] => tables
      | mode :: rest =>
        let tables := match mode with
          | [] => tables
          | first :: _ => tables.addDir first
        match rest with
        | [] => tables
        | plugged :: rest =>
          let tables := if 5 < plugged.length then tables.addConnection plugged else tables
          match rest with
          | [] => tables
          | unplugged :: _ =>
            if 5 < unplugged.length then tables.addDisconnection unplugged else tables
  else tables

/-- Whether a rule applies to a line of the log, by the mode that stands in `logConnectionsDir`. -/
def ruleMatches (data : JString) (dir : UInt16) (src : JString) : Bool :=
  if dir = 0x63 then JString.contains data src
  else if dir = 0x65 then src.isSuffixOf data
  else if dir = 0x73 then src.isPrefixOf data
  else data = src

/-- The loop of `compareTo` from a row on; there is no answer when a list has no such row. -/
def compareFrom (tables : WdhcTables) (stringSet : List JString) (data : JString) :
    Nat → Nat → Option Bool
  | _, 0 => some false
  | row, remaining + 1 =>
    match tables.logConnectionsDir[row]?, stringSet[row]? with
    | some dir, some src =>
      if ruleMatches data dir src then some true
      else compareFrom tables stringSet data (row + 1) remaining
    | _, _ => none

/-- `compareTo`, unless an `IndexOutOfBoundsException` ends it. -/
def compareTo (tables : WdhcTables) (logLength : Nat) (stringSet : List JString) (data : JString) :
    Option Bool :=
  compareFrom tables stringSet data 0 logLength

end WdhcTables

section Loading

/-- `static_info`. -/
def staticInfo : List JString := [
  JString.ofString "logFilter:AudioService:W,c, connected, disconnected",
  JString.ofString "logFilter:AudioService:V,c,_connected,_disconnected",
  JString.ofString "logFilter:HDMIService:E,e,state = 1,state = 0",
  JString.ofString
    "logFilter:DisplayService:D,e,enableHDMIOutput(true),enableHDMIOutput(false),HTC_X515E",
  JString.ofString "logFilter:hdmid:D,c,sethdmistatus:1,sethdmistatus:0",
  JString.ofString "logFilter:hdmidisplay:W,e,enable,disable,LT15i",
  JString.ofString "logFilter:HDMIService:E,e,HDMI_CABLE_CONNECTED,HDMI_CABLE_DISCONNECTED",
  JString.ofString "logFilter:LIBHDMI:E,e,HDMIStart(),HDMIStop()"]

/-- The line break between the lines of a payload. -/
def lineBreak : JString := [0x0D, 0x0A]

/-- The key under which the number of lines is stored. -/
def cntKey : JString := JString.ofString "cnt"

/-- What `readWdhcInfo` has done so far, with the lines that `addWdhcInfos` was called with. -/
structure WdhcReading where
  tables : WdhcTables
  storage : Preferences
  fed : List JString

namespace WdhcReading

/-- Before the first line is read. -/
def start (tables : WdhcTables) (storage : Preferences) : WdhcReading := ⟨tables, storage, []⟩

/-- A call of `addWdhcInfos`. -/
def feed (reading : WdhcReading) (strInfo : JString) : WdhcReading :=
  { reading with
    tables := reading.tables.addWdhcInfos strInfo
    fed := reading.fed ++ [strInfo] }

/-- A call of `localStorage.setValue`. -/
def setValue (reading : WdhcReading) (key value : JString) : WdhcReading :=
  { reading with storage := LocalStorage.setValue reading.storage key value }

/-- The loop over the lines of a payload from `wdhc_infos[i]` on. -/
def readServer (reading : WdhcReading) : Nat → List JString → WdhcReading
  | _, [] => reading
  | i, line :: rest =>
    readServer ((reading.setValue (JString.decimal (i - 1 : Int)) line).feed line) (i + 1) rest

/-- The loop over the lines that were stored. -/
def readStored (reading : WdhcReading) : Nat → Nat → WdhcReading
  | _, 0 => reading
  | i, remaining + 1 =>
    readStored (reading.feed
      ((LocalStorage.getValue reading.storage (JString.decimal i) (some [])).getD []))
      (i + 1) remaining

end WdhcReading

variable (digits : JString.CharacterDigit)

/-- `nCnt`, unless what is stored is no number. -/
def storedCount (storage : Preferences) : Option Int :=
  JString.parseInt digits.digit
    ((LocalStorage.getValue storage cntKey (some (JString.ofString "0"))).getD [])

/--
`readWdhcInfo` with the answer of the server, if there is one.

The second result tells that a `NumberFormatException` ended it.
-/
def readWdhcInfo (wdhcInfo : Option JString) (tables : WdhcTables) (storage : Preferences) :
    WdhcReading × Bool :=
  let reading := staticInfo.foldl WdhcReading.feed (.start tables storage)
  match wdhcInfo with
  | some payload =>
    let wdhcInfos := JString.splitText lineBreak payload
    let reading := reading.setValue cntKey (JString.decimal wdhcInfos.length)
    (reading.readServer 1 (wdhcInfos.drop 1), false)
  | none =>
    match storedCount digits reading.storage with
    | none => (reading, true)
    | some nCnt => (reading.readStored 0 nCnt.toNat, false)

end Loading

end AndroidApps.CommonLib
