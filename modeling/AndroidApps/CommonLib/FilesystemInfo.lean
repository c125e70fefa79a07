import AndroidApps.Lib.FormEncoding
import AndroidApps.Lib.Levels

/-! The walk that writes the small files of a device into a log, directory by directory. -/

namespace AndroidApps.CommonLib

section Listing

/-- `split` with a limit: the last piece is what is left, whether it is cut any further or not. -/
def splitLimit (separator : UInt16) : Nat → JString → List JString
  | 0, text => [text]
  | 1, text => [text]
  | limit + 2, text =>
    match text.dropWhile (· ≠ separator) with
    | [] => [text]
    | _ :: rest => text.takeWhile (· ≠ separator) :: splitLimit separator (limit + 1) rest

/-- `getBytes`. -/
def getBytes (text : JString) : List UInt8 := JString.utf8 text.chars

/-- The loop of `removeDbSpace`, which stops in front of the last byte. -/
def squeeze : List UInt8 → List UInt8
  | byte :: next :: rest =>
    if byte = 0x20 ∧ next = 0x20 then squeeze (next :: rest) else byte :: squeeze (next :: rest)
  | _ => []

/-- `removeDbSpace`, with `none` for the exception that it throws at an empty text. -/
def removeDbSpace : Option JString → Option JString
  | none => some []
  | some src =>
    match getBytes src with
    | [] => none
    | bytes => some (JString.ofBytes (squeeze bytes))

/-- What a command prints: its lines, and the number of bytes of its messages about errors. -/
structure Printed where
  lines : List JString
  errors : Nat

/-- The bytes of the lines, each with a line feed behind it. -/
def Printed.size (printed : Printed) : Nat :=
  (printed.lines.map fun line => (getBytes line).length + 1).sum

/-- The output of a command does not fit into pipes that nobody reads. -/
def Printed.Overflows (printed : Printed) (pipe : Nat) : Prop :=
  pipe < printed.size ∨ pipe < printed.errors

instance (printed : Printed) (pipe : Nat) : Decidable (printed.Overflows pipe) :=
  inferInstanceAs (Decidable (_ ∨ _))

/-- The lines that were read, with line feeds between them. -/
def joined : List JString → Option JString
  | [] => none
  | line :: lines => some (List.intercalate [0x0A] (line :: lines))

/--
`DeviceManager.shell` of a command, with `none` if it does not return.

It waits for the command to end before it reads, and the command waits where a pipe is full.
-/
def shell (pipe : Nat) (printed : Printed) : Option (Option JString) :=
  if printed.Overflows pipe then none else some (joined printed.lines)

end Listing

section Walk

/-- A file: its length, and what `available` and the stream give, if it can be opened. -/
structure DiskFile where
  length : Nat
  stream : Option (Nat × List UInt8)

/--
A device: what `ls -l` prints for a path, and the file there is at a path.

The bytes that a command can write to a pipe before somebody reads them are given by `pipe`.
-/
structure Device where
  pipe : Nat
  ls : JString → Printed
  file : JString → Option DiskFile

/-- Beginnings of names below `/sys/kernel/slab/` that are skipped. -/
def skipSlabList : List JString :=
  ["shmem_inode_cache", "proc_inode_cache", "radix_tree_node", "inode_cache", "ext3_inode_cache",
    "fat_inode_cache", "ecryptfs_inode_cache", "fat_cache", "file_lock_cache",
    "sock_inode_cache", "anon_vma", "buffer_head", "bdev_cache", "sighand_cache", "UDPv6",
    ":at-0000136", ":at-0000064", ":at-0000024", ":t-0004096", ":t-0002048", ":t-0001536",
    ":t-0001120", ":t-0001024", ":t-0000800", ":t-0000544", ":t-0000512", ":t-0000480",
    ":t-0000288", ":t-0000256", ":t-0000224", ":t-0000200", ":t-0000192", ":t-0000160",
    ":t-0000128", ":t-0000096", ":t-0000088", ":t-0000064", ":t-0000048", ":t-0000040",
    ":t-0000032", ":t-0000024", ":t-0000016", ":t-0000008"].map JString.ofString

/-- Ends of paths of files that are skipped. -/
def skipItemList : List JString :=
  ["/rx_packets", "/tx_packets", "/rx_bytes", "/tx_bytes", "/usage", "/uevent_seqnum",
    "/temp1_input", "/temp2_input", "/runtime_active_time", "/runtime_suspended_time",
    "/connected_duration", "/extent_cache_hits", "/extent_cache_misses",
    "/lifetime_write_kbytes", "/temperature", "/at_pmrst"].map JString.ofString

/-- Ends of paths of directories that are skipped. -/
def skipDirList : List JString :=
  ["/bin", "/sbin", "/ncg", "/ncgsd", "/sdrm", "/app", "/sys/power", "/install", "/preinstall",
    "/clock", "sdcard"].map JString.ofString

/-- Beginnings of paths of directories that are skipped. -/
def skipDirList2 : List JString :=
  ["/proc/0", "/proc/1", "/proc/2", "/proc/3", "/proc/4", "/proc/5", "/proc/6", "/proc/7",
    "/proc/8", "/proc/9", "/proc/uid_stat"].map JString.ofString

/-- The directory of the slabs. -/
def slabDir : JString := JString.ofString "/sys/kernel/slab/"

/-- A directory that is passed over. -/
def skipsDir (path : JString) : Bool :=
  skipDirList.any (fun skip => skip.isSuffixOf path) ||
    skipDirList2.any fun skip => skip.isPrefixOf path

/-- A file that is passed over. -/
def skipsFile (fullPath : JString) : Bool :=
  if slabDir.isPrefixOf fullPath then
    skipSlabList.any fun skip => skip.isPrefixOf (fullPath.drop slabDir.length)
  else skipItemList.any fun skip => skip.isSuffixOf fullPath

/-- `write_info_file`: where `available` gives 0, the first `read` does and ends the loop. -/
def writeInfoFile (path : JString) (file : DiskFile) : List UInt8 :=
  getBytes (path ++ JString.ofString " :") ++
    match file.stream with
    | none => []
    | some (available, content) => if available = 0 then [] else content

/-- What is written about a file: nothing if it is skipped, not there or large. -/
def fileText (device : Device) (fullPath : JString) : List UInt8 :=
  if skipsFile fullPath then []
  else
    match device.file fullPath with
    | none => []
    | some file =>
      if file.length < 4097 then writeInfoFile fullPath file ++ [0x0D, 0x0A] else []

/-- One row of a listing: a directory is put into the queue, and a file is written. -/
def processRow (device : Device) (path row : JString) : List JString × List UInt8 :=
  let infos := splitLimit 0x20 7 row
  let fullPath := path ++ infos.getLastD []
  let kind := (infos.headD []).head?
  -- The first letter of the rights tells a directory from a file; links and devices are left.
  if kind = some 0x64 then ([fullPath], [])
  else if kind = some 0x2D then ([], fileText device fullPath)
  else ([], [])

/-- A path with a slash behind it. -/
def slash (path : JString) : JString := if path.getLast? = some 0x2F then path else path ++ [0x2F]

/-- `process`: the directories that are put into the queue, and what is written. -/
def process (device : Device) : Levels.Visit JString UInt8 := fun path =>
  if skipsDir path then .returns [] []
  else
    match shell device.pipe (device.ls path) with
    -- The command and the walk wait for each other.
    | none => .blocks
    | some result =>
      match removeDbSpace result with
      | none => .throws
      | some resultLs =>
        let rows := (JString.split 0x0A resultLs).map (processRow device (slash path))
        .returns (rows.flatMap (·.1)) (rows.flatMap (·.2))

/-- A line of the log with a time in it. -/
def timeLine (label time : JString) : List UInt8 := getBytes (label ++ time ++ [0x0D, 0x0A])

/-- `inner_run` with a log that could be opened: what is in the log, unless an exception is
thrown. -/
def innerRun (device : Device) (startTime endTime : JString) (fuel : Nat) :
    Option (Option (List UInt8)) :=
  (Loop.run (Levels.pass (process device)) fuel
    ([[0x2F]], timeLine (JString.ofString "start time : ") startTime)).map fun log =>
      log.map fun log => log ++ timeLine (JString.ofString "end time : ") endTime

end Walk

end AndroidApps.CommonLib
