import AndroidApps.Gildroia.Download
import Mathlib.Data.List.Basic

/-! When the versions recorded by a download are those of the files it leaves behind. -/

namespace AndroidApps.Gildroia

section Listing

variable {digit : UInt16 → Option Nat}

/-- The files a file list names. -/
def listedInfos (lines : List JString) : List DownloadFileInfo :=
  ((lines.map JString.trim).filter isInfoLine).map readLine

theorem listedInfos_cons (line : JString) (lines : List JString) :
    listedInfos (line :: lines) =
      if isInfoLine line.trim then readLine line.trim :: listedInfos lines
      else listedInfos lines := by
  unfold listedInfos
  rw [List.map_cons, List.filter_cons]
  split <;> rfl

/-- The loop over the lines comes to its end when all versions are numbers. -/
theorem checkLines_isSome (preferences : JString → Int) (lines : List JString) :
    (checkLines digit preferences lines).isSome = true ↔
      ∀ info ∈ listedInfos lines, (info.number digit).isSome = true := by
  -- The induction is on the lines. A line that is no entry is skipped, and an entry whose version
  -- is not a number ends the loop.
  induction lines with
  | nil => simp [checkLines, listedInfos]
  | cons line lines ih =>
    rw [checkLines, listedInfos_cons]
    split
    · rw [List.forall_mem_cons, ← ih]
      cases (readLine line.trim).number digit with
      | none => simp
      | some version => simp
    · exact ih

/-- A file whose version is new is added to one of the two lists. -/
theorem mem_addInfo (preferences : JString → Int) (added : DownloadFileInfo) (newVer : Int)
    (infos : List DownloadFileInfo × List DownloadFileInfo) (info : DownloadFileInfo) :
    info ∈ (addInfo preferences added newVer infos).1 ++
        (addInfo preferences added newVer infos).2 ↔
      info = added ∧ preferences added.filename < newVer ∨ info ∈ infos.1 ++ infos.2 := by
  -- A file that is not new is in neither list, and any other one is in front of one of them.
  unfold addInfo
  split
  · rename_i new
    split <;> simp [new, or_left_comm]
  · rename_i known
    simp [known]

/-- The files offered are those listed with a version above the one recorded. -/
theorem mem_checkLines {preferences : JString → Int} {lines : List JString} :
    ∀ {infos : List DownloadFileInfo × List DownloadFileInfo},
      checkLines digit preferences lines = some infos → ∀ info : DownloadFileInfo,
      (info ∈ infos.1 ++ infos.2 ↔ info ∈ listedInfos lines ∧
        ∃ version, info.number digit = some version ∧ preferences info.filename < version) := by
  induction lines with
  | nil =>
    intro infos checked info
    cases checked
    simp [listedInfos]
  | cons line lines ih =>
    intro infos checked info
    rw [checkLines] at checked
    rw [listedInfos_cons]
    split at checked
    · rename_i read
      rw [if_pos read]
      split at checked
      · cases checked
      · rename_i newVer parsed
        obtain ⟨others, checkedOthers, added⟩ := Option.map_eq_some_iff.mp checked
        subst added
        rw [mem_addInfo, ih checkedOthers, List.mem_cons, or_and_right]
        refine or_congr ?_ Iff.rfl
        -- The file of this line is offered with the version just read.
        constructor
        · rintro ⟨rfl, new⟩
          exact ⟨rfl, newVer, parsed, new⟩
        · rintro ⟨rfl, version, same, new⟩
          rw [parsed, Option.some.injEq] at same
          exact ⟨rfl, same ▸ new⟩
    · rename_i skipped
      rw [if_neg skipped]
      exact ih checked info

/-- A file offered once is offered again as long as its recorded version stays. -/
theorem checkUpdateFiles_again {preferences later : JString → Int} {text : JString}
    {infos : List DownloadFileInfo × List DownloadFileInfo}
    (checked : checkUpdateFiles digit preferences text = some infos) {info : DownloadFileInfo}
    (offered : info ∈ infos.1 ++ infos.2)
    (kept : later info.filename = preferences info.filename) :
    ∃ again, checkUpdateFiles digit later text = some again ∧ info ∈ again.1 ++ again.2 := by
  -- Whether the list can be read does not depend on the versions recorded.
  have readable : (checkUpdateFiles digit later text).isSome = true :=
    (checkLines_isSome later _).mpr ((checkLines_isSome preferences _).mp
      (Option.isSome_iff_exists.mpr ⟨infos, checked⟩))
  obtain ⟨again, rechecked⟩ := Option.isSome_iff_exists.mp readable
  refine ⟨again, rechecked, (mem_checkLines rechecked info).mpr ?_⟩
  rw [kept]
  exact (mem_checkLines checked info).mp offered

end Listing

section Transfers

/-- How many of the bytes left the passes of a transfer bring to the local file. -/
def covered (available : Nat) : List ReadStep → Nat → Nat
  | [], _ => 0
  | .gives count :: steps, left =>
    let length := bufferLength available count left
    if length = 0 then 0 else length + covered available steps (left - length)
  | .throws _ :: _, _ => 0
  | .writeThrows count kept _ :: _, left => min kept (bufferLength available count left)

/-- A transfer brings all bytes of a body to the local file. -/
def Transfer.delivers (length : Nat) : Transfer → Bool
  | .unopened _ => false
  | .unread _ => length == 0
  | .reads available steps _ => covered available steps length == length

/-- The loop writes the first bytes of the body, as many as its passes cover. -/
theorem transferLoop_written (available : Nat) (steps : List ReadStep) :
    ∀ rest written, (transferLoop available steps rest written).1 =
      written ++ rest.take (covered available steps rest.length) := by
  induction steps with
  | nil =>
    intro rest written
    simp [transferLoop, covered]
  | cons step steps ih =>
    intro rest written
    cases step with
    | gives count =>
      simp only [transferLoop, covered]
      split
      · simp
      · -- The bytes of this pass are followed by those of the later ones.
        rw [ih, List.length_drop, List.append_assoc, List.take_add]
    | throws thrown => simp [transferLoop, covered]
    | writeThrows count kept thrown =>
      simp only [transferLoop, covered]
      split
      · rename_i none
        simp [none]
      · rw [List.take_take]

/-- A transfer leaves the whole body behind when it delivers it. -/
theorem downLoadFile_delivered {body : List UInt8} {transfer : Transfer}
    (delivers : transfer.delivers body.length = true) (file : Option (List UInt8)) :
    (downLoadFileFromWebServer body file transfer).1 = some body := by
  -- An empty body is delivered by reading nothing, and any other one by covering its length.
  cases transfer with
  | unopened thrown => cases delivers
  | unread thrown =>
    have empty : body = [] := List.length_eq_zero_iff.mp (eq_of_beq delivers)
    rw [downLoadFileFromWebServer, empty]
  | reads available steps closing =>
    have all : covered available steps body.length = body.length := eq_of_beq delivers
    simp only [downLoadFileFromWebServer]
    rw [transferLoop_written, all, List.take_length, List.nil_append]

/-- Whether an exception escapes from a transfer. -/
def Transfer.escapes (body : List UInt8) (transfer : Transfer) : Bool :=
  (downLoadFileFromWebServer body none transfer).2

/-- What was in the local file before has no part in it. -/
theorem downLoadFile_escapes (body : List UInt8) (file : Option (List UInt8))
    (transfer : Transfer) :
    (downLoadFileFromWebServer body file transfer).2 = transfer.escapes body := by
  cases transfer <;> rfl

end Transfers

section Thread

variable {digit : UInt16 → Option Nat} {served : JString → List UInt8}

/-- The entries of a download. -/
abbrev Entries := List (DownloadFileInfo × Transfer)

variable (served) in
/-- An exception escapes from the transfer of an entry. -/
def entryEscapes (entry : DownloadFileInfo × Transfer) : Bool :=
  entry.2.escapes (served entry.1.filename)

variable (served) in
/-- The transfer of an entry brings all of its file. -/
def entryDelivers (entry : DownloadFileInfo × Transfer) : Bool :=
  entry.2.delivers (served entry.1.filename).length

variable (served) in
/-- The entries whose transfers come back, before the first one that ends the thread. -/
def finished (entries : Entries) : Entries :=
  entries.takeWhile fun entry => !entryEscapes served entry

variable (served) in
/-- The entry whose transfer ends the thread. -/
def cutOff (entries : Entries) : Option (DownloadFileInfo × Transfer) :=
  (entries.dropWhile fun entry => !entryEscapes served entry).head?

variable (digit served) in
/-- An entry whose transfer came back: its version is recorded. -/
def Device.record (device : Device) (entry : DownloadFileInfo × Transfer) : Device :=
  (device.store served entry).putInt entry.1.filename ((entry.1.number digit).getD 0)

/-- The thread records the entries before the one that ends it. -/
theorem downloadThread2_eq {entries : Entries}
    (numbered : ∀ entry ∈ entries, (entry.1.number digit).isSome = true) :
    ∀ device : Device, downloadThread2 digit served device entries =
      (match cutOff served entries with
        | none => (finished served entries).foldl (Device.record digit served) device
        | some entry =>
          ((finished served entries).foldl (Device.record digit served) device).store served
            entry) := by
  -- The induction is on the entries. An exception that escapes the transfer ends the thread before
  -- the version is recorded, but behind what was written to the file.
  induction entries with
  | nil => exact fun device => rfl
  | cons entry rest ih =>
    intro device
    obtain ⟨version, parsed⟩ := Option.isSome_iff_exists.mp (numbered entry List.mem_cons_self)
    rw [downloadThread2]
    simp only [downLoadFile_escapes]
    cases ends : entryEscapes served entry with
    | true =>
      simp only [entryEscapes] at ends
      simp [ends, cutOff, finished, entryEscapes]
    | false =>
      have recorded : (device.store served entry).putInt entry.1.filename version =
          device.record digit served entry := by
        rw [Device.record, parsed, Option.getD_some]
      have later := ih (fun other member => numbered other (List.mem_cons_of_mem entry member))
        (device.record digit served entry)
      have rested : cutOff served (entry :: rest) = cutOff served rest := by
        simp [cutOff, ends]
      have listed : finished served (entry :: rest) = entry :: finished served rest := by
        simp [finished, ends]
      simp only [entryEscapes] at ends
      rw [ends, if_neg Bool.false_ne_true, parsed]
      simp only [recorded]
      rw [later, rested, listed, List.foldl_cons]

variable (digit served) in
/-- A file that is not recorded stays as it is. -/
theorem foldl_record_other {name : JString} {entries : Entries} :
    ∀ device : Device, (∀ entry ∈ entries, entry.1.filename ≠ name) →
      (entries.foldl (Device.record digit served) device).files name = device.files name ∧
        (entries.foldl (Device.record digit served) device).preferences name =
          device.preferences name := by
  -- Recording an entry writes to its own name only.
  induction entries with
  | nil => exact fun _ _ => ⟨rfl, rfl⟩
  | cons entry rest ih =>
    intro device others
    obtain ⟨own, later⟩ := List.forall_mem_cons.mp others
    obtain ⟨files, preferences⟩ := ih (device.record digit served entry) later
    rw [List.foldl_cons, files, preferences]
    exact ⟨Function.update_of_ne own.symm _ _, Function.update_of_ne own.symm _ _⟩

/-- The last entry of a file in a list that has one. -/
theorem exists_last_entry {name : JString} {entries : Entries}
    (named : ∃ entry ∈ entries, entry.1.filename = name) :
    ∃ before entry after, entries = before ++ entry :: after ∧ entry.1.filename = name ∧
      ∀ other ∈ after, other.1.filename ≠ name := by
  -- The induction is on the entries: the last one is in the rest if the rest has one, and otherwise
  -- it is the first.
  induction entries with
  | nil =>
    obtain ⟨entry, member, _⟩ := named
    cases member
  | cons first rest ih =>
    by_cases later : ∃ other ∈ rest, other.1.filename = name
    · obtain ⟨before, entry, after, split, own, others⟩ := ih later
      exact ⟨first :: before, entry, after, by rw [split, List.cons_append], own, others⟩
    · refine ⟨[], first, rest, rfl, ?_, fun other member same => later ⟨other, member, same⟩⟩
      obtain ⟨entry, member, own⟩ := named
      rcases List.mem_cons.mp member with here | behind
      · rwa [← here]
      · exact (later ⟨entry, behind, own⟩).elim

variable (digit served) in
/-- What is recorded for a file comes from the last of its entries. -/
theorem foldl_record_named (device : Device) {name : JString} {entries : Entries}
    (named : ∃ entry ∈ entries, entry.1.filename = name) :
    ∃ entry ∈ entries, entry.1.filename = name ∧
      (entries.foldl (Device.record digit served) device).preferences name =
        (entry.1.number digit).getD 0 ∧
      (entryDelivers served entry = true →
        (entries.foldl (Device.record digit served) device).files name = some (served name)) := by
  -- Only the last entry of the file counts, as those behind it record other files.
  obtain ⟨before, entry, after, split, own, others⟩ := exists_last_entry named
  subst split own
  rw [List.foldl_append, List.foldl_cons]
  obtain ⟨files, preferences⟩ := foldl_record_other digit served _ others
  refine ⟨entry, List.mem_append_right before List.mem_cons_self, rfl, ?_, ?_⟩
  · rw [preferences]
    exact Function.update_self _ _ _
  · intro delivered
    rw [files]
    exact (Function.update_self _ _ _).trans (downLoadFile_delivered delivered _)

/-- The entries whose transfers were begun. -/
def started (served : JString → List UInt8) (entries : Entries) : Entries :=
  finished served entries ++ (cutOff served entries).toList

variable (digit served) in
/--
The bookkeeping of a download from a file list.

A version recorded is that of a complete file, and a file that did not come through keeps its
version, so that it is offered again.
-/
structure Truthful (text : JString) (before after : Device) (entries : Entries) : Prop where
  complete : ∀ entry ∈ entries, ∀ version, entry.1.number digit = some version →
    after.preferences entry.1.filename = version →
    after.files entry.1.filename = some (served entry.1.filename)
  kept : ∀ entry ∈ started served entries, entryDelivers served entry = false →
    after.preferences entry.1.filename = before.preferences entry.1.filename ∧
    ∃ infos, checkUpdateFiles digit after.preferences text = some infos ∧
      entry.1 ∈ infos.1 ++ infos.2

variable (served) in
/--
Every transfer that comes back delivers its file.

One that ends the thread may fail, but not for a file that was transferred before it.
-/
structure AllDelivered (entries : Entries) : Prop where
  back : ∀ entry ∈ finished served entries, entryDelivers served entry = true
  ending : ∀ entry ∈ cutOff served entries, entryDelivers served entry = true ∨
    ∀ other ∈ finished served entries, other.1.filename ≠ entry.1.filename

/-- An entry whose transfer was begun came back, or ended the thread. -/
theorem mem_started {entry : DownloadFileInfo × Transfer} {entries : Entries}
    (begun : entry ∈ started served entries) :
    entry ∈ finished served entries ∨ entry ∈ cutOff served entries := by
  rw [started, List.mem_append, Option.mem_toList] at begun
  exact begun

-- The entries selected were offered with versions above those recorded.
variable {device : Device} {entries : Entries}
  (offered : ∀ entry ∈ entries, ∃ version, entry.1.number digit = some version ∧
    device.preferences entry.1.filename < version)

include offered in
/-- The thread on entries that were offered. -/
theorem downloadThread2_offered (served : JString → List UInt8) :
    downloadThread2 digit served device entries =
      (match cutOff served entries with
        | none => (finished served entries).foldl (Device.record digit served) device
        | some entry =>
          ((finished served entries).foldl (Device.record digit served) device).store served
            entry) := by
  refine downloadThread2_eq (fun entry member => ?_) device
  obtain ⟨version, parsed, _⟩ := offered entry member
  rw [parsed, Option.isSome_some]

include offered in
/-- The versions behind the thread are those recorded for the entries that came back. -/
theorem downloadThread2_preferences (served : JString → List UInt8) :
    (downloadThread2 digit served device entries).preferences =
      ((finished served entries).foldl (Device.record digit served) device).preferences := by
  rw [downloadThread2_offered offered]
  split <;> rfl

include offered in
/-- A version that was recorded is above the one that was there before. -/
theorem downloadThread2_raised {entry : DownloadFileInfo × Transfer}
    (back : entry ∈ finished served entries) :
    device.preferences entry.1.filename <
      (downloadThread2 digit served device entries).preferences entry.1.filename := by
  obtain ⟨last, recorded, same, version, _⟩ :=
    foldl_record_named digit served device ⟨entry, back, rfl⟩
  obtain ⟨number, parsed, new⟩ := offered last ((List.takeWhile_sublist _).mem recorded)
  rw [downloadThread2_preferences offered, version, parsed, Option.getD_some, ← same]
  exact new

include offered in
/-- When all transfers that come back deliver, a file with its new version is complete. -/
theorem AllDelivered.complete (all : AllDelivered served entries)
    {entry : DownloadFileInfo × Transfer} (member : entry ∈ entries) {version : Int}
    (parsed : entry.1.number digit = some version)
    (current : (downloadThread2 digit served device entries).preferences entry.1.filename =
      version) :
    (downloadThread2 digit served device entries).files entry.1.filename =
      some (served entry.1.filename) := by
  have named : ∃ other ∈ finished served entries, other.1.filename = entry.1.filename := by
    by_contra none
    -- Otherwise the version is still the old one.
    have old := (foldl_record_other digit served device
      fun other back same => none ⟨other, back, same⟩).2
    obtain ⟨number, numbered, new⟩ := offered entry member
    rw [downloadThread2_preferences offered, old] at current
    rw [parsed, Option.some.injEq] at numbered
    omega
  obtain ⟨last, back, _, _, files⟩ := foldl_record_named digit served device named
  have stored := files (all.back last back)
  rw [downloadThread2_offered offered]
  split
  · exact stored
  · rename_i cut ends
    by_cases same : cut.1.filename = entry.1.filename
    · rcases all.ending cut ends with delivered | fresh
      · rw [← same]
        exact (Function.update_self _ _ _).trans (downLoadFile_delivered delivered _)
      · obtain ⟨other, earlier, named⟩ := named
        exact (fresh other earlier (named.trans same.symm)).elim
    · exact (Function.update_of_ne (Ne.symm same) _ _).trans stored

/-- The bookkeeping is truthful exactly when no transfer is recorded that did not come through. -/
theorem downloadThread2_truthful_iff {text : JString}
    {infos : List DownloadFileInfo × List DownloadFileInfo}
    (checked : checkUpdateFiles digit device.preferences text = some infos)
    (selected : ∀ entry ∈ entries, entry.1 ∈ infos.1 ++ infos.2) :
    Truthful digit served text device (downloadThread2 digit served device entries) entries ↔
      AllDelivered served entries := by
  have offered : ∀ entry ∈ entries, ∃ version, entry.1.number digit = some version ∧
      device.preferences entry.1.filename < version := by
    intro entry member
    exact ((mem_checkLines checked entry.1).mp (selected entry member)).2
  constructor
  · -- A recorded version is a raised one, and a file that did not come through kept its own.
    intro truthful
    constructor
    · intro entry back
      by_contra failed
      have kept := (truthful.kept entry (List.mem_append_left _ back)
        (Bool.eq_false_iff.mpr failed)).1
      have raised := downloadThread2_raised offered back
      omega
    · intro entry ends
      by_contra failed
      rw [not_or] at failed
      refine failed.2 fun other back same => ?_
      have kept := (truthful.kept entry
        (List.mem_append_right _ (Option.mem_toList.mpr ends))
        (Bool.eq_false_iff.mpr failed.1)).1
      have raised := downloadThread2_raised offered back
      rw [same] at raised
      omega
  · intro all
    refine ⟨fun entry member version parsed current =>
      all.complete offered member parsed current, ?_⟩
    intro entry begun failed
    have kept : (downloadThread2 digit served device entries).preferences entry.1.filename =
        device.preferences entry.1.filename := by
      rcases mem_started begun with back | ends
      · rw [all.back entry back] at failed
        cases failed
      · rcases all.ending entry ends with delivered | fresh
        · rw [delivered] at failed
          cases failed
        · rw [downloadThread2_preferences offered]
          exact (foldl_record_other digit served device fresh).2
    have member : entry ∈ entries := by
      rcases mem_started begun with back | ends
      · exact (List.takeWhile_sublist _).mem back
      · exact (List.dropWhile_sublist _).mem (List.mem_of_head? ends)
    exact ⟨kept, checkUpdateFiles_again checked (selected entry member) kept⟩

/-- A file list of one line, `1,a,x,3`. -/
def oneLine : JString := [0x31, 0x2C, 0x61, 0x2C, 0x78, 0x2C, 0x33]

/-- The file of that line. -/
def oneInfo : DownloadFileInfo := ⟨false, [0x61], some [0x78], some [0x33], none⟩

/-- A device without files. -/
def freshDevice : Device := ⟨fun _ => none, fun _ => 0⟩

theorem oneInfo_offered :
    checkUpdateFiles JString.asciiDigit freshDevice.preferences oneLine = some ([], [oneInfo]) := by
  decide +kernel

/-- A file of three bytes that comes in two reads is recorded rightly. -/
theorem downloadThread2_truthful_two :
    Truthful JString.asciiDigit (fun _ => [1, 2, 3]) oneLine freshDevice
      (downloadThread2 JString.asciiDigit (fun _ => [1, 2, 3]) freshDevice
        [(oneInfo, .reads 2 [.gives 2, .gives 1] none)])
      [(oneInfo, .reads 2 [.gives 2, .gives 1] none)] := by
  refine (downloadThread2_truthful_iff oneInfo_offered ?_).mpr ⟨?_, ?_⟩
  · simp
  · decide +kernel
  · decide +kernel

/-- A file whose connection fails is recorded with its new version, and is not there. -/
theorem downloadThread2_untruthful :
    checkUpdateFiles JString.asciiDigit freshDevice.preferences oneLine = some ([], [oneInfo]) ∧
      (downloadThread2 JString.asciiDigit (fun _ => [1, 2, 3]) freshDevice
        [(oneInfo, .unopened .io)]).preferences [0x61] = 3 ∧
      ¬ Truthful JString.asciiDigit (fun _ => [1, 2, 3]) oneLine freshDevice
        (downloadThread2 JString.asciiDigit (fun _ => [1, 2, 3]) freshDevice
          [(oneInfo, .unopened .io)])
        [(oneInfo, .unopened .io)] := by
  -- The version is recorded although nothing was transferred.
  have recorded : (downloadThread2 JString.asciiDigit (fun _ => [1, 2, 3]) freshDevice
      [(oneInfo, .unopened .io)]).preferences [0x61] = 3 := by decide +kernel
  have missing : (downloadThread2 JString.asciiDigit (fun _ => [1, 2, 3]) freshDevice
      [(oneInfo, .unopened .io)]).files [0x61] = none := by decide +kernel
  refine ⟨oneInfo_offered, recorded, fun truthful => ?_⟩
  have stored := truthful.complete (oneInfo, .unopened .io) List.mem_cons_self 3
    (by decide +kernel) recorded
  cases missing.symm.trans stored

end Thread

end AndroidApps.Gildroia
