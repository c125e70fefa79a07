import AndroidApps.CommonLib.HttpDownload

/-! The move of a file, which can fail between the removal of the old file and the renaming. -/

namespace AndroidApps.CommonLib.FileManager

section Model

/--
How paths lead to places of a file system.

Two absolute paths may lead to one place, as `.` and `..` are left standing in them.
-/
structure PathNames (ι : Type) where
  getAbsolutePath : JString → JString
  locate : JString → ι

variable {ι β : Type} [DecidableEq ι]

/-- The place that a path leads to. -/
def PathNames.place (names : PathNames ι) (path : JString) : ι :=
  names.locate (names.getAbsolutePath path)

/-- `delete`, which does what it is asked for if the file system does not refuse. -/
def delete (deletes : Bool) (files : ι → Option β) (place : ι) : ι → Option β :=
  if deletes then Function.update files place none else files

/-- `renameTo`, which cannot rename what is not there and takes the place of what is. -/
def renameTo (renames : Bool) (files : ι → Option β) (src dest : ι) : Bool × (ι → Option β) :=
  match files src with
  | none => (false, files)
  | some content =>
    if renames then
      (true, Function.update (Function.update files src none) dest (some content))
    else (false, files)

/-- `moveFile`, for any outcome of the removal and of the renaming. -/
def moveFile (names : PathNames ι) (deletes renames : Bool) (files : ι → Option β)
    (src dest : JString) : Bool × (ι → Option β) :=
  if (files (names.place src)).isNone then (false, files)
  else
    let files :=
      if (files (names.place dest)).isSome then
        -- Only paths that are written alike are taken for one file.
        if names.getAbsolutePath src ≠ names.getAbsolutePath dest then
          delete deletes files (names.place dest)
        else files
      else files
    renameTo renames files (names.place src) (names.place dest)

/-- The file has been moved as a whole, or nothing has happened to the two places. -/
def MovesOrNot (before : ι → Option β) (src dest : ι) (result : Bool × (ι → Option β)) : Prop :=
  if result.1 then
    (before src).isSome ∧ result.2 dest = before src ∧ (src ≠ dest → result.2 src = none)
  else result.2 src = before src ∧ result.2 dest = before dest

/-- An old file is removed, and the renaming fails then. -/
def LosesFile (names : PathNames ι) (deletes renames : Bool) (files : ι → Option β)
    (src dest : JString) : Prop :=
  (files (names.place src)).isSome ∧ (files (names.place dest)).isSome ∧
    names.getAbsolutePath src ≠ names.getAbsolutePath dest ∧ deletes = true ∧
    (renames = false ∨ names.place src = names.place dest)

/-- Paths that are absolute and lead each to its own place. -/
def plainNames : PathNames JString := ⟨id, id⟩

end Model

section Laws

variable {ι β : Type} [DecidableEq ι] (names : PathNames ι) (deletes renames : Bool)
  (files : ι → Option β) (src dest : JString)

/-- Renaming moves what is at a place, or does nothing. -/
theorem renameTo_movesOrNot (src dest : ι) :
    MovesOrNot files src dest (renameTo renames files src dest) := by
  rw [renameTo]
  cases here : files src with
  | none => exact ⟨rfl, rfl⟩
  | some content =>
    cases renames with
    | false => exact ⟨rfl, rfl⟩
    | true =>
      refine ⟨by simp [here], by simp [here], fun differ => ?_⟩
      -- The place that is left is not the one that is taken.
      simp [Function.update_of_ne differ]

/-- A move without a removal is the renaming alone. -/
theorem moveFile_of_kept (there : (files (names.place src)).isSome)
    (kept : ¬ ((files (names.place dest)).isSome ∧
      names.getAbsolutePath src ≠ names.getAbsolutePath dest ∧ deletes = true)) :
    moveFile names deletes renames files src dest =
      renameTo renames files (names.place src) (names.place dest) := by
  have notMissing : ¬ (files (names.place src)).isNone := by
    simpa [Option.isSome_iff_ne_none] using there
  -- Each of the three ways to keep the old file hands the files on as they are.
  by_cases old : (files (names.place dest)).isSome
  · by_cases differ : names.getAbsolutePath src ≠ names.getAbsolutePath dest
    · have refused : deletes = false := by
        simpa [old, differ] using kept
      simp [moveFile, notMissing, old, delete, refused]
    · simp [moveFile, notMissing, differ]
  · simp [moveFile, notMissing, old]

/-- A move that removes the old file renames in what is left. -/
theorem moveFile_of_removed (there : (files (names.place src)).isSome)
    (old : (files (names.place dest)).isSome)
    (differ : names.getAbsolutePath src ≠ names.getAbsolutePath dest) :
    moveFile names true renames files src dest =
      renameTo renames (Function.update files (names.place dest) none)
        (names.place src) (names.place dest) := by
  have notMissing : ¬ (files (names.place src)).isNone := by
    simpa [Option.isSome_iff_ne_none] using there
  simp [moveFile, notMissing, old, differ, delete]

/-- Renaming after the removal is a whole move if it works and the places differ. -/
theorem renameTo_removed_iff {src dest : ι} (there : (files src).isSome)
    (old : (files dest).isSome) :
    MovesOrNot files src dest (renameTo renames (Function.update files dest none) src dest) ↔
      ¬ (renames = false ∨ src = dest) := by
  obtain ⟨content, here⟩ := Option.isSome_iff_exists.mp there
  obtain ⟨former, was⟩ := Option.isSome_iff_exists.mp old
  by_cases same : src = dest
  · -- The file itself has been removed, so that there is nothing to rename.
    subst same
    simp [renameTo, MovesOrNot, here]
  · have left : Function.update files dest none src = some content := by
      rw [Function.update_of_ne same, here]
    cases renames with
    | false => simp [renameTo, left, MovesOrNot, here, was]
    | true => simp [renameTo, MovesOrNot, here, same]

/-- A move is a whole one or none, unless the old file is removed and the renaming fails then. -/
theorem moveFile_movesOrNot_iff :
    MovesOrNot files (names.place src) (names.place dest)
        (moveFile names deletes renames files src dest) ↔
      ¬ LosesFile names deletes renames files src dest := by
  by_cases there : (files (names.place src)).isSome
  · by_cases removed : (files (names.place dest)).isSome ∧
        names.getAbsolutePath src ≠ names.getAbsolutePath dest ∧ deletes = true
    · obtain ⟨old, differ, rfl⟩ := removed
      rw [moveFile_of_removed names renames files src dest there old differ,
        renameTo_removed_iff renames files there old]
      simp [LosesFile, there, old, differ]
    · rw [moveFile_of_kept names deletes renames files src dest there removed]
      have whole := renameTo_movesOrNot renames files (names.place src) (names.place dest)
      have notLost : ¬ LosesFile names deletes renames files src dest :=
        fun ⟨_, old, differ, deleted, _⟩ => removed ⟨old, differ, deleted⟩
      exact iff_of_true whole notLost
  · -- Without a file to move, nothing is touched.
    have missing : (files (names.place src)).isNone := by
      simpa [Option.isNone_iff_eq_none] using there
    have untouched : moveFile names deletes renames files src dest = (false, files) := by
      simp [moveFile, missing]
    rw [untouched]
    exact iff_of_true ⟨rfl, rfl⟩ fun lost => there lost.1

/-- The file `b` is gone and `a` is where it was, after the renaming of `a` has failed. -/
theorem moveFile_loses :
    ¬ MovesOrNot (fun _ => some 1) [0x61] [0x62]
      (moveFile plainNames true false (fun _ : JString => some 1) [0x61] [0x62]) := by
  have failed : (moveFile plainNames true false (fun _ : JString => some 1) [0x61] [0x62]).1 =
      false := by decide
  rw [MovesOrNot, failed]
  decide

/-- Nothing but the two places changes. -/
theorem moveFile_frame {place : ι} (notSrc : place ≠ names.place src)
    (notDest : place ≠ names.place dest) :
    (moveFile names deletes renames files src dest).2 place = files place := by
  -- Neither the removal nor the renaming touches any place but the two.
  have renameFrame (files : ι → Option β) :
      (renameTo renames files (names.place src) (names.place dest)).2 place = files place := by
    rw [renameTo]
    cases files (names.place src) with
    | none => rfl
    | some content =>
      cases renames <;> simp [Function.update_of_ne notSrc, Function.update_of_ne notDest]
  by_cases there : (files (names.place src)).isSome
  · by_cases removed : (files (names.place dest)).isSome ∧
        names.getAbsolutePath src ≠ names.getAbsolutePath dest ∧ deletes = true
    · obtain ⟨old, differ, rfl⟩ := removed
      rw [moveFile_of_removed names renames files src dest there old differ, renameFrame,
        Function.update_of_ne notDest]
    · rw [moveFile_of_kept names deletes renames files src dest there removed, renameFrame]
  · have missing : (files (names.place src)).isNone := by
      simpa [Option.isNone_iff_eq_none] using there
    simp [moveFile, missing]

/-- With paths that are absolute and lead each to its own place, it ends a download. -/
theorem moveFile_plain (disk : Disk) (files : Files) :
    moveFile plainNames disk.deletes disk.renames files src dest =
      CommonLib.moveFile disk files src dest := by
  -- The removal is made under the same condition, and the renaming finds the same content.
  have srcPlace : plainNames.place src = src := rfl
  have destPlace : plainNames.place dest = dest := rfl
  cases here : files src with
  | none => simp [moveFile, CommonLib.moveFile, srcPlace, here]
  | some content =>
    have there : (files (plainNames.place src)).isSome := by simp [srcPlace, here]
    by_cases removed : (files dest).isSome ∧ src ≠ dest ∧ disk.deletes = true
    · obtain ⟨old, differ, deleted⟩ := removed
      rw [deleted, moveFile_of_removed plainNames disk.renames files src dest there old differ,
        srcPlace, destPlace, renameTo, Function.update_of_ne differ, here]
      simp [CommonLib.moveFile, here, old, differ, deleted]
    · rw [moveFile_of_kept plainNames disk.deletes disk.renames files src dest there removed,
        srcPlace, destPlace, renameTo, here]
      simp [CommonLib.moveFile, here, removed]

end Laws

end AndroidApps.CommonLib.FileManager
