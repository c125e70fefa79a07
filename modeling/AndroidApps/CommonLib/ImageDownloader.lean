import AndroidApps.Lib.Events
import Mathlib.Data.List.AList
import Mathlib.Logic.Function.Basic

/-! The download of images into views that are reused, and the cache of downloaded images. -/

namespace AndroidApps.CommonLib

section Model

/-- A decoded image, with the URL it was downloaded from. -/
structure Bitmap (υ β : Type) where
  url : υ
  image : β
  deriving DecidableEq

/--
What an `ImageView` displays.

Its own drawable is the one of its layout, and a `DownloadedDrawable` is a transparent placeholder
that knows its task as long as the task is not collected.
-/
inductive Drawable (υ β : Type) where
  | own
  | nothing
  | bitmap (bitmap : Bitmap υ β)
  | downloaded (bitmapDownloaderTaskReference : Option Nat)
  deriving DecidableEq

/-- An `ImageDownloaderTask`, with what it was executed with and how far it has come. -/
structure ImageDownloaderTask (υ ν : Type) where
  url : Option υ
  targetUrl : υ
  imageViewReference : Option ν
  params : υ
  cancelled : Bool
  finished : Bool
  deriving DecidableEq

/-- The cache, what the views display, all tasks, and the last URL requested for each view. -/
structure ImageDownloader (υ β ν : Type) where
  mImageCache : AList fun _ : υ => Option (Bitmap υ β)
  drawable : ν → Drawable υ β
  tasks : List (ImageDownloaderTask υ ν)
  requested : ν → Option υ

/-- What comes of an HTTP request: an exception, or a status and an entity that may not decode. -/
inductive HttpAnswer (β : Type) where
  | exception
  | response (statusCode : Nat) (entity : Option (Option β))
  deriving DecidableEq

/-- What happens next on the UI thread, or to a weak reference. -/
inductive ImageEvent (υ β ν : Type) where
  | download (url : υ) (imageView : Option ν)
  | postExecute (task : Nat) (answer : HttpAnswer β)
  | collectTask (imageView : ν)
  | collectView (task : Nat)

/-- `IMGAE_CACHE_LIMIT_SIZE`. -/
def imageCacheLimitSize : Nat := 50

/-- `downloadBitmap`. -/
def downloadBitmap {υ β : Type} (url : υ) : HttpAnswer β → Option (Bitmap υ β)
  | .exception => none
  | .response statusCode entity =>
    if statusCode ≠ 200 then none
    else entity.join.map (Bitmap.mk url)

namespace ImageDownloader

variable {υ β ν : Type}

/-- No URL was requested yet, and each view displays what its layout says. -/
def start : ImageDownloader υ β ν := ⟨∅, fun _ => .own, [], fun _ => none⟩

/-- `getBitmapDownloaderTask`. -/
def getBitmapDownloaderTask (state : ImageDownloader υ β ν) (imageView : Option ν) : Option Nat :=
  match imageView with
  | none => none
  | some imageView =>
    match state.drawable imageView with
    | .downloaded bitmapDownloaderTaskReference => bitmapDownloaderTaskReference
    | _ => none

/-- `cancel`. -/
def cancel (state : ImageDownloader υ β ν) (task : Nat) : ImageDownloader υ β ν :=
  { state with tasks := state.tasks.modify task fun task => { task with cancelled := true } }

variable [DecidableEq υ]

/-- `cancelPotentialDownload`. -/
def cancelPotentialDownload (state : ImageDownloader υ β ν) (url : υ) (imageView : Option ν) :
    Bool × ImageDownloader υ β ν :=
  match state.getBitmapDownloaderTask imageView with
  | none => (true, state)
  | some bitmapDownloaderTask =>
    match (state.tasks[bitmapDownloaderTask]?).bind (·.url) with
    | none => (true, state.cancel bitmapDownloaderTask)
    | some bitmapUrl =>
      if bitmapUrl ≠ url then (true, state.cancel bitmapDownloaderTask) else (false, state)

/-- The cache is emptied when it has grown too large. -/
def clearCache (state : ImageDownloader υ β ν) : ImageDownloader υ β ν :=
  if imageCacheLimitSize < state.mImageCache.keys.length then { state with mImageCache := ∅ }
  else state

variable [DecidableEq ν]

/-- A view displays another drawable. -/
def setImageDrawable (state : ImageDownloader υ β ν) (imageView : ν) (drawable : Drawable υ β) :
    ImageDownloader υ β ν :=
  { state with drawable := Function.update state.drawable imageView drawable }

/-- `setImageBitmap`. -/
def setImageBitmap (state : ImageDownloader υ β ν) (imageView : ν)
    (bitmap : Option (Bitmap υ β)) : ImageDownloader υ β ν :=
  state.setImageDrawable imageView (bitmap.elim .nothing .bitmap)

/-- A new task for a view is made, shown and executed. -/
def execute (state : ImageDownloader υ β ν) (url : υ) (imageView : ν) : ImageDownloader υ β ν :=
  let task : ImageDownloaderTask υ ν := ⟨none, url, some imageView, url, false, false⟩
  let downloadedDrawable := Drawable.downloaded (some state.tasks.length)
  { state with tasks := state.tasks ++ [task] }.setImageDrawable imageView downloadedDrawable

/-- `download`. -/
def download (state : ImageDownloader υ β ν) (url : υ) (imageView : Option ν) :
    ImageDownloader υ β ν :=
  match (state.mImageCache.lookup url).join, imageView with
  | some cachedImage, some imageView => state.setImageBitmap imageView (some cachedImage)
  -- Without a view, an exception leaves what was done up to there.
  | some _, none => state
  | none, imageView =>
    match state.cancelPotentialDownload url imageView with
    | (false, state) => state
    | (true, state) =>
      let state := state.clearCache
      imageView.elim state (state.execute url)

/-- `onPostExecute`; older platforms call it for a cancelled task, too. -/
def onPostExecute (state : ImageDownloader υ β ν) (index : Nat) (task : ImageDownloaderTask υ ν)
    (bitmap : Option (Bitmap υ β)) : ImageDownloader υ β ν :=
  let bitmap := if task.cancelled then none else bitmap
  match task.imageViewReference with
  | none => state
  | some imageView =>
    if state.getBitmapDownloaderTask (some imageView) = some index then
      { state with mImageCache := state.mImageCache.insert task.targetUrl bitmap }.setImageBitmap
        imageView bitmap
    else state

/-- The last URL requested for a view. -/
def request (state : ImageDownloader υ β ν) (url : υ) (imageView : Option ν) :
    ImageDownloader υ β ν :=
  imageView.elim state fun imageView =>
    { state with requested := Function.update state.requested imageView (some url) }

/-- What an event does, if it can happen; no task ends twice. -/
def step (state : ImageDownloader υ β ν) :
    ImageEvent υ β ν → Option (ImageDownloader υ β ν)
  | .download url imageView => some ((state.download url imageView).request url imageView)
  | .postExecute index answer =>
    match state.tasks[index]? with
    | none => none
    | some task =>
      if task.finished then none
      else
        let state := state.onPostExecute index task (downloadBitmap task.params answer)
        some { state with
          tasks := state.tasks.modify index fun task => { task with finished := true } }
  | .collectTask imageView =>
    match state.drawable imageView with
    | .downloaded _ => some (state.setImageDrawable imageView (.downloaded none))
    | _ => none
  | .collectView index =>
    some { state with
      tasks := state.tasks.modify index fun task => { task with imageViewReference := none } }

end ImageDownloader

end Model

namespace ImageDownloader

section Latest

variable {υ β ν : Type}

/--
No view displays a stale picture, and the cache keeps no picture under another URL.

A view displays the drawable of its layout only until a URL is requested for it.
-/
structure Current [DecidableEq υ] (state : ImageDownloader υ β ν) : Prop where
  cached : ∀ url bitmap, state.mImageCache.lookup url = some (some bitmap) → bitmap.url = url
  shown : ∀ imageView, match state.drawable imageView with
    | .own => state.requested imageView = none
    | .nothing => True
    | .bitmap bitmap => state.requested imageView = some bitmap.url
    | .downloaded _ => True

/-- A view displays what belongs to the last URL requested for it. -/
def Fits (tasks : List (ImageDownloaderTask υ ν)) (requested : Option υ) : Drawable υ β → Prop
  | .own => requested = none
  | .nothing => True
  | .bitmap bitmap => requested = some bitmap.url
  | .downloaded none => True
  | .downloaded (some index) => ∃ task, tasks[index]? = some task ∧ requested = some task.targetUrl

/-- A task downloads the URL that it is for, and has no other. -/
def WellMade (task : ImageDownloaderTask υ ν) : Prop :=
  task.params = task.targetUrl ∧ task.url = none

/-- What all events preserve. -/
structure Ordered [DecidableEq υ] (state : ImageDownloader υ β ν) : Prop where
  cached : ∀ url bitmap, state.mImageCache.lookup url = some (some bitmap) → bitmap.url = url
  made : ∀ task ∈ state.tasks, WellMade task
  fits : ∀ imageView, Fits state.tasks (state.requested imageView) (state.drawable imageView)

/-- Tasks that keep their target URLs keep what fits. -/
theorem fits_of_targets {tasks later : List (ImageDownloaderTask υ ν)}
    (targets : ∀ (index : Nat) (task : ImageDownloaderTask υ ν), tasks[index]? = some task →
      ∃ behind, later[index]? = some behind ∧ behind.targetUrl = task.targetUrl)
    {requested : Option υ} {drawable : Drawable υ β} (fits : Fits tasks requested drawable) :
    Fits later requested drawable := by
  -- Only a placeholder looks at the tasks, and only at the target URL of its own.
  cases drawable with
  | own => exact fits
  | nothing => exact trivial
  | bitmap bitmap => exact fits
  | downloaded reference =>
    cases reference with
    | none => exact trivial
    | some index =>
      obtain ⟨task, there, same⟩ := fits
      obtain ⟨behind, now, target⟩ := targets index task there
      exact ⟨behind, now, same.trans (congrArg some target.symm)⟩

/-- What a task downloads comes from the URL it was executed with. -/
theorem downloadBitmap_url {url : υ} {answer : HttpAnswer β} {picture : Bitmap υ β}
    (downloaded : downloadBitmap url answer = some picture) : picture.url = url := by
  -- Whatever is decoded is kept with the URL of the request.
  cases answer with
  | exception => cases downloaded
  | response statusCode entity =>
    simp only [downloadBitmap] at downloaded
    split at downloaded
    · cases downloaded
    · obtain ⟨image, _, rfl⟩ := Option.map_eq_some_iff.mp downloaded
      rfl

variable [DecidableEq υ]

/-- A change of a task that leaves its URLs as they are preserves what all events preserve. -/
theorem ordered_modify {state : ImageDownloader υ β ν} (kept : Ordered state) (index : Nat)
    {change : ImageDownloaderTask υ ν → ImageDownloaderTask υ ν}
    (target : ∀ task, (change task).targetUrl = task.targetUrl)
    (made : ∀ task, WellMade task → WellMade (change task)) :
    Ordered { state with tasks := state.tasks.modify index change } := by
  -- The list has the same tasks at the same places, up to the change at one of them.
  refine ⟨kept.cached, fun task member => ?_, fun imageView => ?_⟩
  · obtain ⟨place, inside, rfl⟩ := List.mem_iff_getElem.mp member
    rw [List.getElem_modify]
    have old := kept.made _ (List.getElem_mem (by simpa using inside))
    split
    · exact made _ old
    · exact old
  · refine fits_of_targets (fun place task there => ?_) (kept.fits imageView)
    refine ⟨if index = place then change task else task, ?_, ?_⟩
    · rw [List.getElem?_modify, there]
      split <;> rfl
    · split
      · exact target task
      · rfl

/-- A cancelled task is still the one that it was. -/
theorem ordered_cancel {state : ImageDownloader υ β ν} (kept : Ordered state) (index : Nat) :
    Ordered (state.cancel index) :=
  ordered_modify kept index (fun _ => rfl) fun _ made => made

/-- An emptied cache maps no URL. -/
theorem ordered_clearCache {state : ImageDownloader υ β ν} (kept : Ordered state) :
    Ordered state.clearCache := by
  unfold clearCache
  split
  · exact ⟨fun url bitmap found => by simp at found, kept.made, kept.fits⟩
  · exact kept

/-- No task carries the URL that a repeated request would be recognised by, so each is cancelled. -/
theorem cancelPotentialDownload_true {state : ImageDownloader υ β ν} (kept : Ordered state)
    (url : υ) (imageView : Option ν) :
    ∃ behind, state.cancelPotentialDownload url imageView = (true, behind) ∧ Ordered behind := by
  -- The field that would tell a repeated request is never set.
  unfold cancelPotentialDownload
  cases state.getBitmapDownloaderTask imageView with
  | none => exact ⟨state, rfl, kept⟩
  | some index =>
    have unset : (state.tasks[index]?).bind (·.url) = none := by
      cases there : state.tasks[index]? with
      | none => rfl
      | some task => exact (kept.made task (List.mem_of_getElem? there)).2
    simp only [unset]
    exact ⟨state.cancel index, rfl, ordered_cancel kept index⟩

/-- A new task leaves the others as they are. -/
theorem ordered_append {state : ImageDownloader υ β ν} (kept : Ordered state)
    {task : ImageDownloaderTask υ ν} (made : WellMade task) :
    Ordered { state with tasks := state.tasks ++ [task] } := by
  -- Places of the old tasks are as before, and no view displays the new one yet.
  refine ⟨kept.cached, fun other member => ?_, fun imageView => ?_⟩
  · rcases List.mem_append.mp member with old | new
    · exact kept.made other old
    · rw [List.mem_singleton.mp new]
      exact made
  · refine fits_of_targets (fun index other there => ⟨other, ?_, rfl⟩) (kept.fits imageView)
    have inside : index < state.tasks.length := (List.getElem?_eq_some_iff.mp there).1
    rw [List.getElem?_append_left inside, there]

/-- A picture is cached under its own URL. -/
theorem ordered_insert {state : ImageDownloader υ β ν} (kept : Ordered state) {url : υ}
    {bitmap : Option (Bitmap υ β)} (own : ∀ picture, bitmap = some picture → picture.url = url) :
    Ordered { state with mImageCache := state.mImageCache.insert url bitmap } := by
  -- What is found under the URL itself is the new picture, and under another what was there.
  refine ⟨fun other picture found => ?_, kept.made, kept.fits⟩
  by_cases same : other = url
  · subst same
    rw [AList.lookup_insert] at found
    exact own picture (Option.some.inj found)
  · rw [AList.lookup_insert_ne same] at found
    exact kept.cached other picture found

/-- What all events preserve leaves no stale picture. -/
theorem Ordered.current {state : ImageDownloader υ β ν} (kept : Ordered state) : Current state := by
  -- Without the tasks, what fits is what is current.
  refine ⟨kept.cached, fun imageView => ?_⟩
  have fits := kept.fits imageView
  cases drawn : state.drawable imageView with
  | own => rwa [drawn] at fits
  | nothing => exact trivial
  | bitmap bitmap => rwa [drawn] at fits
  | downloaded reference => exact trivial

variable [DecidableEq ν]

/-- A view may display whatever belongs to the URL requested for it now. -/
theorem ordered_update {state : ImageDownloader υ β ν} (kept : Ordered state) (imageView : ν)
    {requested : Option υ} {drawable : Drawable υ β}
    (fits : Fits state.tasks requested drawable) :
    Ordered { state with
      drawable := Function.update state.drawable imageView drawable
      requested := Function.update state.requested imageView requested } := by
  -- The view itself gets something that fits, and the others keep what they have.
  refine ⟨kept.cached, kept.made, fun other => ?_⟩
  by_cases same : other = imageView
  · subst same
    simpa using fits
  · simpa [Function.update_of_ne same] using kept.fits other

/-- A view may display whatever belongs to the URL requested for it before. -/
theorem ordered_setImageDrawable {state : ImageDownloader υ β ν} (kept : Ordered state)
    {imageView : ν} {drawable : Drawable υ β}
    (fits : Fits state.tasks (state.requested imageView) drawable) :
    Ordered (state.setImageDrawable imageView drawable) := by
  -- The request of the view is left as it is.
  have updated := ordered_update kept imageView fits
  rwa [Function.update_eq_self] at updated

/-- A request leaves every view with what belongs to the last URL requested for it. -/
theorem ordered_download {state : ImageDownloader υ β ν} (kept : Ordered state) (url : υ)
    (imageView : Option ν) : Ordered ((state.download url imageView).request url imageView) := by
  -- A cached picture has the URL requested, and otherwise a task for it is made.
  cases cached : (state.mImageCache.lookup url).join with
  | some picture =>
    cases imageView with
    | none => simpa [download, cached, request] using kept
    | some imageView =>
      have found : state.mImageCache.lookup url = some (some picture) :=
        Option.join_eq_some_iff.mp cached
      have result : (state.download url (some imageView)).request url (some imageView) =
          { state with
            drawable := Function.update state.drawable imageView (.bitmap picture)
            requested := Function.update state.requested imageView (some url) } := by
        simp [download, cached, request, setImageBitmap, setImageDrawable]
      rw [result]
      exact ordered_update kept imageView (congrArg some (kept.cached url picture found).symm)
  | none =>
    obtain ⟨behind, cancels, ordered⟩ := cancelPotentialDownload_true kept url imageView
    have cleared := ordered_clearCache ordered
    cases imageView with
    | none => simpa [download, cached, cancels, request] using cleared
    | some imageView =>
      have result : (state.download url (some imageView)).request url (some imageView) =
          (behind.clearCache.execute url imageView).request url (some imageView) := by
        simp [download, cached, cancels]
      rw [result]
      -- The view displays the new task, which is the one for the URL requested now.
      have made : WellMade (⟨none, url, some imageView, url, false, false⟩ :
          ImageDownloaderTask υ ν) := ⟨rfl, rfl⟩
      exact ordered_update (ordered_append cleared made) imageView
        ⟨_, List.getElem?_concat_length, rfl⟩

/-- A task that ends changes only the view that still displays it. -/
theorem ordered_onPostExecute {state : ImageDownloader υ β ν} (kept : Ordered state) {index : Nat}
    {task : ImageDownloaderTask υ ν} (there : state.tasks[index]? = some task)
    {bitmap : Option (Bitmap υ β)}
    (own : ∀ picture, bitmap = some picture → picture.url = task.targetUrl) :
    Ordered (state.onPostExecute index task bitmap) := by
  -- The view displays this very task only if its URL is the last one requested.
  unfold onPostExecute
  cases task.imageViewReference with
  | none => exact kept
  | some imageView =>
    have own' : ∀ picture, (if task.cancelled then none else bitmap) = some picture →
        picture.url = task.targetUrl := by
      intro picture picked
      split at picked
      · cases picked
      · exact own picture picked
    generalize (if task.cancelled then none else bitmap) = bitmap at own' ⊢
    simp only
    split
    · rename_i shows
      have requested : state.requested imageView = some task.targetUrl := by
        have fits := kept.fits imageView
        simp only [getBitmapDownloaderTask] at shows
        split at shows
        · rename_i reference drawn
          rw [drawn, shows] at fits
          obtain ⟨other, same, target⟩ := fits
          cases there.symm.trans same
          exact target
        · cases shows
      refine ordered_setImageDrawable (ordered_insert kept own') ?_
      cases bitmap with
      | none => exact trivial
      | some picture => exact requested.trans (congrArg some (own' picture rfl).symm)
    · exact kept

/-- An event preserves what belongs to what. -/
theorem ordered_step {state next : ImageDownloader υ β ν} {event : ImageEvent υ β ν}
    (kept : Ordered state) (taken : state.step event = some next) : Ordered next := by
  -- Besides requests and ends of tasks, only weak references are cleared.
  cases event with
  | download url imageView =>
    cases taken
    exact ordered_download kept url imageView
  | postExecute index answer =>
    simp only [step] at taken
    split at taken
    · cases taken
    · rename_i task there
      split at taken
      · cases taken
      · cases taken
        have made := kept.made task (List.mem_of_getElem? there)
        refine ordered_modify (ordered_onPostExecute kept there fun picture downloaded => ?_)
          index (fun _ => rfl) fun _ made => made
        exact (downloadBitmap_url downloaded).trans made.1
  | collectTask imageView =>
    simp only [step] at taken
    split at taken
    · cases taken
      exact ordered_setImageDrawable kept trivial
    · cases taken
  | collectView index =>
    cases taken
    exact ordered_modify kept index (fun _ => rfl) fun _ made => made

/-- No view displays a stale picture, whatever is requested, downloaded and collected when. -/
theorem images_current (events : List (ImageEvent υ β ν)) :
    Events.Always step Current start events := by
  -- In the beginning no view was asked to display anything.
  refine Events.always_of_invariant Ordered (fun _ _ _ => ordered_step)
    (fun _ => Ordered.current) ?_
  exact ⟨by simp [start], by simp [start], fun _ => rfl⟩

end Latest

end ImageDownloader

end AndroidApps.CommonLib
