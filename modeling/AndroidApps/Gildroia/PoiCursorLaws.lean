import AndroidApps.Gildroia.PoiCursor

/-! When the one cached POI behind the getters is the POI that was asked for. -/

namespace AndroidApps.Gildroia

open Machine

/--
What the POI calls are for: every answer is read from the current result.

The last three fields only record the getters called since the last search:
the last index, whether the iterator was read where it stands, and the element read last.
-/
structure PoiBrowser where
  result : Option PoiMap
  position : Option Nat
  lastIndex : Option Nat
  rested : Bool
  recent : Option Nat

namespace PoiBrowser

/-- No search was made yet. -/
def init : PoiBrowser := ⟨none, none, none, false, none⟩

variable (getSearchPoiResult : PoiHeader → PoiBody) (spec : PoiBrowser)

/-- The element of the result at a place. -/
def element (place : Option Nat) : Option (List UInt16 × PoiHeader) :=
  spec.result.bind fun poiDatas => place.bind fun place => poiDatas[place]?

/-- A search replaces the result and forgets the iterator. -/
def searched (result : Option PoiMap) : PoiAnswer × PoiBrowser :=
  (PoiCursor.countOf result, ⟨result, none, none, false, none⟩)

/-- The iterator is placed. -/
def moved (place : Nat) : PoiBrowser := { spec with position := some place, rested := false }

/-- The element with an index was read. -/
def readAt (poiIdx : Nat) : PoiBrowser :=
  { spec with lastIndex := some poiIdx, recent := some poiIdx }

/-- The element under the iterator was read. -/
def read : PoiBrowser := { spec with rested := true, recent := spec.position }

/-- Answer from the element at a place. -/
def answer (place : Option Nat) (value : List UInt16 × PoiHeader → PoiAnswer)
    (after : PoiBrowser) : Option (PoiAnswer × PoiBrowser) :=
  (spec.element place).map fun entry => (value entry, after)

/-- The branch name of an element. -/
def branchName (entry : List UInt16 × PoiHeader) : PoiAnswer :=
  branchNameOf (getSearchPoiResult entry.2)

/-- The first phone number of an element. -/
def callNumber (entry : List UInt16 × PoiHeader) : PoiAnswer :=
  callNumberOf (getSearchPoiResult entry.2)

/-- The eleven values of an element. -/
def poiData (entry : List UInt16 × PoiHeader) : PoiAnswer :=
  poiDataOf entry.2 (getSearchPoiResult entry.2)

/-- The expected answer of a call. -/
def call (spec : PoiBrowser) : PoiCall → Option (PoiAnswer × PoiBrowser)
  | .getAptCount none => some (.count 0, spec)
  | .getAptCount (some result) => some (searched (some result))
  | .getCatePoiCount result => some (searched result)
  | .getSearchPoiNameCount result => some (searched (some result))
  | .getSearchPoiCallCount result => some (searched (some result))
  | .moveFirstPoiData =>
    match spec.result with
    | none => some (.moved false, spec)
    | some poiDatas => some (.moved (decide (0 < poiDatas.length)), spec.moved 0)
  | .moveNextPoiData =>
    match spec.result, spec.position with
    | none, _ => some (.moved false, spec)
    | some _, none => none
    | some poiDatas, some place =>
      some (.moved (decide (place + 1 < poiDatas.length)), spec.moved (place + 1))
  | .getPoiNameAt poiIdx => spec.answer (some poiIdx) (fun entry => .text (some entry.1)) spec
  | .getPoiName => spec.answer spec.position (fun entry => .text (some entry.1)) spec
  | .getPoiBranchNameAt poiIdx =>
    spec.answer (some poiIdx) (branchName getSearchPoiResult) (spec.readAt poiIdx)
  | .getPoiBranchName => spec.answer spec.position (branchName getSearchPoiResult) spec.read
  | .getPoiCallNumberAt poiIdx =>
    spec.answer (some poiIdx) (callNumber getSearchPoiResult) (spec.readAt poiIdx)
  | .getPoiCallNumber => spec.answer spec.position (callNumber getSearchPoiResult) spec.read
  | .getPoiDataAt poiIdx =>
    spec.answer (some poiIdx) (poiData getSearchPoiResult) (spec.readAt poiIdx)
  | .getPoiData => spec.answer spec.position (poiData getSearchPoiResult) spec.read
  | .isCatePoiAt poiIdx => spec.answer (some poiIdx) (fun entry => isCateOf entry.2) spec
  | .isCatePoi => spec.answer spec.position (fun entry => isCateOf entry.2) spec.read

/-- An index of the current result. -/
def InRange (poiIdx : Nat) : Prop := ∃ poiDatas ∈ spec.result, poiIdx < poiDatas.length

/-- The iterator was moved since the search, and the last move reached an element. -/
def OnElement : Prop := ∃ place ∈ spec.position, spec.InRange place

/-- The last index is only asked for again while its element is the one read last. -/
def FreshAt (poiIdx : Nat) : Prop := spec.lastIndex = some poiIdx → spec.recent = some poiIdx

/-- The iterator is only read again in its place while its element is the one read last. -/
def Fresh : Prop := spec.rested = true → spec.recent = spec.position

/-- How the calls are meant to be used. -/
def Allowed (spec : PoiBrowser) : PoiCall → Prop
  | .moveNextPoiData => spec.result = none ∨ spec.OnElement
  | .getPoiNameAt poiIdx | .isCatePoiAt poiIdx | .getPoiBranchNameAt poiIdx
  | .getPoiCallNumberAt poiIdx | .getPoiDataAt poiIdx => spec.InRange poiIdx
  | .getPoiName | .getPoiBranchName | .getPoiCallNumber | .getPoiData | .isCatePoi =>
    spec.OnElement
  | _ => True

/-- A getter that does not load finds its own element in the cache. -/
def Undisturbed (spec : PoiBrowser) : PoiCall → Prop
  | .getPoiBranchNameAt poiIdx | .getPoiCallNumberAt poiIdx | .getPoiDataAt poiIdx =>
    spec.FreshAt poiIdx
  | .getPoiBranchName | .getPoiCallNumber | .getPoiData | .isCatePoi => spec.Fresh
  | _ => True

/-- The condition under which a call is answered from the right element. -/
def Meets (spec : PoiBrowser) (input : PoiCall) : Prop :=
  spec.Allowed input ∧ spec.Undisturbed input

variable {spec}

/-- An index in range has an element. -/
theorem element_of_inRange {poiIdx : Nat} (inside : spec.InRange poiIdx) :
    ∃ entry, spec.element (some poiIdx) = some entry := by
  obtain ⟨poiDatas, held, bound⟩ := inside
  refine ⟨poiDatas[poiIdx], ?_⟩
  rw [element, held]
  simp [bound]

/-- An iterator on an element has one. -/
theorem element_of_onElement (standing : spec.OnElement) :
    ∃ place entry, spec.position = some place ∧ spec.InRange place ∧
      spec.element (some place) = some entry := by
  obtain ⟨place, placed, inside⟩ := standing
  obtain ⟨entry, found⟩ := element_of_inRange inside
  exact ⟨place, entry, placed, inside, found⟩

/-- The answer from an element that is there. -/
theorem answer_eq {place : Option Nat} {entry : List UInt16 × PoiHeader}
    (found : spec.element place = some entry) (value : List UInt16 × PoiHeader → PoiAnswer)
    (after : PoiBrowser) : spec.answer place value after = some (value entry, after) := by
  rw [answer, found]
  rfl

end PoiBrowser

open PoiBrowser

section Coherence

variable (getSearchPoiResult : PoiHeader → PoiBody)

/-- The variables of the JNI layer stand for the browser: the cache holds the element read last. -/
structure Coherent (state : PoiCursor) (spec : PoiBrowser) : Prop where
  result : state.poiDatas = spec.result
  position : state.poiDatasIterator = spec.position
  index : state.poiHeaderIdx = (spec.lastIndex.map Int.ofNat).getD (-1)
  changed : state.bChangedPoiIterator = !spec.rested
  cached : ∀ place, spec.recent = some place → ∃ entry,
    spec.element (some place) = some entry ∧ state.poiHeader = some entry.2 ∧
      state.poiBody = some (getSearchPoiResult entry.2)

variable {getSearchPoiResult} {state : PoiCursor} {spec : PoiBrowser}

/-- Both sides look at the same elements. -/
theorem Coherent.element_eq (coherent : Coherent getSearchPoiResult state spec)
    (place : Option Nat) : state.element place = spec.element place := by
  unfold PoiCursor.element PoiBrowser.element
  rw [coherent.result]
  cases spec.result with
  | none => rfl
  | some poiDatas => cases place <;> rfl

/-- A search makes the two sides meet again, whatever the cache holds. -/
theorem Coherent.search (state : PoiCursor) (result : Option PoiMap) :
    Coherent getSearchPoiResult (state.search result) (searched result).2 where
  result := rfl
  position := rfl
  index := rfl
  changed := rfl
  cached := by
    intro place recent
    cases recent

/-- A move keeps the cached element. -/
theorem Coherent.move (coherent : Coherent getSearchPoiResult state spec) (place : Nat) :
    Coherent getSearchPoiResult
      { state with poiDatasIterator := some place, bChangedPoiIterator := true }
      (spec.moved place) where
  result := coherent.result
  position := rfl
  index := coherent.index
  changed := rfl
  cached := coherent.cached

/-- The cache answers with the element it was loaded from. -/
theorem fromCache_eq {entry : List UInt16 × PoiHeader} (header : state.poiHeader = some entry.2)
    (body : state.poiBody = some (getSearchPoiResult entry.2))
    (answer : PoiHeader → PoiBody → PoiAnswer) :
    state.fromCache answer = some (answer entry.2 (getSearchPoiResult entry.2), state) := by
  rw [PoiCursor.fromCache, header, body]

/-- A getter with an index answers from the element with this index. -/
theorem loadAt_follows (coherent : Coherent getSearchPoiResult state spec) {poiIdx : Nat}
    {entry : List UInt16 × PoiHeader} (found : spec.element (some poiIdx) = some entry)
    (fresh : spec.FreshAt poiIdx) (answer : PoiHeader → PoiBody → PoiAnswer) :
    ∃ next, (state.loadAt getSearchPoiResult poiIdx).bind (PoiCursor.fromCache · answer) =
        some (answer entry.2 (getSearchPoiResult entry.2), next) ∧
      Coherent getSearchPoiResult next (spec.readAt poiIdx) := by
  by_cases reload : state.poiBody = none ∨ state.poiHeaderIdx ≠ poiIdx
  · -- The element is loaded, and is the one read last from now on.
    refine ⟨{ state.cache getSearchPoiResult entry with poiHeaderIdx := poiIdx }, ?_, ?_⟩
    · rw [PoiCursor.loadAt, if_pos reload, coherent.element_eq, found]
      rfl
    · refine ⟨coherent.result, coherent.position, rfl, coherent.changed, ?_⟩
      intro place recent
      cases recent
      exact ⟨entry, found, rfl, rfl⟩
  · -- The index is the last one, so the condition says that its element is in the cache.
    obtain ⟨-, same⟩ := not_or.mp reload
    have last : spec.lastIndex = some poiIdx := by
      have index := coherent.index
      rw [not_not.mp same] at index
      -- The variable is -1 as long as no POI was loaded by an index.
      cases held : spec.lastIndex with
      | none =>
        rw [held] at index
        simp at index
      | some other =>
        rw [held] at index
        simpa using index.symm
    obtain ⟨held, holds, header, body⟩ := coherent.cached poiIdx (fresh last)
    have entryEq : held = entry := by
      rw [found] at holds
      exact (Option.some.inj holds).symm
    subst entryEq
    refine ⟨state, ?_, ?_⟩
    · rw [PoiCursor.loadAt, if_neg reload]
      exact fromCache_eq header body answer
    · refine ⟨coherent.result, coherent.position, ?_, coherent.changed, ?_⟩
      · rw [coherent.index, last]
        rfl
      · intro place recent
        cases recent
        exact ⟨held, found, header, body⟩

/-- A getter on the iterator answers from the element the iterator stands on. -/
theorem load_follows (coherent : Coherent getSearchPoiResult state spec) {place : Nat}
    {entry : List UInt16 × PoiHeader} (placed : spec.position = some place)
    (found : spec.element (some place) = some entry) (fresh : spec.Fresh)
    (answer : PoiHeader → PoiBody → PoiAnswer) :
    ∃ next, (state.load getSearchPoiResult).bind (PoiCursor.fromCache · answer) =
        some (answer entry.2 (getSearchPoiResult entry.2), next) ∧
      Coherent getSearchPoiResult next spec.read := by
  cases rested : spec.rested with
  | false =>
    -- The iterator was moved, so its element is loaded.
    have changed : state.bChangedPoiIterator = true := by
      rw [coherent.changed, rested]
      rfl
    refine ⟨{ state.cache getSearchPoiResult entry with bChangedPoiIterator := false }, ?_, ?_⟩
    · rw [PoiCursor.load, if_pos changed, coherent.element_eq, coherent.position, placed, found]
      rfl
    · refine ⟨coherent.result, coherent.position, coherent.index, rfl, ?_⟩
      intro other recent
      rw [PoiBrowser.read, placed] at recent
      cases recent
      exact ⟨entry, found, rfl, rfl⟩
  | true =>
    -- Nothing else was read since the iterator was, so the cache still holds its element.
    have unchanged : ¬ state.bChangedPoiIterator = true := by
      rw [coherent.changed, rested]
      simp
    have recentPlace : spec.recent = some place := (fresh rested).trans placed
    obtain ⟨held, holds, header, body⟩ := coherent.cached place recentPlace
    have entryEq : held = entry := by
      rw [found] at holds
      exact (Option.some.inj holds).symm
    subst entryEq
    refine ⟨state, ?_, ?_⟩
    · rw [PoiCursor.load, if_neg unchanged]
      exact fromCache_eq header body answer
    · refine ⟨coherent.result, coherent.position, coherent.index, ?_, ?_⟩
      · rw [coherent.changed, rested]
        rfl
      · intro other recent
        rw [PoiBrowser.read, placed] at recent
        cases recent
        exact ⟨held, found, header, body⟩

/-- A call is answered as expected, and leaves the two sides in agreement. -/
def CallFollows (getSearchPoiResult : PoiHeader → PoiBody) (state : PoiCursor) (spec : PoiBrowser)
    (input : PoiCall) : Prop :=
  ∃ answer next after, PoiCursor.call getSearchPoiResult state input = some (answer, next) ∧
    PoiBrowser.call getSearchPoiResult spec input = some (answer, after) ∧
    Coherent getSearchPoiResult next after

variable {input : PoiCall}

/-- The iterator is placed on the first POI, if there is a result. -/
theorem moveFirst_follows (coherent : Coherent getSearchPoiResult state spec) :
    CallFollows getSearchPoiResult state spec .moveFirstPoiData := by
  cases held : spec.result with
  -- Without a result neither side moves.
  | none =>
    refine ⟨.moved false, state, spec, ?_, ?_, coherent⟩
    · simp [PoiCursor.call, PoiCursor.moveFirstPoiData, coherent.result, held]
    · simp [PoiBrowser.call, held]
  | some poiDatas =>
    refine ⟨.moved (decide (0 < poiDatas.length)), _, spec.moved 0, ?_, ?_, coherent.move 0⟩
    · simp [PoiCursor.call, PoiCursor.moveFirstPoiData, coherent.result, held]
    · simp [PoiBrowser.call, held]

/-- An iterator on an element is moved on. -/
theorem moveNext_follows (coherent : Coherent getSearchPoiResult state spec)
    (allowed : spec.result = none ∨ spec.OnElement) :
    CallFollows getSearchPoiResult state spec .moveNextPoiData := by
  rcases allowed with absent | ⟨place, placed, poiDatas, held, bound⟩
  · refine ⟨.moved false, state, spec, ?_, ?_, coherent⟩
    · simp [PoiCursor.call, PoiCursor.moveNextPoiData, coherent.result, absent]
    · simp [PoiBrowser.call, absent]
  · have placed : spec.position = some place := placed
    have held : spec.result = some poiDatas := held
    -- Both sides go to the next place, which may be the end.
    refine ⟨.moved (decide (place + 1 < poiDatas.length)), _, spec.moved (place + 1), ?_, ?_,
      coherent.move (place + 1)⟩
    · simp [PoiCursor.call, PoiCursor.moveNextPoiData, coherent.result, coherent.position, held,
        placed, bound]
    · simp [PoiBrowser.call, held, placed]

/-- A getter that does not use the cache reads the element itself. -/
theorem element_follows (coherent : Coherent getSearchPoiResult state spec) {place : Option Nat}
    {entry : List UInt16 × PoiHeader} (found : spec.element place = some entry)
    (value : List UInt16 × PoiHeader → PoiAnswer)
    (called : PoiCursor.call getSearchPoiResult state input =
      (state.element place).map fun entry => (value entry, state))
    (expected : PoiBrowser.call getSearchPoiResult spec input = spec.answer place value spec) :
    CallFollows getSearchPoiResult state spec input := by
  refine ⟨value entry, state, spec, ?_, expected.trans (answer_eq found _ _), coherent⟩
  rw [called, coherent.element_eq, found, Option.map_some]

/-- A getter with an index answers from the cache, once the element is loaded. -/
theorem getAt_follows (coherent : Coherent getSearchPoiResult state spec) {poiIdx : Nat}
    (allowed : spec.InRange poiIdx) (fresh : spec.FreshAt poiIdx)
    (answer : PoiHeader → PoiBody → PoiAnswer)
    (called : PoiCursor.call getSearchPoiResult state input =
      (state.loadAt getSearchPoiResult poiIdx).bind (PoiCursor.fromCache · answer))
    (expected : PoiBrowser.call getSearchPoiResult spec input =
      spec.answer (some poiIdx) (fun entry => answer entry.2 (getSearchPoiResult entry.2))
        (spec.readAt poiIdx)) :
    CallFollows getSearchPoiResult state spec input := by
  obtain ⟨entry, found⟩ := element_of_inRange allowed
  obtain ⟨next, answered, kept⟩ := loadAt_follows coherent found fresh answer
  exact ⟨_, next, _, called.trans answered, expected.trans (answer_eq found _ _), kept⟩

/-- So does a getter on the iterator. -/
theorem get_follows (coherent : Coherent getSearchPoiResult state spec)
    (allowed : spec.OnElement) (fresh : spec.Fresh) (answer : PoiHeader → PoiBody → PoiAnswer)
    (called : PoiCursor.call getSearchPoiResult state input =
      (state.load getSearchPoiResult).bind (PoiCursor.fromCache · answer))
    (expected : PoiBrowser.call getSearchPoiResult spec input =
      spec.answer spec.position (fun entry => answer entry.2 (getSearchPoiResult entry.2))
        spec.read) :
    CallFollows getSearchPoiResult state spec input := by
  obtain ⟨place, entry, placed, _, found⟩ := element_of_onElement allowed
  obtain ⟨next, answered, kept⟩ := load_follows coherent placed found fresh answer
  rw [← placed] at found
  exact ⟨_, next, _, called.trans answered, expected.trans (answer_eq found _ _), kept⟩

/-- With an index in range there is a result to read from. -/
theorem Coherent.held (coherent : Coherent getSearchPoiResult state spec) {poiIdx : Nat}
    (allowed : spec.InRange poiIdx) :
    ∃ poiDatas, state.poiDatas = some poiDatas ∧ poiIdx < poiDatas.length := by
  obtain ⟨poiDatas, held, bound⟩ := allowed
  exact ⟨poiDatas, coherent.result.trans held, bound⟩

/-- Every call that meets the condition is answered as expected. -/
theorem call_follows (state : PoiCursor) (spec : PoiBrowser) (input : PoiCall)
    (coherent : Coherent getSearchPoiResult state spec) (met : spec.Meets input) :
    CallFollows getSearchPoiResult state spec input := by
  -- One case for each kind of call; searches begin anew, moves and getters look at the cached POI.
  obtain ⟨allowed, fresh⟩ := met
  cases input with
  | getAptCount result =>
    cases result with
    -- A search for apartments that does not come about leaves the last result.
    | none => exact ⟨_, _, _, rfl, rfl, coherent⟩
    | some result => exact ⟨_, _, _, rfl, rfl, Coherent.search state _⟩
  | getCatePoiCount result => exact ⟨_, _, _, rfl, rfl, Coherent.search state _⟩
  | getSearchPoiNameCount result => exact ⟨_, _, _, rfl, rfl, Coherent.search state _⟩
  | getSearchPoiCallCount result => exact ⟨_, _, _, rfl, rfl, Coherent.search state _⟩
  | moveFirstPoiData => exact moveFirst_follows coherent
  | moveNextPoiData => exact moveNext_follows coherent allowed
  | getPoiNameAt poiIdx =>
    -- The name stands in the result itself, whatever the cache holds.
    obtain ⟨entry, found⟩ := element_of_inRange allowed
    obtain ⟨poiDatas, held, _⟩ := coherent.held allowed
    refine element_follows coherent found _ ?_ rfl
    simp only [PoiCursor.call, PoiCursor.getPoiNameAt, held]
  | getPoiName =>
    obtain ⟨place, entry, placed, _, found⟩ := element_of_onElement allowed
    refine element_follows coherent (by rw [placed, found]) _ ?_ rfl
    rw [PoiCursor.call, PoiCursor.getPoiName, coherent.position]
  | getPoiBranchNameAt poiIdx =>
    obtain ⟨poiDatas, held, _⟩ := coherent.held allowed
    refine getAt_follows coherent allowed fresh (fun _ => branchNameOf) ?_ rfl
    simp only [PoiCursor.call, PoiCursor.getPoiBranchNameAt, held]
  | getPoiBranchName =>
    exact get_follows coherent allowed fresh (fun _ => branchNameOf) rfl rfl
  | getPoiCallNumberAt poiIdx =>
    exact getAt_follows coherent allowed fresh (fun _ => callNumberOf) rfl rfl
  | getPoiCallNumber =>
    exact get_follows coherent allowed fresh (fun _ => callNumberOf) rfl rfl
  | getPoiDataAt poiIdx =>
    obtain ⟨poiDatas, held, bound⟩ := coherent.held allowed
    refine getAt_follows coherent allowed fresh poiDataOf ?_ rfl
    simp only [PoiCursor.call, PoiCursor.getPoiDataAt, held]
    -- Only this getter looks whether its index is one of the result.
    rw [if_neg (Nat.not_le.mpr bound)]
  | getPoiData => exact get_follows coherent allowed fresh poiDataOf rfl rfl
  | isCatePoiAt poiIdx =>
    obtain ⟨entry, found⟩ := element_of_inRange allowed
    obtain ⟨poiDatas, held, _⟩ := coherent.held allowed
    refine element_follows coherent found _ ?_ rfl
    simp only [PoiCursor.call, PoiCursor.isCatePoiAt, held]
  | isCatePoi =>
    exact get_follows coherent allowed fresh (fun header _ => isCateOf header) rfl rfl

end Coherence

/-- Nothing was searched, moved or read on either side. -/
theorem Coherent.start (getSearchPoiResult : PoiHeader → PoiBody) :
    Coherent getSearchPoiResult .init .init where
  result := rfl
  position := rfl
  index := rfl
  changed := rfl
  cached := by
    intro place recent
    cases recent

/--
Every sequence of POI calls is answered from the elements asked for, as long as no getter relies
on a cache that a getter of the other kind has filled with another element.
-/
theorem poiCalls_coherent (getSearchPoiResult : PoiHeader → PoiBody) (calls : List PoiCall)
    (meets : Along (PoiBrowser.call getSearchPoiResult) PoiBrowser.Meets .init calls) :
    ∃ answers state spec,
      run (PoiCursor.call getSearchPoiResult) .init calls = some (answers, state) ∧
        run (PoiBrowser.call getSearchPoiResult) .init calls = some (answers, spec) := by
  obtain ⟨answers, state, spec, ran, expected, _⟩ :=
    run_refines (Coherent getSearchPoiResult) PoiBrowser.Meets call_follows calls .init .init
      (Coherent.start getSearchPoiResult) meets
  exact ⟨answers, state, spec, ran, expected⟩

/-- A result of two POIs, of which only the second belongs to a category. -/
def twoPois : PoiMap := [([0xAC00], ⟨0, 0, 0, 0, 0, 0⟩), ([0xAC01], ⟨0, 0, 0, 0, 1, 0⟩)]

/-- The iterator is read before and after a getter with another index. -/
def crossedCalls : List PoiCall :=
  [.getSearchPoiNameCount twoPois, .moveFirstPoiData, .isCatePoi, .getPoiBranchNameAt 1,
    .isCatePoi]

/-- The iterator is moved before it is read again. -/
def movedCalls : List PoiCall :=
  [.getSearchPoiNameCount twoPois, .moveFirstPoiData, .isCatePoi, .getPoiBranchNameAt 1,
    .moveNextPoiData, .isCatePoi]

/-- Calls of both kinds that read both POIs, each time from the element asked for. -/
theorem poiCalls_coherent_moved :
    ∃ answers state spec,
      run (PoiCursor.call fun _ => ⟨[], [], 0, 0, ⟨0, 0, 0, 0, 0, 0, 0, 0, 0⟩⟩) .init movedCalls =
          some (answers, state) ∧
        run (PoiBrowser.call fun _ => ⟨[], [], 0, 0, ⟨0, 0, 0, 0, 0, 0, 0, 0, 0⟩⟩)
          .init movedCalls =
          some (answers, spec) := by
  apply poiCalls_coherent
  -- No getter finds its flag or its index from before.
  refine along_cons ⟨trivial, trivial⟩ rfl ?_
  refine along_cons ⟨trivial, trivial⟩ rfl ?_
  refine along_cons ⟨⟨0, rfl, twoPois, rfl, by decide⟩, nofun⟩ rfl ?_
  refine along_cons ⟨⟨twoPois, rfl, by decide⟩, nofun⟩ rfl ?_
  refine along_cons ⟨.inr ⟨0, rfl, twoPois, rfl, by decide⟩, trivial⟩ rfl ?_
  exact along_cons ⟨⟨1, rfl, twoPois, rfl, by decide⟩, nofun⟩ rfl trivial

/--
A getter with an index leaves its element in the cache of the iterator.

The iterator stands on the first POI, which belongs to no category; once the branch name of the
second POI was read, the iterator answers for the second.
-/
theorem isCatePoi_of_other :
    (∀ getSearchPoiResult : PoiHeader → PoiBody,
      Along (PoiBrowser.call getSearchPoiResult) PoiBrowser.Allowed .init crossedCalls) ∧
    ¬ ∃ (getSearchPoiResult : PoiHeader → PoiBody) (answers : List PoiAnswer) (state : PoiCursor)
        (spec : PoiBrowser),
      run (PoiCursor.call getSearchPoiResult) .init crossedCalls = some (answers, state) ∧
        run (PoiBrowser.call getSearchPoiResult) .init crossedCalls = some (answers, spec) := by
  constructor
  · intro getSearchPoiResult
    apply along_cons trivial rfl
    apply along_cons trivial rfl
    apply along_cons ⟨0, rfl, twoPois, rfl, by decide⟩ rfl
    apply along_cons ⟨twoPois, rfl, by decide⟩ rfl
    exact along_cons ⟨0, rfl, twoPois, rfl, by decide⟩ rfl trivial
  · rintro ⟨getSearchPoiResult, answers, state, spec, ran, expected⟩
    -- The last answer is the category flag of the second POI on one side, of the first on the
    -- other.
    have stale : answers.getLast? = some (.flag true) := by
      cases ran
      rfl
    have own : answers.getLast? = some (.flag false) := by
      cases expected
      rfl
    rw [stale] at own
    cases own

end AndroidApps.Gildroia
