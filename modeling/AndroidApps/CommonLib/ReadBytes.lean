import AndroidApps.CommonLib.HttpDownloadLaws

/-! The body of a response as one array, read through a buffer that is written out as a whole. -/

namespace AndroidApps.CommonLib.HttpManager

section Model

/-- The buffer after a `read`, behind whose bytes stands what the buffer has held. -/
def overwrite (buffer data : List UInt8) : List UInt8 := data ++ buffer.drop data.length

/-- The loop that writes the buffer after each `read` that has returned something. -/
def readLoop (arrivals : List Arrival) (buffer outputStream : List UInt8) :
    Option (List UInt8) :=
  match _came : read buffer.length arrivals with
  | .ended => some outputStream
  | .fault => none
  | .count data rest =>
    let buffer := overwrite buffer data
    readLoop rest buffer (outputStream ++ buffer)
termination_by weight arrivals
decreasing_by exact weight_of_read _came

/-- `readBytes`, for what the connection opens, if it can be made; any exception gives `null`. -/
def readBytes (connection : Option InputStream) : Option (List UInt8) := do
  let inputStream ← connection
  guard inputStream.opens
  let size ← inputStream.available
  let outputStream ← readLoop inputStream.arrivals (List.replicate size 0) []
  guard inputStream.closes
  return outputStream

/-- A response that comes in without an error, in these pieces. -/
def response (available : Nat) (chunks : List (List UInt8)) : InputStream :=
  ⟨true, some available, chunks.map .bytes, true⟩

/-- All pieces fill buffers of this size. -/
def Fills (size : Nat) (arrivals : List Arrival) : Prop :=
  ∀ data, .bytes data ∈ arrivals → size ∣ data.length

end Model

section Reads

/-- The buffer keeps its size. -/
theorem length_overwrite {buffer data : List UInt8} (fits : data.length ≤ buffer.length) :
    (overwrite buffer data).length = buffer.length := by
  simp only [overwrite, List.length_append, List.length_drop]
  omega

/-- A full `read` leaves nothing of the old buffer. -/
theorem overwrite_full {buffer data : List UInt8} (full : data.length = buffer.length) :
    overwrite buffer data = data := by
  simp [overwrite, full]

/-- A `read` takes from the first piece that has bytes, and leaves the rest of it. -/
theorem readNext_count {size : Nat} {arrivals rest : List Arrival} {data : List UInt8}
    (came : readNext size arrivals = .count data rest) :
    ∃ skipped chunk tail, arrivals = List.replicate skipped (.bytes []) ++ .bytes chunk :: tail ∧
      chunk ≠ [] ∧ data = chunk.take size ∧ rest = .bytes (chunk.drop size) :: tail := by
  -- Empty pieces are passed over one by one.
  induction arrivals with
  | nil => cases came
  | cons arrival arrivals ih =>
    match arrival with
    | .fault => cases came
    | .bytes [] =>
      obtain ⟨skipped, chunk, tail, rfl, some, taken, left⟩ := ih came
      exact ⟨skipped + 1, chunk, tail, rfl, some, taken, left⟩
    | .bytes (byte :: more) =>
      cases came
      exact ⟨0, byte :: more, arrivals, rfl, nofun, rfl, rfl⟩

/-- A stream that has ended has no bytes left. -/
theorem body_of_ended {size : Nat} {arrivals : List Arrival}
    (ended : readNext size arrivals = .ended) : body arrivals = [] := by
  -- The other two ways to go on contradict the end.
  obtain ⟨-, empty, -⟩ | ⟨fault, -⟩ | ⟨data, rest, came, -⟩ := readNext_cases size arrivals
  · exact empty
  · rw [ended] at fault
    cases fault
  · rw [ended] at came
    cases came

/-- A stream without errors has no fault to meet. -/
theorem not_intact_of_fault {size : Nat} {arrivals : List Arrival}
    (fault : readNext size arrivals = .fault) : ¬ Intact arrivals := by
  -- The other two ways to go on contradict the fault.
  obtain ⟨ended, -⟩ | ⟨-, disturbed⟩ | ⟨data, rest, came, -⟩ := readNext_cases size arrivals
  · rw [fault] at ended
    cases ended
  · exact disturbed
  · rw [fault] at came
    cases came

/-- A buffer that is written stands for what was read, if it is full and what follows is right. -/
theorem overwrite_append_iff {buffer data more rest : List UInt8}
    (fits : data.length ≤ buffer.length) (enough : rest.length ≤ more.length) :
    overwrite buffer data ++ more = data ++ rest ↔
      data.length = buffer.length ∧ more = rest := by
  by_cases full : data.length = buffer.length
  · -- A full buffer holds what has been read and nothing else.
    rw [overwrite_full full, List.append_cancel_left_eq, and_iff_right full]
  · -- A buffer with old bytes in it makes what is written longer than what was read.
    refine iff_of_false (fun equal => ?_) (fun whole => full whole.1)
    have lengths := congrArg List.length equal
    rw [List.length_append, List.length_append, length_overwrite fits] at lengths
    omega

/-- Empty pieces fill any buffer. -/
theorem fills_skipped (size skipped : Nat) (chunk : List UInt8) (tail : List Arrival) :
    Fills size (List.replicate skipped (.bytes []) ++ .bytes chunk :: tail) ↔
      size ∣ chunk.length ∧ Fills size tail := by
  -- The listed pieces are the empty ones in front, the one with bytes, and the later ones.
  constructor
  · intro fills
    exact ⟨fills chunk (by simp), fun data listed => fills data (by simp [listed])⟩
  · intro ⟨whole, fills⟩ data listed
    simp only [List.mem_append, List.mem_replicate, List.mem_cons, Arrival.bytes.injEq] at listed
    obtain ⟨-, rfl⟩ | rfl | later := listed
    · exact dvd_zero size
    · exact whole
    · exact fills data later

/-- Where nothing is left to read, there is no piece with bytes. -/
theorem fills_of_body (size : Nat) {arrivals : List Arrival} (empty : body arrivals = []) :
    Fills size arrivals := by
  intro data listed
  have nothing : data = [] := List.flatMap_eq_nil_iff.mp empty _ listed
  rw [nothing]
  exact dvd_zero size

/-- A piece that is shorter than the buffer does not fill it. -/
theorem not_dvd_of_short {size : Nat} {chunk : List UInt8} (some : chunk ≠ [])
    (short : chunk.length < size) : ¬ size ∣ chunk.length := by
  intro whole
  exact some (List.eq_nil_of_length_eq_zero (Nat.eq_zero_of_dvd_of_lt whole short))

end Reads

section Loop

/-- The loop ends when `read` returns nothing. -/
theorem readLoop_ended {arrivals : List Arrival} {buffer : List UInt8}
    (ended : read buffer.length arrivals = .ended) (outputStream : List UInt8) :
    readLoop arrivals buffer outputStream = some outputStream := by
  -- The other two outcomes of the read contradict the one it had.
  rw [readLoop]
  split
  · rfl
  · rename_i other
    cases ended.symm.trans other
  · rename_i other
    cases ended.symm.trans other

/-- A pass of the loop writes all of the buffer. -/
theorem readLoop_count {arrivals rest : List Arrival} {buffer data : List UInt8}
    (came : read buffer.length arrivals = .count data rest) (outputStream : List UInt8) :
    readLoop arrivals buffer outputStream =
      readLoop rest (overwrite buffer data) (outputStream ++ overwrite buffer data) := by
  -- The other two outcomes of the read contradict the one it had.
  rw [readLoop]
  split
  · rename_i other
    cases came.symm.trans other
  · rename_i other
    cases came.symm.trans other
  · rename_i other
    cases came.symm.trans other
    rfl

/-- The bytes of a stream of pieces, behind empty ones. -/
theorem body_skipped (skipped : Nat) (chunk : List UInt8) (tail : List Arrival) :
    body (List.replicate skipped (.bytes []) ++ .bytes chunk :: tail) = chunk ++ body tail := by
  induction skipped with
  | zero => rfl
  | succ skipped ih => exact ih

/-- A full `read` takes a buffer's worth, and a short one ends a piece that does not fill it. -/
theorem fills_taken {size : Nat} {chunk : List UInt8} (some : chunk ≠ []) :
    (size ∣ chunk.length ↔ (chunk.take size).length = size ∧ size ∣ (chunk.drop size).length) := by
  -- A piece that is shorter than the buffer neither fills it nor is a multiple of its size.
  rw [List.length_take, List.length_drop]
  by_cases short : chunk.length < size
  · have notFull : min size chunk.length ≠ size := by omega
    simp [not_dvd_of_short some short, notFull]
  · have enough : size ≤ chunk.length := by omega
    rw [Nat.min_eq_left enough]
    constructor
    · intro whole
      exact ⟨rfl, Nat.dvd_sub whole (dvd_refl size)⟩
    · intro taken
      exact (Nat.dvd_sub_iff_left enough (dvd_refl size)).mp taken.2

/--
The loop writes at least as much as there is to read.

It writes the body itself if all pieces fill the buffer, and more than the body otherwise.
-/
theorem readLoop_intact {size : Nat} (arrivals : List Arrival) (buffer outputStream : List UInt8)
    (filled : 0 < size) (sized : buffer.length = size) (intact : Intact arrivals) :
    ∃ written, readLoop arrivals buffer outputStream = some (outputStream ++ written) ∧
      (body arrivals).length ≤ written.length ∧
      (written = body arrivals ↔ Fills size arrivals) := by
  fun_induction readLoop arrivals buffer outputStream with
  | case1 arrivals buffer outputStream ended =>
    rw [read, if_neg (by omega)] at ended
    have empty := body_of_ended ended
    exact ⟨[], by simp, by simp [empty], iff_of_true empty.symm (fills_of_body size empty)⟩
  | case2 arrivals buffer outputStream fault =>
    rw [read, if_neg (by omega)] at fault
    exact absurd intact (not_intact_of_fault fault)
  | case3 arrivals buffer outputStream data rest came buffer' ih =>
    rw [read, if_neg (by omega), sized] at came
    obtain ⟨skipped, chunk, tail, rfl, some, rfl, rfl⟩ := readNext_count came
    have short := List.length_take_le size chunk
    have fits : (chunk.take size).length ≤ buffer.length := by omega
    have sized' : buffer'.length = size := (length_overwrite fits).trans sized
    have intact' : Intact (.bytes (chunk.drop size) :: tail) := by
      simpa [Intact] using intact
    obtain ⟨later, ends, enough, exact⟩ := ih sized' intact'
    have split : chunk.take size ++ body (.bytes (chunk.drop size) :: tail) =
        chunk ++ body tail := by
      simp [body, ← List.append_assoc]
    refine ⟨buffer' ++ later, by rw [ends, List.append_assoc], ?_, ?_⟩
    · rw [body_skipped, ← split, List.length_append, List.length_append, sized']
      omega
    · -- The buffer of this pass has to be full, and the later passes have to write the rest.
      have rest : Fills size (.bytes (chunk.drop size) :: tail) ↔
          size ∣ (chunk.drop size).length ∧ Fills size tail :=
        fills_skipped size 0 (chunk.drop size) tail
      rw [body_skipped, ← split, fills_skipped, fills_taken some, and_assoc, ← rest, ← exact]
      have written := overwrite_append_iff fits enough
      rw [sized] at written
      exact written

end Loop

section Body

/-- The pieces of a response without an error. -/
theorem body_chunks (chunks : List (List UInt8)) :
    body (chunks.map .bytes) = chunks.flatten := by
  rw [body, List.flatMap_map]
  exact List.flatMap_id

/-- The whole body is returned, and nothing else, exactly if all pieces fill the buffer. -/
theorem readBytes_exact_iff (available : Nat) (chunks : List (List UInt8)) :
    readBytes (some (response available chunks)) = some chunks.flatten ↔
      ∀ chunk ∈ chunks, available ∣ chunk.length := by
  have intact : Intact (chunks.map .bytes) := by simp [Intact]
  have pieces : Fills available (chunks.map .bytes) ↔
      ∀ chunk ∈ chunks, available ∣ chunk.length := by
    simp [Fills]
  rw [← pieces, ← body_chunks]
  cases available with
  | zero =>
    -- Nothing is ever read into an empty buffer, so that only an empty body is right.
    have nothing : readBytes (some (response 0 chunks)) = some [] := by
      have ended : readLoop (chunks.map .bytes) [] [] = some [] := readLoop_ended rfl []
      simp [readBytes, response, ended]
    rw [nothing, Option.some.injEq]
    constructor
    · intro empty
      exact fills_of_body 0 empty.symm
    · intro fills
      symm
      rw [body, List.flatMap_eq_nil_iff]
      intro arrival listed
      cases arrival with
      | bytes data =>
        exact List.eq_nil_of_length_eq_zero (Nat.eq_zero_of_zero_dvd (fills data listed))
      | fault => rfl
  | succ available =>
    obtain ⟨written, ends, -, exact⟩ := readLoop_intact (chunks.map .bytes)
      (List.replicate (available + 1) 0) [] (Nat.succ_pos available) List.length_replicate intact
    have returned : readBytes (some (response (available + 1) chunks)) = some written := by
      simp [readBytes, response, ends]
    rw [returned, Option.some.injEq, exact]

/-- Three bytes that come in two at a time bring one of the first two back. -/
theorem readBytes_stale :
    readBytes (some (response 2 [[1, 2], [3]])) ≠ some [1, 2, 3] := by
  -- The second read leaves the second byte of the buffer as it was.
  have returned : readLoop [.bytes [1, 2], .bytes [3]] [0, 0] [] = some [1, 2, 3, 2] := by
    rw [readLoop_count (by rfl), readLoop_count (by rfl), readLoop_ended (by rfl)]
    rfl
  have kept : readBytes (some (response 2 [[1, 2], [3]])) = some [1, 2, 3, 2] := by
    simp [readBytes, response, List.replicate, returned]
  rw [kept]
  decide

end Body

end AndroidApps.CommonLib.HttpManager
