import AndroidApps.Lib.IndexOf
import AndroidApps.Lib.Utf8

/-! Lines of a stream that end with a marker, found by a matcher that never goes back. -/

namespace AndroidApps.Gildroia.Global

section Model

/-- The bytes of `<br>`. -/
def marker : List UInt8 := [0x3C, 0x62, 0x72, 0x3E]

/--
A byte is stored behind the ones that have been, if there is room left for it in the buffer.

All bytes that are read are stored, so that the buffer is the list of them.
-/
def store (lineBuff : List UInt8) (byte : UInt8) : Option (List UInt8) :=
  if lineBuff.length < 1024 then some (lineBuff ++ [byte]) else none

/--
The loop of `readOneLineStream_br`, with `none` for its exception.

It gives the bytes in front of the index that it has come to, and what is left of the stream.
-/
def brLoop : List UInt8 → List UInt8 → Option (List UInt8 × List UInt8)
  | [], lineBuff => some (lineBuff, [])
  | byte :: rest, lineBuff => do
    let lineBuff ← store lineBuff byte
    if byte = 0x3C then
      match rest with
      -- At the end of the stream, the index still stands at the byte that was stored last.
      | [] => some (lineBuff.dropLast, [])
      | byte :: rest => do
        let lineBuff ← store lineBuff byte
        if byte ≠ 0x62 then brLoop rest lineBuff
        else
          match rest with
          | [] => some (lineBuff.dropLast, [])
          | byte :: rest => do
            let lineBuff ← store lineBuff byte
            if byte ≠ 0x72 then brLoop rest lineBuff
            else
              match rest with
              | [] => some (lineBuff.dropLast, [])
              | byte :: rest => do
                let lineBuff ← store lineBuff byte
                if byte ≠ 0x3E then brLoop rest lineBuff
                else some (lineBuff.take (lineBuff.length - 4), rest)
    else brLoop rest lineBuff

/-- `readOneLineStream_br`, for a stream without an error: the line, and the rest of the stream. -/
def readOneLineStreamBr (inputStream : List UInt8) : Option (JString × List UInt8) :=
  (brLoop inputStream []).map fun (line, rest) => (JString.ofBytes line, rest)

/-- The lines that some calls return, each with what it leaves of the stream. -/
def readLines : Nat → List UInt8 → Option (List (JString × List UInt8))
  | 0, _ => some []
  | calls + 1, inputStream => do
    let (line, rest) ← readOneLineStreamBr inputStream
    let lines ← readLines calls rest
    return (line, rest) :: lines

end Model

section Specification

/-- A stream in front of its first marker and behind it. -/
def cutBr (inputStream : List UInt8) : List UInt8 × List UInt8 :=
  match indexOfPart marker inputStream with
  | some place => (inputStream.take place, inputStream.drop (place + marker.length))
  | none => (inputStream, [])

/-- What is left of a stream behind some markers. -/
def behind (markers : Nat) (inputStream : List UInt8) : List UInt8 :=
  (fun rest => (cutBr rest).2)^[markers] inputStream

/-- The lines of a stream, each with what is behind it. -/
def linesOf (count : Nat) (inputStream : List UInt8) : List (JString × List UInt8) :=
  (List.range count).map fun markers =>
    (JString.ofBytes (cutBr (behind markers inputStream)).1, behind (markers + 1) inputStream)

/-- A byte that begins no marker, or a part of a marker and a byte that does not go on with it. -/
inductive Piece : List UInt8 → Prop
  | other {byte : UInt8} : byte ≠ 0x3C → Piece [byte]
  | first {byte : UInt8} : byte ≠ 0x62 → Piece [0x3C, byte]
  | second {byte : UInt8} : byte ≠ 0x72 → Piece [0x3C, 0x62, byte]
  | third {byte : UInt8} : byte ≠ 0x3E → Piece [0x3C, 0x62, 0x72, byte]

/-- A text that is put together of such pieces. -/
def Clean (text : List UInt8) : Prop :=
  ∃ pieces : List (List UInt8), text = pieces.flatten ∧ ∀ piece ∈ pieces, Piece piece

/-- The first line of a stream is clean and fits into the buffer, as does its marker. -/
def Readable (inputStream : List UInt8) : Prop :=
  match indexOfPart marker inputStream with
  | some place => Clean (inputStream.take place) ∧ place + marker.length ≤ 1024
  | none => Clean inputStream ∧ inputStream.length ≤ 1024

/-- What is in front of the end, of a marker or of a part of one. -/
inductive Tail : List UInt8 → Prop
  | ended : Tail []
  | marked (rest : List UInt8) : Tail (marker ++ rest)
  | cut {count : Nat} : 0 < count → count < marker.length → Tail (marker.take count)

end Specification

section Loop

variable {piece part : List UInt8}

/-- Some bytes are stored one by one, as far as there is room for all of them. -/
def storeAll (lineBuff : List UInt8) (bytes : List UInt8) : Option (List UInt8) :=
  bytes.foldlM store lineBuff

/-- There is room for some bytes or there is not. -/
theorem storeAll_eq (bytes : List UInt8) : ∀ lineBuff : List UInt8, lineBuff.length ≤ 1024 →
    storeAll lineBuff bytes =
      if lineBuff.length + bytes.length ≤ 1024 then some (lineBuff ++ bytes) else none := by
  -- The first byte that finds no room ends the storing, wherever it stands.
  induction bytes with
  | nil =>
    intro lineBuff room
    simp [storeAll, room]
  | cons byte bytes ih =>
    intro lineBuff room
    rw [storeAll, List.foldlM_cons, store]
    by_cases more : lineBuff.length < 1024
    · have longer : (lineBuff ++ [byte]).length ≤ 1024 := by
        rw [List.length_append, List.length_singleton]
        omega
      have sum : lineBuff.length + 1 + bytes.length = lineBuff.length + (bytes.length + 1) := by
        omega
      rw [if_pos more]
      show storeAll (lineBuff ++ [byte]) bytes = _
      rw [ih _ longer]
      simp [sum]
    · have full : ¬ lineBuff.length + (byte :: bytes).length ≤ 1024 := by
        rw [List.length_cons]
        omega
      rw [if_neg more, if_neg full]
      rfl

/-- Bytes are stored in one go or in two. -/
theorem storeAll_append (lineBuff first second : List UInt8) :
    storeAll lineBuff (first ++ second) =
      (storeAll lineBuff first).bind fun lineBuff => storeAll lineBuff second :=
  List.foldlM_append

/-- A piece is stored as it is. -/
theorem brLoop_piece {piece : List UInt8} (whole : Piece piece) (rest lineBuff : List UInt8) :
    brLoop (piece ++ rest) lineBuff =
      (storeAll lineBuff piece).bind fun lineBuff => brLoop rest lineBuff := by
  cases whole with
  | other more => simp [brLoop, storeAll, more]
  | first more => simp [brLoop, storeAll, more, Option.bind_assoc]
  | second more => simp [brLoop, storeAll, more, Option.bind_assoc]
  | third more => simp [brLoop, storeAll, more, Option.bind_assoc]

/-- Pieces are stored one behind the other. -/
theorem brLoop_pieces {pieces : List (List UInt8)} (whole : ∀ piece ∈ pieces, Piece piece)
    (rest lineBuff : List UInt8) :
    brLoop (pieces.flatten ++ rest) lineBuff =
      (storeAll lineBuff pieces.flatten).bind fun lineBuff => brLoop rest lineBuff := by
  -- Each piece leaves the loop at its start again, with the piece stored.
  induction pieces generalizing lineBuff with
  | nil => rfl
  | cons piece pieces ih =>
    obtain ⟨first, others⟩ := List.forall_mem_cons.mp whole
    rw [List.flatten_cons, List.append_assoc, brLoop_piece first, storeAll_append,
      Option.bind_assoc]
    congr 1
    funext lineBuff
    exact ih others lineBuff

/-- A marker is stored like a piece, and ends the loop. -/
theorem brLoop_marker (rest lineBuff : List UInt8) :
    brLoop (marker ++ rest) lineBuff =
      (storeAll lineBuff marker).map fun lineBuff =>
        (lineBuff.take (lineBuff.length - 4), rest) := by
  simp [brLoop, storeAll, marker, Option.map_eq_bind, Option.bind_assoc]

/-- A part of a marker at the end is stored, and its last byte is lost. -/
theorem brLoop_part {count : Nat} (some : 0 < count) (less : count < marker.length)
    (lineBuff : List UInt8) :
    brLoop (marker.take count) lineBuff =
      (storeAll lineBuff (marker.take count)).map fun lineBuff => (lineBuff.dropLast, []) := by
  -- There are three such parts, and the loop follows each of them into its own exit.
  have three : count = 1 ∨ count = 2 ∨ count = 3 := by
    rw [show marker.length = 4 from rfl] at less
    omega
  obtain rfl | rfl | rfl := three
  · simp [brLoop, storeAll, marker, Option.map_eq_bind]
  · simp [brLoop, storeAll, marker, Option.map_eq_bind, Option.bind_assoc]
  · simp [brLoop, storeAll, marker, Option.map_eq_bind, Option.bind_assoc]

end Loop

section Pieces

/-- A stream that is made of pieces, up to its end or to a marker or a part of one. -/
structure Pieced (inputStream : List UInt8) (pieces : List (List UInt8)) (tail : List UInt8) :
    Prop where
  put : inputStream = pieces.flatten ++ tail
  whole : ∀ piece ∈ pieces, Piece piece
  ends : Tail tail

/-- A piece may be put in front. -/
theorem Pieced.cons {piece rest tail : List UInt8} {pieces : List (List UInt8)}
    (first : Piece piece) (pieced : Pieced rest pieces tail) :
    Pieced (piece ++ rest) (piece :: pieces) tail :=
  ⟨by rw [pieced.put, List.flatten_cons, List.append_assoc],
    List.forall_mem_cons.mpr ⟨first, pieced.whole⟩, pieced.ends⟩

/-- Every stream is made so. -/
theorem exists_pieces : ∀ inputStream : List UInt8, ∃ pieces tail, Pieced inputStream pieces tail
  | [] => ⟨[], [], rfl, nofun, .ended⟩
  | first :: rest => by
    by_cases opens : first = 0x3C
    · subst opens
      match rest with
      | [] => exact ⟨[], marker.take 1, rfl, nofun, .cut (by decide) (by decide)⟩
      | second :: rest =>
        by_cases b : second = 0x62
        · subst b
          match rest with
          | [] => exact ⟨[], marker.take 2, rfl, nofun, .cut (by decide) (by decide)⟩
          | third :: rest =>
            by_cases r : third = 0x72
            · subst r
              match rest with
              | [] => exact ⟨[], marker.take 3, rfl, nofun, .cut (by decide) (by decide)⟩
              | fourth :: rest =>
                by_cases closes : fourth = 0x3E
                · subst closes
                  exact ⟨[], _, rfl, nofun, .marked rest⟩
                · obtain ⟨pieces, tail, pieced⟩ := exists_pieces rest
                  exact ⟨_, _, pieced.cons (.third closes)⟩
            · obtain ⟨pieces, tail, pieced⟩ := exists_pieces rest
              exact ⟨_, _, pieced.cons (.second r)⟩
        · obtain ⟨pieces, tail, pieced⟩ := exists_pieces rest
          exact ⟨_, _, pieced.cons (.first b)⟩
    · obtain ⟨pieces, tail, pieced⟩ := exists_pieces rest
      exact ⟨_, _, pieced.cons (.other opens)⟩

variable {inputStream tail : List UInt8} {pieces : List (List UInt8)}

/-- Behind the pieces, the loop goes on with what ends them. -/
theorem Pieced.brLoop_eq (pieced : Pieced inputStream pieces tail) :
    brLoop inputStream [] =
      (storeAll [] pieces.flatten).bind fun lineBuff => brLoop tail lineBuff := by
  rw [pieced.put]
  exact brLoop_pieces pieced.whole tail []

/-- A stream that ends behind a piece is given as a whole. -/
theorem Pieced.brLoop_ended (pieced : Pieced inputStream pieces []) :
    brLoop inputStream [] = if inputStream.length ≤ 1024 then some (inputStream, []) else none := by
  -- The pieces are the whole stream.
  have put : inputStream = pieces.flatten := pieced.put.trans (List.append_nil _)
  rw [pieced.brLoop_eq, storeAll_eq _ [] (by decide), ← put]
  simp only [List.length_nil, Nat.zero_add, List.nil_append]
  split
  · rfl
  · rfl

/-- A marker behind a piece ends the line. -/
theorem Pieced.brLoop_marked {rest : List UInt8}
    (pieced : Pieced inputStream pieces (marker ++ rest)) :
    brLoop inputStream [] =
      if pieces.flatten.length + marker.length ≤ 1024 then some (pieces.flatten, rest)
        else none := by
  have stored : brLoop inputStream [] = (storeAll [] (pieces.flatten ++ marker)).map
      fun lineBuff => (lineBuff.take (lineBuff.length - 4), rest) := by
    rw [pieced.brLoop_eq, storeAll_append, Option.map_bind]
    congr 1
    funext lineBuff
    exact brLoop_marker rest lineBuff
  rw [stored, storeAll_eq _ [] (by decide)]
  simp only [List.length_nil, Nat.zero_add, List.nil_append, List.length_append]
  split
  · -- The index goes back by the length of the marker.
    have back : (pieces.flatten ++ marker).length - 4 = pieces.flatten.length := by
      rw [List.length_append, show marker.length = 4 from rfl, Nat.add_sub_cancel]
    rw [Option.map_some, back, List.take_left]
  · rfl

/-- A part of a marker at the end costs the stream its last byte. -/
theorem Pieced.brLoop_cut {count : Nat} (pieced : Pieced inputStream pieces (marker.take count))
    (filled : 0 < count) (less : count < marker.length) :
    brLoop inputStream [] =
      if inputStream.length ≤ 1024 then some (inputStream.dropLast, []) else none := by
  -- The pieces and the part behind them are the whole stream.
  have stored : brLoop inputStream [] =
      (storeAll [] inputStream).map fun lineBuff => (lineBuff.dropLast, []) := by
    conv_rhs => rw [pieced.put]
    rw [pieced.brLoop_eq, storeAll_append, Option.map_bind]
    congr 1
    funext lineBuff
    exact brLoop_part filled less lineBuff
  rw [stored, storeAll_eq _ [] (by decide)]
  simp only [List.length_nil, Nat.zero_add, List.nil_append]
  split
  · rfl
  · rfl

end Pieces

section Lines

variable {inputStream line rest : List UInt8}

/-- Where a marker is found, the stream can be cut. -/
theorem cut_put {place : Nat} (found : indexOfPart marker inputStream = some place) :
    inputStream =
      inputStream.take place ++ (marker ++ inputStream.drop (place + marker.length)) := by
  obtain ⟨after, here⟩ := IndexOf.indexOfPart_drop found
  have later : inputStream.drop (place + marker.length) = after := by
    rw [← List.drop_drop, ← here, List.drop_left]
  rw [later, here, List.take_append_drop]

/-- The cut of a stream in which a marker is found. -/
theorem cutBr_some {place : Nat} (found : indexOfPart marker inputStream = some place) :
    cutBr inputStream =
      (inputStream.take place, inputStream.drop (place + marker.length)) := by
  rw [cutBr, found]

/-- The cut of a stream without a marker. -/
theorem cutBr_none (missing : indexOfPart marker inputStream = none) :
    cutBr inputStream = (inputStream, []) := by
  rw [cutBr, missing]

/-- The loop gives the first bytes of a stream. -/
theorem brLoop_subset (returned : brLoop inputStream [] = some (line, rest)) :
    line ⊆ inputStream := by
  -- The line is the pieces, or the stream without its last byte.
  obtain ⟨pieces, tail, pieced⟩ := exists_pieces inputStream
  have ends := pieced.ends
  cases ends with
  | ended =>
    rw [pieced.brLoop_ended, Option.ite_none_right_eq_some] at returned
    cases returned.2
    exact List.Subset.refl _
  | marked rest =>
    rw [pieced.brLoop_marked, Option.ite_none_right_eq_some] at returned
    cases returned.2
    rw [pieced.put]
    exact List.subset_append_left _ _
  | cut filled less =>
    rw [pieced.brLoop_cut filled less, Option.ite_none_right_eq_some] at returned
    cases returned.2
    exact List.dropLast_subset _

/-- What the loop reads right is a readable line. -/
theorem readable_of_brLoop (right : brLoop inputStream [] = some (cutBr inputStream)) :
    Readable inputStream := by
  obtain ⟨pieces, tail, pieced⟩ := exists_pieces inputStream
  have ends := pieced.ends
  unfold Readable
  cases found : indexOfPart marker inputStream with
  | none =>
    rw [cutBr_none found] at right
    cases ends with
    | ended =>
      rw [pieced.brLoop_ended, Option.ite_none_right_eq_some] at right
      exact ⟨⟨pieces, pieced.put.trans (List.append_nil _), pieced.whole⟩, right.1⟩
    | marked rest =>
      refine absurd ?_ (IndexOf.indexOfPart_eq_none_iff.mp found)
      exact ⟨pieces.flatten, rest, by rw [pieced.put, List.append_assoc]⟩
    | cut filled less =>
      -- The last byte is missing, and there is one.
      rw [pieced.brLoop_cut filled less, Option.ite_none_right_eq_some, Option.some.injEq,
        Prod.mk.injEq] at right
      have lengths := congrArg List.length right.2.1
      have some := congrArg List.length pieced.put
      rw [List.length_append, List.length_take] at some
      rw [List.length_dropLast] at lengths
      omega
  | some place =>
    have bound := IndexOf.indexOfPart_le found
    have four : marker.length = 4 := rfl
    rw [cutBr_some found] at right
    cases ends with
    | ended =>
      -- A marker that the pieces have swallowed ends no line.
      rw [pieced.brLoop_ended, Option.ite_none_right_eq_some, Option.some.injEq,
        Prod.mk.injEq] at right
      have lengths := congrArg List.length right.2.1
      rw [List.length_take] at lengths
      omega
    | marked rest =>
      rw [pieced.brLoop_marked, Option.ite_none_right_eq_some, Option.some.injEq,
        Prod.mk.injEq] at right
      obtain ⟨fits, same, -⟩ := right
      have lengths := congrArg List.length same
      rw [List.length_take] at lengths
      exact ⟨⟨pieces, same.symm, pieced.whole⟩, by omega⟩
    | cut filled less =>
      rw [pieced.brLoop_cut filled less, Option.ite_none_right_eq_some, Option.some.injEq,
        Prod.mk.injEq] at right
      have lengths := congrArg List.length right.2.1
      rw [List.length_take, List.length_dropLast] at lengths
      omega

/-- The loop cuts the stream at its first marker exactly if that line is readable. -/
theorem brLoop_iff (inputStream : List UInt8) :
    brLoop inputStream [] = some (cutBr inputStream) ↔ Readable inputStream := by
  -- A readable line is made of pieces, which brings the loop to the marker behind it.
  constructor
  · exact readable_of_brLoop
  · intro readable
    unfold Readable at readable
    cases found : indexOfPart marker inputStream with
    | none =>
      rw [found] at readable
      obtain ⟨⟨pieces, put, whole⟩, fits⟩ := readable
      have pieced : Pieced inputStream pieces [] := ⟨by rw [put, List.append_nil], whole, .ended⟩
      rw [pieced.brLoop_ended, if_pos fits, cutBr_none found]
    | some place =>
      rw [found] at readable
      obtain ⟨⟨pieces, put, whole⟩, fits⟩ := readable
      have pieced : Pieced inputStream pieces
          (marker ++ inputStream.drop (place + marker.length)) :=
        ⟨by rw [← put]; exact cut_put found, whole, .marked _⟩
      have bound := IndexOf.indexOfPart_le found
      have length : pieces.flatten.length = place := by
        rw [← put, List.length_take]
        omega
      rw [pieced.brLoop_marked, length, if_pos fits, cutBr_some found, put]

/-- Bytes of ASCII are the units of their text. -/
theorem ofBytes_small {bytes : List UInt8} (small : ∀ byte ∈ bytes, byte < 0x80) :
    JString.ofBytes bytes = bytes.map UInt8.toUInt16 := by
  -- No byte below 0x80 leaves a character under way.
  induction bytes with
  | nil => rfl
  | cons byte bytes ih =>
    obtain ⟨first, others⟩ := List.forall_mem_cons.mp small
    have read := JString.decodeFrom_small first bytes [] none
    rw [List.map_cons, ← ih others]
    exact read

/-- Both parts of a cut stream come from it. -/
theorem cutBr_subset (inputStream : List UInt8) :
    (cutBr inputStream).1 ⊆ inputStream ∧ (cutBr inputStream).2 ⊆ inputStream := by
  -- They are the stream up to a place and from a place on.
  cases found : indexOfPart marker inputStream with
  | none =>
    rw [cutBr_none found]
    exact ⟨List.Subset.refl _, List.nil_subset _⟩
  | some place =>
    rw [cutBr_some found]
    exact ⟨List.take_subset _ _, List.drop_subset _ _⟩

/-- A line of ASCII is read right exactly if it is readable. -/
theorem readOneLineStreamBr_iff (small : ∀ byte ∈ inputStream, byte < 0x80) :
    readOneLineStreamBr inputStream =
        some (JString.ofBytes (cutBr inputStream).1, (cutBr inputStream).2) ↔
      Readable inputStream := by
  rw [← brLoop_iff, readOneLineStreamBr, Option.map_eq_some_iff]
  constructor
  · intro ⟨(line, rest), returned, same⟩
    obtain ⟨texts, rests⟩ := Prod.mk.inj same
    -- Texts of ASCII are the same only if their bytes are.
    have smallLine : ∀ byte ∈ line, byte < 0x80 := fun byte member =>
      small byte (brLoop_subset returned member)
    have smallCut : ∀ byte ∈ (cutBr inputStream).1, byte < 0x80 := fun byte member =>
      small byte ((cutBr_subset inputStream).1 member)
    rw [ofBytes_small smallLine, ofBytes_small smallCut] at texts
    have lines := List.map_injective_iff.mpr (fun _ _ => UInt8.toUInt16_inj.mp) texts
    rw [returned, lines, rests]
  · intro right
    exact ⟨_, right, rfl⟩

/-- The lines of a stream are its first one and those behind its first marker. -/
theorem linesOf_succ (count : Nat) (inputStream : List UInt8) :
    linesOf (count + 1) inputStream =
      (JString.ofBytes (cutBr inputStream).1, (cutBr inputStream).2) ::
        linesOf count (cutBr inputStream).2 := by
  rw [linesOf, List.range_succ_eq_map, List.map_cons, List.map_map]
  rfl

/-- Any number of calls read the lines of a stream exactly if all lines up to there are readable. -/
theorem readLines_iff (calls : Nat) (inputStream : List UInt8)
    (small : ∀ byte ∈ inputStream, byte < 0x80) :
    readLines calls inputStream = some (linesOf calls inputStream) ↔
      ∀ markers < calls, Readable (behind markers inputStream) := by
  -- The first call has to be right for the others to find the rest that they read.
  induction calls generalizing inputStream with
  | zero => simp [readLines, linesOf]
  | succ calls ih =>
    have smallRest : ∀ byte ∈ (cutBr inputStream).2, byte < 0x80 := fun byte member =>
      small byte ((cutBr_subset inputStream).2 member)
    rw [linesOf_succ, Nat.forall_lt_succ_left, readLines]
    have first : Readable (behind 0 inputStream) ↔ readOneLineStreamBr inputStream =
        some (JString.ofBytes (cutBr inputStream).1, (cutBr inputStream).2) :=
      (readOneLineStreamBr_iff small).symm
    have others : (∀ markers < calls, Readable (behind (markers + 1) inputStream)) ↔
        readLines calls (cutBr inputStream).2 = some (linesOf calls (cutBr inputStream).2) :=
      (ih (cutBr inputStream).2 smallRest).symm
    rw [first, others]
    simp only [Option.bind_eq_bind, Option.bind_eq_some_iff, Option.pure_def, Option.some.injEq,
      List.cons.injEq, Prod.exists, Prod.mk.injEq]
    constructor
    · intro ⟨line, rest, returned, lines, later, ⟨lineSame, restSame⟩, linesSame⟩
      subst lineSame restSame linesSame
      exact ⟨returned, later⟩
    · intro ⟨returned, later⟩
      exact ⟨_, _, returned, _, later, ⟨rfl, rfl⟩, rfl⟩

/-- Two lines with a tag inside the first of them. -/
theorem readLines_two :
    Readable (behind 0 [0x3C, 0x70, 0x3E, 0x3C, 0x62, 0x72, 0x3E, 0x61]) ∧
      Readable (behind 1 [0x3C, 0x70, 0x3E, 0x3C, 0x62, 0x72, 0x3E, 0x61]) := by
  have lines := (readLines_iff 2 [0x3C, 0x70, 0x3E, 0x3C, 0x62, 0x72, 0x3E, 0x61] (by simp)).mp
    (by decide)
  exact ⟨lines 0 (by decide), lines 1 (by decide)⟩

/-- A marker behind a `<` is not found. -/
theorem readLines_doubled :
    readLines 1 [0x61, 0x3C, 0x3C, 0x62, 0x72, 0x3E] ≠
      some (linesOf 1 [0x61, 0x3C, 0x3C, 0x62, 0x72, 0x3E]) := by
  decide

end Lines

end AndroidApps.Gildroia.Global
