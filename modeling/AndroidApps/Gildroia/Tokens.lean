import AndroidApps.Gildroia.WideText
import AndroidApps.Lib.Loop

/-! Cutting a string in place into the pieces between separators. -/

namespace AndroidApps.Gildroia

section Cutting

/-- The variables of `u16Tokens`, with its table of pointers and the buffer it cuts. -/
structure TokenWalk where
  buffer : List UInt16
  line : Nat
  i : Nat
  n : Nat
  tokens : List (Option Nat)
  deriving DecidableEq

/-- The pointer of the walk counted and entered into the table, which has no slot behind its end. -/
def TokenWalk.setToken (walk : TokenWalk) (i : Nat) : Option TokenWalk :=
  if i < walk.tokens.length then
    some { walk with tokens := walk.tokens.set i (some walk.line), n := walk.n + 1 }
  else none

/-- One pass of the loop, as long as it stays inside the buffer and the table. -/
def TokenWalk.pass (ch : UInt16) (walk : TokenWalk) : Option (TokenWalk ⊕ TokenWalk) := do
  let first ← walk.buffer[walk.line]?
  if first = 0 then return .inr walk
  else
    let walk ← walk.setToken walk.i
    let line ← u16chr walk.buffer walk.line ch
    let cut ← walk.buffer[line]?
    if cut = 0 then return .inr { walk with line := line }
    else
      let buffer ← poke walk.buffer line 0
      let line ← trimLeftAt buffer (line + 1)
      let behind ← buffer[line]?
      let walk := { walk with buffer := buffer, line := line }
      -- An empty piece at the end is entered ahead of its turn.
      let walk ← if behind = 0 then walk.setToken (walk.i + 1) else some walk
      return .inl { walk with i := walk.i + 1 }

/-- The pass as a step of the loop, which also ends with an access outside. -/
def tokenPass (ch : UInt16) (walk : TokenWalk) : TokenWalk ⊕ Option TokenWalk :=
  match walk.pass ch with
  | none => .inr none
  | some (.inl next) => .inl next
  | some (.inr last) => .inr (some last)

/-- `u16Tokens` of the string at the start of a buffer, with a table of 128 pointers. -/
def u16Tokens (fuel : Nat) (buffer : List UInt16) (ch : UInt16) : Option (Option TokenWalk) :=
  match trimLeftAt buffer 0 with
  | none => some none
  -- Before a blank string, the loop leaves at once.
  | some line => Loop.run (tokenPass ch) fuel ⟨buffer, line, 0, 0, List.replicate 128 none⟩

end Cutting

section Pieces

/-- A slot of the table points to a terminated text in the buffer. -/
def PointsTo (buffer : List UInt16) (slot : Option Nat) (text : List UInt16) : Prop :=
  0 ∉ text ∧ ∃ front more, buffer = front ++ (text ++ 0 :: more) ∧ slot = some front.length

/-- What cutting a string means for the count, the pointers and the other slots. -/
structure Tokenised (units : List UInt16) (ch : UInt16) (walk : TokenWalk) : Prop where
  blank : trimLeft units = [] → walk.n = 0
  count : trimLeft units ≠ [] → walk.n = (trimLeft units).count ch + 1
  pieces : trimLeft units ≠ [] → List.Forall₂ (PointsTo walk.buffer) (walk.tokens.take walk.n)
    (((trimLeft units).splitOn ch).map trimLeft)
  others : walk.tokens.drop walk.n = List.replicate (128 - walk.n) none

/-- `u16Tokens` stays inside its buffer and its table, and cuts the string. -/
def Tokenises (units rest : List UInt16) (ch : UInt16) : Prop :=
  ∃ walk, Loop.Yields (fun fuel => u16Tokens fuel (units ++ 0 :: rest) ch) (some walk) ∧
    Tokenised units ch walk

/-- The pieces of a text between separators. -/
def piecesOf (ch : UInt16) (text : List UInt16) : List (List UInt16) :=
  (text.splitOn ch).map trimLeft

variable {ch : UInt16} {text rest : List UInt16}

/-- A text is cut once more often than it has separators. -/
theorem piecesOf_length (ch : UInt16) (text : List UInt16) :
    (piecesOf ch text).length = text.count ch + 1 := by
  -- Every separator starts one more piece.
  rw [piecesOf, List.length_map]
  induction text with
  | nil => rfl
  | cons unit text ih =>
    rw [List.splitOn_cons_eq_if_modifyHead, List.count_cons]
    split <;> simp [ih]

/-- There is always a piece. -/
theorem piecesOf_pos (ch : UInt16) (text : List UInt16) : 0 < (piecesOf ch text).length := by
  rw [piecesOf_length]
  exact Nat.succ_pos _

/-- Spaces in front of a text are in front of its first piece. -/
theorem piecesOf_trimLeft (other : ch ≠ 0x20) (text : List UInt16) :
    piecesOf ch (trimLeft text) = piecesOf ch text := by
  induction text with
  | nil => rfl
  | cons unit text ih =>
    rw [trimLeft, List.dropWhile_cons]
    split
    next space =>
      obtain rfl : unit = 0x20 := by simpa using space
      have apart : ((0x20 : UInt16) == ch) = false := by simpa using other.symm
      rw [show text.dropWhile (fun unit => unit == 0x20) = trimLeft text from rfl, ih, piecesOf,
        piecesOf, List.splitOn_cons_eq_if_modifyHead, apart]
      -- The first piece only gets one more space to drop.
      cases pieces : text.splitOn ch with
      | nil => rfl
      | cons first others => simp [trimLeft]
    next => rfl

/-- The first piece of a text, and those behind its separator. -/
theorem piecesOf_split {piece later : List UInt16} (other : ch ≠ 0x20) (whole : ch ∉ piece)
    (trimmed : trimLeft piece = piece) :
    piecesOf ch (piece ++ ch :: later) = piece :: piecesOf ch (trimLeft later) := by
  rw [piecesOf_trimLeft other, piecesOf, List.splitOn_append_cons_self_of_not_mem whole,
    List.map_cons, trimmed, piecesOf]

/-- A text without a separator is one piece. -/
theorem piecesOf_whole (whole : ch ∉ text) (trimmed : trimLeft text = text) :
    piecesOf ch text = [text] := by
  rw [piecesOf, List.splitOn_eq_singleton whole, List.map_singleton, trimmed]

end Pieces

section Passes

variable {ch : UInt16} {done text rest : List UInt16}

/-- The table with its first slots filled. -/
def filled (slots : List (Option Nat)) : List (Option Nat) :=
  slots ++ List.replicate (128 - slots.length) none

/-- Behind the last separator, the terminator is found. -/
theorem u16chr_end (plain : 0 ∉ text) (whole : ch ∉ text) :
    u16chr (done ++ (text ++ 0 :: rest)) done.length ch = some (done.length + text.length) := by
  refine advance_passes (fun unit member => ?_) rfl
  have zero : unit ≠ 0 := fun same => plain (same ▸ member)
  have apart : unit ≠ ch := fun same => whole (same ▸ member)
  simp [zero, apart]

/-- The next separator is found behind the piece in front of it. -/
theorem u16chr_separator {more : List UInt16} (plain : 0 ∉ text) (whole : ch ∉ text) :
    u16chr (done ++ (text ++ ch :: more)) done.length ch = some (done.length + text.length) := by
  refine advance_passes (fun unit member => ?_) (by simp)
  have zero : unit ≠ 0 := fun same => plain (same ▸ member)
  have apart : unit ≠ ch := fun same => whole (same ▸ member)
  simp [zero, apart]

/-- The walk in front of a text, behind what it has cut already. -/
def walkAt (done text rest : List UInt16) (i : Nat) (slots : List (Option Nat)) : TokenWalk :=
  ⟨done ++ (text ++ 0 :: rest), done.length, i, slots.length, filled slots⟩

variable {slots : List (Option Nat)} {i : Nat}

/-- The unit the walk is in front of. -/
theorem walkAt_first (done text rest : List UInt16) (i : Nat) (slots : List (Option Nat)) :
    (walkAt done text rest i slots).buffer[(walkAt done text rest i slots).line]? =
      some (text.headD 0) := by
  cases text <;> simp [walkAt]

/-- The next free slot of the table is filled, if there is one. -/
theorem setToken_room (room : slots.length < 128) :
    (walkAt done text rest i slots).setToken slots.length =
      some (walkAt done text rest i (slots ++ [some done.length])) := by
  -- The free slots behind the filled ones are as many as are left of 128.
  have inside : slots.length < (filled slots).length := by
    simp only [filled, List.length_append, List.length_replicate]
    omega
  have free : 128 - slots.length = 127 - slots.length + 1 := by omega
  rw [TokenWalk.setToken, walkAt, if_pos inside]
  simp [walkAt, filled, free, List.replicate_succ]

/-- A full table has no slot left. -/
theorem setToken_full (full : slots.length = 128) :
    (walkAt done text rest i slots).setToken slots.length = none := by
  simp [TokenWalk.setToken, walkAt, filled, full]

/-- In front of the terminator, the loop is over. -/
theorem pass_over : (walkAt done [] rest i slots).pass ch =
    some (.inr (walkAt done [] rest i slots)) := by
  simp [TokenWalk.pass, walkAt_first]

/-- With a full table, the next piece is entered behind it. -/
theorem pass_full (inside : text.headD 0 ≠ 0) (full : slots.length = 128) :
    (walkAt done text rest slots.length slots).pass ch = none := by
  have entered : (walkAt done text rest slots.length slots).setToken slots.length = none :=
    setToken_full full
  rw [TokenWalk.pass, walkAt_first, Option.bind_eq_bind, Option.bind_some, if_neg inside,
    show (walkAt done text rest slots.length slots).i = slots.length from rfl, entered]
  rfl

/-- The last piece is entered, and the loop is left. -/
theorem pass_end (inside : text.headD 0 ≠ 0) (plain : 0 ∉ text) (whole : ch ∉ text)
    (room : slots.length < 128) :
    (walkAt done text rest slots.length slots).pass ch =
      some (.inr ⟨done ++ (text ++ 0 :: rest), done.length + text.length, slots.length,
        (slots ++ [some done.length]).length, filled (slots ++ [some done.length])⟩) := by
  rw [TokenWalk.pass, walkAt_first, Option.bind_eq_bind, Option.bind_some, if_neg inside,
    show (walkAt done text rest slots.length slots).i = slots.length from rfl, setToken_room room]
  simp [walkAt, u16chr_end plain whole]

/-- A piece is cut off and entered, and the walk goes on behind the spaces after its separator. -/
theorem pass_separator {piece later : List UInt16} (done rest : List UInt16)
    (inside : (piece ++ ch :: later).headD 0 ≠ 0)
    (plain : 0 ∉ piece) (noNul : ch ≠ 0) (whole : ch ∉ piece) (room : slots.length < 128) :
    ∃ spaces, later = spaces ++ trimLeft later ∧
      (walkAt done (piece ++ ch :: later) rest slots.length slots).pass ch =
        (if (trimLeft later).headD 0 = 0 then
          (walkAt (done ++ piece ++ 0 :: spaces) (trimLeft later) rest slots.length
            (slots ++ [some done.length])).setToken (slots.length + 1)
        else
          some (walkAt (done ++ piece ++ 0 :: spaces) (trimLeft later) rest slots.length
            (slots ++ [some done.length]))).map fun walk => .inl { walk with i := walk.i + 1 } := by
  -- The separator is overwritten by a terminator, and the spaces behind it are left where they are.
  obtain ⟨spaces, split, passes⟩ := trimLeftAt_text (done ++ piece ++ [0]) later rest
  refine ⟨spaces, split, ?_⟩
  have assoc : done ++ (piece ++ ch :: later ++ 0 :: rest) =
      done ++ (piece ++ ch :: (later ++ 0 :: rest)) := by simp
  have separator : (done ++ (piece ++ ch :: (later ++ 0 :: rest)))[done.length + piece.length]? =
      some ch := by
    rw [← List.append_assoc, ← List.length_append]
    simp
  have cut : poke (done ++ (piece ++ ch :: (later ++ 0 :: rest))) (done.length + piece.length) 0 =
      some (done ++ piece ++ [0] ++ (later ++ 0 :: rest)) := by
    rw [← List.append_assoc, ← List.length_append, poke_append]
    simp
  have behind : done ++ piece ++ [0] ++ (later ++ 0 :: rest) =
      (walkAt (done ++ piece ++ 0 :: spaces) (trimLeft later) rest slots.length
        (slots ++ [some done.length])).buffer := by
    rw [walkAt]
    conv_lhs => rw [split]
    simp
  have line : done.length + piece.length + 1 = (done ++ piece ++ [0]).length := by
    simp only [List.length_append, List.length_singleton]
  have moved : (done ++ piece ++ [0] ++ spaces).length = (done ++ piece ++ 0 :: spaces).length := by
    simp
  rw [TokenWalk.pass, walkAt_first, Option.bind_eq_bind, Option.bind_some, if_neg inside,
    show (walkAt done (piece ++ ch :: later) rest slots.length slots).i = slots.length from rfl,
    setToken_room room, walkAt, assoc]
  simp only [Option.bind_eq_bind, Option.bind_some, u16chr_separator plain whole, separator, noNul,
    if_false, cut, line, passes]
  rw [behind, moved,
    ← show (walkAt (done ++ piece ++ 0 :: spaces) (trimLeft later) rest slots.length
    (slots ++ [some done.length])).line = (done ++ piece ++ 0 :: spaces).length from rfl,
    walkAt_first, Option.bind_some]
  split
  · exact Option.map_eq_bind.symm
  · rfl

end Passes

section Walks

variable {ch : UInt16} {units rest : List UInt16} {whole : List (List UInt16)}

/-- What is pointed to stays there while the buffer is cut behind it. -/
theorem PointsTo.append {buffer text : List UInt16} {slot : Option Nat}
    (points : PointsTo buffer slot text) (more : List UInt16) :
    PointsTo (buffer ++ more) slot text := by
  obtain ⟨plain, front, behind, split, same⟩ := points
  exact ⟨plain, front, behind ++ more, by rw [split]; simp, same⟩

/-- A pointer to the text behind the front part of a buffer. -/
theorem pointsTo_here {text : List UInt16} (done more : List UInt16) (plain : 0 ∉ text) :
    PointsTo (done ++ (text ++ 0 :: more)) (some done.length) text :=
  ⟨plain, done, more, rfl, rfl⟩

/-- One more slot points to one more piece. -/
theorem forall₂_snoc {slots : List (Option Nat)} {texts : List (List UInt16)}
    {buffer text : List UInt16} {slot : Option Nat}
    (all : List.Forall₂ (PointsTo buffer) slots texts) (last : PointsTo buffer slot text) :
    List.Forall₂ (PointsTo buffer) (slots ++ [slot]) (texts ++ [text]) :=
  List.rel_append all (.cons last .nil)

/-- What holds between the passes: the slots filled so far point to the first pieces. -/
inductive Tokenising (rest : List UInt16) (ch : UInt16) (whole : List (List UInt16)) :
    TokenWalk → Prop
  /-- The rest of the text begins with a piece. -/
  | inside (done text : List UInt16) (slots : List (Option Nat)) (texts : List (List UInt16))
      (points : List.Forall₂ (PointsTo done) slots texts) (plain : 0 ∉ text)
      (trimmed : trimLeft text = text) (more : text ≠ []) (bound : slots.length ≤ 128)
      (pieces : whole = texts ++ piecesOf ch text) :
      Tokenising rest ch whole (walkAt done text rest slots.length slots)
  /-- All pieces are cut off. -/
  | ended (done : List UInt16) (i : Nat) (slots : List (Option Nat))
      (points : List.Forall₂ (PointsTo (done ++ 0 :: rest)) slots whole)
      (bound : slots.length ≤ 128) : Tokenising rest ch whole (walkAt done [] rest i slots)

/-- How the loop ends: with a pointer to every piece, if there are enough slots. -/
def TokensEnd (whole : List (List UInt16)) (result : Option TokenWalk) : Prop :=
  if whole.length ≤ 128 then
    ∃ walk slots, result = some walk ∧ List.Forall₂ (PointsTo walk.buffer) slots whole ∧
      walk.n = slots.length ∧ walk.tokens = filled slots
  else result = none

/-- A walk that goes on with less of its buffer in front of it, or ends as it has to end. -/
def MovesOn (rest : List UInt16) (ch : UInt16) (whole : List (List UInt16)) (walk : TokenWalk) :
    TokenWalk ⊕ Option TokenWalk → Prop
  | .inl next => Tokenising rest ch whole next ∧
      next.buffer.length - next.line < walk.buffer.length - walk.line
  | .inr result => TokensEnd whole result

/-- The part of the buffer in front of a walk. -/
theorem walkAt_remaining (done text rest : List UInt16) (i : Nat) (slots : List (Option Nat)) :
    (walkAt done text rest i slots).buffer.length - (walkAt done text rest i slots).line =
      text.length + rest.length + 1 := by
  simp only [walkAt, List.length_append, List.length_cons]
  omega

/-- More pieces than slots end the loop with an access behind the table. -/
theorem tokensEnd_none (many : 128 < whole.length) : TokensEnd whole none := by
  rw [TokensEnd, if_neg (by omega)]

/-- A walk whose slots point to all pieces is how the loop ends. -/
theorem tokensEnd_some {walk : TokenWalk} {slots : List (Option Nat)}
    (points : List.Forall₂ (PointsTo walk.buffer) slots whole) (bound : slots.length ≤ 128)
    (count : walk.n = slots.length) (table : walk.tokens = filled slots) :
    TokensEnd whole (some walk) := by
  rw [TokensEnd, if_pos (points.length_eq ▸ bound)]
  exact ⟨walk, slots, rfl, points, count, table⟩

/-- The front part of a text without leading spaces has none. -/
theorem trimLeft_front {piece later : List UInt16}
    (trimmed : trimLeft (piece ++ later) = piece ++ later) : trimLeft piece = piece := by
  cases piece with
  | nil => rfl
  | cons unit piece =>
    have first := List.dropWhile_eq_self_iff.mp trimmed (by simp)
    exact List.dropWhile_eq_self_iff.mpr fun _ => by simpa using first

variable {done text : List UInt16} {slots : List (Option Nat)} {texts : List (List UInt16)}

/-- The pass at the last piece ends the loop. -/
theorem tokenPass_end (points : List.Forall₂ (PointsTo done) slots texts) (plain : 0 ∉ text)
    (inside : text.headD 0 ≠ 0) (trimmed : trimLeft text = text) (single : ch ∉ text)
    (room : slots.length < 128) (pieces : whole = texts ++ piecesOf ch text) :
    MovesOn rest ch whole (walkAt done text rest slots.length slots)
      (tokenPass ch (walkAt done text rest slots.length slots)) := by
  -- No separator is left, so the piece is all of the text.
  rw [tokenPass, pass_end inside plain single room]
  refine tokensEnd_some ?_ ?_ rfl rfl
  · rw [pieces, piecesOf_whole single trimmed]
    exact forall₂_snoc (points.imp fun _ _ points => points.append _)
      (pointsTo_here done rest plain)
  · rw [List.length_append, List.length_singleton]
    exact room

/-- The pass at a separator goes on behind it, unless nothing is there and the table is full. -/
theorem tokenPass_separator {piece later : List UInt16} (other : ch ≠ 0x20) (noNul : ch ≠ 0)
    (points : List.Forall₂ (PointsTo done) slots texts) (plain : 0 ∉ piece ++ ch :: later)
    (trimmed : trimLeft (piece ++ ch :: later) = piece ++ ch :: later) (single : ch ∉ piece)
    (inside : (piece ++ ch :: later).headD 0 ≠ 0) (room : slots.length < 128)
    (pieces : whole = texts ++ piecesOf ch (piece ++ ch :: later)) :
    MovesOn rest ch whole (walkAt done (piece ++ ch :: later) rest slots.length slots)
      (tokenPass ch (walkAt done (piece ++ ch :: later) rest slots.length slots)) := by
  have front : 0 ∉ piece := fun member => plain (List.mem_append_left _ member)
  obtain ⟨spaces, split, pass⟩ := pass_separator done rest inside front noNul single room
  have cut : List.Forall₂ (PointsTo (done ++ piece ++ 0 :: spaces)) (slots ++ [some done.length])
      (texts ++ [piece]) := by
    have here := pointsTo_here done spaces front
    rw [List.append_assoc]
    exact forall₂_snoc (points.imp fun _ _ points => points.append _) here
  have count : (slots ++ [some done.length]).length = slots.length + 1 := by simp
  rw [piecesOf_split other single (trimLeft_front trimmed), List.append_cons] at pieces
  cases behind : trimLeft later with
  | nil =>
    -- The empty piece at the end is entered as well.
    rw [behind, List.headD_nil, if_pos rfl, ← count] at pass
    rw [behind] at pieces
    rcases Nat.lt_or_ge (slots ++ [some done.length]).length 128 with more | full
    · rw [setToken_room more] at pass
      rw [tokenPass, pass]
      refine ⟨.ended (done ++ piece ++ 0 :: spaces) (slots.length + 1) _ ?_ ?_, ?_⟩
      · rw [pieces]
        exact forall₂_snoc (cut.imp fun _ _ points => points.append _)
          (pointsTo_here _ rest List.not_mem_nil)
      · rw [List.length_append, List.length_singleton]
        exact more
      · rw [walkAt_remaining, walkAt_remaining]
        simp only [List.length_append, List.length_cons, List.length_nil]
        omega
    · have all : (slots ++ [some done.length]).length = 128 := by omega
      rw [setToken_full all] at pass
      rw [tokenPass, pass]
      refine tokensEnd_none ?_
      rw [pieces, List.length_append, ← cut.length_eq, all]
      exact Nat.lt_add_of_pos_right (piecesOf_pos _ _)
  | cons unit others =>
    have member : unit ∈ later := by
      rw [split, behind]
      simp
    have started : unit ≠ 0 := fun zero => plain (by simp [← zero, member])
    rw [behind, List.headD_cons, if_neg started] at pass
    rw [tokenPass, pass]
    refine ⟨?_, ?_⟩
    · have less : trimLeft later ⊆ later := (List.dropWhile_suffix _).subset
      have next : Tokenising rest ch whole _ := .inside _ (trimLeft later) _ _ cut
        (fun zero => plain (by simp [less zero])) (List.dropWhile_idempotent _ _)
        (by simp [behind]) (count ▸ room) pieces
      rw [count, behind] at next
      exact next
    · rw [walkAt_remaining, walkAt_remaining, split, behind]
      simp only [List.length_append, List.length_cons]
      omega

/-- A pass keeps the invariant and moves on, or ends the loop as it has to end. -/
theorem tokenPass_movesOn (other : ch ≠ 0x20) (noNul : ch ≠ 0) {walk : TokenWalk}
    (kept : Tokenising rest ch whole walk) : MovesOn rest ch whole walk (tokenPass ch walk) := by
  cases kept with
  | ended done i slots points bound =>
    rw [tokenPass, pass_over]
    exact tokensEnd_some points bound rfl rfl
  | inside done text slots texts points plain trimmed more bound pieces =>
    have inside : text.headD 0 ≠ 0 := by
      cases text with
      | nil => contradiction
      | cons unit text => exact fun zero => plain (zero ▸ List.mem_cons_self)
    rcases Nat.lt_or_ge slots.length 128 with room | full
    · by_cases cut : ch ∈ text
      · obtain ⟨piece, later, rfl, single⟩ := List.eq_append_cons_of_mem cut
        exact tokenPass_separator other noNul points plain trimmed single inside room pieces
      · exact tokenPass_end points plain inside trimmed cut room pieces
    · -- The piece is entered behind the table.
      have all : slots.length = 128 := by omega
      rw [tokenPass, pass_full inside all]
      refine tokensEnd_none ?_
      rw [pieces, List.length_append, ← points.length_eq, all]
      exact Nat.lt_add_of_pos_right (piecesOf_pos _ _)

/-- The loop ends with a pointer to every piece, or with an access behind the table. -/
theorem tokens_end (other : ch ≠ 0x20) (noNul : ch ≠ 0) {walk : TokenWalk}
    (start : Tokenising rest ch whole walk) :
    ∃ result, Loop.Ends (tokenPass ch) walk result ∧ TokensEnd whole result := by
  -- The walk moves on within the buffer, so what is left of it is the variant.
  refine Loop.ends_of_variant (Tokenising rest ch whole)
    (fun walk => walk.buffer.length - walk.line) (TokensEnd whole) ?_ ?_ start
  · intro walk next kept pass
    have moves := tokenPass_movesOn other noNul kept
    rwa [pass] at moves
  · intro walk result kept pass
    have moves := tokenPass_movesOn other noNul kept
    rwa [pass] at moves

end Walks

section Strings

variable {ch : UInt16} {units : List UInt16}

/-- The pieces that the loop has to enter: none of a blank string. -/
def wholePieces (ch : UInt16) (units : List UInt16) : List (List UInt16) :=
  if trimLeft units = [] then [] else piecesOf ch (trimLeft units)

/-- `u16Tokens` returns with the pointers to the pieces, or accesses what is behind its table. -/
theorem u16Tokens_yields (rest : List UInt16) (plain : 0 ∉ units) (other : ch ≠ 0x20)
    (noNul : ch ≠ 0) :
    ∃ result, Loop.Yields (fun fuel => u16Tokens fuel (units ++ 0 :: rest) ch) result ∧
      TokensEnd (wholePieces ch units) result := by
  obtain ⟨spaces, split, passes⟩ := trimLeftAt_text [] units rest
  -- The spaces in front of the string are what has been passed already.
  have start : Tokenising rest ch (wholePieces ch units)
      (walkAt spaces (trimLeft units) rest 0 []) := by
    rcases eq_or_ne (trimLeft units) [] with blank | some
    · rw [wholePieces, if_pos blank, blank]
      exact .ended spaces 0 [] .nil (Nat.zero_le 128)
    · rw [wholePieces, if_neg some]
      exact .inside spaces (trimLeft units) [] [] .nil
        (fun zero => plain ((List.dropWhile_suffix _).subset zero)) (List.dropWhile_idempotent _ _)
        some (Nat.zero_le 128) rfl
  obtain ⟨result, ended, post⟩ := tokens_end other noNul start
  refine ⟨result, ?_, post⟩
  have buffer : units ++ 0 :: rest = spaces ++ (trimLeft units ++ 0 :: rest) := by
    rw [← List.append_assoc, ← split]
  have call : ∀ fuel, u16Tokens fuel (units ++ 0 :: rest) ch =
      Loop.run (tokenPass ch) fuel (walkAt spaces (trimLeft units) rest 0 []) := by
    intro fuel
    rw [u16Tokens, show trimLeftAt (units ++ 0 :: rest) 0 = some spaces.length from passes, buffer]
    rfl
  simpa only [call] using ended.yields

/-- A table that is filled from its start is cut at the number of its pointers. -/
theorem filled_take (slots : List (Option Nat)) : (filled slots).take slots.length = slots := by
  rw [filled, List.take_left]

/-- Behind its pointers, the table is null. -/
theorem filled_drop (slots : List (Option Nat)) :
    (filled slots).drop slots.length = List.replicate (128 - slots.length) none := by
  rw [filled, List.drop_left]

/-- The pieces that are entered number one more than the separators. -/
theorem wholePieces_length (other : ch ≠ 0x20) (units : List UInt16) :
    (wholePieces ch units).length = if trimLeft units = [] then 0 else units.count ch + 1 := by
  rw [wholePieces]
  split
  · rfl
  · rw [piecesOf_trimLeft other, piecesOf_length]

/-- `u16Tokens` is right exactly when the table has a slot for every piece. -/
theorem tokenises_iff_fits (rest : List UInt16) (plain : 0 ∉ units) (other : ch ≠ 0x20)
    (noNul : ch ≠ 0) : Tokenises units rest ch ↔ (wholePieces ch units).length ≤ 128 := by
  -- The loop ends in one of two ways, and the number of pieces says in which.
  obtain ⟨result, yields, post⟩ := u16Tokens_yields rest plain other noNul
  rw [TokensEnd] at post
  split at post
  next few =>
    obtain ⟨walk, slots, rfl, points, count, table⟩ := post
    refine iff_of_true ⟨walk, yields, ?_, ?_, ?_, ?_⟩ few
    · intro blank
      rw [count, points.length_eq, wholePieces, if_pos blank, List.length_nil]
    · intro some
      rw [count, points.length_eq, wholePieces, if_neg some, piecesOf_length]
    · intro some
      rw [count, table, filled_take]
      rwa [wholePieces, if_neg some] at points
    · rw [count, table, filled_drop]
  next many =>
    refine iff_of_false ?_ many
    rintro ⟨walk, other, -⟩
    rw [post] at yields
    exact absurd (yields.unique other) (by simp)

/-- `u16Tokens` is right exactly for the strings with fewer separators than slots. -/
theorem u16Tokens_correct_iff {units : List UInt16} {ch : UInt16} (rest : List UInt16)
    (plain : 0 ∉ units) (other : ch ≠ 0x20) (noNul : ch ≠ 0) :
    Tokenises units rest ch ↔ units.count ch < 128 := by
  rw [tokenises_iff_fits rest plain other noNul, wholePieces_length other]
  split
  next blank =>
    -- A blank string has no separator at all.
    have spaces := List.dropWhile_eq_nil_iff.mp blank
    have none : units.count ch = 0 := List.count_eq_zero.mpr fun member =>
      other (by simpa using spaces ch member)
    omega
  next => omega

/-- The string "a-b". -/
theorem u16Tokens_correct_ab :
    Tokenises [0x61, 0x2D, 0x62] [] 0x2D ↔ [0x61, 0x2D, 0x62].count (0x2D : UInt16) < 128 :=
  u16Tokens_correct_iff [] (by decide) (by decide) (by decide)

/-- A string of 128 separators has more pieces than there are slots. -/
theorem u16Tokens_separators : ¬ Tokenises (List.replicate 128 0x2D) [] 0x2D := by
  have plain : (0 : UInt16) ∉ List.replicate 128 0x2D := by simp
  rw [tokenises_iff_fits [] plain (by decide) (by decide), wholePieces_length (by decide)]
  simp [trimLeft, List.replicate_succ]

end Strings

end AndroidApps.Gildroia
