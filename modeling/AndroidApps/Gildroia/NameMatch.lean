import AndroidApps.Gildroia.Chosung
import Mathlib.Data.List.TakeWhile

/-! The name matcher written three times: in `SearchPoiName`, `SearchDongName` and
`SearchRoadName`. -/

namespace AndroidApps.Gildroia

/-- Copy a string up to its terminator into a buffer, whose other characters stay as they are. -/
def u16cpy (dest : Nat → UInt16) (src : List UInt16) : Nat → UInt16 :=
  let text := src.takeWhile (· != 0)
  fun i => if i < text.length then text.getD i 0 else if i = text.length then 0 else dest i

/-- What the comparison loop decides, where it reads the query, and which bits of the mask it tests
at which position. -/
structure Comparison where
  bAddData : Bool
  reads : List Nat
  tests : List (Nat × Bool)

/-- A position of the query is read in front of what is read later. -/
def Comparison.reading (later : Comparison) (nStrIdx : Nat) : Comparison :=
  { later with reads := nStrIdx :: later.reads }

/-- A bit of the mask is tested in front of what is tested later. -/
def Comparison.testing (later : Comparison) (nStrIdx : Nat) (bit : Bool) : Comparison :=
  { later with tests := (nStrIdx, bit) :: later.tests }

/--
The comparison loop over `nStrIdx`.

The mask is consumed by shifting, so its lowest bit belongs to the current position.
-/
def matchFrom (pText strName : Nat → UInt16) : Nat → Nat → Nat → Comparison
  | _, 0, _ => ⟨true, [], []⟩
  | nStrIdx, todo + 1, checkHangulBit =>
    -- Behind `MAX_CHOSUNG_LEN` the mask is neither tested nor shifted.
    if nStrIdx > 2 - 1 then
      let same :=
        if isChosung (pText nStrIdx) then
          tranChosung (pText nStrIdx) == tranChosung (strName nStrIdx)
        else pText nStrIdx == strName nStrIdx
      if same then (matchFrom pText strName (nStrIdx + 1) todo checkHangulBit).reading nStrIdx
      else ⟨false, [nStrIdx], []⟩
    -- The query is read only where the mask has a bit.
    else if checkHangulBit % 2 = 1 then
      if pText nStrIdx == strName nStrIdx then
        ((matchFrom pText strName (nStrIdx + 1) todo (checkHangulBit >>> 1)).reading
          nStrIdx).testing nStrIdx true
      else ⟨false, [nStrIdx], [(nStrIdx, true)]⟩
    else
      (matchFrom pText strName (nStrIdx + 1) todo (checkHangulBit >>> 1)).testing nStrIdx false

/-- The variables a matcher carries from one candidate to the next. -/
structure MatchVars where
  name : Nat → UInt16
  bAddData : Bool

/-- What a matcher decides about one candidate, and where it reads the query for it. -/
structure Decision where
  bAddData : Bool
  reads : List Nat
  deriving DecidableEq

/-- One candidate in the loop of a matcher whose length variable has the value `nLen`. -/
def matchPass (pText : Nat → UInt16) (ckCmpHan nLen : Nat) (vars : MatchVars)
    (candidate : List UInt16) : MatchVars × Decision :=
  let name := u16cpy vars.name candidate
  if ckCmpHan ≠ 0 ∨ nLen > 2 then
    let outcome := matchFrom pText name 0 nLen ckCmpHan
    (⟨name, outcome.bAddData⟩, ⟨outcome.bAddData, outcome.reads⟩)
  -- Without a comparison the flag keeps its value from the candidate before.
  else (⟨name, vars.bAddData⟩, ⟨vars.bAddData, []⟩)

/-- `SearchPoiName` compares over the length of the query. -/
def poiPass (pText : Nat → UInt16) (nLen ckCmpHan : Nat) :=
  matchPass pText ckCmpHan nLen

/-- In `SearchDongName` a local `nLen` hides the parameter and holds the candidate's length. -/
def dongPass (pText : Nat → UInt16) (ckCmpHan : Nat) (vars : MatchVars) (candidate : List UInt16) :=
  matchPass pText ckCmpHan candidate.length vars candidate

/-- `SearchRoadName` hides its parameter in the same way. -/
def roadPass (pText : Nat → UInt16) (ckCmpHan : Nat) (vars : MatchVars) (candidate : List UInt16) :=
  matchPass pText ckCmpHan candidate.length vars candidate

/-- The decisions of a matcher over the candidates of a bucket, one after the other. -/
def decisions (pass : MatchVars → List UInt16 → MatchVars × Decision) :
    MatchVars → List (List UInt16) → List Decision
  | _, [] => []
  | vars, candidate :: rest =>
    let (vars, decision) := pass vars candidate
    decision :: decisions pass vars rest

/-- The variables before the first candidate: an uninitialised name and a set flag. -/
def matchStart (stale : Nat → UInt16) : MatchVars := ⟨stale, true⟩

/-- The positions at which a matcher compares, given the mask of its query. -/
def compared (pText : Nat → UInt16) (nLen position : Nat) : Prop :=
  -- In the first two positions consonants are left to the index code.
  2 ≤ position ∨ position < nLen ∧ isChosung (pText position) = false

instance (pText : Nat → UInt16) (nLen position : Nat) : Decidable (compared pText nLen position) :=
  inferInstanceAs (Decidable (_ ∨ _ ∧ _))

/-- A name agrees with the query wherever the matcher compares up to a bound. -/
def agreesUpTo (pText strName : Nat → UInt16) (nLen bound : Nat) : Prop :=
  ∀ j, j < bound → compared pText nLen j → charMatches (pText j) (strName j)

/-- A copied string stands in front of its terminator. -/
theorem u16cpy_of_lt {stale : Nat → UInt16} {text : List UInt16} (plain : ∀ ch ∈ text, ch ≠ 0)
    {i : Nat} (inside : i < text.length) : u16cpy stale text i = text[i] := by
  have whole : text.takeWhile (· != 0) = text := by
    rw [List.takeWhile_eq_self_iff]
    simpa using plain
  simp [u16cpy, whole, inside]

theorem u16cpy_end {stale : Nat → UInt16} {text : List UInt16} (plain : ∀ ch ∈ text, ch ≠ 0) :
    u16cpy stale text text.length = 0 := by
  have whole : text.takeWhile (· != 0) = text := by
    rw [List.takeWhile_eq_self_iff]
    simpa using plain
  simp [u16cpy, whole]

/-- Behind the terminator the buffer is untouched. -/
theorem u16cpy_stale {stale : Nat → UInt16} {text : List UInt16} (plain : ∀ ch ∈ text, ch ≠ 0)
    {i : Nat} (behind : text.length < i) : u16cpy stale text i = stale i := by
  have whole : text.takeWhile (· != 0) = text := by
    rw [List.takeWhile_eq_self_iff]
    simpa using plain
  simp only [u16cpy, whole]
  rw [if_neg (by omega), if_neg (by omega)]

/-- The comparison behind the first two positions is the match of two characters. -/
theorem charMatches_iff (query name : UInt16) :
    (if isChosung query then tranChosung query == tranChosung name else query == name) = true ↔
      charMatches query name := by
  unfold charMatches
  by_cases consonant : isChosung query = true
  · rw [if_pos consonant, if_pos consonant, beq_iff_eq,
      tranChosung_of_not_hangul (isHangul_of_isChosung consonant), eq_comm]
  · rw [if_neg consonant, if_neg consonant, beq_iff_eq, eq_comm]

/-- A complete character matches itself only. -/
theorem charMatches_complete {query name : UInt16} (complete : isChosung query = false) :
    charMatches query name ↔ query = name := by
  unfold charMatches
  rw [if_neg (by simp [complete]), eq_comm]

/-- Every character matches itself. -/
theorem charMatches_self (ch : UInt16) : charMatches ch ch := by
  unfold charMatches
  by_cases consonant : isChosung ch = true
  · rw [if_pos consonant, tranChosung_of_not_hangul (isHangul_of_isChosung consonant)]
  · rw [if_neg consonant]

section Comparison

variable {pText strName : Nat → UInt16} {nLen first bound todo : Nat} {rest : Comparison}

/-- A name agrees with the query wherever the matcher compares from one position up to a bound. -/
def agreesFrom (pText strName : Nat → UInt16) (nLen first bound : Nat) : Prop :=
  ∀ j, first ≤ j → j < bound → compared pText nLen j → charMatches (pText j) (strName j)

/-- The first position is looked at, and then the later ones. -/
theorem agreesFrom_cons (inside : first < bound) :
    agreesFrom pText strName nLen first bound ↔
      (compared pText nLen first → charMatches (pText first) (strName first)) ∧
        agreesFrom pText strName nLen (first + 1) bound := by
  constructor
  · intro agree
    exact ⟨agree first (Nat.le_refl first) inside, fun j low => agree j (by omega)⟩
  · rintro ⟨here, later⟩ j low
    -- A position is the first one or one of the later ones.
    rcases Nat.eq_or_lt_of_le low with rfl | behind
    · exact fun _ => here
    · exact later j behind

/--
What a comparison of the positions from one on has to say.

It accepts when every compared position agrees.
It reads a compared position exactly when all compared positions before it agree.
-/
structure Compares (pText strName : Nat → UInt16) (nLen first todo : Nat)
    (result : Comparison) : Prop where
  accepts : result.bAddData = true ↔ agreesFrom pText strName nLen first (first + todo)
  reads : ∀ j, j ∈ result.reads ↔
    first ≤ j ∧ j < first + todo ∧ compared pText nLen j ∧ agreesFrom pText strName nLen first j

/-- Nothing is read where no position is left. -/
theorem Compares.start : Compares pText strName nLen first 0 ⟨true, [], []⟩ where
  accepts := by
    rw [Nat.add_zero]
    exact iff_of_true rfl fun j low high => by omega
  reads j := by
    rw [Nat.add_zero]
    exact iff_of_false List.not_mem_nil fun inside => by omega

/-- An agreement at the first position leaves the decision to the later ones. -/
theorem Compares.accepts_later (compares : Compares pText strName nLen (first + 1) todo rest)
    (here : compared pText nLen first → charMatches (pText first) (strName first)) :
    rest.bAddData = true ↔ agreesFrom pText strName nLen first (first + (todo + 1)) := by
  rw [compares.accepts, agreesFrom_cons (show first < first + (todo + 1) by omega),
    and_iff_right here, show first + 1 + todo = first + (todo + 1) by omega]

/-- It also leaves them what is read behind it. -/
theorem Compares.reads_later (compares : Compares pText strName nLen (first + 1) todo rest)
    (here : compared pText nLen first → charMatches (pText first) (strName first)) {j : Nat}
    (other : j ≠ first) :
    j ∈ rest.reads ↔
      first ≤ j ∧ j < first + (todo + 1) ∧ compared pText nLen j ∧
        agreesFrom pText strName nLen first j := by
  rw [compares.reads]
  -- What stands before a later position is the first one and the later ones before it.
  constructor
  · rintro ⟨low, high, read, before⟩
    exact ⟨by omega, by omega, read, (agreesFrom_cons low).mpr ⟨here, before⟩⟩
  · rintro ⟨low, high, read, before⟩
    exact ⟨by omega, by omega, read, ((agreesFrom_cons (by omega)).mp before).2⟩

/-- A position that is not compared is not read. -/
theorem Compares.skip (compares : Compares pText strName nLen (first + 1) todo rest)
    (skipped : ¬ compared pText nLen first) :
    Compares pText strName nLen first (todo + 1) (rest.testing first false) where
  accepts := compares.accepts_later fun read => absurd read skipped
  reads j := by
    by_cases here : j = first
    · subst here
      -- This position is skipped, and all later ones are different from it.
      rw [show (rest.testing j false).reads = rest.reads from rfl, compares.reads]
      refine iff_of_false (fun inside => by omega) ?_
      rintro ⟨_, _, read, _⟩
      exact skipped read
    · exact compares.reads_later (fun read => absurd read skipped) here

/-- A position that is read and agrees stands in front of what is read later. -/
theorem Compares.read (compares : Compares pText strName nLen (first + 1) todo rest)
    (read : compared pText nLen first) (same : charMatches (pText first) (strName first)) :
    Compares pText strName nLen first (todo + 1) (rest.reading first) where
  accepts := compares.accepts_later fun _ => same
  reads j := by
    rw [Comparison.reading, List.mem_cons]
    -- The first position is read before anything else can differ.
    by_cases here : j = first
    · subst here
      exact iff_of_true (.inl rfl) ⟨by omega, by omega, read, fun k low high => by omega⟩
    · rw [or_iff_right here]
      exact compares.reads_later (fun _ => same) here

/-- Testing a bit of the mask changes nothing else. -/
theorem Compares.test (compares : Compares pText strName nLen first todo rest) (bit : Bool) :
    Compares pText strName nLen first todo (rest.testing first bit) :=
  ⟨compares.accepts, compares.reads⟩

/-- A position that is read and differs ends the loop. -/
theorem Compares.stop {tests : List (Nat × Bool)} (read : compared pText nLen first)
    (differs : ¬ charMatches (pText first) (strName first)) :
    Compares pText strName nLen first (todo + 1) ⟨false, [first], tests⟩ where
  accepts := by
    refine iff_of_false Bool.false_ne_true ?_
    intro agree
    exact differs (agree first (by omega) (by omega) read)
  reads j := by
    rw [List.mem_singleton]
    constructor
    · rintro rfl
      exact ⟨by omega, by omega, read, fun k low high => by omega⟩
    · rintro ⟨low, _, _, before⟩
      -- A later position would be read behind an agreement at this one.
      rcases Nat.eq_or_lt_of_le low with same | later
      · exact same.symm
      · exact absurd (before first (by omega) later read) differs

end Comparison

/-- What the comparison loop does from any position on. -/
theorem matchFrom_spec (pText strName : Nat → UInt16) (nLen : Nat) :
    ∀ todo nStrIdx bits,
      (∀ j, nStrIdx ≤ j → j < 2 → (bits.testBit (j - nStrIdx) = true ↔ compared pText nLen j)) →
      Compares pText strName nLen nStrIdx todo (matchFrom pText strName nStrIdx todo bits) := by
  intro todo
  induction todo with
  | zero => exact fun _ _ _ => .start
  | succ todo ih =>
    intro nStrIdx bits mask
    by_cases far : nStrIdx > 2 - 1
    · -- The mask is not needed from position two on.
      have read : compared pText nLen nStrIdx := Or.inl (by omega)
      have later := ih (nStrIdx + 1) bits fun j low high => by omega
      rw [matchFrom, if_pos far]
      by_cases same : charMatches (pText nStrIdx) (strName nStrIdx)
      · simp only [if_pos ((charMatches_iff _ _).mpr same)]
        exact later.read read same
      · have differs := mt (charMatches_iff (pText nStrIdx) (strName nStrIdx)).mp same
        simp only [if_neg differs]
        exact .stop read same
    · -- In the first two positions the mask decides whether the query is read.
      have low := mask nStrIdx (by omega) (by omega)
      rw [Nat.sub_self, Nat.testBit_zero, decide_eq_true_eq] at low
      -- The mask of the remaining positions is the shifted one.
      have later : Compares pText strName nLen (nStrIdx + 1) todo
          (matchFrom pText strName (nStrIdx + 1) todo (bits >>> 1)) := by
        refine ih (nStrIdx + 1) (bits >>> 1) fun j start high => ?_
        rw [Nat.testBit_shiftRight, show 1 + (j - (nStrIdx + 1)) = j - nStrIdx by omega]
        exact mask j (by omega) high
      rw [matchFrom, if_neg far]
      by_cases read : compared pText nLen nStrIdx
      · have complete : isChosung (pText nStrIdx) = false := by
          rcases read with late | ⟨_, complete⟩
          · omega
          · exact complete
        rw [if_pos (low.mpr read)]
        by_cases same : charMatches (pText nStrIdx) (strName nStrIdx)
        · have equal : (pText nStrIdx == strName nStrIdx) = true :=
            beq_iff_eq.mpr ((charMatches_complete complete).mp same)
          simp only [if_pos equal]
          exact (later.read read same).test true
        · have differs : ¬ (pText nStrIdx == strName nStrIdx) = true := by
            rw [beq_iff_eq, ← charMatches_complete complete]
            exact same
          simp only [if_neg differs]
          exact .stop read same
      · rw [if_neg (mt low.mp read)]
        exact later.skip read

end AndroidApps.Gildroia
