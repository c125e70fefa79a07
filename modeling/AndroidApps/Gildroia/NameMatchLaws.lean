import AndroidApps.Gildroia.NameMatch

/-! When the three copies of the name matcher take the same decisions. -/

namespace AndroidApps.Gildroia

/-- A matcher whose length variable holds some length of the candidate. -/
def passOver (pText : Nat → UInt16) (ckCmpHan : Nat) (length : List UInt16 → Nat)
    (vars : MatchVars) (candidate : List UInt16) : MatchVars × Decision :=
  matchPass pText ckCmpHan (length candidate) vars candidate

/-- Which candidates a matcher accepts, one after the other. -/
def accepted (pass : MatchVars → List UInt16 → MatchVars × Decision) (stale : Nat → UInt16)
    (names : List (List UInt16)) : List Bool :=
  (decisions pass (matchStart stale) names).map Decision.bAddData

/-- Which candidates a matcher accepts when it sees each of them alone. -/
def acceptedAlone (pass : MatchVars → List UInt16 → MatchVars × Decision)
    (stale : Nat → UInt16) (names : List (List UInt16)) : List Bool :=
  names.map fun name => (pass (matchStart stale) name).2.bAddData

/-- A matcher stays inside the query for all candidates of a bucket. -/
def ReadsInside (pass : MatchVars → List UInt16 → MatchVars × Decision) (nLen : Nat)
    (stale : Nat → UInt16) (names : List (List UInt16)) : Prop :=
  ∀ decision ∈ decisions pass (matchStart stale) names, ∀ read ∈ decision.reads, read < nLen

/--
The three matchers agree on the names of a bucket, whatever their buffers held before.

The decisions on dongs and roads are those the matcher of `SearchPoiName` takes on each name.
No decision depends on the candidates before it, and no matcher reads behind the query.
-/
def MatchersAgree (pText : Nat → UInt16) (nLen : Nat) (names : List (List UInt16)) : Prop :=
  let ckCmpHan := checkCompletHangul pText nLen
  let poi := poiPass pText nLen ckCmpHan
  let dong := dongPass pText ckCmpHan
  let road := roadPass pText ckCmpHan
  ∀ stale other,
    accepted dong stale names = acceptedAlone poi other names ∧
    accepted road stale names = acceptedAlone poi other names ∧
    accepted dong stale names = acceptedAlone dong other names ∧
    accepted road stale names = acceptedAlone road other names ∧
    accepted poi stale names = acceptedAlone poi other names ∧
    ReadsInside dong nLen stale names ∧ ReadsInside road nLen stale names ∧
    ReadsInside poi nLen stale names

/-- The query and a name differ at a compared position that both have. -/
def Differs (pText : Nat → UInt16) (nLen : Nat) (name : List UInt16) : Prop :=
  ∃ j, j < min name.length nLen ∧ compared pText nLen j ∧
    ¬ charMatches (pText j) (name.getD j 0)

/-- Where only one of query and name has a character, nothing but a terminator is compared. -/
def TailSilent (pText : Nat → UInt16) (nLen : Nat) (name : List UInt16) : Prop :=
  ∀ j, min name.length nLen ≤ j → j < max name.length nLen →
    ¬ compared pText nLen j ∨ j = name.length ∧ j < nLen ∧ pText j = 0

/-- The mask of a query tells the compared ones among the first two positions. -/
theorem compared_iff_mask (pText : Nat → UInt16) (nLen : Nat) {j : Nat} (low : j < 2) :
    (checkCompletHangul pText nLen).testBit j = true ↔ compared pText nLen j := by
  -- The mask has one bit for each of the first two positions.
  rw [checkCompletHangul_testBit pText nLen (by omega), Bool.and_eq_true, decide_eq_true_eq,
    Bool.not_eq_true']
  unfold compared
  constructor
  · intro complete
    exact Or.inr complete
  · intro either
    rcases either with late | complete
    · omega
    · exact complete

/-- An empty mask leaves the first two positions to the index code. -/
theorem not_compared_of_mask {pText : Nat → UInt16} {nLen j : Nat}
    (empty : checkCompletHangul pText nLen = 0) (low : j < 2) : ¬ compared pText nLen j := by
  rw [← compared_iff_mask pText nLen low, empty, Nat.zero_testBit]
  exact Bool.false_ne_true

/-- With an empty mask the third character of a query is a consonant as well. -/
theorem third_of_mask {pText : Nat → UInt16} {nLen : Nat}
    (empty : checkCompletHangul pText nLen = 0) (long : 2 < nLen) : pText 2 ≠ 0 := by
  have bit := checkCompletHangul_testBit pText nLen (show 2 ≤ 30 by decide)
  rw [empty, Nat.zero_testBit, decide_eq_true long, Bool.true_and] at bit
  intro terminator
  rw [terminator] at bit
  exact absurd bit (by decide)

/-- What one pass decides, unless it keeps a flag that an earlier candidate has cleared. -/
theorem matchPass_accepts (pText : Nat → UInt16) (nLen length : Nat) {vars : MatchVars}
    (name : List UInt16)
    (fresh : vars.bAddData = true ∨ checkCompletHangul pText nLen ≠ 0 ∨ length > 2) :
    (matchPass pText (checkCompletHangul pText nLen) length vars name).2.bAddData = true ↔
      agreesUpTo pText (u16cpy vars.name name) nLen length := by
  unfold matchPass
  by_cases compares : checkCompletHangul pText nLen ≠ 0 ∨ length > 2
  · rw [if_pos compares]
    have spec := (matchFrom_spec pText (u16cpy vars.name name) nLen length 0
      (checkCompletHangul pText nLen) fun j _ low => compared_iff_mask pText nLen low).accepts
    rw [spec]
    unfold agreesFrom agreesUpTo
    constructor
    · intro agree j below
      exact agree j (Nat.zero_le j) (by omega)
    · intro agree j _ below
      exact agree j (by omega)
  · -- No position is compared, and the flag is still set.
    rw [if_neg compares]
    have empty : checkCompletHangul pText nLen = 0 := by
      by_contra nonempty
      exact compares (Or.inl nonempty)
    have set : vars.bAddData = true := fresh.resolve_right compares
    simp only [set, true_iff]
    intro j below here
    exact absurd here (not_compared_of_mask empty (by omega))

/-- Where one pass reads the query. -/
theorem matchPass_reads (pText : Nat → UInt16) (nLen length : Nat) (vars : MatchVars)
    (name : List UInt16) (j : Nat) :
    j ∈ (matchPass pText (checkCompletHangul pText nLen) length vars name).2.reads ↔
      j < length ∧ compared pText nLen j ∧ agreesUpTo pText (u16cpy vars.name name) nLen j := by
  -- Without a complete syllable and without a third position nothing is compared at all.
  unfold matchPass
  by_cases compares : checkCompletHangul pText nLen ≠ 0 ∨ length > 2
  · rw [if_pos compares]
    have spec := (matchFrom_spec pText (u16cpy vars.name name) nLen length 0
      (checkCompletHangul pText nLen) fun j _ low => compared_iff_mask pText nLen low).reads j
    rw [spec, Nat.zero_add]
    simp only [Nat.zero_le, true_and, true_implies, agreesFrom, agreesUpTo]
  · rw [if_neg compares]
    have empty : checkCompletHangul pText nLen = 0 := by
      by_contra nonempty
      exact compares (Or.inl nonempty)
    simp only [List.not_mem_nil, false_iff]
    rintro ⟨below, here, _⟩
    exact not_compared_of_mask empty (by omega) here

/-- Up to its terminator a copied name is the name itself. -/
theorem agreesUpTo_u16cpy {pText : Nat → UInt16} {nLen bound : Nat} {name : List UInt16}
    (stale : Nat → UInt16) (plain : ∀ ch ∈ name, ch ≠ 0) (short : bound ≤ name.length + 1) :
    agreesUpTo pText (u16cpy stale name) nLen bound ↔
      agreesUpTo pText (fun j => name.getD j 0) nLen bound := by
  -- The copy has the characters of the name and the terminator behind them.
  have same : ∀ j, j < bound → u16cpy stale name j = name.getD j 0 := by
    intro j below
    rcases Nat.lt_or_ge j name.length with inside | behind
    · rw [u16cpy_of_lt plain inside, List.getD_eq_getElem?_getD, List.getElem?_eq_getElem inside,
        Option.getD_some]
    · have here : j = name.length := by omega
      rw [here, u16cpy_end plain, List.getD_eq_getElem?_getD,
        List.getElem?_eq_none (Nat.le_refl _), Option.getD_none]
  unfold agreesUpTo
  constructor
  · intro agree j below here
    show charMatches (pText j) (name.getD j 0)
    rw [← same j below]
    exact agree j below here
  · intro agree j below here
    rw [same j below]
    exact agree j below here

/-- No character matches both a terminator and another given character. -/
theorem charMatches_zero {query : UInt16} (same : charMatches query 0) : query = 0 := by
  -- The terminator is no syllable, so that it is compared as it is.
  unfold charMatches at same
  split at same
  · rename_i consonant
    rw [tranChosung_of_not_hangul (by decide)] at same
    exact same.symm
  · exact same.symm

/-- Some content of a stale buffer differs from a given character of the query. -/
theorem exists_mismatch (query : UInt16) : ∃ junk, ¬ charMatches query junk := by
  by_cases terminator : query = 0
  · refine ⟨1, ?_⟩
    rw [terminator]
    decide
  · exact ⟨0, fun same => terminator (charMatches_zero same)⟩

/-- Agreement up to a bound extends over positions that agree. -/
theorem agreesUpTo_extend {pText strName : Nat → UInt16} {nLen low high : Nat} (le : low ≤ high)
    (between : ∀ j, low ≤ j → j < high → compared pText nLen j →
      charMatches (pText j) (strName j)) :
    agreesUpTo pText strName nLen high ↔ agreesUpTo pText strName nLen low := by
  -- Positions below the lower bound are known, and the others are given.
  constructor
  · intro agree j below
    exact agree j (by omega)
  · intro agree j below here
    rcases Nat.lt_or_ge j low with early | late
    · exact agree j early here
    · exact between j late below here

/-- A difference in the common part rules out agreement beyond it. -/
theorem Differs.not_agrees {pText : Nat → UInt16} {nLen : Nat} {name : List UInt16}
    (differs : Differs pText nLen name) {bound : Nat} (covers : min name.length nLen ≤ bound) :
    ¬ agreesUpTo pText (fun j => name.getD j 0) nLen bound := by
  obtain ⟨j, common, here, mismatch⟩ := differs
  intro agree
  exact mismatch (agree j (by omega) here)

section Settled

variable {pText : Nat → UInt16} {nLen : Nat} {name : List UInt16}

/-- The matcher over the query's length and those over the name's length do alike with a name. -/
structure SameVerdicts (pText : Nat → UInt16) (nLen : Nat) (name : List UInt16) : Prop where
  accepted : ∀ stale, agreesUpTo pText (u16cpy stale name) nLen nLen ↔
    agreesUpTo pText (fun j => name.getD j 0) nLen name.length
  inside : ∀ j, j < name.length → compared pText nLen j →
    agreesUpTo pText (fun j => name.getD j 0) nLen j → j < nLen

/-- Both lengths cover the difference, and no position behind it is read. -/
theorem Differs.sameVerdicts (differs : Differs pText nLen name) (plain : ∀ ch ∈ name, ch ≠ 0) :
    SameVerdicts pText nLen name where
  accepted stale := by
    -- The difference lies where the copy has the characters of the name.
    have rejected : ¬ agreesUpTo pText (u16cpy stale name) nLen nLen := by
      intro agree
      have common : agreesUpTo pText (u16cpy stale name) nLen (min name.length nLen) :=
        fun j below => agree j (by omega)
      rw [agreesUpTo_u16cpy _ plain (by omega)] at common
      exact differs.not_agrees (Nat.le_refl _) common
    exact iff_of_false rejected (differs.not_agrees (by omega))
  inside j _ _ agree := by
    by_contra beyond
    exact differs.not_agrees (by omega) agree

/-- Where one of the two is over, no position tells them apart. -/
theorem TailSilent.sameVerdicts (silent : TailSilent pText nLen name)
    (plain : ∀ ch ∈ name, ch ≠ 0) : SameVerdicts pText nLen name := by
  rcases Nat.lt_or_ge nLen name.length with longer | shorter
  · -- Behind the query no position of the name is compared.
    have skipped : ∀ j, nLen ≤ j → j < name.length → ¬ compared pText nLen j := by
      intro j low high here
      rcases silent j (by omega) (by omega) with not | ⟨_, inQuery, _⟩
      · exact not here
      · omega
    constructor
    · intro stale
      rw [agreesUpTo_u16cpy _ plain (by omega)]
      exact (agreesUpTo_extend (by omega) fun j low high here =>
        absurd here (skipped j low high)).symm
    · intro j below here _
      by_contra beyond
      exact skipped j (by omega) below here
  · constructor
    · intro stale
      rw [← agreesUpTo_u16cpy stale plain (by omega)]
      -- Only the terminator itself can be compared, and it is matched.
      apply agreesUpTo_extend shorter
      intro j low high here
      rcases silent j (by omega) (by omega) with not | ⟨ending, _, terminator⟩
      · exact absurd here not
      · rw [terminator, ending, u16cpy_end plain]
        decide
    · intro j below _ _
      omega

/-- Behind the query there is a first position that is compared, if any is. -/
theorem exists_first_compared {j : Nat} (low : nLen ≤ j) (here : compared pText nLen j) :
    ∃ k, nLen ≤ k ∧ k ≤ j ∧ compared pText nLen k ∧
      ∀ i, nLen ≤ i → i < k → ¬ compared pText nLen i := by
  have some : ∃ k, nLen ≤ k ∧ compared pText nLen k := ⟨j, low, here⟩
  refine ⟨Nat.find some, (Nat.find_spec some).1, Nat.find_min' some ⟨low, here⟩,
    (Nat.find_spec some).2, ?_⟩
  intro i start before compares
  exact Nat.find_min some before ⟨start, compares⟩

/-- A name that agrees in the common part is compared nowhere behind it. -/
theorem SameVerdicts.tailSilent (verdicts : SameVerdicts pText nLen name)
    (plain : ∀ ch ∈ name, ch ≠ 0)
    (agree : agreesUpTo pText (fun j => name.getD j 0) nLen (min name.length nLen)) :
    TailSilent pText nLen name := by
  intro j low high
  by_contra loud
  rw [not_or, not_not] at loud
  obtain ⟨here, unmatched⟩ := loud
  rcases Nat.lt_or_ge nLen name.length with longer | shorter
  · -- The first compared position behind the query is read.
    obtain ⟨k, behind, early, compares, first⟩ :=
      exists_first_compared (show nLen ≤ j by omega) here
    have reached : agreesUpTo pText (fun j => name.getD j 0) nLen k := by
      rw [agreesUpTo_extend behind fun i start before compares =>
        absurd compares (first i start before)]
      intro i before
      exact agree i (by omega)
    have := verdicts.inside k (by omega) compares reached
    omega
  · -- The name is over, so its terminator or a stale character is compared.
    rw [Nat.min_eq_left shorter] at agree low
    obtain ⟨junk, mismatch⟩ := exists_mismatch (pText j)
    have matched := (verdicts.accepted fun _ => junk).mpr agree j (by omega) here
    rcases Nat.lt_or_eq_of_le low with later | ending
    · rw [u16cpy_stale plain later] at matched
      exact mismatch matched
    · rw [← ending, u16cpy_end plain] at matched
      exact unmatched ⟨ending.symm, by omega, ending ▸ charMatches_zero matched⟩

/--
The condition on one name, in terms of what the matchers compute from it.

The query is compared over its own length by one matcher and over the name's by the others.
-/
theorem settled_iff (plain : ∀ ch ∈ name, ch ≠ 0) :
    (Differs pText nLen name ∨ TailSilent pText nLen name) ↔ SameVerdicts pText nLen name := by
  constructor
  · rintro (differs | silent)
    · exact differs.sameVerdicts plain
    · exact silent.sameVerdicts plain
  · intro verdicts
    by_cases differs : Differs pText nLen name
    · exact .inl differs
    · -- Without a difference the common part agrees.
      refine .inr (verdicts.tailSilent plain fun j below here => ?_)
      by_contra mismatch
      exact differs ⟨j, below, here, mismatch⟩

end Settled

/-- Every candidate of a bucket is decided at some point of the loop. -/
theorem exists_decision {pass : MatchVars → List UInt16 → MatchVars × Decision}
    {names : List (List UInt16)} {name : List UInt16} (listed : name ∈ names) :
    ∀ vars, ∃ before, (pass before name).2 ∈ decisions pass vars names := by
  -- The passes over the names before it only change the variables.
  induction names with
  | nil => exact absurd listed List.not_mem_nil
  | cons first rest ih =>
    intro vars
    rcases List.mem_cons.mp listed with rfl | later
    · exact ⟨vars, List.mem_cons_self⟩
    · obtain ⟨before, decided⟩ := ih later (pass vars first).1
      exact ⟨before, List.mem_cons_of_mem _ decided⟩

/-- Every decision of a bucket is about one of its candidates. -/
theorem decision_of_mem {pass : MatchVars → List UInt16 → MatchVars × Decision}
    {names : List (List UInt16)} {decision : Decision} :
    ∀ {vars}, decision ∈ decisions pass vars names →
      ∃ name ∈ names, ∃ before, decision = (pass before name).2 := by
  -- A decision belongs to the first name or to one of the others.
  induction names with
  | nil =>
    intro vars decided
    exact absurd decided List.not_mem_nil
  | cons first rest ih =>
    intro vars decided
    rcases List.mem_cons.mp decided with here | later
    · exact ⟨first, List.mem_cons_self, vars, here⟩
    · obtain ⟨name, listed, before, same⟩ := ih later
      exact ⟨name, List.mem_cons_of_mem _ listed, before, same⟩

/--
A run over a bucket decides each candidate as if it were alone.

Either every candidate is compared, or none is and the flag is never cleared.
-/
theorem accepted_eq_alone {pText : Nat → UInt16} {nLen : Nat} (length : List UInt16 → Nat)
    {names : List (List UInt16)}
    (verdict : ∀ name ∈ names, ∀ stale other,
      agreesUpTo pText (u16cpy stale name) nLen (length name) ↔
        agreesUpTo pText (u16cpy other name) nLen (length name))
    (uniform : (∀ name ∈ names, checkCompletHangul pText nLen ≠ 0 ∨ length name > 2) ∨
      checkCompletHangul pText nLen = 0 ∧ ∀ name ∈ names, length name ≤ 2)
    (stale other : Nat → UInt16) :
    accepted (passOver pText (checkCompletHangul pText nLen) length) stale names =
      acceptedAlone (passOver pText (checkCompletHangul pText nLen) length) other names := by
  -- The run carries a set flag as long as no candidate is compared.
  have general : ∀ (rest : List (List UInt16)) (vars : MatchVars),
      (∀ name ∈ rest, name ∈ names) →
      (vars.bAddData = true ∨
        ∀ name ∈ names, checkCompletHangul pText nLen ≠ 0 ∨ length name > 2) →
      (decisions (passOver pText (checkCompletHangul pText nLen) length) vars rest).map
        Decision.bAddData =
          acceptedAlone (passOver pText (checkCompletHangul pText nLen) length) other rest := by
    intro rest
    induction rest with
    | nil =>
      intro vars _ _
      rfl
    | cons name rest ih =>
      intro vars listed flag
      have member : name ∈ names := listed name List.mem_cons_self
      have fresh : vars.bAddData = true ∨
          checkCompletHangul pText nLen ≠ 0 ∨ length name > 2 := by
        rcases flag with set | all
        · exact Or.inl set
        · exact Or.inr (all name member)
      have here := matchPass_accepts pText nLen (length name) name fresh
      have alone := matchPass_accepts pText nLen (length name)
        name (Or.inl (show (matchStart other).bAddData = true from rfl))
      have same : (passOver pText (checkCompletHangul pText nLen) length vars name).2.bAddData =
          (passOver pText (checkCompletHangul pText nLen) length (matchStart other)
            name).2.bAddData := by
        rw [Bool.eq_iff_iff]
        exact here.trans ((verdict name member _ _).trans alone.symm)
      have next := ih (passOver pText (checkCompletHangul pText nLen) length vars name).1
        (fun name later => listed name (List.mem_cons_of_mem _ later)) (by
          rcases uniform with all | ⟨empty, short⟩
          · exact Or.inr all
          · rcases flag with set | all
            · left
              have low := short name member
              rw [passOver, matchPass, if_neg (by omega)]
              exact set
            · exact Or.inr all)
      rw [decisions, acceptedAlone, List.map_cons, List.map_cons, same, next]
      rfl
  exact general names (matchStart stale) (fun _ listed => listed) (Or.inl rfl)

/-- With an empty mask, a settled name is short exactly when the query is. -/
theorem short_iff_of_settled {pText : Nat → UInt16} {nLen : Nat} {name : List UInt16}
    (empty : checkCompletHangul pText nLen = 0)
    (settled : Differs pText nLen name ∨ TailSilent pText nLen name) :
    name.length ≤ 2 ↔ nLen ≤ 2 := by
  have third : compared pText nLen 2 := Or.inl (Nat.le_refl 2)
  constructor
  · intro short
    by_contra long
    -- The third character of the query is a consonant the short name cannot match.
    rcases settled with ⟨j, common, here, _⟩ | silent
    · exact not_compared_of_mask empty (by omega) here
    · rcases silent 2 (by omega) (by omega) with not | ⟨_, inQuery, terminator⟩
      · exact not third
      · exact third_of_mask empty inQuery terminator
  · intro short
    by_contra long
    rcases settled with ⟨j, common, here, _⟩ | silent
    · exact not_compared_of_mask empty (by omega) here
    · rcases silent 2 (by omega) (by omega) with not | ⟨_, inQuery, _⟩
      · exact not third
      · omega

section Buckets

variable {pText : Nat → UInt16} {nLen : Nat} {names : List (List UInt16)}

/-- Alone, the matcher of dongs and that of POIs decide alike if their verdicts are the same. -/
theorem acceptedAlone_eq_iff (plain : ∀ name ∈ names, ∀ ch ∈ name, ch ≠ 0)
    (stale : Nat → UInt16) :
    acceptedAlone (dongPass pText (checkCompletHangul pText nLen)) stale names =
        acceptedAlone (poiPass pText nLen (checkCompletHangul pText nLen)) stale names ↔
      ∀ name ∈ names, (agreesUpTo pText (u16cpy stale name) nLen nLen ↔
        agreesUpTo pText (fun j => name.getD j 0) nLen name.length) := by
  unfold acceptedAlone
  rw [List.map_inj_left]
  refine forall₂_congr fun name listed => ?_
  -- Each matcher compares the copied name over a length of its own.
  have dong := matchPass_accepts pText nLen name.length
    name (Or.inl (show (matchStart stale).bAddData = true from rfl))
  have poi := matchPass_accepts pText nLen nLen
    name (Or.inl (show (matchStart stale).bAddData = true from rfl))
  rw [agreesUpTo_u16cpy _ (plain name listed) (by omega)] at dong
  rw [Bool.eq_iff_iff]
  constructor
  · intro same
    exact poi.symm.trans (same.symm.trans dong)
  · intro same
    exact dong.trans (same.symm.trans poi.symm)

/-- The matcher of dongs reads the query inside if the verdicts on all names are the same. -/
theorem dongPass_readsInside (plain : ∀ name ∈ names, ∀ ch ∈ name, ch ≠ 0)
    (verdicts : ∀ name ∈ names, SameVerdicts pText nLen name) (stale : Nat → UInt16) :
    ReadsInside (dongPass pText (checkCompletHangul pText nLen)) nLen stale names := by
  intro decision decided read isRead
  obtain ⟨name, listed, before, rfl⟩ := decision_of_mem decided
  obtain ⟨below, here, reached⟩ :=
    (matchPass_reads pText nLen name.length before name read).mp isRead
  rw [agreesUpTo_u16cpy _ (plain name listed) (by omega)] at reached
  exact (verdicts name listed).inside read below here reached

/-- The matcher of POIs always does. -/
theorem poiPass_readsInside (stale : Nat → UInt16) :
    ReadsInside (poiPass pText nLen (checkCompletHangul pText nLen)) nLen stale names := by
  intro decision decided read isRead
  obtain ⟨name, _, before, rfl⟩ := decision_of_mem decided
  exact ((matchPass_reads pText nLen nLen before name read).mp isRead).1

/-- The matcher of dongs compares all names of a bucket, or none of them. -/
theorem dongPass_uniform
    (settled : ∀ name ∈ names, Differs pText nLen name ∨ TailSilent pText nLen name) :
    (∀ name ∈ names, checkCompletHangul pText nLen ≠ 0 ∨ name.length > 2) ∨
      checkCompletHangul pText nLen = 0 ∧ ∀ name ∈ names, name.length ≤ 2 := by
  by_cases empty : checkCompletHangul pText nLen = 0
  · rcases Nat.lt_or_ge 2 nLen with long | short
    · left
      intro name listed
      have := short_iff_of_settled empty (settled name listed)
      omega
    · right
      refine ⟨empty, fun name listed => ?_⟩
      exact (short_iff_of_settled empty (settled name listed)).mpr short
  · exact Or.inl fun _ _ => Or.inl empty

/-- So does the matcher of POIs, which looks at the length of the query. -/
theorem poiPass_uniform (pText : Nat → UInt16) (nLen : Nat) (names : List (List UInt16)) :
    (∀ name ∈ names, checkCompletHangul pText nLen ≠ 0 ∨ nLen > 2) ∨
      checkCompletHangul pText nLen = 0 ∧ ∀ name ∈ names, nLen ≤ 2 := by
  by_cases compares : checkCompletHangul pText nLen ≠ 0 ∨ nLen > 2
  · exact Or.inl fun _ _ => compares
  · exact Or.inr ⟨by omega, fun _ _ => by omega⟩

end Buckets

/--
The three matchers agree on a bucket exactly when every name of it is settled.

A name is settled when it differs from the query in a position both have and compare,
or when nothing but the name's terminator is compared where one of them is over.
-/
theorem matchersAgree_iff (pText : Nat → UInt16) (nLen : Nat) (names : List (List UInt16))
    (plain : ∀ name ∈ names, ∀ ch ∈ name, ch ≠ 0) :
    MatchersAgree pText nLen names ↔
      ∀ name ∈ names, Differs pText nLen name ∨ TailSilent pText nLen name := by
  constructor
  · intro agree name listed
    rw [settled_iff (plain name listed)]
    constructor
    · intro stale
      -- Alone, the matcher of dongs and that of POIs decide the name in the same way.
      obtain ⟨across, _, alone, _⟩ := agree stale stale
      exact (acceptedAlone_eq_iff plain stale).mp (alone.symm.trans across) name listed
    · intro j below here reached
      obtain ⟨_, _, _, _, _, inside, _⟩ := agree (fun _ => 0) (fun _ => 0)
      obtain ⟨before, decided⟩ := exists_decision listed (matchStart fun _ => 0)
      refine inside _ decided j ?_
      refine (matchPass_reads pText nLen name.length before name j).mpr ?_
      refine ⟨below, here, ?_⟩
      rw [agreesUpTo_u16cpy _ (plain name listed) (by omega)]
      exact reached
  · intro settled
    have verdicts : ∀ name ∈ names, SameVerdicts pText nLen name :=
      fun name listed => (settled_iff (plain name listed)).mp (settled name listed)
    -- The verdict over the name's own length never depends on the stale buffer.
    have dongVerdict : ∀ name ∈ names, ∀ stale other,
        agreesUpTo pText (u16cpy stale name) nLen name.length ↔
          agreesUpTo pText (u16cpy other name) nLen name.length := by
      intro name listed stale other
      rw [agreesUpTo_u16cpy _ (plain name listed) (by omega),
        agreesUpTo_u16cpy _ (plain name listed) (by omega)]
    have poiVerdict : ∀ name ∈ names, ∀ stale other,
        agreesUpTo pText (u16cpy stale name) nLen nLen ↔
          agreesUpTo pText (u16cpy other name) nLen nLen := by
      intro name listed stale other
      have verdict := (verdicts name listed).accepted
      exact (verdict stale).trans (verdict other).symm
    intro stale other
    have dongAlone :=
      accepted_eq_alone List.length dongVerdict (dongPass_uniform settled) stale other
    have poiAlone :=
      accepted_eq_alone (fun _ => nLen) poiVerdict (poiPass_uniform pText nLen names) stale other
    have across := (acceptedAlone_eq_iff plain other).mpr
      fun name listed => (verdicts name listed).accepted other
    have dongReads := dongPass_readsInside plain verdicts stale
    exact ⟨dongAlone.trans across, dongAlone.trans across, dongAlone, dongAlone, poiAlone,
      dongReads, dongReads, poiPass_readsInside stale⟩

/-- A query of two syllables and the same two syllables as a name. -/
theorem matchersAgree_iff_same :
    (∀ name ∈ [[(0xAC00 : UInt16), 0xB098]], ∀ ch ∈ name, ch ≠ 0) ∧
      MatchersAgree ([0xAC00, 0xB098].getD · 0) 2 [[0xAC00, 0xB098]] := by
  -- The name is not longer than the query, so that nothing is compared behind it.
  have plain : ∀ name ∈ [[(0xAC00 : UInt16), 0xB098]], ∀ ch ∈ name, ch ≠ 0 := by simp
  refine ⟨plain, (matchersAgree_iff _ _ _ plain).mpr ?_⟩
  intro name listed
  rw [List.mem_singleton] at listed
  subst listed
  right
  intro j low high
  simp only [List.length_cons, List.length_nil] at low high
  omega

/-- A dong named by the first two syllables of a query of three is accepted, unlike such a POI. -/
theorem dong_prefix_accepted :
    ¬ MatchersAgree ([0xAC00, 0xB098, 0xB2E4].getD · 0) 3 [[0xAC00, 0xB098]] := by
  intro agree
  have across := (agree (fun _ => 0) (fun _ => 0)).1
  exact absurd across (by decide)

end AndroidApps.Gildroia
