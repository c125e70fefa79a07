import AndroidApps.Lib.Ends
import AndroidApps.Lib.JavaText

/-! Pieces, trimmed texts and decimal numbers: what is left of a text that was cut or has grown. -/

namespace AndroidApps.JString

section Pieces

variable {separator : UInt16} {before after : JString}

/-- The first piece of a text ends before its first separator. -/
theorem splitOn_head (separator : UInt16) (text : JString) :
    (text.splitOn separator)[0]? = some (text.takeWhile (· != separator)) := by
  -- A unit that is no separator goes in front of the first piece of the rest.
  induction text with
  | nil => rfl
  | cons unit text ih =>
    rw [List.splitOn_cons_eq_if_modifyHead, List.takeWhile_cons]
    by_cases here : unit = separator
    · simp [here]
    · have passes : (unit == separator) = false := by simpa using here
      simp only [passes, Bool.false_eq_true, if_false, bne, Bool.not_false, if_true]
      cases pieces : text.splitOn separator with
      | nil => exact absurd pieces (List.splitOn_ne_nil separator text)
      | cons piece pieces' =>
        rw [pieces] at ih
        cases ih
        rfl

/-- Every piece but the first one stands behind a separator. -/
theorem intercalate_cons (separator : UInt16) (first : JString) (others : List JString) :
    [separator].intercalate (first :: others) = first ++ others.flatMap (separator :: ·) := by
  induction others generalizing first with
  | nil => simp
  | cons second others ih =>
    rw [List.intercalate_cons_cons, ih, List.flatMap_cons]
    simp

/-- A text without the separator is its only piece. -/
theorem split_of_not_mem {text : JString} (absent : separator ∉ text) :
    split separator text = [text] := if_neg absent

/-- The pieces of a text around its first separator. -/
theorem splitOn_first (plain : separator ∉ before) (after : JString) :
    (before ++ separator :: after).splitOn separator = before :: after.splitOn separator := by
  refine List.splitOnP_append_cons_of_forall_mem ?_ separator (by simp) after
  intro unit member
  simpa using fun same : unit = separator => plain (same ▸ member)

/-- A piece that `split` keeps is one of the text. -/
theorem split_getElem? {text : JString} {index : Nat} {piece : JString}
    (present : separator ∈ text) (kept : (split separator text)[index]? = some piece) :
    (text.splitOn separator)[index]? = some piece := by
  rw [split, if_pos present] at kept
  exact (List.prefix_iff_getElem?.mp (List.rdropWhile_prefix _ _) index
    (List.getElem?_eq_some_iff.mp kept).1).trans
      (by rw [← List.getElem?_eq_getElem, kept])

/-- The second piece of a text. -/
theorem split_second (plain : separator ∉ before) {piece : JString}
    (kept : (split separator (before ++ separator :: after))[1]? = some piece) :
    piece = after.takeWhile (· != separator) := by
  have listed := split_getElem? (List.mem_append_right before List.mem_cons_self) kept
  rw [splitOn_first plain, List.getElem?_cons_succ, splitOn_head] at listed
  exact (Option.some.inj listed).symm

/-- A text with one separator and something behind it has two pieces. -/
theorem split_two (plain : separator ∉ before) (plainAfter : separator ∉ after)
    (filled : after ≠ []) :
    split separator (before ++ separator :: after) = [before, after] := by
  have single : after.splitOn separator = [after] := by
    refine List.splitOnP_eq_singleton fun unit member => ?_
    simpa using fun same : unit = separator => plainAfter (same ▸ member)
  rw [split, if_pos (by simp), splitOn_first plain, single]
  exact List.rdropWhile_concat_neg List.isEmpty [before] after (by simpa using filled)

/-- Pieces without a separator are cut apart again, if something is in the last one. -/
theorem split_intercalate {pieces : List JString} {last : JString} (several : pieces ≠ [])
    (plain : ∀ piece ∈ pieces ++ [last], separator ∉ piece) (filled : last ≠ []) :
    split separator ([separator].intercalate (pieces ++ [last])) = pieces ++ [last] := by
  have cut := List.splitOn_intercalate separator plain (by simp)
  have present : separator ∈ [separator].intercalate (pieces ++ [last]) := by
    by_contra absent
    -- Without a separator, there would be one piece.
    rw [List.splitOn_eq_singleton absent] at cut
    have length := congrArg List.length cut
    have some := List.length_pos_iff.mpr several
    simp only [List.length_singleton, List.length_append] at length
    omega
  rw [split, if_pos present, cut]
  exact List.rdropWhile_concat_neg List.isEmpty pieces last (by simpa using filled)

end Pieces

section Replacing

variable {separator : UInt16} {glue : JString}

/-- A text with other units for a separator. -/
def replaced (separator : UInt16) (glue : JString) (text : JString) : JString :=
  text.flatMap fun unit => if unit = separator then glue else [unit]

/-- A text without the separator is as it was. -/
theorem replaced_of_not_mem {text : JString} (absent : separator ∉ text) :
    replaced separator glue text = text := by
  have kept : ∀ unit ∈ text, (if unit = separator then glue else [unit]) = [unit] := by
    intro unit member
    exact if_neg (ne_of_mem_of_not_mem member absent)
  rw [replaced, List.flatMap_congr kept]
  exact List.flatMap_singleton' text

/-- Nothing is left only of nothing. -/
theorem replaced_eq_nil (filled : glue ≠ []) {text : JString} :
    replaced separator glue text = [] ↔ text = [] := by
  -- Every unit leaves something behind.
  cases text with
  | nil => exact Iff.rfl
  | cons unit text =>
    have some : (if unit = separator then glue else [unit]) ≠ [] := by
      split
      · exact filled
      · exact List.cons_ne_nil unit []
    simp [replaced, some]

/-- Pieces that are put together again have new separators, but none behind the last of them. -/
theorem splitOn_replaced (filled : glue ≠ []) {text piece : JString} {pieces : List JString}
    (cut : text.splitOn separator = piece :: pieces) :
    piece ++ (pieces.rdropWhile List.isEmpty).flatMap (glue ++ ·) =
      replaced separator glue (text.rdropWhile (· == separator)) := by
  -- The first unit belongs to the first piece, or is a separator that is kept if anything is.
  induction text generalizing piece pieces with
  | nil =>
    cases cut
    rfl
  | cons unit text ih =>
    rw [List.splitOn_cons_eq_if_modifyHead] at cut
    rw [Ends.rdropWhile_cons]
    cases behind : text.splitOn separator with
    | nil => exact absurd behind (List.splitOn_ne_nil separator text)
    | cons next others =>
      have rest := ih behind
      rw [behind] at cut
      by_cases here : unit = separator
      · rw [if_pos (by simpa using here)] at cut
        cases cut
        rw [List.nil_append, Ends.rdropWhile_cons]
        -- Nothing is left behind this separator exactly if the pieces there are empty.
        by_cases gone : others.rdropWhile List.isEmpty = [] ∧ next.isEmpty
        · have nothing : text.rdropWhile (· == separator) = [] := by
            rw [gone.1, List.isEmpty_iff.mp gone.2] at rest
            exact (replaced_eq_nil filled).mp rest.symm
          rw [if_pos gone, if_pos ⟨nothing, by simpa using here⟩]
          rfl
        · have something : text.rdropWhile (· == separator) ≠ [] := by
            intro nothing
            rw [nothing, replaced, List.flatMap_nil, List.append_eq_nil_iff,
              List.flatMap_eq_nil_iff] at rest
            refine gone ⟨List.eq_nil_iff_forall_not_mem.mpr fun left listed => ?_, by simp [rest.1]⟩
            exact filled (List.append_eq_nil_iff.mp (rest.2 left listed)).1
          rw [if_neg gone, if_neg fun both => something both.1, List.flatMap_cons,
            List.append_assoc, rest, replaced, replaced, List.flatMap_cons, if_pos here]
      · rw [if_neg (by simpa using here)] at cut
        cases cut
        rw [if_neg fun both => here (by simpa using both.2), replaced, List.flatMap_cons,
          if_neg here, ← replaced, ← rest]
        rfl

/-- A text of more than separators is cut and put together again in the same way. -/
theorem split_replaced (filled : glue ≠ []) {text : JString} {unit : UInt16} (member : unit ∈ text)
    (other : unit ≠ separator) :
    ∃ first rest, split separator text = first :: rest ∧
      first ++ rest.flatMap (glue ++ ·) =
        replaced separator glue (text.rdropWhile (· == separator)) := by
  cases cut : text.splitOn separator with
  | nil => exact absurd cut (List.splitOn_ne_nil separator text)
  | cons piece pieces =>
    have joined := splitOn_replaced filled cut
    by_cases present : separator ∈ text
    · rw [split, if_pos present, cut, Ends.rdropWhile_cons, if_neg]
      · exact ⟨piece, _, rfl, joined⟩
      · -- If all pieces were empty, there would be nothing but separators.
        intro ⟨gone, empty⟩
        rw [gone, List.isEmpty_iff.mp empty] at joined
        have nothing := (replaced_eq_nil filled).mp joined.symm
        have same := List.rdropWhile_eq_nil_iff.mp nothing unit member
        exact other (by simpa using same)
    · rw [List.splitOn_eq_singleton present] at cut
      cases cut
      exact ⟨text, [], split_of_not_mem present, joined⟩

end Replacing

section Separators

variable {separator : JString}

/-- The units of a separator are passed over. -/
theorem cutAt_drop (separator : JString) (passed : Nat) : ∀ text : JString,
    passed ≤ text.length → cutAt separator passed text = cutAt separator 0 (text.drop passed) := by
  -- Each unit that is still to be passed is dropped in one step.
  induction passed with
  | zero => intro text _; rfl
  | succ passed ih =>
    intro text enough
    cases text with
    | nil => simp at enough
    | cons unit rest =>
      rw [cutAt, List.drop_succ_cons]
      exact ih rest (by simpa using enough)

/-- A separator at the start of a text ends an empty piece. -/
theorem cutAt_separator (filled : separator ≠ []) (rest : JString) :
    cutAt separator 0 (separator ++ rest) = [] :: cutAt separator 0 rest := by
  -- The separator is recognised by its first unit, and its other units are passed over.
  obtain ⟨unit, others, rfl⟩ := List.exists_cons_of_ne_nil filled
  have begins : (unit :: others).isPrefixOf (unit :: (others ++ rest)) = true := by
    rw [List.isPrefixOf_iff_prefix, ← List.cons_append]
    exact List.prefix_append _ _
  rw [List.cons_append, cutAt, if_pos begins, cutAt_drop _ _ _ (by simp)]
  simp

/-- A text is its pieces with the separator between them. -/
theorem cutAt_join (filled : separator ≠ []) (text : JString) :
    ∃ piece pieces, cutAt separator 0 text = piece :: pieces ∧
      text = piece ++ pieces.flatMap (separator ++ ·) := by
  -- Behind a separator the text that is left may be much shorter, so the induction is on lengths.
  induction size : text.length using Nat.strongRecOn generalizing text with
  | ind size ih =>
    subst size
    cases text with
    | nil => exact ⟨[], [], rfl, rfl⟩
    | cons unit rest =>
      by_cases begins : separator.isPrefixOf (unit :: rest) = true
      · obtain ⟨behind, whole⟩ := List.isPrefixOf_iff_prefix.mp begins
        have shorter : behind.length < (unit :: rest).length := by
          have some := List.length_pos_iff.mpr filled
          rw [← whole, List.length_append]
          omega
        obtain ⟨piece, pieces, cut, same⟩ := ih _ shorter behind rfl
        refine ⟨[], piece :: pieces, ?_, ?_⟩
        · rw [← whole, cutAt_separator filled, cut]
        · rw [← whole, List.nil_append, List.flatMap_cons, List.append_assoc, ← same]
      · obtain ⟨piece, pieces, cut, same⟩ := ih _ (by simp) rest rfl
        refine ⟨unit :: piece, pieces, ?_, ?_⟩
        · rw [cutAt, if_neg begins, cut]
        · rw [List.cons_append, ← same]

/-- Separators alone have empty pieces. -/
theorem cutAt_replicate (filled : separator ≠ []) (count : Nat) :
    cutAt separator 0 (List.replicate count separator).flatten = List.replicate (count + 1) [] := by
  induction count with
  | zero => rfl
  | succ count ih =>
    rw [List.replicate_succ, List.flatten_cons, cutAt_separator filled, ih,
      List.replicate_succ (n := count + 1)]

/-- `split` has no piece for separators alone, and for nothing else. -/
theorem splitText_eq_nil (filled : separator ≠ []) (text : JString) :
    splitText separator text = [] ↔
      ∃ count, text = (List.replicate (count + 1) separator).flatten := by
  constructor
  · intro none
    obtain ⟨piece, pieces, cut, same⟩ := cutAt_join filled text
    rw [splitText, cut] at none
    cases pieces with
    | nil => simp at none
    | cons second others =>
      -- All pieces are removed from the end, so that each of them is empty.
      have empty : ∀ other ∈ piece :: second :: others, List.isEmpty other = true :=
        List.rdropWhile_eq_nil_iff.mp none
      refine ⟨others.length, ?_⟩
      obtain ⟨first, rest⟩ := List.forall_mem_cons.mp empty
      rw [same, List.isEmpty_iff.mp first, List.nil_append]
      have all : second :: others = List.replicate (others.length + 1) [] :=
        List.eq_replicate_iff.mpr ⟨rfl, fun piece member => List.isEmpty_iff.mp (rest piece member)⟩
      rw [all, List.flatMap_replicate, List.append_nil]
  · rintro ⟨count, rfl⟩
    rw [splitText, cutAt_replicate filled]
    refine List.rdropWhile_eq_nil_iff.mpr fun piece member => ?_
    rcases List.mem_cons.mp member with rfl | later
    · rfl
    · exact List.isEmpty_iff.mpr (List.eq_of_mem_replicate later)

end Separators

section Parts

/-- `contains` looks for a part. -/
theorem contains_iff {text piece : JString} : contains text piece = true ↔ piece <:+: text := by
  -- A part stands at the start of what is behind some place.
  rw [contains, List.any_eq_true, List.infix_iff_prefix_suffix]
  constructor
  · rintro ⟨rest, member, begins⟩
    exact ⟨rest, List.isPrefixOf_iff_prefix.mp begins, (List.mem_tails _ _).mp member⟩
  · rintro ⟨rest, begins, ends⟩
    exact ⟨rest, (List.mem_tails _ _).mpr ends, List.isPrefixOf_iff_prefix.mpr begins⟩

end Parts

section Places

variable {text front middle back piece : JString} {start first last : Int} {place : Nat}

/-- A part is looked for in what stands behind a place. -/
theorem indexOfFrom_some (put : text = front ++ back) (here : start = front.length)
    (found : indexOfPart piece back = some place) :
    indexOfFrom text piece start = ((front.length + place : Nat) : Int) := by
  subst put here
  simp [indexOfFrom, found]

/-- A part that does not stand behind a place is not found from there. -/
theorem indexOfFrom_none (put : text = front ++ back) (here : start = front.length)
    (missing : indexOfPart piece back = none) : indexOfFrom text piece start = -1 := by
  subst put here
  simp [indexOfFrom, missing]

/-- From the start on, a part is looked for in all of a text. -/
theorem indexOf_eq (text piece : JString) :
    indexOf text piece = (indexOfPart piece text).elim (-1) fun place => (place : Int) := by
  -- Nothing stands in front of the start.
  have whole : text = [] ++ text := rfl
  cases found : indexOfPart piece text with
  | none => exact indexOfFrom_none whole rfl found
  | some place =>
    have here : indexOf text piece = (([].length + place : Nat) : Int) :=
      indexOfFrom_some whole rfl found
    simpa using here

/-- A text between two others is cut out at its ends. -/
theorem substring_middle (put : text = front ++ (middle ++ back)) (begins : first = front.length)
    (ends : last = ((front.length + middle.length : Nat) : Int)) :
    substring text first last = some middle := by
  -- The places are the lengths of what stands in front of them.
  subst put begins ends
  have inside : (0 : Int) ≤ front.length ∧
      (front.length : Int) ≤ ((front.length + middle.length : Nat) : Int) ∧
      ((front.length + middle.length : Nat) : Int) ≤ (front ++ (middle ++ back)).length := by
    simp only [List.length_append]
    omega
  rw [substring, if_pos inside, Int.toNat_natCast, Int.toNat_natCast, ← List.append_assoc,
    ← List.length_append, List.take_left, List.drop_left]

/-- One unit further on, the same text is cut out behind one more unit. -/
theorem substring_cons (unit : UInt16) (text : JString) (first last : Nat) :
    substring (unit :: text) (first + 1 : Nat) (last + 1 : Nat) = substring text first last := by
  have same : ((0 : Int) ≤ (first + 1 : Nat) ∧ ((first + 1 : Nat) : Int) ≤ (last + 1 : Nat) ∧
      ((last + 1 : Nat) : Int) ≤ (unit :: text).length) ↔
      ((0 : Int) ≤ first ∧ (first : Int) ≤ last ∧ (last : Int) ≤ text.length) := by
    simp only [List.length_cons]
    omega
  rw [substring, substring]
  simp only [same, Int.toNat_natCast, List.take_succ_cons, List.drop_succ_cons]

end Places

section Trimming

variable {text rest : JString} {last : UInt16}

/-- `trim` only removes. -/
theorem trim_subset (text : JString) : trim text ⊆ text := by
  intro unit member
  rw [trim, List.mem_reverse] at member
  exact (List.dropWhile_sublist _).mem (List.mem_reverse.mp ((List.dropWhile_sublist _).mem member))

/-- A scan for the first unit that is not blank does not pass any. -/
theorem mem_dropWhile_isBlank {unit : UInt16} (member : unit ∈ text)
    (visible : isBlank unit = false) :
    unit ∈ text.dropWhile isBlank := by
  rw [← List.takeWhile_append_dropWhile (p := isBlank) (l := text), List.mem_append] at member
  rcases member with removed | left
  · rw [List.mem_takeWhile_imp removed] at visible
    cases visible
  · exact left

/-- A unit that is not blank is not trimmed. -/
theorem mem_trim {unit : UInt16} (member : unit ∈ text) (visible : isBlank unit = false) :
    unit ∈ trim text := by
  rw [trim, List.mem_reverse]
  exact mem_dropWhile_isBlank (List.mem_reverse.mpr (mem_dropWhile_isBlank member visible)) visible

/-- A text is trimmed to at most what follows its first blanks. -/
theorem trim_length_le (text : JString) : (trim text).length ≤ (text.dropWhile isBlank).length := by
  calc (trim text).length = ((text.dropWhile isBlank).reverse.dropWhile isBlank).length :=
        List.length_reverse
    _ ≤ (text.dropWhile isBlank).reverse.length := (List.dropWhile_sublist _).length_le
    _ = (text.dropWhile isBlank).length := List.length_reverse

/-- A text that goes on behind a unit that is not blank is trimmed behind it. -/
theorem trim_length_ge (text rest : JString) (visible : isBlank last = false) :
    (text.dropWhile isBlank).length + 1 ≤ (trim (text ++ last :: rest)).length := by
  have stops (others : JString) : (last :: others).dropWhile isBlank = last :: others :=
    List.dropWhile_cons_of_neg (by simp [visible])
  -- The first blanks are those of the text, if there is anything else in it.
  have front : (text ++ last :: rest).dropWhile isBlank =
      text.dropWhile isBlank ++ last :: rest := by
    rw [List.dropWhile_append, stops]
    split
    · rename_i empty
      rw [List.isEmpty_iff.mp empty, List.nil_append]
    · rfl
  -- The last ones are among those behind the unit.
  rw [trim, front, List.length_reverse, List.reverse_append, List.reverse_cons, List.append_assoc,
    List.dropWhile_append, List.singleton_append, stops]
  split
  · simp
  · simp

/-- A longer text does not follow its first blanks with less. -/
theorem dropWhile_isBlank_length (text rest : JString) :
    (text.dropWhile isBlank).length ≤ ((text ++ rest).dropWhile isBlank).length := by
  -- Either the first text is all blank, or the blanks end inside it.
  rw [List.dropWhile_append]
  split
  · rename_i empty
    rw [List.isEmpty_iff.mp empty]
    exact Nat.zero_le _
  · rw [List.length_append]
    exact Nat.le_add_right _ _

/-- A text that goes on behind another one, to a unit that is not blank, is trimmed otherwise. -/
theorem trim_ne_of_longer (text middle rest : JString) (visible : isBlank last = false) :
    trim text ≠ trim (text ++ middle ++ last :: rest) := by
  -- The trimmed texts differ in length, for the visible unit is kept.
  intro same
  have short := trim_length_le text
  have between := dropWhile_isBlank_length text middle
  have long := trim_length_ge (text ++ middle) rest visible
  rw [← same] at long
  omega

/-- Blanks in front of a text are trimmed as well. -/
theorem trim_blanks {blanks : JString} (all : ∀ unit ∈ blanks, isBlank unit = true)
    (text : JString) : trim (blanks ++ text) = trim text := by
  rw [trim, trim, List.dropWhile_append_of_pos all]

/-- A text that ends visibly loses the blanks in front of its first part. -/
theorem trim_visible {first last : UInt16} (front middle : JString)
    (begins : isBlank first = false) (ends : isBlank last = false) :
    trim (front ++ first :: (middle ++ [last])) =
      front.dropWhile isBlank ++ first :: (middle ++ [last]) := by
  -- The last unit stops the trimming from behind.
  have left : (front ++ first :: (middle ++ [last])).dropWhile isBlank =
      front.dropWhile isBlank ++ first :: (middle ++ [last]) := by
    rw [List.dropWhile_append]
    split
    next empty =>
      rw [List.isEmpty_iff.mp empty, List.dropWhile_cons_of_neg (by simp [begins]), List.nil_append]
    next => rfl
  have right : (front.dropWhile isBlank ++ first :: (middle ++ [last])).reverse =
      last :: (front.dropWhile isBlank ++ first :: middle).reverse := by simp
  rw [trim, left, right, List.dropWhile_cons_of_neg (by simp [ends])]
  simp

/-- Blanks behind a text are trimmed as well. -/
theorem trim_append_blanks {blanks : JString} (all : ∀ unit ∈ blanks, isBlank unit = true)
    (text : JString) : trim (text ++ blanks) = trim text := by
  -- The blanks are dropped with the front if nothing else is left, and from behind otherwise.
  have front : (text ++ blanks).dropWhile isBlank = text.dropWhile isBlank ++
      if text.dropWhile isBlank = [] then [] else blanks := by
    rw [List.dropWhile_append]
    split
    next empty =>
      have none := List.isEmpty_iff.mp empty
      rw [none, if_pos rfl, List.dropWhile_eq_nil_iff.mpr all, List.nil_append]
    next filled => rw [if_neg (by simpa using filled)]
  have none : ∀ unit ∈ (if text.dropWhile isBlank = [] then [] else blanks),
      isBlank unit = true := by
    split
    · simp
    · exact all
  rw [trim, front, trim]
  exact Ends.rdropWhile_append_of_all none

/-- A text that begins visibly is trimmed at its end. -/
theorem trim_of_visible {first : UInt16} (visible : isBlank first = false) (rest : JString) :
    trim (first :: rest) = (first :: rest).rdropWhile isBlank := by
  rw [trim, List.dropWhile_cons_of_neg (by simp [visible]), List.rdropWhile]

/-- Trimming the end first changes nothing. -/
theorem trim_rdropWhile (text : JString) : trim (text.rdropWhile isBlank) = trim text := by
  have parts := List.rdropWhile_append_rtakeWhile (p := isBlank) (l := text)
  conv_rhs => rw [← parts]
  exact (trim_append_blanks (fun unit member => List.mem_rtakeWhile_imp member) _).symm

/-- Only the text behind a word and a separator is trimmed. -/
theorem trim_word {separator first : UInt16} (word text : JString)
    (visible : isBlank first = false) (shown : isBlank separator = false) :
    trim (first :: word ++ separator :: text) =
      first :: word ++ separator :: text.rdropWhile isBlank := by
  -- The trimming from behind comes at most to the separator.
  rw [List.cons_append, trim_of_visible visible, ← List.cons_append]
  have start : first :: word ++ separator :: text = first :: word ++ [separator] ++ text := by simp
  by_cases blank : ∀ unit ∈ text, isBlank unit = true
  · have none := List.rdropWhile_eq_nil_iff.mpr blank
    rw [start, Ends.rdropWhile_append_of_all blank, none,
      List.rdropWhile_concat_neg _ _ _ (by simp [shown])]
  · have some : ∃ unit ∈ text, isBlank unit = false := by simpa using blank
    rw [start, Ends.rdropWhile_append_of_kept some]
    simp

/-- A word, a separator and a text, trimmed and cut: without the text if nothing is in it. -/
theorem split_trim {separator first : UInt16} {word : JString} (text : JString)
    (plain : separator ∉ first :: word) (plainText : separator ∉ text)
    (visible : isBlank first = false) (shown : isBlank separator = false) :
    split separator (trim (first :: word ++ separator :: text)) =
      if text.rdropWhile isBlank = [] then [first :: word]
      else [first :: word, text.rdropWhile isBlank] := by
  -- An empty second piece is not counted.
  rw [trim_word word text visible shown]
  split
  next none =>
    rw [none, split, if_pos (by simp), splitOn_first plain]
    exact List.rdropWhile_concat_pos List.isEmpty [first :: word] [] rfl
  next some =>
    have less : separator ∉ text.rdropWhile isBlank :=
      fun member => plainText ((List.rdropWhile_prefix _ _).subset member)
    exact split_two plain less some

/-- Blanks at the end of a text do not hide a word in it. -/
theorem contains_rdropWhile {piece : JString} (text : JString)
    (ends : ∀ last, piece.getLast? = some last → isBlank last = false) :
    contains (text.rdropWhile isBlank) piece = contains text piece := by
  rw [Bool.eq_iff_iff, contains_iff, contains_iff]
  constructor
  · exact fun part => part.trans (List.rdropWhile_prefix _ _).isInfix
  · exact fun part => Ends.infix_rdropWhile part ends

/-- Nothing is left of a text of blanks only. -/
theorem trim_eq_nil_iff : trim text = [] ↔ ∀ unit ∈ text, isBlank unit = true := by
  -- A visible unit would be left.
  constructor
  · intro empty unit member
    by_contra visible
    simpa [empty] using mem_trim member (Bool.eq_false_iff.mpr visible)
  · intro all
    rw [trim, List.dropWhile_eq_nil_iff.mpr all]
    rfl

end Trimming

section Numbers

variable (digits : CharacterDigit)

/-- The number that some digits stand for in a radix. -/
def magnitudeIn (radix : Nat) (digit : UInt16 → Option Nat) (text : JString) : Option Nat :=
  if text = [] then none
  else (text.mapM digit).map fun values => Nat.ofDigits radix values.reverse

/-- The number that some decimal digits stand for. -/
def magnitude (text : JString) : Option Nat := magnitudeIn 10 digits.digit text

/-- A number that fits an `int`. -/
def checked (value : Int) : Option Int :=
  if -2 ^ 31 ≤ value ∧ value < 2 ^ 31 then some value else none

/-- A number that fits is itself. -/
theorem eq_of_checked {value other : Int} (fits : checked value = some other) : value = other := by
  unfold checked at fits
  split at fits
  · exact Option.some.inj fits
  · cases fits

/-- What the readers of numbers do with a sign and the rest of a text. -/
theorem radix_signed (radix : Nat) (digit : UInt16 → Option Nat) (negative : Bool)
    (text : JString) :
    (do
      guard (text ≠ [])
      let values ← text.mapM digit
      let magnitude : Int := Nat.ofDigits (radix : Int) values.reverse
      let value := if negative then -magnitude else magnitude
      guard (-2 ^ 31 ≤ value ∧ value < 2 ^ 31)
      return value) =
      (magnitudeIn radix digit text).bind fun value =>
        checked (if negative then -(value : Int) else value) := by
  -- The checks fail one after the other in both forms: no text, a unit that is no digit, no room.
  unfold magnitudeIn checked
  by_cases empty : text = []
  · simp [empty, guard]
  · cases read : text.mapM digit with
    | none => simp [empty, guard]
    | some values =>
      have same : ((Nat.ofDigits radix values.reverse : Nat) : Int) =
          Nat.ofDigits (radix : Int) values.reverse := Nat.coe_ofDigits Int radix values.reverse
      simp only [empty, guard, same, ne_eq, not_false_eq_true, if_true, if_false,
        Option.pure_def, Option.bind_eq_bind, Option.bind_some, Option.map_some]
      generalize (if negative = true then -Nat.ofDigits (radix : Int) values.reverse
        else Nat.ofDigits (radix : Int) values.reverse) = value
      split
      · rfl
      · rfl

/-- What `parseInt` does with a sign and the rest of a text. -/
theorem parse_signed (negative : Bool) (text : JString) :
    (do
      guard (text ≠ [])
      let values ← text.mapM digits.digit
      let magnitude : Int := Nat.ofDigits 10 values.reverse
      let value := if negative then -magnitude else magnitude
      guard (-2 ^ 31 ≤ value ∧ value < 2 ^ 31)
      return value) =
      (magnitude digits text).bind fun value =>
        checked (if negative then -(value : Int) else value) :=
  radix_signed 10 digits.digit negative text

/-- A text that begins with a minus sign is the negative of its digits. -/
theorem parseInt_minus (text : JString) :
    parseInt digits.digit (0x2D :: text) =
      (magnitude digits text).bind fun value => checked (-value) :=
  parse_signed digits true text

/-- A text without a sign is its digits. -/
theorem parseInt_unsigned {text : JString} (minus : ∀ rest, text ≠ 0x2D :: rest)
    (plus : ∀ rest, text ≠ 0x2B :: rest) :
    parseInt digits.digit text = (magnitude digits text).bind fun value => checked value := by
  -- The branches for the two signs are closed, and the whole text is left to be read.
  unfold parseInt
  split
  rename_i negative rest sign
  split at sign
  · exact absurd rfl (minus _)
  · exact absurd rfl (plus _)
  · cases sign
    exact parse_signed digits false text

/-- A text without a sign is its digits in any radix. -/
theorem parseRadix_unsigned (radix : Nat) (digit : UInt16 → Option Nat) {text : JString}
    (minus : ∀ rest, text ≠ 0x2D :: rest) (plus : ∀ rest, text ≠ 0x2B :: rest) :
    parseRadix radix digit text =
      (magnitudeIn radix digit text).bind fun value => checked value := by
  -- As for decimal numbers, the branches for the two signs are closed.
  unfold parseRadix
  split
  rename_i negative rest sign
  split at sign
  · exact absurd rfl (minus _)
  · exact absurd rfl (plus _)
  · cases sign
    exact radix_signed radix digit false text

variable {digits}

theorem digitUnit_small {value : Nat} (single : value < 10) : digitUnit value < 0x80 := by
  have bound : 0x30 + value < 2 ^ 16 := by omega
  rw [UInt16.lt_iff_toNat_lt, digitUnit, UInt16.toNat_ofNat_of_lt' bound]
  exact Nat.lt_of_lt_of_le (Nat.add_lt_add_left single 0x30) (by decide)

/-- The unit of a digit has its value. -/
theorem digit_digitUnit {value : Nat} (single : value < 10) :
    digits.digit (digitUnit value) = some value := by
  -- The unit lies between those of 0 and 9, where every platform agrees.
  have bound : 0x30 + value < 2 ^ 16 := by omega
  have unit : (digitUnit value).toNat = 0x30 + value := UInt16.toNat_ofNat_of_lt' bound
  have low : 0x30 ≤ digitUnit value := by
    rw [UInt16.le_iff_toNat_le, unit]
    exact Nat.le_add_right 0x30 value
  have high : digitUnit value ≤ 0x39 := by
    rw [UInt16.le_iff_toNat_le, unit]
    exact Nat.add_le_add_left (Nat.le_of_lt_succ single) 0x30
  rw [digits.small _ (digitUnit_small single), asciiDigit, if_pos ⟨low, high⟩, unit,
    Nat.add_sub_cancel_left]

/-- The digits of a number are decimal. -/
theorem digitsOf_lt {value digit : Nat} (member : digit ∈ digitsOf value) : digit < 10 := by
  unfold digitsOf at member
  split at member
  · rw [List.mem_singleton.mp member]
    decide
  · exact Nat.digits_lt_base (by decide) (List.mem_reverse.mp member)

theorem digitsOf_ne_nil (value : Nat) : digitsOf value ≠ [] := by
  unfold digitsOf
  split
  · simp
  · rename_i positive
    simpa using Nat.digits_ne_nil_iff_ne_zero.mpr positive

/-- The digits of a number stand for it. -/
theorem ofDigits_digitsOf (value : Nat) : Nat.ofDigits 10 (digitsOf value).reverse = value := by
  unfold digitsOf
  split
  · rename_i zero
    simp [zero]
  · rw [List.reverse_reverse, Nat.ofDigits_digits]

/-- Digits are read one by one. -/
theorem mapM_digitUnit {values : List Nat} (single : ∀ value ∈ values, value < 10) :
    (values.map digitUnit).mapM digits.digit = some values := by
  -- The units are read independently of each other.
  induction values with
  | nil => rfl
  | cons value values ih =>
    obtain ⟨first, others⟩ := List.forall_mem_cons.mp single
    rw [List.map_cons, List.mapM_cons, digit_digitUnit first, ih others]
    rfl

/-- The digits of a number are read as it. -/
theorem magnitude_digitsOf (value : Nat) :
    magnitude digits ((digitsOf value).map digitUnit) = some value := by
  have some : (digitsOf value).map digitUnit ≠ [] := by simpa using digitsOf_ne_nil value
  rw [magnitude, magnitudeIn, if_neg some, mapM_digitUnit fun digit => digitsOf_lt, Option.map_some,
    ofDigits_digitsOf]

/-- Only all digits of a number are read as it. -/
theorem magnitude_cut {value : Nat} {text : JString}
    (shorter : text <+: (digitsOf value).map digitUnit)
    (same : magnitude digits text = some value) : text = (digitsOf value).map digitUnit := by
  obtain ⟨front, cut, rfl⟩ := List.prefix_map_iff.mp shorter
  obtain ⟨back, split⟩ := cut
  have single : ∀ digit ∈ front, digit < 10 := by
    intro digit member
    exact digitsOf_lt (split ▸ List.mem_append_left back member)
  unfold magnitude magnitudeIn at same
  by_cases empty : front.map digitUnit = []
  · rw [if_pos empty] at same
    cases same
  rw [if_neg empty, mapM_digitUnit single, Option.map_some, Option.some.injEq] at same
  by_cases whole : back = []
  · rw [whole, List.append_nil] at split
    rw [split]
  -- Every further digit makes the number ten times as large, which only zero can bear.
  have zero : value = 0 := by
    have all := ofDigits_digitsOf value
    rw [← split, List.reverse_append, Nat.ofDigits_append, same, List.length_reverse] at all
    obtain ⟨digit, others, rfl⟩ := List.exists_cons_of_ne_nil whole
    have tenfold : 10 * value ≤ 10 ^ (digit :: others).length * value := by
      refine Nat.mul_le_mul_right value ?_
      rw [List.length_cons, Nat.pow_succ']
      exact Nat.le_mul_of_pos_right 10 (Nat.pow_pos (by decide))
    omega
  -- The only digit of zero leaves nothing behind it.
  subst zero
  have length := congrArg List.length split
  rw [List.length_append, digitsOf, if_pos rfl, List.length_singleton] at length
  have one := List.length_pos_iff.mpr (List.map_eq_nil_iff.not.mp empty)
  have more := List.length_pos_iff.mpr whole
  omega

/-- A text with a unit that is no digit is no number. -/
theorem magnitude_letter {unit : UInt16} (letter : digits.digit unit = none)
    (before after : JString) :
    magnitude digits (before ++ unit :: after) = none := by
  have filled : before ++ unit :: after ≠ [] := by simp
  rw [magnitude, magnitudeIn, if_neg filled, List.mapM_append, List.mapM_cons, letter]
  cases before.mapM digits.digit with
  | none => rfl
  | some values => rfl

/-- No digit is a sign. -/
theorem digitUnit_ne {value : Nat} (single : value < 10) {sign : UInt16} (below : sign < 0x30) :
    digitUnit value ≠ sign := by
  intro same
  have bound : 0x30 + value < 2 ^ 16 := by omega
  have low : sign.toNat < 0x30 := UInt16.lt_iff_toNat_lt.mp below
  rw [← same, digitUnit, UInt16.toNat_ofNat_of_lt' bound] at low
  omega

/-- A text that begins with a digit has no sign before it. -/
theorem ne_sign {value : Nat} (single : value < 10) {sign : UInt16} (below : sign < 0x30)
    (text rest : JString) : digitUnit value :: text ≠ sign :: rest :=
  fun same => digitUnit_ne single below (List.cons.inj same).1

end Numbers

section Decimals

variable {digits : CharacterDigit} {value : Int}

/-- The sign of a number is read before a digit. -/
theorem parseInt_signed (value : Int) {first : Nat} (single : first < 10) (text : JString) :
    parseInt digits.digit ((if value < 0 then [0x2D] else []) ++ digitUnit first :: text) =
      (magnitude digits (digitUnit first :: text)).bind fun number =>
        checked (if value < 0 then -(number : Int) else number) := by
  split
  · exact parseInt_minus digits _
  · exact parseInt_unsigned digits (ne_sign single (by decide) text)
      (ne_sign single (by decide) text)

/-- The first digit of a number. -/
theorem digitsOf_cons (value : Nat) :
    ∃ first others, digitsOf value = first :: others ∧ first < 10 := by
  obtain ⟨first, others, split⟩ := List.exists_cons_of_ne_nil (digitsOf_ne_nil value)
  exact ⟨first, others, split, digitsOf_lt (split ▸ List.mem_cons_self)⟩

/-- The decimal text of a number is read as it, if it fits. -/
theorem parseInt_decimal_checked (value : Int) :
    parseInt digits.digit (decimal value) = checked value := by
  -- The sign is written exactly for a negative number, and the digits are those of its absolute
  -- value.
  obtain ⟨first, others, split, single⟩ := digitsOf_cons value.natAbs
  have number : magnitude digits (digitUnit first :: others.map digitUnit) = some value.natAbs := by
    rw [← List.map_cons, ← split, magnitude_digitsOf]
  have same : (if value < 0 then -(value.natAbs : Int) else value.natAbs) = value := by
    split
    · omega
    · omega
  rw [decimal, split, List.map_cons, parseInt_signed value single, number, Option.bind_some, same]

/-- A number is read from its decimal text. -/
theorem parseInt_decimal (fits : -2 ^ 31 ≤ value ∧ value < 2 ^ 31) :
    parseInt digits.digit (decimal value) = some value := by
  rw [parseInt_decimal_checked, checked, if_pos fits]

/-- Numbers with one decimal text are the same. -/
theorem decimal_inj {first second : Nat} (same : decimal first = decimal second) :
    first = second := by
  -- The text determines the value that is read from it.
  have plain (value : Nat) : decimal value = (digitsOf value).map digitUnit := by
    rw [decimal, if_neg (by omega), List.nil_append, Int.natAbs_natCast]
  have read : magnitude .ascii ((digitsOf first).map digitUnit) =
    some first := magnitude_digitsOf first
  rw [← plain, same, plain, magnitude_digitsOf] at read
  exact (Option.some.inj read).symm

theorem decimal_ne_nil (value : Int) : decimal value ≠ [] := by
  simp [decimal, digitsOf_ne_nil]

/-- The units of a decimal text. -/
theorem mem_decimal {unit : UInt16} (member : unit ∈ decimal value) :
    unit = 0x2D ∨ 0x30 ≤ unit.toNat ∧ unit.toNat ≤ 0x39 := by
  -- A unit is the sign or one of the digits.
  rw [decimal, List.mem_append, List.mem_map] at member
  rcases member with sign | ⟨digit, listed, rfl⟩
  · split at sign
    · exact .inl (List.mem_singleton.mp sign)
    · cases sign
  · have single := digitsOf_lt listed
    have bound : 0x30 + digit < 2 ^ 16 := by omega
    rw [digitUnit, UInt16.toNat_ofNat_of_lt' bound]
    omega

/-- Only the whole decimal text of a number is read as it. -/
theorem parseInt_decimal_cut {text : JString} (shorter : text <+: decimal value)
    (same : parseInt digits.digit text = some value) : text = decimal value := by
  -- A text that ends before the first digit is no number.
  have early : text <+: (if value < 0 then [0x2D] else []) → parseInt digits.digit text = none := by
    intro inside
    split at inside
    · rcases List.prefix_cons_iff.mp inside with rfl | ⟨rest, rfl, nothing⟩
      · rfl
      · rw [List.prefix_nil.mp nothing]
        rfl
    · rw [List.prefix_nil.mp inside]
      rfl
  rw [decimal] at shorter ⊢
  rcases List.prefix_or_prefix_of_prefix shorter (List.prefix_append _ _) with inside | beyond
  · rw [early inside] at same
    cases same
  obtain ⟨rest, rfl⟩ := beyond
  rw [List.prefix_append_right_inj] at shorter
  obtain ⟨front, cut, rfl⟩ := List.prefix_map_iff.mp shorter
  cases front with
  | nil =>
    rw [early (by simp)] at same
    cases same
  | cons first front =>
    have single : first < 10 := digitsOf_lt (cut.subset List.mem_cons_self)
    rw [List.map_cons, parseInt_signed value single, Option.bind_eq_some_iff] at same
    obtain ⟨number, read, inside⟩ := same
    -- The sign says which of the two numbers it is.
    have own : number = value.natAbs := by
      have whole := eq_of_checked inside
      split at whole
      · omega
      · omega
    rw [own, ← List.map_cons] at read
    rw [magnitude_cut shorter read]

/-- The decimal text of a number and a unit that is no digit are no number. -/
theorem parseInt_decimal_letter (value : Int) {unit : UInt16} (letter : digits.digit unit = none)
    (after : JString) : parseInt digits.digit (decimal value ++ unit :: after) = none := by
  obtain ⟨first, others, split, single⟩ := digitsOf_cons value.natAbs
  rw [decimal, split, List.map_cons, List.append_assoc, List.cons_append,
    parseInt_signed value single, ← List.cons_append, magnitude_letter letter]
  rfl

end Decimals

section Hexadecimal

variable (digits : CharacterHexDigit)

/-- The units of the digits are below 0x80, behind the signs, and have their values. -/
theorem hexUnit_small : ∀ value : Fin 16, hexUnit value < 0x80 ∧ 0x2F < hexUnit value ∧
    isBlank (hexUnit value) = false ∧ asciiHexDigit (hexUnit value) = some value.val := by
  decide

/-- Every unit of a hexadecimal number is that of a digit. -/
theorem mem_hexText {unit : UInt16} {width : Nat} : ∀ {value : Nat},
    unit ∈ hexText width value → ∃ digit : Fin 16, unit = hexUnit digit := by
  -- The digits are written from the left, so the last one is looked at first.
  induction width with
  | zero => exact fun member => absurd member List.not_mem_nil
  | succ width ih =>
    intro value member
    rcases List.mem_append.mp member with before | last
    · exact ih before
    · exact ⟨⟨value % 16, Nat.mod_lt _ (by decide)⟩, List.mem_singleton.mp last⟩

theorem hexText_length (width : Nat) : ∀ value, (hexText width value).length = width := by
  induction width with
  | zero => exact fun _ => rfl
  | succ width ih => simp [hexText, ih]

/-- The digits of a number are read one by one, and stand for it as far as the width goes. -/
theorem mapM_hexText (width : Nat) : ∀ value : Nat, ∃ values,
    (hexText width value).mapM digits.digit = some values ∧
      Nat.ofDigits 16 values.reverse = value % 16 ^ width := by
  -- The induction takes the last digit off, which is the lowest one.
  induction width with
  | zero => exact fun value => ⟨[], rfl, by simp [Nat.mod_one]⟩
  | succ width ih =>
    intro value
    obtain ⟨values, read, number⟩ := ih (value / 16)
    have last := hexUnit_small ⟨value % 16, Nat.mod_lt _ (by decide)⟩
    have lastRead : digits.digit (hexUnit (value % 16)) = some (value % 16) :=
      (digits.small _ last.1).trans last.2.2.2
    refine ⟨values ++ [value % 16], ?_, ?_⟩
    · simp [hexText, List.mapM_append, read, lastRead]
    · rw [List.reverse_append, List.reverse_singleton, List.singleton_append, Nat.ofDigits_cons,
        number, Nat.pow_succ', Nat.mod_mul]

/-- Hexadecimal digits are read as the number they are of. -/
theorem parseRadix_hexText {width : Nat} (some : width ≠ 0) (value : Nat) :
    parseRadix 16 digits.digit (hexText width value) =
      checked ((value % 16 ^ width : Nat) : Int) := by
  -- No digit is a sign, so the digits are read as they are.
  have filled : hexText width value ≠ [] := by
    intro empty
    exact some (by simpa [empty] using (hexText_length width value).symm)
  have unsigned : ∀ sign : UInt16, sign ≤ 0x2F → ∀ rest, hexText width value ≠ sign :: rest := by
    intro sign below rest first
    obtain ⟨digit, rfl⟩ := mem_hexText (first ▸ List.mem_cons_self : sign ∈ hexText width value)
    exact absurd (hexUnit_small digit).2.1 (UInt16.not_lt.mpr below)
  obtain ⟨values, read, number⟩ := mapM_hexText digits width value
  rw [parseRadix_unsigned 16 digits.digit (unsigned 0x2D (by decide)) (unsigned 0x2B (by decide)),
    magnitudeIn, if_neg filled, read, Option.map_some, number, Option.bind_some]

/-- Numbers that fit the width are told apart by their digits. -/
theorem hexText_inj {width first second : Nat} (same : hexText width first = hexText width second) :
    first % 16 ^ width = second % 16 ^ width := by
  obtain ⟨values, read, number⟩ := mapM_hexText .ascii width first
  obtain ⟨others, readOther, numberOther⟩ := mapM_hexText .ascii width second
  rw [same, readOther] at read
  rw [← number, ← numberOther, Option.some.inj read]

end Hexadecimal

end AndroidApps.JString
