import AndroidApps.CommonLib.TagParser
import Mathlib.Data.List.Find

/-! Attributes that are written into a tag, and which value is read for a name. -/

namespace AndroidApps.CommonLib.TagParser

section Writing

/-- The units that a name or a value of an attribute may not hold. -/
def marks : List UInt16 := [0x20, 0x3D, 0x22, 0x27, 0x3E]

/-- A text of units that mean nothing in a tag, such as letters and digits. -/
def IsPlain (text : JString) : Prop := ∀ mark ∈ marks, mark ∉ text

instance (text : JString) : Decidable (IsPlain text) :=
  List.decidableBAll (fun mark => mark ∉ text) marks

/-- An attribute, in quotes of one kind or the other. -/
structure Attr where
  name : JString
  value : JString
  double : Bool
  named : IsPlain name
  plain : IsPlain value

/-- The quote of a kind. -/
def quote (double : Bool) : UInt16 := if double then 0x22 else 0x27

/-- An attribute as it is written. -/
def Attr.text (attr : Attr) : JString :=
  attr.name ++ 0x3D :: quote attr.double ::
    (attr.value ++ [quote attr.double])

/-- Attributes as they are written into a tag, each behind a space. -/
def render (attrs : List Attr) : JString :=
  attrs.flatMap fun attr => 0x20 :: attr.text

/-- A tag with attributes, in a message. -/
def attributed (p t : JString) (attrs : List Attr) (s : JString) : JString :=
  p ++ 0x3C :: t ++ render attrs ++ 0x3E :: s

/-- The value that a name has, or `null`. -/
def valueOf (attrs : List Attr) (name : JString) : Option JString :=
  (attrs.find? fun attr => attr.name = name).map Attr.value

/-- An attribute in quotes of a kind whose name ends with a name. -/
def Answers (name : JString) (double : Bool) (attr : Attr) : Prop :=
  name <:+ attr.name ∧ attr.double = double

instance (name : JString) (double : Bool) : DecidablePred (Answers name double) :=
  fun attr => inferInstanceAs (Decidable (name <:+ attr.name ∧ attr.double = double))

/-- The attributes from the first one on that answers. -/
def answering (name : JString) (double : Bool) (attrs : List Attr) : List Attr :=
  attrs.dropWhile fun attr => !decide (Answers name double attr)

/--
A value belongs to the attribute that answers to a name, and it ends where it should.

Double quotes go first, and in single quotes a value ends at a double quote with a space behind it.
-/
def IsReadFrom (value : Option JString) : List Attr → List Attr → Prop
  | answer :: _, _ => value = some answer.value
  | [], answer :: after =>
    value = some answer.value ∧ ∀ attr ∈ after.dropLast, attr.double = false
  | [], [] => True

instance (value : Option JString) : ∀ doubles singles, Decidable (IsReadFrom value doubles singles)
  | answer :: _, _ => inferInstanceAs (Decidable (value = some answer.value))
  | [], answer :: after => inferInstanceAs (Decidable
      (value = some answer.value ∧ ∀ attr ∈ after.dropLast, attr.double = false))
  | [], [] => inferInstanceAs (Decidable True)

/-- The attributes that answer to a name have the value of that name. -/
def ReadsValue (attrs : List Attr) (name : JString) : Prop :=
  IsReadFrom (valueOf attrs name) (answering name true attrs) (answering name false attrs)

instance (attrs : List Attr) (name : JString) : Decidable (ReadsValue attrs name) :=
  inferInstanceAs (Decidable (IsReadFrom _ _ _))

end Writing

section Places

variable {text name part front tail : JString} {attr : Attr} {double : Bool}
  {attrs after : List Attr}

/-- A quote means something. -/
theorem quote_mem (double : Bool) : quote double ∈ marks := by
  cases double <;> decide

/-- Quotes of two kinds differ. -/
theorem quote_inj {first second : Bool} : quote first = quote second ↔ first = second := by
  cases first <;> cases second <;> decide

/-- A quote is neither a space nor an equals sign nor the end of a tag. -/
theorem quote_ne (double : Bool) :
    quote double ≠ 0x20 ∧ quote double ≠ 0x3D ∧ quote double ≠ 0x3E := by
  cases double <;> decide

/-- Nothing is written for no attributes. -/
@[simp] theorem render_nil : render [] = [] := rfl

/-- The first attribute is written behind a space. -/
@[simp] theorem render_cons (attr : Attr) (attrs : List Attr) :
    render (attr :: attrs) = 0x20 :: (attr.text ++ render attrs) := rfl

/-- Attributes are written one after the other. -/
@[simp] theorem render_append (attrs others : List Attr) :
    render (attrs ++ others) = render attrs ++ render others := List.flatMap_append

/-- Written attributes do not end a tag. -/
theorem end_notMem_render (attrs : List Attr) :
    (0x3E : UInt16) ∉ render attrs := by
  -- None of the parts of an attribute holds the unit.
  intro inside
  rw [render, List.mem_flatMap] at inside
  obtain ⟨attr, -, inside⟩ := inside
  have quoted := (quote_ne attr.double).2.2
  have inName := attr.named 0x3E (by simp [marks])
  have inValue := attr.plain 0x3E (by simp [marks])
  simp [Attr.text, quoted.symm, inName, inValue] at inside

/-- Around its equals sign, a name with the start of a value stands in a written attribute. -/
theorem indexOfPart_text (attr : Attr) (name tail : JString) :
    indexOfPart (name ++ 0x3D :: tail) attr.text =
      if name <:+ attr.name ∧
          tail <+: quote attr.double :: (attr.value ++ [quote attr.double]) then
        some (attr.name.length - name.length)
      else none := by
  have quoted := (quote_ne attr.double).2.1
  have inName := attr.named 0x3D (by simp [marks])
  have inValue := attr.plain 0x3D (by simp [marks])
  apply IndexOf.indexOfPart_marked inName
  simp [quoted.symm, inValue]

/-- A part without a space is looked for in the first attribute and then in the others. -/
theorem indexOfPart_render_cons (filled : part ≠ []) (spaceless : (0x20 : UInt16) ∉ part)
    (attr : Attr) (attrs : List Attr) :
    indexOfPart part (render (attr :: attrs)) =
      ((indexOfPart part attr.text).map (· + 1)).or
        ((indexOfPart part (render attrs)).map ((0x20 :: attr.text).length + ·)) := by
  rw [render_cons, IndexOf.indexOfPart_cons_of_notMem filled spaceless]
  cases attrs with
  | nil => simp [IndexOf.indexOfPart_nil filled]
  | cons second others =>
    -- The space in front of the second attribute parts the search.
    rw [render_cons, IndexOf.indexOfPart_across filled spaceless,
      IndexOf.indexOfPart_cons_of_notMem filled spaceless]
    cases indexOfPart part attr.text with
    | some place => rfl
    | none =>
      simp only [Option.none_or, Option.map_none, Option.map_map]
      rfl

end Places

section Answers

variable {name part tail : JString} {double : Bool} {attrs before after : List Attr} {answer : Attr}

/-- What looks for a name has no space. -/
theorem space_notMem_part (plain : IsPlain name) (double : Bool) :
    (0x20 : UInt16) ∉ name ++ [0x3D, quote double] := by
  have inName := plain 0x20 (by simp [marks])
  have quoted := (quote_ne double).1
  simp [inName, quoted.symm]

/-- An attribute in quotes of a kind is found by a name at its end. -/
theorem indexOfPart_answer (name : JString) (double : Bool) (attr : Attr) :
    indexOfPart (name ++ [0x3D, quote double]) attr.text =
      if Answers name double attr then some (attr.name.length - name.length) else none := by
  rw [indexOfPart_text]
  congr 1
  rw [List.cons_prefix_cons, quote_inj, Answers]
  simp [eq_comm]

/-- Attributes that do not hold a part are passed over. -/
theorem indexOfPart_render_append (filled : part ≠ []) (spaceless : (0x20 : UInt16) ∉ part)
    (missing : ∀ attr ∈ before, indexOfPart part attr.text = none) (attrs : List Attr) :
    indexOfPart part (render (before ++ attrs)) =
      (indexOfPart part (render attrs)).map ((render before).length + ·) := by
  -- Each attribute that is passed moves the place by its own length.
  induction before with
  | nil => simp
  | cons attr before ih =>
    rw [List.forall_mem_cons] at missing
    rw [List.cons_append, indexOfPart_render_cons filled spaceless, missing.1, ih missing.2,
      Option.map_none, Option.none_or, Option.map_map]
    congr 1
    funext place
    simp only [Function.comp_apply, render_cons, List.length_cons, List.length_append]
    omega

/-- Behind attributes that do not answer is the first one that does. -/
theorem answering_split (here : answering name double attrs = answer :: after) :
    ∃ before, attrs = before ++ answer :: after ∧ Answers name double answer ∧
      ∀ attr ∈ before, ¬ Answers name double attr := by
  -- What is dropped stands in front, and the first that stays answers.
  refine ⟨attrs.takeWhile fun attr => !decide (Answers name double attr), ?_, ?_, ?_⟩
  · rw [← here, answering, List.takeWhile_append_dropWhile]
  · have stops := List.head?_dropWhile_not (fun attr => !decide (Answers name double attr)) attrs
    rw [← answering, here] at stops
    simpa using stops
  · intro attr passed
    simpa using List.mem_takeWhile_imp passed

/-- Where the attributes that answer are none, no attribute answers. -/
theorem not_answers (none : answering name double attrs = []) {attr : Attr}
    (member : attr ∈ attrs) : ¬ Answers name double attr := by
  simpa using List.dropWhile_eq_nil_iff.mp none attr member

/-- A name that is not answered to in quotes of any kind ends no name. -/
theorem not_suffix (noDouble : answering name true attrs = [])
    (noSingle : answering name false attrs = []) {attr : Attr} (member : attr ∈ attrs) :
    ¬ name <:+ attr.name := by
  intro ends
  -- The attribute would answer in quotes of its own kind.
  cases kind : attr.double with
  | true => exact not_answers noDouble member ⟨ends, kind⟩
  | false => exact not_answers noSingle member ⟨ends, kind⟩

/-- A part that no attribute holds does not stand in what is written. -/
theorem indexOf_render_missing (filled : part ≠ []) (spaceless : (0x20 : UInt16) ∉ part)
    (missing : ∀ attr ∈ attrs, indexOfPart part attr.text = none) :
    (render attrs).indexOf part = -1 := by
  have whole := indexOfPart_render_append filled spaceless missing []
  rw [List.append_nil, render_nil, IndexOf.indexOfPart_nil filled] at whole
  rw [JString.indexOf_eq, whole]
  rfl

/-- Where no attribute answers, the name does not stand in front of a quote of the kind. -/
theorem indexOf_render_none (plain : IsPlain name) (none : answering name double attrs = []) :
    (render attrs).indexOf (name ++ [0x3D, quote double]) = -1 := by
  apply indexOf_render_missing (by simp) (space_notMem_part plain double)
  intro attr member
  rw [indexOfPart_answer, if_neg (not_answers none member)]

/-- The first attribute that answers is found at the end of its name. -/
theorem indexOf_render_some (plain : IsPlain name)
    (here : answering name double attrs = answer :: after) :
    ∃ front, render attrs = (front ++ name ++ [0x3D, quote double]) ++
        (answer.value ++ quote double :: render after) ∧
      (render attrs).indexOf (name ++ [0x3D, quote double]) = front.length := by
  -- The name stands at the end of the name of the attribute that answers.
  obtain ⟨before, rfl, answers, passed⟩ := answering_split here
  have missing : ∀ attr ∈ before, indexOfPart (name ++ [0x3D, quote double]) attr.text = none := by
    intro attr member
    rw [indexOfPart_answer, if_neg (passed attr member)]
  have found : indexOfPart (name ++ [0x3D, quote double]) (render (before ++ answer :: after)) =
      some ((render before).length + (answer.name.length - name.length + 1)) := by
    rw [indexOfPart_render_append (by simp) (space_notMem_part plain double) missing,
      indexOfPart_render_cons (by simp) (space_notMem_part plain double), indexOfPart_answer,
      if_pos answers]
    rfl
  obtain ⟨⟨start, named⟩, rfl⟩ := answers
  refine ⟨render before ++ 0x20 :: start, ?_, ?_⟩
  · simp [Attr.text, ← named]
  · rw [JString.indexOf_eq, found]
    simp [← named]

end Answers

section Ends

variable {value name front tail source : JString} {double : Bool} {after : List Attr} {place : Nat}

/-- The loop over the ends of a value stops at the first of them that is found. -/
theorem attrEnd_of_found (put : source = front ++ tail) (nEnd : Int) {tags : List JString}
    (found : (tags.findSome? fun endTag => indexOfPart endTag tail) = some place) :
    attrEnd source source.length front.length tags nEnd =
      (((front.length + place : Nat) : Int), 2) := by
  -- Each turn tries one end, which counts if it is found at all, as no tag ends in the text.
  induction tags generalizing nEnd with
  | nil => simp at found
  | cons endTag tags ih =>
    rw [List.findSome?_cons] at found
    cases here : indexOfPart endTag tail with
    | none =>
      rw [here] at found
      rw [attrEnd, JString.indexOfFrom_none put rfl here, if_neg (by simp)]
      exact ih (-1) found
    | some first =>
      rw [here] at found
      cases found
      have within := IndexOf.indexOfPart_le here
      have length : source.length = front.length + tail.length := by rw [put, List.length_append]
      rw [attrEnd, JString.indexOfFrom_some put rfl here, if_pos]
      omega

/-- At the end of a value, a quote with a space behind it stands if it is of the same kind. -/
theorem indexOfPart_closed (kind double : Bool) (after : List Attr) :
    indexOfPart [quote kind, 0x20] (quote double :: render after) =
      if kind = double ∧ after ≠ [] then some 0
      else (indexOfPart [quote kind, 0x20] (render after)).map (· + 1) := by
  -- Only the quote itself can begin the part, and a space follows unless the attribute is the last.
  have begins_iff : [quote kind, 0x20] <+: quote double :: render after ↔
      kind = double ∧ after ≠ [] := by
    rw [List.cons_prefix_cons, quote_inj]
    cases after with
    | nil => simp
    | cons attr after => simp
  split
  next closes => exact IndexOf.indexOfPart_begins (begins_iff.mpr closes)
  next other => exact IndexOf.indexOfPart_cons_of_not fun begins => other (begins_iff.mp begins)

/-- A double quote with a space behind it stands in attributes if one but the last has them. -/
theorem spaced_render (after : List Attr) :
    indexOfPart [quote true, 0x20] (render after) = none ↔
      ∀ attr ∈ after.dropLast, attr.double = false := by
  induction after with
  | nil => simp [render, indexOfPart]
  | cons attr rest ih =>
    have inValue := attr.plain 0x20 (by simp [marks])
    -- No space follows the quote in front of a value.
    have opened : ¬ [quote true, 0x20] <+:
        quote attr.double :: (attr.value ++ quote attr.double :: render rest) := by
      intro begins
      have spaced := (List.cons_prefix_cons.mp begins).2
      cases shape : attr.value with
      | nil =>
        rw [shape, List.nil_append] at spaced
        exact (quote_ne attr.double).1 (List.cons_prefix_cons.mp spaced).1.symm
      | cons first others =>
        rw [shape] at inValue spaced
        exact inValue (by simp [(List.cons_prefix_cons.mp spaced).1])
    have shape : render (attr :: rest) = (0x20 :: attr.name ++ [0x3D]) ++
        quote attr.double :: (attr.value ++ quote attr.double :: render rest) := by
      simp [Attr.text]
    have inFront : quote true ∉ 0x20 :: attr.name ++ [0x3D] := by
      have inName := attr.named 0x22 (by simp [marks])
      simp [inName, quote]
    rw [shape, IndexOf.indexOfPart_append_of_first inFront, IndexOf.indexOfPart_cons_of_not opened,
      IndexOf.indexOfPart_append_of_first (attr.plain (quote true) (quote_mem true)),
      Option.map_eq_none_iff, Option.map_eq_none_iff, Option.map_eq_none_iff, indexOfPart_closed]
    cases rest with
    | nil => simp [render, indexOfPart]
    | cons second others =>
      rw [List.dropLast_cons_cons, List.forall_mem_cons, ← ih]
      cases attr.double with
      | false => simp
      | true => simp

/-- A value ends at its own quote unless double quotes with a space behind them are in the way. -/
theorem endTags_found (plain : IsPlain value)
    (clear : double = true ∨ ∀ attr ∈ after.dropLast, attr.double = false) :
    (endTags.findSome? fun endTag =>
        indexOfPart endTag (value ++ quote double :: render after)) = some value.length := by
  have passed : ∀ kind part,
      indexOfPart (quote kind :: part) (value ++ quote double :: render after) =
        (indexOfPart (quote kind :: part) (quote double :: render after)).map (value.length + ·) :=
    fun kind part => IndexOf.indexOfPart_append_of_first (plain (quote kind) (quote_mem kind))
  have tags : endTags = [[quote true, 0x20], [quote false, 0x20], [quote true], [quote false],
      [0x20], [0x3E]] := rfl
  rw [tags, List.findSome?_cons, passed, indexOfPart_closed]
  cases double with
  | true =>
    cases after with
    | nil =>
      -- The last value has a quote alone behind it.
      have alone : ∀ kind, indexOfPart [quote kind, 0x20] (render []) = none := fun _ => rfl
      have here : indexOfPart [quote true] (quote true :: render []) = some 0 :=
        IndexOf.indexOfPart_begins (by simp)
      simp [passed, indexOfPart_closed, alone, here, -render_nil]
    | cons attr after => simp
  | false =>
    have nowhere := (spaced_render after).mpr (clear.resolve_left (by decide))
    rw [if_neg (by simp), nowhere, Option.map_none, Option.map_none, List.findSome?_cons, passed,
      indexOfPart_closed]
    cases after with
    | nil =>
      have alone : ∀ kind, indexOfPart [quote kind, 0x20] (render []) = none := fun _ => rfl
      have other : indexOfPart [quote true] (quote false :: render []) = none := rfl
      have here : indexOfPart [quote false] (quote false :: render []) = some 0 :=
        IndexOf.indexOfPart_begins (by simp)
      simp [passed, alone, other, here, -render_nil]
    | cons attr after => simp

/-- Double quotes with a space behind them are in the way of a value in single quotes. -/
theorem endTags_late (plain : IsPlain value)
    (far : ¬ ∀ attr ∈ after.dropLast, attr.double = false) :
    ∃ more, (endTags.findSome? fun endTag =>
        indexOfPart endTag (value ++ quote false :: render after)) =
      some (value.length + 2 + more) := by
  have tags : endTags = [quote true, 0x20] :: endTags.tail := rfl
  cases found : indexOfPart [quote true, 0x20] (render after) with
  | none => exact absurd ((spaced_render after).mp found) far
  | some place =>
    cases after with
    | nil => simp at far
    | cons attr after =>
      -- The space in front of an attribute is no quote.
      have other : ¬ [quote true, 0x20] <+: 0x20 :: (attr.text ++ render after) := fun there =>
        absurd (List.cons_prefix_cons.mp there).1 (by decide)
      rw [render_cons, IndexOf.indexOfPart_cons_of_not other, Option.map_eq_some_iff] at found
      obtain ⟨more, later, rfl⟩ := found
      refine ⟨more, ?_⟩
      rw [tags, List.findSome?_cons,
        IndexOf.indexOfPart_append_of_first (plain (quote true) (quote_mem true)),
        indexOfPart_closed, if_neg (by simp), render_cons, IndexOf.indexOfPart_cons_of_not other,
        later]
      simp only [Option.map_some, Option.some.injEq]
      omega

end Ends

section Reading

variable {value name front tail source rest result : JString} {mark : UInt16} {double : Bool}
  {attrs after : List Attr} {answer : Attr} {place : Nat}

/-- Where an attribute is found, `parserAttr` takes what is in front of the end of its value. -/
theorem parserAttr_at (put : source = (front ++ name ++ [0x3D, mark]) ++ tail)
    (start : attrStart source name = front.length) (endless : (0x3E : UInt16) ∉ source)
    (found : (endTags.findSome? fun endTag => indexOfPart endTag tail) = some place) :
    parserAttr source name =
      if place = 0 then some (some []) else (unquoted (tail.take place)).map some := by
  have endTag : source.indexOfFrom [0x3E] (front.length + name.length + 1) = -1 := by
    have whole : source = (front ++ name ++ [0x3D]) ++ mark :: tail := by simp [put]
    apply JString.indexOfFrom_none whole
    · simp only [List.length_append, List.length_singleton]
      omega
    · rw [IndexOf.indexOfPart_eq_none_iff]
      intro inside
      apply endless
      rw [whole]
      exact List.mem_append_right _ (inside.subset (by simp))
  have opened : (front.length : Int) + name.length + 2 =
      ((front ++ name ++ [0x3D, mark]).length : Nat) := by
    simp only [List.length_append, List.length_cons, List.length_nil]
    omega
  have within : place ≤ tail.length := by
    obtain ⟨endTag, -, here⟩ := List.exists_of_findSome?_eq_some found
    have bound := IndexOf.indexOfPart_le here
    omega
  have taken : source.substring ((front ++ name ++ [0x3D, mark]).length : Nat)
      (((front ++ name ++ [0x3D, mark]).length + place : Nat) : Int) = some (tail.take place) := by
    have whole : source =
        (front ++ name ++ [0x3D, mark]) ++ (tail.take place ++ tail.drop place) := by
      rw [List.take_append_drop, put]
    apply JString.substring_middle whole rfl
    rw [List.length_take, Nat.min_eq_left within]
  have here : ¬ (front.length : Int) < 0 := by omega
  have there : ¬ (((front ++ name ++ [0x3D, mark]).length + place : Nat) : Int) < 0 := by omega
  have empty : ((front ++ name ++ [0x3D, mark]).length : Int) =
      (((front ++ name ++ [0x3D, mark]).length + place : Nat) : Int) ↔ place = 0 := by omega
  simp only [parserAttr, start, if_neg here, endTag, if_true, opened,
    attrEnd_of_found put (-1) found, if_neg there, empty, taken, Option.bind_some]

/-- A value without quotes is left as it is. -/
theorem unquoted_plain (plain : IsPlain value) : unquoted value = some value := by
  have bare : ∀ double, value.head? ≠ some (quote double) := fun double first =>
    plain (quote double) (quote_mem double) (List.mem_of_head? first)
  rw [unquoted, if_neg fun quotes => bare false quotes.1, if_neg fun quotes => bare true quotes.1]

/-- A space behind a quote stays when quotes are taken away. -/
theorem space_mem_unquoted (plain : IsPlain value)
    (read : unquoted (value ++ 0x27 :: 0x20 :: rest) = some result) :
    (0x20 : UInt16) ∈ result := by
  cases value with
  | cons first value =>
    have single : first ≠ 0x27 := fun same => plain 0x27 (by simp [marks]) (by simp [same])
    have double : first ≠ 0x22 := fun same => plain 0x22 (by simp [marks]) (by simp [same])
    rw [List.cons_append, unquoted, if_neg (by simp [single]), if_neg (by simp [double])] at read
    simp [← Option.some.inj read]
  | nil =>
    rw [List.nil_append, unquoted] at read
    split at read
    next quotes =>
      -- The quote at the end stands behind the space.
      have last := quotes.2
      rcases List.eq_nil_or_concat' rest with rfl | ⟨init, final, rfl⟩
      · simp at last
      · have whole : (0x27 :: 0x20 :: (init ++ [final]) : JString) =
            [0x27] ++ ((0x20 :: init) ++ [final]) := rfl
        have taken := JString.substring_middle whole rfl rfl
        have length : ((0x27 :: 0x20 :: (init ++ [final]) : JString).length : Int) - 1 =
            (([0x27] : JString).length + (0x20 :: init).length : Nat) := by
          simp only [List.length_cons, List.length_append, List.length_nil]
          omega
        rw [length] at read
        have same := Option.some.inj (taken.symm.trans read)
        simp [← same]
    next =>
      rw [if_neg (by simp)] at read
      simp [← Option.some.inj read]

/-- Attributes in double quotes are found first. -/
theorem attrStart_double (plain : IsPlain name)
    (here : answering name true attrs = answer :: after) :
    ∃ front, render attrs = (front ++ name ++ [0x3D, quote true]) ++
        (answer.value ++ quote true :: render after) ∧
      attrStart (render attrs) name = front.length := by
  obtain ⟨front, put, found⟩ := indexOf_render_some plain here
  refine ⟨front, put, ?_⟩
  change (render attrs).indexOf (name ++ [0x3D, 0x22]) = _ at found
  rw [attrStart, found, if_neg (by omega)]

/-- Attributes in single quotes are found where none in double quotes answers. -/
theorem attrStart_single (plain : IsPlain name) (none : answering name true attrs = [])
    (here : answering name false attrs = answer :: after) :
    ∃ front, render attrs = (front ++ name ++ [0x3D, quote false]) ++
        (answer.value ++ quote false :: render after) ∧
      attrStart (render attrs) name = front.length := by
  -- The search with double quotes comes first and fails.
  obtain ⟨front, put, found⟩ := indexOf_render_some plain here
  refine ⟨front, put, ?_⟩
  have missing := indexOf_render_none plain none
  change (render attrs).indexOf (name ++ [0x3D, 0x22]) = _ at missing
  change (render attrs).indexOf (name ++ [0x3D, 0x27]) = _ at found
  simp only [attrStart, missing, found, if_pos (show (-1 : Int) < 0 by decide)]
  rw [if_neg (by omega)]

/-- Where no attribute answers in quotes of any kind, none is named at all. -/
theorem attrStart_none (plain : IsPlain name) (noDouble : answering name true attrs = [])
    (noSingle : answering name false attrs = []) : attrStart (render attrs) name = -1 := by
  -- The third search has no quote and fails as well, since no name ends so.
  have missing := indexOf_render_none plain noDouble
  have missingToo := indexOf_render_none plain noSingle
  change (render attrs).indexOf (name ++ [0x3D, 0x22]) = _ at missing
  change (render attrs).indexOf (name ++ [0x3D, 0x27]) = _ at missingToo
  have bare : (render attrs).indexOf (name ++ [0x3D]) = -1 := by
    apply indexOf_render_missing (by simp)
    · simp [plain 0x20 (by simp [marks])]
    · intro attr member
      rw [indexOfPart_text, if_neg fun ends => not_suffix noDouble noSingle member ends.1]
  simp only [attrStart, missing, missingToo, bare, if_pos (show (-1 : Int) < 0 by decide)]

/-- A value that is not in the way of double quotes is read. -/
theorem parserAttr_clear (put : render attrs = (front ++ name ++ [0x3D, quote double]) ++
        (answer.value ++ quote double :: render after))
    (start : attrStart (render attrs) name = front.length)
    (clear : double = true ∨ ∀ attr ∈ after.dropLast, attr.double = false) :
    parserAttr (render attrs) name = some (some answer.value) := by
  rw [parserAttr_at put start (end_notMem_render attrs) (endTags_found answer.plain clear),
    List.take_left, unquoted_plain answer.plain]
  split
  next empty => rw [List.length_eq_zero_iff.mp empty]
  next => rfl

/-- A value that runs on to double quotes holds a space. -/
theorem parserAttr_late (put : render attrs = (front ++ name ++ [0x3D, quote false]) ++
        (answer.value ++ quote false :: render after))
    (start : attrStart (render attrs) name = front.length)
    (far : ¬ ∀ attr ∈ after.dropLast, attr.double = false) :
    ∀ value, parserAttr (render attrs) name = some value →
      ∃ result, value = some result ∧ (0x20 : UInt16) ∈ result := by
  -- What is taken goes on past the quote and the space behind it.
  intro value read
  obtain ⟨more, found⟩ := endTags_late answer.plain far
  rw [parserAttr_at put start (end_notMem_render attrs) found, if_neg (by omega),
    Option.map_eq_some_iff] at read
  obtain ⟨result, unquotes, rfl⟩ := read
  refine ⟨result, rfl, ?_⟩
  cases after with
  | nil => simp at far
  | cons attr after =>
    have shape : answer.value ++ quote false :: render (attr :: after) =
        (answer.value ++ [0x27, 0x20]) ++ (attr.text ++ render after) := by
      simp [quote]
    have length : answer.value.length + 2 = (answer.value ++ [0x27, 0x20]).length := by simp
    rw [shape, length, List.take_length_add_append, List.append_assoc] at unquotes
    exact space_mem_unquoted answer.plain unquotes

/-- The value of a name is plain. -/
theorem valueOf_plain (found : valueOf attrs name = some value) : IsPlain value := by
  rw [valueOf, Option.map_eq_some_iff] at found
  obtain ⟨attr, -, rfl⟩ := found
  exact attr.plain

/-- A name that no attribute answers to has no value. -/
theorem valueOf_none (noDouble : answering name true attrs = [])
    (noSingle : answering name false attrs = []) : valueOf attrs name = none := by
  rw [valueOf, Option.map_eq_none_iff, List.find?_eq_none]
  intro attr member same
  apply not_suffix noDouble noSingle member
  rw [of_decide_eq_true same]

/-- In the text of a tag, the right value is read under the condition on its attributes alone. -/
theorem parserAttr_render_iff (plain : IsPlain name) (attrs : List Attr) :
    parserAttr (render attrs) name = some (valueOf attrs name) ↔ ReadsValue attrs name := by
  rw [ReadsValue]
  cases doubles : answering name true attrs with
  | cons answer after =>
    obtain ⟨front, put, start⟩ := attrStart_double plain doubles
    rw [parserAttr_clear put start (.inl rfl), Option.some.injEq, IsReadFrom, eq_comm]
  | nil =>
    cases singles : answering name false attrs with
    | cons answer after =>
      obtain ⟨front, put, start⟩ := attrStart_single plain doubles singles
      by_cases clear : ∀ attr ∈ after.dropLast, attr.double = false
      · rw [parserAttr_clear put start (.inr clear), Option.some.injEq, IsReadFrom, eq_comm]
        exact (and_iff_left clear).symm
      · -- A value with a space is none of those that were written.
        constructor
        · intro read
          obtain ⟨result, same, spaced⟩ := parserAttr_late put start clear _ read
          exact absurd spaced (valueOf_plain same 0x20 (by decide))
        · exact fun reads => absurd reads.2 clear
    | nil =>
      rw [valueOf_none doubles singles, parserAttr, attrStart_none plain doubles singles]
      simp [IsReadFrom]

end Reading

section Tags

variable {p t name : JString}

/-- In a tag of a message, attributes are read from its text. -/
theorem parserAttrOfTag_attributed (named : (0x3C : UInt16) ∉ t) (before : ¬ 0x3C :: t <:+: p)
    (attrs : List Attr) (s name : JString) :
    parserAttrOfTag (attributed p t attrs s) t name = parserAttr (render attrs) name := by
  -- The text of the tag is what is written of the attributes.
  have start : (attributed p t attrs s).indexOf (0x3C :: t) = p.length := by
    have found := indexOf_tag named before (render attrs ++ 0x3E :: s)
    simpa [attributed] using found
  have begins : (p.length : Int) + t.length + 1 = ((p ++ 0x3C :: t).length : Nat) := by
    simp only [List.length_append, List.length_cons]
    omega
  have put : attributed p t attrs s = (p ++ 0x3C :: t) ++ (render attrs ++ 0x3E :: s) := by
    simp [attributed]
  have startEnd : (attributed p t attrs s).indexOfFrom [0x3E] ((p ++ 0x3C :: t).length : Nat) =
      (((p ++ 0x3C :: t).length + (render attrs).length : Nat) : Int) :=
    JString.indexOfFrom_some put rfl (indexOfPart_unit (end_notMem_render attrs) s)
  have source := JString.substring_middle put rfl rfl
  have here : ¬ (p.length : Int) < 0 := by omega
  simp only [parserAttrOfTag, start, if_neg here, begins, startEnd, source, Option.bind_some]

/-- Exactly under the condition on the attributes, `parserAttr` gives the value of a name. -/
theorem parserAttrOfTag_value_iff (named : (0x3C : UInt16) ∉ t) (before : ¬ 0x3C :: t <:+: p)
    (plain : IsPlain name) (attrs : List Attr) (s : JString) :
    parserAttrOfTag (attributed p t attrs s) t name = some (valueOf attrs name) ↔
      ReadsValue attrs name := by
  rw [parserAttrOfTag_attributed named before, parserAttr_render_iff plain]

/-- The empty value of `b` is read from `p<t id="7" b=''>`. -/
theorem parserAttrOfTag_value_empty :
    parserAttrOfTag (attributed [0x70] [0x74]
        [⟨[0x69, 0x64], [0x37], true, by decide, by decide⟩,
          ⟨[0x62], [], false, by decide, by decide⟩]
        []) [0x74] [0x62] = some (some []) :=
  (parserAttrOfTag_value_iff (by decide) (by decide) (by decide) _ []).mpr (by decide)

/--
The names that end alike are mixed up, and a value runs on to double quotes.

`id` is read from `<t uid="1">`, and all of `1' b="2` from `<t a='1' b="2" c='3'>` for `a`.
-/
theorem parserAttrOfTag_wrong :
    parserAttrOfTag (attributed [] [0x74]
        [⟨[0x75, 0x69, 0x64], [0x31], true, by decide, by decide⟩] []) [0x74] [0x69, 0x64] ≠
      some (valueOf [⟨[0x75, 0x69, 0x64], [0x31], true, by decide, by decide⟩] [0x69, 0x64]) ∧
    parserAttrOfTag (attributed [] [0x74]
        [⟨[0x61], [0x31], false, by decide, by decide⟩,
          ⟨[0x62], [0x32], true, by decide, by decide⟩,
          ⟨[0x63], [0x33], false, by decide, by decide⟩] []) [0x74] [0x61] ≠
      some (some [0x31]) := by
  decide

/-- In double quotes alone, a name that ends no other one is looked up as it was written. -/
theorem readsValue_of_double {attrs : List Attr} (doubles : ∀ attr ∈ attrs, attr.double = true)
    (apart : ∀ attr ∈ attrs, name <:+ attr.name → attr.name = name) : ReadsValue attrs name := by
  -- The attribute that answers is then the first one of that name.
  have answers_iff : ∀ attr ∈ attrs,
      decide (attr.name = name) = decide (Answers name true attr) := by
    intro attr member
    rw [decide_eq_decide, Answers]
    constructor
    · rintro rfl
      exact ⟨List.suffix_rfl, doubles attr member⟩
    · exact fun answers => apart attr member answers.1
  have value : valueOf attrs name = (answering name true attrs).head?.map Attr.value := by
    rw [valueOf, List.find?_congr answers_iff, answering, List.find?_eq_head?_dropWhile_not]
  rw [ReadsValue, value]
  cases answering name true attrs with
  | cons answer after => rfl
  | nil =>
    have singles : answering name false attrs = [] := by
      refine List.dropWhile_eq_nil_iff.mpr fun attr member => ?_
      simp [Answers, doubles attr member]
    rw [singles]
    trivial

end Tags

end AndroidApps.CommonLib.TagParser
