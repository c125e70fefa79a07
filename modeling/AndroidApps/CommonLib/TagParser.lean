import AndroidApps.Lib.JavaTextLaws

/-! What is read out of a tag: its body, and the values of its attributes. -/

namespace AndroidApps.CommonLib.TagParser

section Model

/-- `"</" + tag + ">"`. -/
def closing (tag : JString) : JString := 0x3C :: 0x2F :: tag ++ [0x3E]

/--
`parserTag`: the text between a tag and its end.

An outer `none` is an exception, and an inner one is `null`.
-/
def parserTag (msg tag : JString) : Option (Option JString) :=
  let nStart := msg.indexOf (0x3C :: tag)
  if nStart < 0 then some none
  else
    let nStartEnd := msg.indexOfFrom [0x3E] (nStart + tag.length + 1)
    let nEnd := msg.indexOfFrom (closing tag) nStartEnd
    if nEnd < 0 then some none
    -- The body counts as empty by where it ends.
    else if nStart + tag.length + 2 = nEnd - 1 then some (some [])
    else (msg.substring (nStartEnd + 1) nEnd).map some

/-- Where `parserAttr` finds an attribute: with one quote, with the other one, or with none. -/
def attrStart (msg attr : JString) : Int :=
  let nStart := msg.indexOf (attr ++ [0x3D, 0x22])
  if nStart < 0 then
    let nStart := msg.indexOf (attr ++ [0x3D, 0x27])
    if nStart < 0 then msg.indexOf (attr ++ [0x3D]) else nStart
  else nStart

/-- `endTags`, the texts at which a value ends. -/
def endTags : List JString := [[0x22, 0x20], [0x27, 0x20], [0x22], [0x27], [0x20], [0x3E]]

/-- The loop over `endTags`, which gives `nEnd` and `nAddLen`. -/
def attrEnd (msg : JString) (nStartEnd start : Int) : List JString → Int → Int × Int
  | [], nEnd => (nEnd, 1)
  | endTag :: endTags, _ =>
    -- An end that is not within the tag is kept if it is the last one that is tried.
    let nEnd := msg.indexOfFrom endTag start
    if nEnd ≠ -1 ∧ nStartEnd ≥ nEnd then (nEnd, 2) else attrEnd msg nStartEnd start endTags nEnd

/-- The quotes around a value are taken away, where one quote alone is an exception. -/
def unquoted (result : JString) : Option JString :=
  if result.head? = some 0x27 ∧ result.getLast? = some 0x27 then
    result.substring 1 (result.length - 1)
  else if result.head? = some 0x22 ∧ result.getLast? = some 0x22 then
    result.substring 1 (result.length - 1)
  else some result

/-- `parserAttr` in the text of a tag. -/
def parserAttr (msg attr : JString) : Option (Option JString) :=
  let nStart := attrStart msg attr
  if nStart < 0 then some none
  else
    -- Where no tag ends, the text is taken to its own end.
    let found := msg.indexOfFrom [0x3E] (nStart + attr.length + 1)
    let nStartEnd := if found = -1 then (msg.length : Int) else found
    let (nEnd, nAddLen) := attrEnd msg nStartEnd (nStart + attr.length + 2) endTags (-1)
    if nEnd < 0 then some none
    else if nStart + attr.length + nAddLen = nEnd then some (some [])
    else ((msg.substring (nStart + attr.length + nAddLen) nEnd).bind unquoted).map some

/-- `parserAttr` in a tag of a message. -/
def parserAttrOfTag (msg tag attr : JString) : Option (Option JString) :=
  let nStart := msg.indexOf (0x3C :: tag)
  if nStart < 0 then some none
  else
    let nStartEnd := msg.indexOfFrom [0x3E] (nStart + tag.length + 1)
    (msg.substring (nStart + tag.length + 1) nStartEnd).bind fun source => parserAttr source attr

end Model

section Body

variable {t a b p : JString}

/-- A tag with a body, in a message. -/
def tagged (p t a b s : JString) : JString :=
  p ++ 0x3C :: t ++ a ++ 0x3E :: b ++ closing t ++ s

/-- The first place of a tag is where it was put. -/
theorem indexOf_tag (named : (0x3C : UInt16) ∉ t) (before : ¬ 0x3C :: t <:+: p) (rest : JString) :
    (p ++ 0x3C :: t ++ rest).indexOf (0x3C :: t) = p.length := by
  rw [JString.indexOf_eq, IndexOf.indexOfPart_append_self named before]
  rfl

/-- A unit is found behind a text that does not hold it. -/
theorem indexOfPart_unit {unit : UInt16} {front : JString} (absent : unit ∉ front)
    (rest : JString) : indexOfPart [unit] (front ++ unit :: rest) = some front.length := by
  rw [IndexOf.indexOfPart_append_of_first absent, IndexOf.indexOfPart_begins (by simp)]
  rfl

/-- The end of a body is the first one behind the start of the tag. -/
theorem indexOfPart_closing (named : (0x3C : UInt16) ∉ t) (inside : ¬ closing t <:+: b)
    (s : JString) :
    indexOfPart (closing t) (0x3E :: b ++ closing t ++ s) = some (0x3E :: b).length := by
  -- The end of the tag does not begin with the end of a body.
  apply IndexOf.indexOfPart_append_self
  · simp [named]
  · intro there
    rcases List.infix_cons_iff.mp there with here | later
    · simpa using (List.cons_prefix_cons.mp here).1
    · exact inside later

/-- A body is read, but for one that is all there is in the message with the attributes. -/
theorem parserTag_tagged (s : JString) (named : (0x3C : UInt16) ∉ t) (closed : (0x3E : UInt16) ∉ a)
    (inside : ¬ closing t <:+: b) (before : ¬ 0x3C :: t <:+: p) :
    parserTag (tagged p t a b s) t =
      some (some (if a.length + b.length = 1 then [] else b)) := by
  have start : (tagged p t a b s).indexOf (0x3C :: t) = p.length := by
    have found := indexOf_tag named before (a ++ 0x3E :: b ++ closing t ++ s)
    simpa [tagged] using found
  -- The tag ends behind its attributes, which hold no end of a tag.
  have startEnd : (tagged p t a b s).indexOfFrom [0x3E] (p.length + t.length + 1) =
      (((p ++ 0x3C :: t).length + a.length : Nat) : Int) := by
    have put : tagged p t a b s = (p ++ 0x3C :: t) ++ (a ++ 0x3E :: (b ++ closing t ++ s)) := by
      simp [tagged]
    apply JString.indexOfFrom_some put _ (indexOfPart_unit closed _)
    simp
    omega
  -- From there on, the end of the body is the first one.
  have bodyEnd : (tagged p t a b s).indexOfFrom (closing t)
        (((p ++ 0x3C :: t).length + a.length : Nat) : Int) =
      (((p ++ 0x3C :: t ++ a).length + (0x3E :: b).length : Nat) : Int) := by
    have put : tagged p t a b s = (p ++ 0x3C :: t ++ a) ++ (0x3E :: b ++ closing t ++ s) := by
      simp [tagged]
    apply JString.indexOfFrom_some put _ (indexOfPart_closing named inside s)
    rw [← List.length_append]
  have body : (tagged p t a b s).substring
        ((((p ++ 0x3C :: t).length + a.length : Nat) : Int) + 1)
        (((p ++ 0x3C :: t ++ a).length + (0x3E :: b).length : Nat) : Int) = some b := by
    have put : tagged p t a b s = (p ++ 0x3C :: t ++ a ++ [0x3E]) ++ (b ++ (closing t ++ s)) := by
      simp [tagged]
    apply JString.substring_middle put
    · simp only [List.length_append, List.length_singleton]
      omega
    · simp only [List.length_append, List.length_cons, List.length_nil]
      omega
  have here : ¬ (p.length : Int) < 0 := by omega
  have there : ¬ (((p ++ 0x3C :: t ++ a).length + (0x3E :: b).length : Nat) : Int) < 0 := by omega
  -- The test for an empty body counts one unit too many.
  have special : (p.length : Int) + t.length + 2 =
      (((p ++ 0x3C :: t ++ a).length + (0x3E :: b).length : Nat) : Int) - 1 ↔
      a.length + b.length = 1 := by
    simp only [List.length_append, List.length_cons]
    omega
  simp only [parserTag, start, startEnd, bodyEnd, body, if_neg here, if_neg there, special]
  split
  · rfl
  · rfl

/-- `parserTag` gives the body of a tag unless a body of one unit follows a tag alone. -/
theorem parserTag_body_iff (s : JString) (named : (0x3C : UInt16) ∉ t)
    (closed : (0x3E : UInt16) ∉ a) (inside : ¬ closing t <:+: b) (before : ¬ 0x3C :: t <:+: p) :
    parserTag (tagged p t a b s) t = some (some b) ↔ ¬ (a = [] ∧ b.length = 1) := by
  rw [parserTag_tagged s named closed inside before, Option.some.injEq, Option.some.injEq]
  split
  next one =>
    constructor
    · intro empty alone
      rw [← empty] at alone
      simp at alone
    · intro other
      -- Of the two texts it is not the body that has the unit.
      have units : b.length = 0 := by
        by_contra filled
        have unattributed : a = [] := List.length_eq_zero_iff.mp (by omega)
        exact other ⟨unattributed, by omega⟩
      exact (List.length_eq_zero_iff.mp units).symm
  next more =>
    constructor
    · intro _ alone
      apply more
      rw [alone.1, alone.2]
      rfl
    · intro _
      rfl

/-- A body of two units behind an attribute is read. -/
theorem parserTag_body_two :
    parserTag (tagged [0x70] [0x74] [0x20, 0x61] [0x78, 0x79] [0x73]) [0x74] =
      some (some [0x78, 0x79]) :=
  (parserTag_body_iff [0x73] (by decide) (by decide) (by decide) (by decide)).mpr (by decide)

/-- The body of `<t>x</t>` is lost. -/
theorem parserTag_body_one :
    ¬ ∀ p t a b s : JString, (0x3C : UInt16) ∉ t → (0x3E : UInt16) ∉ a →
      (a = [] ∨ a.head? = some 0x20) → ¬ closing t <:+: b → ¬ 0x3C :: t <:+: p →
      parserTag (tagged p t a b s) t = some (some b) := by
  intro all
  have read := all [] [0x74] [] [0x78] [] (by decide) (by decide) (.inl rfl) (by decide) (by decide)
  have lost : parserTag (tagged [] [0x74] [] [0x78] []) [0x74] = some (some []) := by decide
  rw [lost] at read
  contradiction

end Body

end AndroidApps.CommonLib.TagParser
