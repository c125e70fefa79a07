import Mathlib.Data.List.Infix

/-! Where a part stands first in a list, read off how the list is put together. -/

namespace AndroidApps

variable {α : Type} [DecidableEq α]

/-- The first place at which a part stands in a list. -/
def indexOfPart (part : List α) : List α → Option Nat
  | [] => if part = [] then some 0 else none
  | element :: rest =>
    if part.isPrefixOf (element :: rest) then some 0
    else (indexOfPart part rest).map (· + 1)

namespace IndexOf

variable {part front back rest list : List α} {mark : α}

section Steps

/-- Nothing but the empty part stands in the empty list. -/
theorem indexOfPart_nil (filled : part ≠ []) : indexOfPart part ([] : List α) = none := by
  rw [indexOfPart, if_neg filled]

/-- A part that the list begins with stands at its start. -/
theorem indexOfPart_begins (begins : part <+: list) : indexOfPart part list = some 0 := by
  cases list with
  | nil => simp [indexOfPart, List.prefix_nil.mp begins]
  | cons element rest => rw [indexOfPart, if_pos (List.isPrefixOf_iff_prefix.mpr begins)]

/-- A part that the list does not begin with is looked for behind the first element. -/
theorem indexOfPart_cons_of_not {element : α} (other : ¬ part <+: element :: rest) :
    indexOfPart part (element :: rest) = (indexOfPart part rest).map (· + 1) := by
  rw [indexOfPart, if_neg]
  simpa using other

/-- A part is found exactly if it stands in the list. -/
theorem indexOfPart_eq_none_iff : indexOfPart part list = none ↔ ¬ part <:+: list := by
  -- A part stands at the start of the list or behind its first element.
  induction list with
  | nil => simp [indexOfPart, List.infix_nil]
  | cons element rest ih =>
    rw [List.infix_cons_iff, not_or, ← ih]
    by_cases begins : part <+: element :: rest
    · simp [indexOfPart_begins begins, begins]
    · simp [indexOfPart_cons_of_not begins, begins]

/-- A part that is found ends within the list. -/
theorem indexOfPart_le {place : Nat} (found : indexOfPart part list = some place) :
    place + part.length ≤ list.length := by
  -- The bound moves on by one with each element.
  induction list generalizing place with
  | nil =>
    by_cases empty : part = []
    · simp [indexOfPart, empty] at found
      simp [empty, ← found]
    · simp [indexOfPart, empty] at found
  | cons element rest ih =>
    by_cases begins : part <+: element :: rest
    · rw [indexOfPart_begins begins, Option.some.injEq] at found
      have short := begins.length_le
      omega
    · rw [indexOfPart_cons_of_not begins, Option.map_eq_some_iff] at found
      obtain ⟨before, later, rfl⟩ := found
      have bound := ih later
      simp only [List.length_cons]
      omega

/-- A part stands where it is found. -/
theorem indexOfPart_drop {place : Nat} (found : indexOfPart part list = some place) :
    part <+: list.drop place := by
  -- The place moves on by one with each element that is passed.
  induction list generalizing place with
  | nil =>
    by_cases empty : part = []
    · simp [empty]
    · simp [indexOfPart, empty] at found
  | cons element rest ih =>
    by_cases begins : part <+: element :: rest
    · rw [indexOfPart_begins begins, Option.some.injEq] at found
      rw [← found, List.drop_zero]
      exact begins
    · rw [indexOfPart_cons_of_not begins, Option.map_eq_some_iff] at found
      obtain ⟨before, later, rfl⟩ := found
      exact ih later

end Steps

section Passing

/-- Elements other than the first one of the part are passed over. -/
theorem indexOfPart_append_of_first (absent : mark ∉ front) :
    indexOfPart (mark :: part) (front ++ rest) =
      (indexOfPart (mark :: part) rest).map (front.length + ·) := by
  -- No element in front can be where the part begins.
  induction front with
  | nil => simp
  | cons element front ih =>
    rw [List.mem_cons, not_or] at absent
    obtain ⟨differs, behind⟩ := absent
    have other : ¬ mark :: part <+: element :: (front ++ rest) := fun begins =>
      differs (List.cons_prefix_cons.mp begins).1
    rw [List.cons_append, indexOfPart_cons_of_not other, ih behind, Option.map_map]
    congr 1
    funext place
    simp only [Function.comp_apply, List.length_cons]
    omega

omit [DecidableEq α] in
/-- A part at the start of two lists ends within the first one or reaches into the second one. -/
theorem prefix_append_cases (begins : part <+: front ++ back) :
    part <+: front ∨ ∃ reach, reach ≠ [] ∧ reach <+: back ∧ part = front ++ reach := by
  -- The shorter of the two is a prefix of the longer one.
  rcases List.prefix_or_prefix_of_prefix begins (List.prefix_append _ _) with inside | across
  · exact .inl inside
  · obtain ⟨reach, rfl⟩ := across
    by_cases empty : reach = []
    · simp [empty]
    · exact .inr ⟨reach, empty, (List.prefix_append_right_inj _).mp begins, rfl⟩

/-- A part whose first element is its own alone cannot begin in front of where it is put. -/
theorem indexOfPart_append_self (once : mark ∉ part) (absent : ¬ mark :: part <:+: front) :
    indexOfPart (mark :: part) (front ++ mark :: part ++ rest) = some front.length := by
  induction front with
  | nil => exact indexOfPart_begins (List.prefix_append _ _)
  | cons element front ih =>
    rw [List.infix_cons_iff, not_or] at absent
    have other : ¬ mark :: part <+: element :: (front ++ mark :: part ++ rest) := by
      intro begins
      rw [List.append_assoc, ← List.cons_append] at begins
      rcases prefix_append_cases begins with inside | ⟨reach, filled, again, same⟩
      · exact absent.1 inside
      · -- The part would hold its first element a second time.
        obtain ⟨-, tail⟩ := List.cons.inj same
        cases reach with
        | nil => exact filled rfl
        | cons first reach =>
          have first_eq := (List.cons_prefix_cons.mp again).1
          apply once
          simp [tail, first_eq]
    rw [List.cons_append, List.cons_append, indexOfPart_cons_of_not other, ih absent.2]
    rfl

omit [DecidableEq α] in
/-- Whether a part without an element begins here is decided in front of that element. -/
theorem prefix_append_cons_iff (absent : mark ∉ part) :
    part <+: front ++ mark :: rest ↔ part <+: front := by
  -- A part that reached into the second list would hold its first element.
  constructor
  · intro begins
    rcases prefix_append_cases begins with inside | ⟨reach, filled, again, rfl⟩
    · exact inside
    · cases reach with
      | nil => exact absurd rfl filled
      | cons first reach => simp [(List.cons_prefix_cons.mp again).1] at absent
  · exact fun begins => begins.trans (List.prefix_append _ _)

/-- A part without an element is looked for behind that element. -/
theorem indexOfPart_cons_of_notMem (filled : part ≠ []) (absent : mark ∉ part) (rest : List α) :
    indexOfPart part (mark :: rest) = (indexOfPart part rest).map (· + 1) := by
  have decided : part <+: [] ++ mark :: rest ↔ part <+: [] := prefix_append_cons_iff absent
  rw [List.nil_append, List.prefix_nil] at decided
  exact indexOfPart_cons_of_not fun begins => filled (decided.mp begins)

/-- A part without an element is looked for in front of that element and then behind it. -/
theorem indexOfPart_across (filled : part ≠ []) (absent : mark ∉ part) :
    indexOfPart part (front ++ mark :: rest) =
      (indexOfPart part front).or ((indexOfPart part rest).map (front.length + 1 + ·)) := by
  -- A part that begins in front of the element ends in front of it.
  induction front with
  | nil =>
    rw [List.nil_append, indexOfPart_cons_of_notMem filled absent, indexOfPart_nil filled,
      Option.none_or]
    congr 1
    funext place
    simp only [List.length_nil]
    omega
  | cons element front ih =>
    have decided : part <+: (element :: front) ++ mark :: rest ↔ part <+: element :: front :=
      prefix_append_cons_iff absent
    by_cases begins : part <+: element :: front
    · rw [indexOfPart_begins (decided.mpr begins), indexOfPart_begins begins]
      rfl
    · have other : ¬ part <+: element :: (front ++ mark :: rest) := fun whole =>
        begins (decided.mp whole)
      rw [List.cons_append, indexOfPart_cons_of_not other, indexOfPart_cons_of_not begins, ih]
      cases indexOfPart part front with
      | some place => rfl
      | none =>
        simp only [Option.none_or, Option.map_none, Option.map_map]
        congr 1
        funext place
        simp only [Function.comp_apply, List.length_cons]
        omega

end Passing

section Marked

variable {name ending tail : List α}

omit [DecidableEq α] in
/-- Two lists with an element once begin alike if they do so in front of it and behind it. -/
theorem prefix_marked_iff (inName : mark ∉ name) (inRest : mark ∉ rest) :
    ending ++ mark :: tail <+: name ++ mark :: rest ↔ ending = name ∧ tail <+: rest := by
  -- The one place of the element splits both lists in the same way.
  constructor
  · intro ⟨back, same⟩
    rw [List.append_assoc, List.cons_append] at same
    obtain ⟨names, -, tails⟩ := (List.append_cons_inj_of_notMem inName inRest).mp same.symm
    exact ⟨names.symm, back, tails.symm⟩
  · intro ⟨names, back, tails⟩
    exact ⟨back, by simp [names, ← tails]⟩

/-- Around an element that stands once, a part ends with a name and goes on with a tail. -/
theorem indexOfPart_marked (inName : mark ∉ name) (inRest : mark ∉ rest) :
    indexOfPart (ending ++ mark :: tail) (name ++ mark :: rest) =
      if ending <:+ name ∧ tail <+: rest then some (name.length - ending.length) else none := by
  -- The part is tried at every place of the name, the last of which is its end.
  induction name with
  | nil =>
    by_cases begins : ending = [] ∧ tail <+: rest
    · obtain ⟨rfl, goes⟩ := begins
      rw [indexOfPart_begins ((prefix_marked_iff inName inRest).mpr ⟨rfl, goes⟩)]
      simp [goes]
    · have other : ¬ ending ++ mark :: tail <+: mark :: rest := fun whole =>
        begins ((prefix_marked_iff inName inRest).mp whole)
      have behind : indexOfPart (ending ++ mark :: tail) rest = none := by
        rw [indexOfPart_eq_none_iff]
        intro inside
        exact inRest (inside.subset (by simp))
      rw [List.nil_append, indexOfPart_cons_of_not other, behind, if_neg]
      · rfl
      · rwa [List.suffix_nil]
  | cons element name ih =>
    have inBehind : mark ∉ name := fun inside => inName (List.mem_cons_of_mem _ inside)
    by_cases begins : ending = element :: name ∧ tail <+: rest
    · rw [indexOfPart_begins ((prefix_marked_iff inName inRest).mpr begins)]
      simp [begins]
    · have other : ¬ ending ++ mark :: tail <+: element :: (name ++ mark :: rest) := fun whole =>
        begins ((prefix_marked_iff inName inRest).mp whole)
      rw [List.cons_append, indexOfPart_cons_of_not other, ih inBehind]
      by_cases later : ending <:+ name ∧ tail <+: rest
      · have ends : ending <:+ element :: name := List.suffix_cons_iff.mpr (.inr later.1)
        rw [if_pos later, if_pos ⟨ends, later.2⟩, Option.map_some, List.length_cons]
        have short := later.1.length_le
        congr 1
        omega
      · rw [if_neg later, if_neg]
        · rfl
        · intro ⟨ends, goes⟩
          rcases List.suffix_cons_iff.mp ends with here | behind
          · exact begins ⟨here, goes⟩
          · exact later ⟨behind, goes⟩

end Marked

end IndexOf

end AndroidApps
