import Mathlib.Data.List.DropRight
import Mathlib.Data.List.Infix

/-! Lists whose ends are dropped: what is left of a part, and of a list that is put together. -/

namespace AndroidApps.Ends

variable {α : Type} {drops : α → Bool} {part list front back : List α}

/-- A part that does not begin with an element to drop is behind what is dropped at the front. -/
theorem infix_dropWhile (inside : part <:+: list)
    (kept : ∀ first, part.head? = some first → drops first = false) :
    part <:+: list.dropWhile drops := by
  induction list with
  | nil => simpa using inside
  | cons element list ih =>
    rw [List.dropWhile_cons]
    split
    next dropped =>
      rcases List.infix_cons_iff.mp inside with here | later
      · cases part with
        | nil => exact List.nil_infix
        | cons first part =>
          -- The part would begin with the element that is dropped.
          have same : first = element := (List.cons_prefix_cons.mp here).1
          have stays := kept first rfl
          rw [same, dropped] at stays
          contradiction
      · exact ih later
    next => exact inside

/-- A part that does not end with an element to drop is in front of what is dropped at the end. -/
theorem infix_rdropWhile (inside : part <:+: list)
    (kept : ∀ last, part.getLast? = some last → drops last = false) :
    part <:+: list.rdropWhile drops := by
  -- Seen from behind, the end is a front.
  have reversed : part.reverse <:+: list.reverse.dropWhile drops := by
    refine infix_dropWhile (List.reverse_infix.mpr inside) fun last first => kept last ?_
    rwa [List.head?_reverse] at first
  rw [List.rdropWhile, ← List.reverse_infix, List.reverse_reverse]
  exact reversed

/-- An end of elements to drop is dropped as a whole. -/
theorem rdropWhile_append_of_all (all : ∀ element ∈ back, drops element = true) :
    (front ++ back).rdropWhile drops = front.rdropWhile drops := by
  rw [List.rdropWhile, List.rdropWhile, List.reverse_append, List.dropWhile_append_of_pos]
  exact fun element member => all element (List.mem_reverse.mp member)

/-- What stands in front of an element that is kept is kept. -/
theorem rdropWhile_append_of_kept (kept : ∃ element ∈ back, drops element = false) :
    (front ++ back).rdropWhile drops = front ++ back.rdropWhile drops := by
  -- Seen from behind, the dropping stops before it comes to the front.
  obtain ⟨element, member, stays⟩ := kept
  have left : ¬ (back.reverse.dropWhile drops).isEmpty = true := by
    rw [List.isEmpty_iff, List.dropWhile_eq_nil_iff]
    intro all
    have dropped := all element (List.mem_reverse.mpr member)
    rw [stays] at dropped
    contradiction
  rw [List.rdropWhile, List.reverse_append, List.dropWhile_append, if_neg left,
    List.reverse_append, List.reverse_reverse, List.rdropWhile]

/-- The first element is dropped with the others if they all are and it has to be. -/
theorem rdropWhile_cons (drops : α → Bool) (first : α) (others : List α) :
    (first :: others).rdropWhile drops =
      if others.rdropWhile drops = [] ∧ drops first then []
      else first :: others.rdropWhile drops := by
  -- Seen from behind, the first element is the last one to be dropped.
  rw [List.rdropWhile, List.rdropWhile, List.reverse_cons, List.dropWhile_append]
  by_cases all : others.reverse.dropWhile drops = []
  · cases kept : drops first <;> simp [all, kept]
  · simp [all]

/-- What has no element to drop is kept. -/
theorem rdropWhile_append_of_none (none : ∀ element ∈ front, drops element = false) :
    (front ++ back).rdropWhile drops = front ++ back.rdropWhile drops := by
  induction front with
  | nil => rfl
  | cons first front ih =>
    obtain ⟨stays, others⟩ := List.forall_mem_cons.mp none
    rw [List.cons_append, rdropWhile_cons, if_neg (by simp [stays]), ih others, List.cons_append]

/-- A list whose end is dropped has no second element when only the first one is kept. -/
theorem rdropWhile_second (drops : α → Bool) (first : α) (others : List α) :
    ((first :: others).rdropWhile drops)[1]? = none ↔ ∀ other ∈ others, drops other = true := by
  -- The first element is the last one to be dropped.
  rw [List.rdropWhile, List.reverse_cons, List.dropWhile_append]
  split
  next empty =>
    have all := List.dropWhile_eq_nil_iff.mp (List.isEmpty_iff.mp empty)
    refine iff_of_true ?_ fun other member => all other (List.mem_reverse.mpr member)
    rw [List.getElem?_eq_none_iff, List.length_reverse]
    exact (List.dropWhile_suffix _).length_le
  next filled =>
    refine iff_of_false ?_ fun all => filled ?_
    · have some : (others.reverse.dropWhile drops).length ≠ 0 := by simpa using filled
      rw [List.getElem?_eq_none_iff]
      simp only [List.length_reverse, List.length_append, List.length_singleton]
      omega
    · rw [List.isEmpty_iff, List.dropWhile_eq_nil_iff]
      exact fun other member => all other (List.mem_reverse.mp member)

end AndroidApps.Ends
