import Mathlib.Data.List.Rotate

/-! Parities of edges along paths and closed paths, for edges that count alike in both
directions. -/

namespace AndroidApps

variable {α : Type} (edge : α → α → Bool)

/-- The parity of the edges of a path that count. -/
def pathParity : List α → Bool
  | [] => false
  | [_] => false
  | v :: w :: rest => edge v w ^^ pathParity (w :: rest)

/-- The parity of the edges of a closed path, given by its vertices. -/
def ringParity : List α → Bool
  | [] => false
  | v :: rest => pathParity edge (v :: (rest ++ [v]))

/-- A path is cut at one of its vertices. -/
theorem pathParity_cut (v : α) (back : List α) : ∀ front : List α,
    pathParity edge (front ++ v :: back) =
      (pathParity edge (front ++ [v]) ^^ pathParity edge (v :: back)) := by
  intro front
  induction front with
  | nil =>
    -- In front of the first vertex there is no edge.
    simp [pathParity]
  | cons u rest ih =>
    cases rest with
    | nil => simp [pathParity]
    | cons w rest =>
      simp only [List.cons_append, pathParity] at ih ⊢
      rw [ih, Bool.xor_assoc]

/-- A vertex added at the end adds one edge. -/
theorem pathParity_snoc (front : List α) (v w : α) :
    pathParity edge (front ++ [v, w]) = (pathParity edge (front ++ [v]) ^^ edge v w) := by
  have cut := pathParity_cut edge v [w] front
  simpa [pathParity] using cut

section Symmetric

variable {edge}

/-- The way back counts the same edges. -/
theorem pathParity_reverse (symmetric : ∀ v w, edge v w = edge w v) (path : List α) :
    pathParity edge path.reverse = pathParity edge path := by
  induction path with
  | nil => rfl
  | cons v rest ih =>
    cases rest with
    | nil => rfl
    | cons w rest =>
      -- The first edge of the path is the last one of the way back.
      have last := pathParity_snoc edge rest.reverse w v
      rw [List.reverse_cons] at ih
      rw [List.reverse_cons, List.reverse_cons, List.append_assoc]
      simp only [List.singleton_append]
      rw [last, ih, pathParity, symmetric v w, Bool.xor_comm]

end Symmetric

/-- A closed path may begin at the next vertex. -/
theorem ringParity_shift (v : α) (rest : List α) :
    ringParity edge (rest ++ [v]) = ringParity edge (v :: rest) := by
  cases rest with
  | nil => rfl
  | cons w rest =>
    -- Both count the edges of the same path, and the one between the first two vertices.
    have last := pathParity_snoc edge (w :: rest) v w
    simp only [ringParity, List.cons_append, List.append_assoc, List.nil_append,
      pathParity] at last ⊢
    rw [last, Bool.xor_comm]

/-- A closed path may begin anywhere. -/
theorem ringParity_append (front : List α) : ∀ back : List α,
    ringParity edge (back ++ front) = ringParity edge (front ++ back) := by
  induction front with
  | nil =>
    intro back
    rw [List.append_nil, List.nil_append]
  | cons v rest ih =>
    intro back
    -- The vertices are moved to the end one by one.
    have moved := ih (back ++ [v])
    rw [List.append_assoc, List.singleton_append] at moved
    rw [moved, ← List.append_assoc, ringParity_shift, List.cons_append]

theorem ringParity_rotate (ring : List α) (n : Nat) :
    ringParity edge (ring.rotate n) = ringParity edge ring := by
  rw [List.rotate_eq_drop_append_take_mod, ringParity_append, List.take_append_drop]

/-- A closed path through two vertices is a path from the one to the other, and one back. -/
theorem ringParity_through (v w : α) (front back : List α) :
    ringParity edge (v :: (front ++ w :: back)) =
      (pathParity edge (v :: (front ++ [w])) ^^ pathParity edge (w :: (back ++ [v]))) := by
  have cut := pathParity_cut edge w (back ++ [v]) (v :: front)
  simpa [ringParity] using cut

section Symmetric

variable {edge}

/-- A closed path may be followed in the other direction. -/
theorem ringParity_reverse (symmetric : ∀ v w, edge v w = edge w v) (ring : List α) :
    ringParity edge ring.reverse = ringParity edge ring := by
  -- The path from the first point back to it is reversed, and begins with this point again.
  cases ring with
  | nil => rfl
  | cons v rest =>
    have back := pathParity_reverse symmetric (v :: (rest ++ [v]))
    rw [List.reverse_cons, ringParity_shift, ringParity, ringParity, ← back]
    simp

/--
A closed path is split by a path between two of its vertices.

The edges of this path are on both of the closed paths that result, and cancel.
-/
theorem ringParity_split (symmetric : ∀ v w, edge v w = edge w v) (v w : α)
    (front back path : List α) :
    ringParity edge (v :: (front ++ w :: back)) =
      (ringParity edge (v :: (front ++ w :: path.reverse)) ^^
        ringParity edge (v :: (path ++ w :: back))) := by
  -- The one closed path follows it in one direction, and the other one in the other.
  have there := pathParity_reverse symmetric (v :: (path ++ [w]))
  have turned : (v :: (path ++ [w])).reverse = w :: (path.reverse ++ [v]) := by simp
  rw [turned] at there
  rw [ringParity_through, ringParity_through, ringParity_through, there]
  cases pathParity edge (v :: (front ++ [w])) <;> cases pathParity edge (v :: (path ++ [w])) <;>
    cases pathParity edge (w :: (back ++ [v])) <;> rfl

end Symmetric

end AndroidApps
