import AndroidApps.Lib.Loop
import Mathlib.Data.List.Flatten
import Mathlib.Data.List.Range
import Mathlib.Data.Nat.Find

/-! Nodes taken from a queue level by level, each of which is visited and puts others behind. -/

namespace AndroidApps.Levels

variable {α ω : Type}

/-- How a visit comes out. -/
inductive Outcome (α ω : Type) where
  /-- It comes back with the nodes that it has found, and with what is written. -/
  | returns (found : List α) (written : List ω)
  | throws
  /-- It does not come back. -/
  | blocks
  deriving DecidableEq

/-- A visit of a node. -/
abbrev Visit (α ω : Type) : Type := α → Outcome α ω

/-- So many nodes are taken from the front of the queue, and what they find is put behind it. -/
def round (visit : Visit α ω) : Nat → List α × List ω → Outcome α ω
  | 0, (queue, log) => .returns queue log
  | _ + 1, ([], _) => .throws
  | count + 1, (node :: queue, log) =>
    match visit node with
    | .returns found written => round visit count (queue ++ found, log ++ written)
    | .throws => .throws
    | .blocks => .blocks

/-- One pass takes all nodes that are in the queue when it begins; an empty queue is the end. -/
def pass (visit : Visit α ω) (state : List α × List ω) :
    (List α × List ω) ⊕ Option (List ω) :=
  if 0 < state.1.length then
    match round visit state.1.length state with
    | .returns queue log => .inl (queue, log)
    | .throws => .inr none
    -- A pass that does not end is like one that begins for ever.
    | .blocks => .inl state
  else .inr (some state.2)

section Visits

variable (below : α → List α) (writes : α → List ω)

/-- The nodes at a distance from the roots, in the order in which they are come to. -/
def level (roots : List α) : Nat → List α
  | 0 => roots
  | distance + 1 => (level roots distance).flatMap below

/-- What is written on the levels up to a distance, one after the other. -/
def texts (roots : List α) (distance : Nat) : List ω :=
  (List.range distance).flatMap fun nearer => (level below roots nearer).flatMap writes

variable {below writes} {visit : Visit α ω} {roots : List α}

/-- Behind an empty level there are only empty ones. -/
theorem level_empty {distance farther : Nat} (empty : level below roots distance = [])
    (behind : distance ≤ farther) : level below roots farther = [] := by
  induction behind with
  | refl => exact empty
  | step _ ih => rw [level, ih, List.flatMap_nil]

/-- An empty level and those behind it write nothing. -/
theorem texts_empty {distance farther : Nat} (empty : level below roots distance = [])
    (behind : distance ≤ farther) :
    texts below writes roots farther = texts below writes roots distance := by
  induction behind with
  | refl => rfl
  | step behind ih =>
    rw [texts, List.range_succ, List.flatMap_append, ← texts, ih, List.flatMap_singleton,
      level_empty empty behind, List.flatMap_nil, List.append_nil]

/-- The nodes at the front of a queue are visited in order. -/
theorem round_append {nodes : List α}
    (visits : ∀ node ∈ nodes, visit node = .returns (below node) (writes node)) :
    ∀ (queue : List α) (log : List ω), round visit nodes.length (nodes ++ queue, log) =
      .returns (queue ++ nodes.flatMap below) (log ++ nodes.flatMap writes) := by
  induction nodes with
  | nil =>
    intro queue log
    simp [round]
  | cons node nodes ih =>
    intro queue log
    rw [List.forall_mem_cons] at visits
    -- What the first node finds is behind the queue, and what the others find is behind that.
    rw [List.length_cons, List.cons_append, round, visits.1]
    dsimp only
    rw [List.append_assoc, ih visits.2, List.flatMap_cons, List.flatMap_cons, List.append_assoc,
      List.append_assoc]

/-- A pass over a level that is not empty leads to the next one. -/
theorem pass_level {nodes : List α} (filled : nodes ≠ [])
    (visits : ∀ node ∈ nodes, visit node = .returns (below node) (writes node)) (log : List ω) :
    pass visit (nodes, log) = .inl (nodes.flatMap below, log ++ nodes.flatMap writes) := by
  have taken := round_append visits [] log
  rw [List.append_nil, List.nil_append] at taken
  rw [pass, if_pos (List.length_pos_iff.mpr filled), taken]

/-- The visits of nodes, some of which do not come back. -/
def Visiting (visit : Visit α ω) (below : α → List α) (writes : α → List ω) (stuck : α → Prop)
    (nodes : List α) : Prop :=
  ∀ node ∈ nodes, (stuck node → visit node = .blocks) ∧
    (¬ stuck node → visit node = .returns (below node) (writes node))

variable {stuck : α → Prop}

/-- Nodes of which none is stuck come back. -/
theorem Visiting.returns {nodes : List α} (visits : Visiting visit below writes stuck nodes)
    (free : ∀ node ∈ nodes, ¬ stuck node) :
    ∀ node ∈ nodes, visit node = .returns (below node) (writes node) :=
  fun node member => (visits node member).2 (free node member)

/-- One node that is stuck keeps its round from ending. -/
theorem round_blocks {nodes : List α} (visits : Visiting visit below writes stuck nodes) {node : α}
    (member : node ∈ nodes) (blocked : stuck node) :
    ∀ (queue : List α) (log : List ω),
      round visit nodes.length (nodes ++ queue, log) = .blocks := by
  induction nodes with
  | nil => cases member
  | cons first nodes ih =>
    intro queue log
    have here := visits first List.mem_cons_self
    have later : Visiting visit below writes stuck nodes :=
      fun other inside => visits other (List.mem_cons_of_mem first inside)
    rw [List.length_cons, List.cons_append, round]
    -- It is the first one, or one of those behind it.
    by_cases now : stuck first
    · rw [here.1 now]
    · rw [here.2 now]
      dsimp only
      rw [List.append_assoc]
      refine ih later ?_ (queue ++ below first) (log ++ writes first)
      exact (List.mem_cons.mp member).resolve_left fun same => now (same ▸ blocked)

/-- A pass over a level with a node that is stuck does not end. -/
theorem pass_blocks {nodes : List α} (visits : Visiting visit below writes stuck nodes) {node : α}
    (member : node ∈ nodes) (blocked : stuck node) (log : List ω) :
    pass visit (nodes, log) = .inl (nodes, log) := by
  have stays := round_blocks visits member blocked [] log
  rw [List.append_nil] at stays
  rw [pass, if_pos (List.length_pos_of_mem member), stays]

variable (visits : ∀ distance, Visiting visit below writes stuck (level below roots distance))

include visits

/-- As long as no level is empty or stuck, the passes go from one to the next. -/
theorem reaches_level (log : List ω) {distance : Nat}
    (filled : ∀ nearer < distance, level below roots nearer ≠ [])
    (free : ∀ nearer < distance, ∀ node ∈ level below roots nearer, ¬ stuck node) :
    Loop.Reaches (pass visit) (roots, log)
      (level below roots distance, log ++ texts below writes roots distance) := by
  induction distance with
  | zero =>
    simp only [level, texts, List.range_zero, List.flatMap_nil, List.append_nil]
    exact .refl
  | succ distance ih =>
    have reached := ih (fun nearer near => filled nearer (by omega))
      fun nearer near => free nearer (by omega)
    refine reached.tail ?_
    rw [pass_level (filled distance (by omega))
      ((visits distance).returns (free distance (by omega))), texts, texts, List.range_succ,
      List.flatMap_append, List.flatMap_singleton, List.append_assoc]
    rfl

/-- The walk writes what the levels hold, and ends at the first empty one. -/
theorem ends_of_empty (log : List ω) {distance : Nat} (empty : level below roots distance = [])
    (free : ∀ distance, ∀ node ∈ level below roots distance, ¬ stuck node) :
    Loop.Ends (pass visit) (roots, log) (some (log ++ texts below writes roots distance)) := by
  classical
  -- The first empty level writes as much as any other one.
  have exists' : ∃ distance, level below roots distance = [] := ⟨distance, empty⟩
  have first := Nat.find_spec exists'
  have reached := reaches_level visits log
    (fun nearer near => Nat.find_min exists' near : ∀ nearer < Nat.find exists', _)
    fun nearer _ => free nearer
  rw [reached.ends_iff, first, texts_empty first (Nat.find_min' exists' empty)]
  exact Loop.ends_leave (by simp [pass])

/-- The walk does not come to an end if a node on some level is stuck. -/
theorem not_terminates_of_stuck (log : List ω)
    (blocked : ∃ distance, ∃ node ∈ level below roots distance, stuck node) :
    ¬ Loop.Terminates (pass visit) (roots, log) := by
  classical
  -- The passes come to the first level with such a node, and go no further.
  obtain ⟨node, member, here⟩ := Nat.find_spec blocked
  have free : ∀ nearer < Nat.find blocked, ∀ node ∈ level below roots nearer, ¬ stuck node :=
    fun nearer near node inside held => Nat.find_min blocked near ⟨node, inside, held⟩
  have filled : ∀ nearer < Nat.find blocked, level below roots nearer ≠ [] := by
    intro nearer near empty
    rw [level_empty empty (Nat.le_of_lt near)] at member
    cases member
  have reached := reaches_level visits log filled free
  rw [reached.terminates_iff]
  refine Loop.not_terminates_of_invariant
    (fun state => state.1 = level below roots (Nat.find blocked)) ?_ rfl
  rintro ⟨nodes, written⟩ rfl
  exact ⟨_, pass_blocks (visits _) member here written, rfl⟩

/-- The walk comes to an end exactly when some level is empty and no node is stuck. -/
theorem terminates_iff (log : List ω) :
    Loop.Terminates (pass visit) (roots, log) ↔
      (∃ distance, level below roots distance = []) ∧
        ∀ distance, ∀ node ∈ level below roots distance, ¬ stuck node := by
  constructor
  · intro terminates
    have free : ∀ distance, ∀ node ∈ level below roots distance, ¬ stuck node :=
      fun distance node member held =>
        not_terminates_of_stuck visits log ⟨distance, node, member, held⟩ terminates
    refine ⟨?_, free⟩
    by_contra endless
    rw [not_exists] at endless
    -- Every pass begins at some level, and none of them is the last.
    refine Loop.not_terminates_of_invariant
      (fun state => ∃ distance, state.1 = level below roots distance) ?_ ⟨0, rfl⟩ terminates
    rintro ⟨nodes, log⟩ ⟨distance, rfl⟩
    exact ⟨_, pass_level (endless distance) ((visits distance).returns (free distance)) log,
      distance + 1, rfl⟩
  · rintro ⟨⟨distance, empty⟩, free⟩
    exact ⟨_, ends_of_empty visits log empty free⟩

/-- A walk that ends has written what all levels hold. -/
theorem ends_texts {log : List ω} {result : Option (List ω)}
    (ended : Loop.Ends (pass visit) (roots, log) result) :
    ∃ distance, level below roots distance = [] ∧
      result = some (log ++ texts below writes roots distance) := by
  obtain ⟨⟨distance, empty⟩, free⟩ := (terminates_iff visits log).mp ⟨result, ended⟩
  exact ⟨distance, empty, ended.unique (ends_of_empty visits log empty free)⟩

end Visits

end AndroidApps.Levels
