import Mathlib.Data.List.Lex
import Mathlib.Data.List.Pairwise
import Mathlib.Data.List.Perm.Subperm
import Mathlib.Order.Lattice

/-! Ordered maps of the C++ library, as the strictly ascending list of their entries. -/

namespace AndroidApps

/-- A map whose entries are iterated in the order of their keys. -/
structure StdMap (κ α : Type) [LinearOrder κ] where
  entries : List (κ × α)
  sorted : entries.Pairwise fun first second => first.1 < second.1

namespace StdMap

/-- The units of a string are ordered as numbers, and strings as lists of them. -/
scoped instance unitOrder : LinearOrder UInt16 where
  le_refl := UInt16.le_refl
  le_trans _ _ _ := UInt16.le_trans
  le_antisymm _ _ := UInt16.le_antisymm
  le_total := UInt16.le_total
  lt_iff_le_not_ge first second := by
    rw [UInt16.lt_iff_toNat_lt, UInt16.le_iff_toNat_le, UInt16.le_iff_toNat_le]
    omega
  toDecidableLE := inferInstance

variable {κ α : Type} [LinearOrder κ]

/-- A map without entries. -/
def empty : StdMap κ α := ⟨[], .nil⟩

/-- Place an entry in an ascending list, unless its key is there already. -/
def insertEntry (key : κ) (value : α) : List (κ × α) → List (κ × α)
  | [] => [(key, value)]
  | entry :: rest =>
    if key < entry.1 then (key, value) :: entry :: rest
    -- An entry with the same key is left as it is.
    else if key = entry.1 then entry :: rest
    else entry :: insertEntry key value rest

/-- An insertion adds at most the entry given. -/
theorem mem_insertEntry {key : κ} {value : α} {entries : List (κ × α)} {entry : κ × α}
    (member : entry ∈ insertEntry key value entries) : entry = (key, value) ∨ entry ∈ entries := by
  -- The entry goes in front of the first one that is not smaller, or is left out.
  induction entries with
  | nil => exact .inl (List.mem_singleton.mp member)
  | cons head rest ih =>
    rw [insertEntry] at member
    split at member
    · rcases List.mem_cons.mp member with new | old
      · exact .inl new
      · exact .inr old
    · split at member
      · exact .inr member
      · rcases List.mem_cons.mp member with first | later
        · exact .inr (first ▸ List.mem_cons_self)
        · rcases ih later with new | old
          · exact .inl new
          · exact .inr (List.mem_cons_of_mem head old)

/-- An insertion keeps the entries in order. -/
theorem insertEntry_sorted (key : κ) (value : α) {entries : List (κ × α)}
    (sorted : entries.Pairwise fun first second => first.1 < second.1) :
    (insertEntry key value entries).Pairwise fun first second => first.1 < second.1 := by
  induction entries with
  | nil => exact List.pairwise_singleton _ _
  | cons head rest ih =>
    obtain ⟨below, ordered⟩ := List.pairwise_cons.mp sorted
    rw [insertEntry]
    split
    · -- The new key is below the first one, and so below all of them.
      rename_i first
      refine List.pairwise_cons.mpr ⟨?_, sorted⟩
      intro entry member
      rcases List.mem_cons.mp member with rfl | later
      · exact first
      · exact lt_trans first (below entry later)
    · split
      · exact sorted
      · rename_i notBelow differs
        refine List.pairwise_cons.mpr ⟨?_, ih ordered⟩
        intro entry member
        rcases mem_insertEntry member with rfl | old
        · exact lt_of_le_of_ne (not_lt.mp notBelow) (Ne.symm differs)
        · exact below entry old

/-- `insert`, which does not change the entry of a key that is there. -/
def insert (map : StdMap κ α) (key : κ) (value : α) : StdMap κ α :=
  ⟨insertEntry key value map.entries, insertEntry_sorted key value map.sorted⟩

/-- `find`. -/
def find? (map : StdMap κ α) (key : κ) : Option α :=
  (map.entries.find? fun entry => entry.1 = key).map Prod.snd

/-- Two entries of a map with the same key are the same. -/
theorem eq_of_key {map : StdMap κ α} {first second : κ × α} (one : first ∈ map.entries)
    (other : second ∈ map.entries) (same : first.1 = second.1) : first = second := by
  -- Of two different entries one is below the other.
  have told : map.entries.Pairwise fun first second => first.1 = second.1 → first = second :=
    map.sorted.imp fun below same => (below.ne same).elim
  refine List.Pairwise.forall_of_forall_of_flip (fun _ _ _ => rfl) told ?_ one other same
  exact map.sorted.imp fun below same => (below.ne' same).elim

/-- A key is found with the value of its entry. -/
theorem find?_eq_some {map : StdMap κ α} {key : κ} {value : α} :
    map.find? key = some value ↔ (key, value) ∈ map.entries := by
  -- The keys are different, so that the first entry of a key is its only one.
  unfold find?
  rw [Option.map_eq_some_iff]
  constructor
  · rintro ⟨entry, found, rfl⟩
    have same : entry.1 = key := by simpa using List.find?_some found
    rw [← same]
    exact List.mem_of_find?_eq_some found
  · intro member
    cases found : map.entries.find? fun entry => entry.1 = key with
    | none => exact (List.find?_eq_none.mp found _ member (decide_eq_true rfl)).elim
    | some entry =>
      have same : entry.1 = key := by simpa using List.find?_some found
      refine ⟨entry, rfl, ?_⟩
      rw [eq_of_key (List.mem_of_find?_eq_some found) member same]

/-- An entry whose key is there is not placed. -/
theorem insertEntry_of_mem {key : κ} {value : α} {entries : List (κ × α)}
    (sorted : entries.Pairwise fun first second => first.1 < second.1)
    (held : ∃ entry ∈ entries, entry.1 = key) : insertEntry key value entries = entries := by
  -- All entries before the one of the key are smaller, and are passed.
  induction entries with
  | nil =>
    obtain ⟨entry, member, _⟩ := held
    cases member
  | cons head rest ih =>
    obtain ⟨below, ordered⟩ := List.pairwise_cons.mp sorted
    obtain ⟨entry, member, same⟩ := held
    rw [insertEntry]
    rcases List.mem_cons.mp member with first | later
    · rw [← same, first, if_neg (lt_irrefl _), if_pos rfl]
    · have above : head.1 < key := same ▸ below entry later
      rw [if_neg above.not_gt, if_neg above.ne', ih ordered ⟨entry, later, same⟩]

/-- An entry whose key is not there is placed among the others. -/
theorem insertEntry_perm {key : κ} {value : α} {entries : List (κ × α)}
    (fresh : ∀ entry ∈ entries, entry.1 ≠ key) :
    (insertEntry key value entries).Perm ((key, value) :: entries) := by
  -- Moving the entry past one of the others is a swap.
  induction entries with
  | nil => exact List.Perm.refl _
  | cons head rest ih =>
    obtain ⟨own, others⟩ := List.forall_mem_cons.mp fresh
    rw [insertEntry]
    split
    · exact List.Perm.refl _
    · rw [if_neg own.symm]
      exact ((ih others).cons head).trans (List.Perm.swap _ _ rest)

/-- An insertion of a key that is there changes nothing. -/
theorem insert_of_mem {map : StdMap κ α} {key : κ} (held : ∃ entry ∈ map.entries, entry.1 = key)
    (value : α) : (map.insert key value).entries = map.entries :=
  insertEntry_of_mem map.sorted held

/-- A map is given by its entries. -/
theorem eq_of_entries {map other : StdMap κ α} (same : map.entries = other.entries) :
    map = other := by
  cases map
  cases other
  cases same
  rfl

/-- A key that is not found has no entry. -/
theorem find?_eq_none {map : StdMap κ α} {key : κ} :
    map.find? key = none ↔ ∀ entry ∈ map.entries, entry.1 ≠ key := by
  unfold find?
  rw [Option.map_eq_none_iff, List.find?_eq_none]
  simp

/-- An insertion is found behind it, unless its key was there before. -/
theorem find?_insert (map : StdMap κ α) (key : κ) (value : α) (wanted : κ) :
    (map.insert key value).find? wanted =
      (map.find? wanted).or (if key = wanted then some value else none) := by
  refine Option.ext fun found => ?_
  rw [find?_eq_some, Option.or_eq_some_iff, find?_eq_none, find?_eq_some]
  by_cases held : ∃ entry ∈ map.entries, entry.1 = key
  · -- The map stays as it is, and has an entry for the key.
    rw [insert_of_mem held]
    refine ⟨.inl, ?_⟩
    rintro (old | ⟨fresh, new⟩)
    · exact old
    · obtain ⟨entry, member, same⟩ := held
      split at new
      · rename_i own
        exact (fresh entry member (same.trans own)).elim
      · cases new
  · have fresh : ∀ entry ∈ map.entries, entry.1 ≠ key :=
      fun entry member same => held ⟨entry, member, same⟩
    rw [insert, (insertEntry_perm fresh).mem_iff, List.mem_cons, Prod.mk.injEq]
    constructor
    · rintro (⟨rfl, rfl⟩ | old)
      · exact .inr ⟨fresh, if_pos rfl⟩
      · exact .inl old
    · rintro (old | ⟨_, new⟩)
      · exact .inr old
      · split at new
        · rename_i own
          cases new
          exact .inl ⟨own.symm, rfl⟩
        · cases new

/-- Of entries inserted one after the other, the first one of a key is found. -/
theorem find?_foldl_insert (pairs : List (κ × α)) (wanted : κ) : ∀ map : StdMap κ α,
    (pairs.foldl (fun map pair => map.insert pair.1 pair.2) map).find? wanted =
      (map.find? wanted).or ((pairs.find? fun pair => pair.1 = wanted).map Prod.snd) := by
  -- A pair inserted later does not replace an earlier one, wherever that came from.
  induction pairs with
  | nil =>
    intro map
    rw [List.foldl_nil, List.find?_nil, Option.map_none, Option.or_none]
  | cons pair rest ih =>
    intro map
    rw [List.foldl_cons, ih, find?_insert, Option.or_assoc, List.find?_cons]
    by_cases own : pair.1 = wanted
    · simp [own]
    · simp [own]

section Losses

variable {ι β : Type} {key : ι → κ} {value : ι → α}

-- What an entry of the map holds, and what the item it was made from did.
variable {within : κ × α → List β} {given : ι → List β}

/-- The insertion of an entry whose key is not there adds what the entry holds. -/
theorem flatMap_insert_of_fresh (within : κ × α → List β) {map : StdMap κ α} {wanted : κ}
    (fresh : ¬ ∃ entry ∈ map.entries, entry.1 = wanted) (content : α) :
    ((map.insert wanted content).entries.flatMap within).Perm
      (map.entries.flatMap within ++ within (wanted, content)) := by
  have placed : (map.insert wanted content).entries.Perm ((wanted, content) :: map.entries) :=
    insertEntry_perm fun entry member same => fresh ⟨entry, member, same⟩
  exact (placed.flatMap_right within).trans List.perm_append_comm

/-- The keys behind an insertion are those before it and the one inserted. -/
theorem held_insert (map : StdMap κ α) (wanted other : κ) (content : α) :
    (∃ entry ∈ (map.insert wanted content).entries, entry.1 = other) ↔
      (∃ entry ∈ map.entries, entry.1 = other) ∨ wanted = other := by
  have found := find?_insert map wanted content other
  -- A key is there exactly when it is found.
  have told : ∀ map : StdMap κ α,
      (∃ entry ∈ map.entries, entry.1 = other) ↔ map.find? other ≠ none := by
    intro map
    rw [ne_eq, find?_eq_none]
    push Not
    rfl
  rw [told, told, found]
  by_cases same : wanted = other
  · simp [same]
  · simp [same]

/-- Insertions never add more than the items inserted held. -/
theorem foldl_insert_subperm
    (part : ∀ item, (within (key item, value item)).Subperm (given item)) (items : List ι) :
    ∀ map : StdMap κ α,
      ((items.foldl (fun map item => map.insert (key item) (value item)) map).entries.flatMap
        within).Subperm (map.entries.flatMap within ++ items.flatMap given) := by
  -- The induction is on the items. One whose key is there already adds nothing at all.
  induction items with
  | nil =>
    intro map
    rw [List.flatMap_nil, List.append_nil]
    exact List.Subperm.refl _
  | cons item rest ih =>
    intro map
    rw [List.foldl_cons, List.flatMap_cons]
    refine (ih _).trans ?_
    rw [← List.append_assoc]
    refine (List.subperm_append_right _).mpr ?_
    by_cases held : ∃ entry ∈ map.entries, entry.1 = key item
    · rw [insert_of_mem held]
      exact (List.sublist_append_left _ _).subperm
    · refine (flatMap_insert_of_fresh within held _).subperm.trans ?_
      exact (List.subperm_append_left _).mpr (part item)

/--
Insertions add all that the items held exactly when no item with something in it comes too late.

Every item has to be stored whole, and one whose key was there before it has to hold nothing.
-/
theorem foldl_insert_perm_iff
    (part : ∀ item, (within (key item, value item)).Subperm (given item)) (items : List ι) :
    ∀ map : StdMap κ α,
      ((items.foldl (fun map item => map.insert (key item) (value item)) map).entries.flatMap
        within).Perm (map.entries.flatMap within ++ items.flatMap given) ↔
      (∀ item ∈ items, (within (key item, value item)).Perm (given item)) ∧
        (∀ item ∈ items, (∃ entry ∈ map.entries, entry.1 = key item) → given item = []) ∧
        items.Pairwise fun first later => key first = key later → given later = [] := by
  induction items with
  | nil =>
    intro map
    simp
  | cons item rest ih =>
    intro map
    rw [List.foldl_cons, List.flatMap_cons, List.forall_mem_cons, List.forall_mem_cons,
      List.pairwise_cons]
    have bounded := (foldl_insert_subperm part rest (map.insert (key item) (value item))).length_le
    by_cases held : ∃ entry ∈ map.entries, entry.1 = key item
    · rw [eq_of_entries (insert_of_mem held (value item))] at bounded ⊢
      constructor
      · -- The item adds nothing, so that it must not have held anything.
        intro all
        have lengths := all.length_eq
        simp only [List.length_append] at bounded lengths
        have none : given item = [] := List.length_eq_zero_iff.mp (by omega)
        rw [none, List.nil_append] at all
        obtain ⟨whole, timely, ordered⟩ := (ih map).mp all
        refine ⟨⟨?_, whole⟩, ⟨fun _ => none, timely⟩, ?_, ordered⟩
        · rw [none]
          exact (List.subperm_nil.mp (none ▸ part item)) ▸ List.Perm.refl _
        · intro later member same
          obtain ⟨entry, inside, own⟩ := held
          exact timely later member ⟨entry, inside, own.trans same⟩
      · rintro ⟨⟨_, whole⟩, ⟨late, timely⟩, _, ordered⟩
        rw [late held, List.nil_append]
        exact (ih map).mpr ⟨whole, timely, ordered⟩
    · have placed := flatMap_insert_of_fresh within held (value item)
      have keys := fun other => held_insert map (key item) other (value item)
      constructor
      · -- The items behind it add at most what they held, so that it has to be stored whole.
        intro all
        have lengths := all.length_eq
        have added := placed.length_eq
        simp only [List.length_append] at bounded lengths added
        have own : (within (key item, value item)).Perm (given item) :=
          (part item).perm_of_length_le (by omega)
        have behind := all.trans (List.append_assoc _ _ _ ▸
          ((placed.trans (own.append_left _)).symm.append_right (rest.flatMap given)))
        obtain ⟨whole, timely, ordered⟩ := (ih _).mp behind
        refine ⟨⟨own, whole⟩, ⟨fun there => (held there).elim, ?_⟩, ?_, ordered⟩
        · exact fun later member there => timely later member ((keys _).mpr (.inl there))
        · exact fun later member same => timely later member ((keys _).mpr (.inr same))
      · -- Its key is there from now on, so that a later item of that key has to hold nothing.
        rintro ⟨⟨own, whole⟩, ⟨_, timely⟩, later, ordered⟩
        rw [← List.append_assoc]
        refine ((ih _).mpr ⟨whole, ?_, ordered⟩).trans
          ((placed.trans (own.append_left _)).append_right _)
        intro other member there
        rcases (keys _).mp there with before | same
        · exact timely other member before
        · exact later other member same

variable (key value within given)

/-- The keys behind insertions are those before them and the ones inserted. -/
theorem held_foldl_insert (items : List ι) (wanted : κ) : ∀ map : StdMap κ α,
    (∃ entry ∈ (items.foldl (fun map item => map.insert (key item) (value item)) map).entries,
      entry.1 = wanted) ↔
      (∃ entry ∈ map.entries, entry.1 = wanted) ∨ ∃ item ∈ items, key item = wanted := by
  -- Each insertion adds the one key to those that are held.
  induction items with
  | nil =>
    intro map
    simp
  | cons item rest ih =>
    intro map
    rw [List.foldl_cons, ih, held_insert, List.exists_mem_cons_iff, or_assoc]

/-- A map made of items holds at most what they held. -/
theorem built_subperm (part : ∀ item, (within (key item, value item)).Subperm (given item))
    (items : List ι) :
    ((items.foldl (fun map item => map.insert (key item) (value item)) empty).entries.flatMap
      within).Subperm (items.flatMap given) :=
  foldl_insert_subperm part items empty

/-- A map made of items holds all they held exactly when the late ones of a key held nothing. -/
theorem built_perm_iff (part : ∀ item, (within (key item, value item)).Subperm (given item))
    (items : List ι) :
    ((items.foldl (fun map item => map.insert (key item) (value item)) empty).entries.flatMap
      within).Perm (items.flatMap given) ↔
      (∀ item ∈ items, (within (key item, value item)).Perm (given item)) ∧
        items.Pairwise fun first later => key first = key later → given later = [] := by
  refine (foldl_insert_perm_iff part items empty).trans ?_
  -- No key is there before the first insertion.
  refine and_congr_right fun _ => and_iff_right ?_
  intro item _ held
  obtain ⟨entry, member, _⟩ := held
  cases member

end Losses

end StdMap

end AndroidApps
