import AndroidApps.Gildroia.KeySearchLaws

/-! The one way in which an index search runs for ever: its upper bound wraps past zero. -/

namespace AndroidApps.Gildroia

section Wrap

variable {fp : File} {width : KeyWidth} {key offset recordSize cnt : Nat} {vars : SearchVars}

/--
Bounds that cannot wrap, whatever the file holds.

Only bounds zero and one lead to the wrap, and then only if the first key is larger.
-/
structure Tame (fp : File) (width : KeyWidth) (key offset recordSize cnt : Nat)
    (vars : SearchVars) : Prop where
  opened : vars.fp.data = fp.data
  small : vars.right < 2 ^ 31
  ordered : vars.left ≤ vars.right + 1
  middle : vars.mid = (vars.left + vars.right) / 2
  first : vars.left = 0 → ¬ Underflows vars.right ∨
    0 < cnt ∧ keyAt fp.data width offset recordSize 0 ≤ key

/-- Tame bounds stay tame and narrow in every pass that continues. -/
theorem Tame.pass (table : KeyTable fp.data width offset recordSize cnt)
    (tame : Tame fp width key offset recordSize cnt vars) {next : SearchVars}
    (continues : searchPass width key offset recordSize vars = .inl next) :
    Tame fp width key offset recordSize cnt next ∧
      next.right + 1 - next.left < vars.right + 1 - vars.left := by
  obtain ⟨opened, small, ordered, middle, first⟩ := tame
  rcases Nat.lt_trichotomy vars.left vars.right with more | met | crossed
  · rcases Nat.lt_trichotomy (vars.probe width offset recordSize vars.mid).1 key with
      smaller | same | larger
    · rw [searchPass_right more smaller] at continues
      cases continues
      rw [u32_of_lt (show vars.mid + 1 < 2 ^ 32 by omega),
        u32_of_lt (show vars.mid + 1 + vars.right < 2 ^ 32 by omega)]
      refine ⟨⟨by simpa using opened, small, by simp only; omega, rfl, ?_⟩, by simp only; omega⟩
      intro zero
      simp only at zero
      omega
    · rw [searchPass_found more same.symm] at continues
      cases continues
    · -- The middle is zero only at bounds zero and one, where the first record is read.
      have positive : 1 ≤ vars.mid := by
        by_contra below
        have zero : vars.mid = 0 := by omega
        have single : vars.right = 1 := by omega
        rcases first (by omega) with never | ⟨some, notAbove⟩
        · exact never (single ▸ underflows_one)
        · rw [zero, table.probe_listed opened some] at larger
          exact absurd notAbove (Nat.not_le.mpr larger)
      rw [searchPass_left more larger] at continues
      cases continues
      have exact : u32 (vars.mid + (2 ^ 32 - 1)) = vars.mid - 1 := by
        unfold u32
        omega
      rw [exact, u32_of_lt (show vars.left + (vars.mid - 1) < 2 ^ 32 by omega)]
      refine ⟨⟨by simpa using opened, by simp only; omega, by simp only; omega, rfl, ?_⟩,
        by simp only; omega⟩
      intro zero
      simp only at zero ⊢
      rcases first zero with never | notAbove
      · refine Or.inl ?_
        have half : vars.mid - 1 = vars.right / 2 - 1 := by omega
        rw [half, underflows_half (by omega)]
        exact never
      · exact Or.inr notAbove
  · rw [searchPass_last met] at continues
    cases continues
  · rw [searchPass_crossed crossed] at continues
    cases continues

/-- A search with tame bounds returns, whatever it reads. -/
theorem Tame.terminates (table : KeyTable fp.data width offset recordSize cnt)
    (tame : Tame fp width key offset recordSize cnt vars) :
    Loop.Terminates (searchPass width key offset recordSize) vars := by
  obtain ⟨result, ended, _⟩ := Loop.ends_of_variant
    (Tame fp width key offset recordSize cnt) (fun vars => vars.right + 1 - vars.left)
    (fun _ => True)
    (fun _ _ tame continues => tame.pass table continues) (fun _ _ _ _ => trivial) tame
  exact ⟨result, ended⟩

/-- The variables after the upper bound has wrapped at the first record. -/
def wrappedStart (fp : File) (width : KeyWidth) (offset recordSize : Nat) : SearchVars :=
  ⟨fp.moveTo (offset + width.bytes), 0, 2 ^ 32 - 1, 2 ^ 31 - 1,
    keyAt fp.data width offset recordSize 0⟩

/-- Below the whole table, underflowing bounds halve down to the first record and wrap there. -/
theorem reaches_wrapped (table : KeyTable fp.data width offset recordSize cnt)
    (smallest : ∀ i, i < cnt → key < keyAt fp.data width offset recordSize i) :
    ∀ right (vars : SearchVars), vars.fp.data = fp.data → vars.left = 0 → vars.right = right →
      vars.mid = right / 2 → right ≤ cnt → Underflows right →
      Loop.Reaches (searchPass width key offset recordSize) vars
        (wrappedStart fp width offset recordSize) := by
  have few := table.cnt_lt
  intro right
  induction right using Nat.strongRecOn with
  | ind right ih =>
    intro vars opened zero upper middle bounded wraps
    have positive : 1 ≤ right := by
      by_contra none
      exact not_underflows_zero ((show right = 0 by omega) ▸ wraps)
    have probed := table.probe_listed opened (show vars.mid < cnt by omega)
    have pass : searchPass width key offset recordSize vars = _ :=
      searchPass_left (by omega) (by rw [probed]; exact smallest _ (by omega))
    rw [probed, zero] at pass
    rcases Nat.lt_or_ge right 2 with single | several
    · -- The last halving step reads record zero, and subtracting one wraps.
      have last : vars.mid = 0 := by omega
      rw [last] at pass
      refine Relation.ReflTransGen.single (pass.trans ?_)
      simp [wrappedStart, u32, File.moveTo_eq_of_data opened]
    · have exact : u32 (vars.mid + (2 ^ 32 - 1)) = right / 2 - 1 := by
        unfold u32
        omega
      rw [exact, u32_of_lt (show 0 + (right / 2 - 1) < 2 ^ 32 by omega)] at pass
      refine Relation.ReflTransGen.head pass (ih (right / 2 - 1) (by omega) _ opened rfl rfl ?_
        (by omega) ((underflows_half several).mpr wraps))
      simp

/--
The reads a wrapped search makes while it only meets smaller keys, and that they all are smaller.

The record indices are powers of two less one, from `2 ^ count - 1` down to one.
-/
def ReadsBelow (width : KeyWidth) (key offset recordSize : Nat) : Nat → File → Nat → Prop
  | 0, _, _ => True
  | count + 1, fp, old =>
    let read := readKey width offset recordSize (2 ^ (count + 1) - 1) fp old
    read.1 < key ∧ ReadsBelow width key offset recordSize count read.2 read.1

instance decidableReadsBelow (width : KeyWidth) (key offset recordSize : Nat) :
    ∀ count fp old, Decidable (ReadsBelow width key offset recordSize count fp old)
  | 0, _, _ => .isTrue trivial
  | count + 1, _, _ =>
    @instDecidableAnd _ _ (Nat.decLt _ _)
      (decidableReadsBelow width key offset recordSize count _ _)

theorem not_underflows_pow : ¬ Underflows (2 ^ 31 - 2) := by
  -- The number would have to lie between two neighbouring powers of two.
  rintro ⟨level, low, high⟩
  have upper : 2 ^ level < 2 ^ 30 := by omega
  have lower : 2 ^ 29 < 2 ^ level := by omega
  have := (Nat.pow_lt_pow_iff_right (by decide : 1 < 2)).mp upper
  have := (Nat.pow_lt_pow_iff_right (by decide : 1 < 2)).mp lower
  omega

/-- Bounds two and the largest value keep reading record zero for ever. -/
theorem wrapped_diverges (table : KeyTable fp.data width offset recordSize cnt) (some : 0 < cnt)
    (smallest : key < keyAt fp.data width offset recordSize 0) (opened : vars.fp.data = fp.data)
    (lower : vars.left = 2) (upper : vars.right = 2 ^ 32 - 1) (middle : vars.mid = 0) :
    ¬ Loop.Terminates (searchPass width key offset recordSize) vars := by
  refine Loop.not_terminates_of_invariant (fun vars => vars.fp.data = fp.data ∧
    vars.left = 2 ∧ vars.right = 2 ^ 32 - 1 ∧ vars.mid = 0) ?_ ⟨opened, lower, upper, middle⟩
  rintro vars ⟨opened, lower, upper, middle⟩
  -- The key read there is larger, and one less than zero is the largest value again.
  have probed := table.probe_listed opened some
  have pass : searchPass width key offset recordSize vars = _ :=
    searchPass_left (by omega) (by rw [middle, probed]; exact smallest)
  refine ⟨_, pass, by simpa using opened, lower, ?_, ?_⟩
  · simp [middle, u32]
  · simp [middle, lower, u32]

/-- A wrapped search returns exactly when one of its reads is not smaller than the key. -/
theorem wrapped_terminates_iff (table : KeyTable fp.data width offset recordSize cnt)
    (some : 0 < cnt) (smallest : key < keyAt fp.data width offset recordSize 0) :
    ∀ count (vars : SearchVars), vars.fp.data = fp.data →
      (count < 31 ∧ vars.left = 2 ^ (count + 1) ∨ count = 31 ∧ vars.left = 0) →
      vars.right = 2 ^ 32 - 1 → vars.mid = 2 ^ count - 1 →
      (Loop.Terminates (searchPass width key offset recordSize) vars ↔
        ¬ ReadsBelow width key offset recordSize count vars.fp vars.nKeyValue) := by
  intro count
  induction count with
  | zero =>
    intro vars opened lower upper middle
    -- All reads were smaller, so the search is back at record zero.
    have two : vars.left = 2 := by omega
    exact iff_of_false
      (wrapped_diverges table some smallest opened two upper (by simpa using middle))
      (fun none => none trivial)
  | succ count ih =>
    intro vars opened lower upper middle
    have positive := Nat.one_le_two_pow (n := count)
    have double : 2 ^ (count + 1) = 2 * 2 ^ count := by ring
    have twice : 2 ^ (count + 1 + 1) = 4 * 2 ^ count := by ring
    have top : 2 ^ count ≤ 2 ^ 30 := Nat.pow_le_pow_right (by decide) (by omega)
    have half : count < 30 → 2 ^ count ≤ 2 ^ 29 := fun less =>
      Nat.pow_le_pow_right (by decide) (by omega)
    have more : vars.left < vars.right := by omega
    rw [ReadsBelow, ← middle]
    change _ ↔ ¬ ((vars.probe width offset recordSize vars.mid).1 < key ∧
      ReadsBelow width key offset recordSize count (vars.probe width offset recordSize vars.mid).2
        (vars.probe width offset recordSize vars.mid).1)
    rcases Nat.lt_trichotomy (vars.probe width offset recordSize vars.mid).1 key with
      smaller | same | larger
    · -- A smaller key moves the lower bound to the next power of two below.
      have pass := searchPass_right more smaller
      have next : u32 (vars.mid + 1) = 2 ^ (count + 1) := by
        unfold u32
        omega
      have again : u32 (2 ^ (count + 1) + vars.right) / 2 = 2 ^ count - 1 := by
        unfold u32
        omega
      rw [next, again] at pass
      have rest := ih
        ⟨(vars.probe width offset recordSize vars.mid).2, 2 ^ (count + 1), vars.right,
          2 ^ count - 1, (vars.probe width offset recordSize vars.mid).1⟩
        (by simpa using opened) (Or.inl ⟨by omega, rfl⟩) upper rfl
      refine (Loop.terminates_continue pass).trans (rest.trans (not_congr ?_))
      exact ⟨fun below => ⟨smaller, below⟩, fun both => both.2⟩
    · -- The key itself, though not one of the table, ends the search.
      have ended := Loop.ends_leave (searchPass_found more same.symm)
      exact iff_of_true ⟨_, ended⟩ (fun below => absurd below.1 (by omega))
    · -- A larger key moves the upper bound below the lower one, or leaves it one that never wraps.
      have pass := searchPass_left more larger
      have next : u32 (vars.mid + (2 ^ 32 - 1)) = 2 ^ (count + 1) - 2 := by
        unfold u32
        omega
      rw [next] at pass
      refine iff_of_true ?_ (fun below => absurd below.1 (by omega))
      rw [Loop.terminates_continue pass]
      rcases lower with ⟨less, power⟩ | ⟨start, zero⟩
      · exact ⟨_, Loop.ends_leave (searchPass_crossed (by simp only; omega))⟩
      · have last : count = 30 := by omega
        subst last
        refine Tame.terminates table ⟨by simpa using opened, by simp, by simp [zero], ?_,
          fun _ => Or.inl not_underflows_pow⟩
        simp [zero, u32]

/-- With a second record, one of the reads finds that record and is not smaller. -/
theorem not_readsBelow_two (table : KeyTable fp.data width offset recordSize cnt)
    (smallest : ∀ i, i < cnt → key < keyAt fp.data width offset recordSize i) (second : 2 ≤ cnt) :
    ∀ count (file : File) old, file.data = fp.data →
      ¬ ReadsBelow width key offset recordSize (count + 1) file old := by
  -- The last of the reads is at the second record, whatever the reads before it were.
  intro count
  induction count with
  | zero =>
    intro file old opened below
    have small := below.1
    have read : SearchVars.probe width offset recordSize ⟨file, 0, 0, 0, old⟩ 1 = _ :=
      table.probe_listed opened (by omega)
    rw [SearchVars.probe] at read
    rw [show 2 ^ (0 + 1) - 1 = 1 by rfl, read] at small
    exact absurd small (Nat.lt_asymm (smallest 1 (by omega)))
  | succ count ih =>
    intro file old opened below
    exact ih _ _ (by simpa [readKey] using opened) below.2

/-- The search that never returns: one record, a smaller key, and 31 smaller reads elsewhere. -/
def SearchHangs (fp : File) (width : KeyWidth) (key offset recordSize cnt : Nat) : Prop :=
  cnt = 1 ∧ key < keyAt fp.data width offset recordSize 0 ∧
    ReadsBelow width key offset recordSize 31 (fp.moveTo (offset + width.bytes))
      (keyAt fp.data width offset recordSize 0)

instance (fp : File) (width : KeyWidth) (key offset recordSize cnt : Nat) :
    Decidable (SearchHangs fp width key offset recordSize cnt) :=
  inferInstanceAs (Decidable (_ ∧ _ ∧ _))

/-- The search returns in every other case. -/
theorem searchReturns_iff_not_hangs (table : KeyTable fp.data width offset recordSize cnt)
    (key junk : Nat) :
    SearchReturns width junk fp key offset recordSize cnt ↔
      ¬ SearchHangs fp width key offset recordSize cnt := by
  rw [searchReturns_iff]
  have few := table.cnt_lt
  have start : (searchStart width fp cnt junk).mid = cnt / 2 := by
    simp only [searchStart, Nat.zero_add]
    rw [u32_of_lt (by omega)]
  by_cases wraps : Underflows cnt ∧ key < keyAt fp.data width offset recordSize 0
  · obtain ⟨wraps, smallest⟩ := wraps
    have some : 0 < cnt := by
      by_contra none
      exact not_underflows_zero ((show cnt = 0 by omega) ▸ wraps)
    -- The first key is the smallest, so the search wraps at it.
    have all : ∀ i, i < cnt → key < keyAt fp.data width offset recordSize i := by
      intro i listed
      rcases Nat.eq_zero_or_pos i with head | later
      · exact head ▸ smallest
      · exact Nat.lt_trans smallest (table.increasing 0 i later listed)
    have reached := reaches_wrapped table all cnt (searchStart width fp cnt junk) rfl rfl rfl start
      (Nat.le_refl _) wraps
    rw [reached.terminates_iff, wrapped_terminates_iff table some smallest 31
      (wrappedStart fp width offset recordSize) rfl (Or.inr ⟨rfl, rfl⟩) rfl rfl, not_iff_not]
    refine ⟨fun below => ⟨?_, smallest, below⟩, fun hangs => hangs.2.2⟩
    by_contra several
    exact not_readsBelow_two table all (by omega) 30
      (fp.moveTo (offset + width.bytes)) _ rfl below
  · -- Otherwise no bounds of this search can wrap.
    refine iff_of_true (Tame.terminates table ⟨rfl, few, Nat.zero_le _, ?_, fun _ => ?_⟩) ?_
    · simpa [searchStart] using start
    · rcases Nat.eq_zero_or_pos cnt with none | some
      · exact Or.inl (by simpa [searchStart, none] using not_underflows_zero)
      · by_cases halves : Underflows cnt
        · exact Or.inr ⟨some, Nat.not_lt.mp fun smaller => wraps ⟨halves, smaller⟩⟩
        · exact Or.inl halves
    · rintro ⟨single, smaller, _⟩
      exact wraps ⟨single ▸ underflows_one, smaller⟩

end Wrap

end AndroidApps.Gildroia
