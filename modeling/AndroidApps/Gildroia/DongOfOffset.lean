import AndroidApps.Gildroia.HoPositionLaws
import AndroidApps.Lib.Halving
import Mathlib.Order.Bounds.Basic

/-! Which law dongs `FindDongOfOffset` finds: those whose index is a sum of halvings of the size. -/

namespace AndroidApps.Gildroia

/-- `FindDongOfOffset`, when only the code of the dong is asked for. -/
def SearchHelper.findDongCode (fuel : Nat) (helper : SearchHelper) (ofs : Nat) : Option Nat :=
  (findDongEntry fuel helper.ldCodeOffset ofs).map Prod.snd

section Descent

/-- The halved steps never pass the target. -/
theorem descend_le (nSize : Nat) : ∀ target, descend nSize target ≤ target := by
  -- Each step is taken only if it fits into what is left.
  induction nSize using Nat.strongRecOn with
  | ind nSize ih =>
    intro target
    rcases Nat.eq_zero_or_pos nSize with rfl | positive
    · rw [descend_zero]
      exact Nat.zero_le _
    · by_cases fits : nSize ≤ target
      · have rest := ih (nSize / 2) (by omega) (target - nSize)
        rw [descend_take positive fits]
        omega
      · rw [descend_skip positive (by omega)]
        exact ih (nSize / 2) (by omega) target

/-- The steps taken are some of the halvings. -/
theorem descend_isHalvingSum (nSize : Nat) :
    ∀ target, IsHalvingSum nSize (descend nSize target) := by
  -- The induction is on the size, and each step either takes the halving or leaves it out.
  induction nSize using Nat.strongRecOn with
  | ind nSize ih =>
    intro target
    rcases Nat.eq_zero_or_pos nSize with rfl | positive
    · rw [descend_zero, isHalvingSum_zero]
    · rw [isHalvingSum_pos positive]
      by_cases fits : nSize ≤ target
      · refine .inr ?_
        rw [descend_take positive fits, Nat.add_sub_cancel_left]
        exact ⟨Nat.le_add_right _ _, ih (nSize / 2) (by omega) _⟩
      · refine .inl ?_
        rw [descend_skip positive (by omega)]
        exact ih (nSize / 2) (by omega) target

/-- No sum of halvings between the place reached and the target is left out. -/
theorem le_descend (nSize : Nat) : ∀ {target total}, IsHalvingSum nSize total → total ≤ target →
    total ≤ descend nSize target := by
  -- A sum that does without a step that fits is smaller than this step alone.
  induction nSize using Nat.strongRecOn with
  | ind nSize ih =>
    intro target total sum low
    rcases Nat.eq_zero_or_pos nSize with rfl | positive
    · rw [isHalvingSum_zero.mp sum]
      exact Nat.zero_le _
    · by_cases fits : nSize ≤ target
      · rw [descend_take positive fits]
        rcases (isHalvingSum_pos positive).mp sum with without | ⟨_, rest⟩
        · have := without.lt positive
          omega
        · have := ih (nSize / 2) (by omega) rest (Nat.sub_le_sub_right low nSize)
          omega
      · rw [descend_skip positive (by omega)]
        rcases (isHalvingSum_pos positive).mp sum with without | ⟨taken, _⟩
        · exact ih (nSize / 2) (by omega) without low
        · omega

/-- The halved steps reach the greatest sum of halvings that is not above the target. -/
theorem descend_isGreatest (nSize target : Nat) :
    IsGreatest {total | IsHalvingSum nSize total ∧ total ≤ target} (descend nSize target) :=
  ⟨⟨descend_isHalvingSum nSize target, descend_le nSize target⟩,
    fun _ ⟨sum, low⟩ => le_descend nSize sum low⟩

/-- They reach a target exactly when it is such a sum itself. -/
theorem descend_eq_iff {nSize target : Nat} :
    descend nSize target = target ↔ IsHalvingSum nSize target := by
  -- The steps never pass a target, and reach every sum of halvings below it.
  constructor
  · intro reached
    have sum := descend_isHalvingSum nSize target
    rwa [reached] at sum
  · intro sum
    exact Nat.le_antisymm (descend_le nSize target) (le_descend nSize sum (Nat.le_refl _))

end Descent

section Table

variable {table : List (Nat × Nat)} {ofs : Nat}

/-- Whatever the table lists, the loop ends at one of its entries. -/
theorem findDong_settles (nSize : Nat) : ∀ left right, left + 2 * nSize ≤ table.length →
    left < table.length →
      ∃ index, index < table.length ∧
        Loop.Ends (findDongPass table ofs) ⟨nSize, left, right, left + nSize⟩ table[index]? := by
  -- The step is halved in each pass, so the steps to come are less than the present one.
  induction nSize using Nat.strongRecOn with
  | ind nSize ih =>
    intro left right inside bound
    by_cases more : left < right
    · have probed : table[left + nSize]? = some table[left + nSize] :=
        List.getElem?_eq_getElem (by omega)
      by_cases below : ofs > table[left + nSize].1
      · have pass := findDongPass_right
          (show (⟨nSize, left, right, left + nSize⟩ : DongSearch).left < right from more) probed
          below
        by_cases last : nSize / 2 = 0
        · exact ⟨left + nSize, by omega, Loop.ends_leave (pass.trans (if_pos last))⟩
        · obtain ⟨index, listed, ended⟩ :=
            ih (nSize / 2) (by omega) (left + nSize) right (by omega) (by omega)
          exact ⟨index, listed, (Loop.ends_continue (pass.trans (if_neg last))).mpr ended⟩
      · have pass := findDongPass_left
          (show (⟨nSize, left, right, left + nSize⟩ : DongSearch).left < right from more) probed
          below
        by_cases last : nSize / 2 = 0
        · exact ⟨left, bound, Loop.ends_leave (pass.trans (if_pos last))⟩
        · obtain ⟨index, listed, ended⟩ :=
            ih (nSize / 2) (by omega) left (left + nSize) (by omega) bound
          exact ⟨index, listed, (Loop.ends_continue (pass.trans (if_neg last))).mpr ended⟩
    · refine ⟨left, bound, Loop.ends_leave ?_⟩
      exact if_neg more

/-- With enough passes the search settles on an entry of any table that has one. -/
theorem findDongEntry_settles (filled : table ≠ []) (ofs : Nat) :
    ∃ entry ∈ table, ∃ enough, ∀ fuel, enough ≤ fuel →
      findDongEntry fuel table ofs = some entry := by
  -- The search stays inside the table, so that there is an entry where it settles.
  have some := List.length_pos_iff.mpr filled
  obtain ⟨index, listed, enough, ran⟩ : ∃ index, index < table.length ∧
      Loop.Ends (findDongPass table ofs)
        ⟨table.length / 2, 0, table.length - 1, 0 + table.length / 2⟩ table[index]? :=
    findDong_settles (table.length / 2) 0 (table.length - 1) (by omega) some
  refine ⟨table[index], List.getElem_mem listed, enough, ?_⟩
  intro fuel longer
  rw [Nat.zero_add] at ran
  rw [findDongEntry, if_neg filled]
  simp only [Loop.run_mono ran longer, Option.join_some, List.getElem?_eq_getElem listed]

/-- The greatest entry below an offset has all others below it in front of it. -/
theorem belowUpTo_of_greatest {target : Nat} {entry : Nat × Nat}
    (sorted : table.Pairwise fun first second => first.1 < second.1)
    (listed : table[target]? = some entry) (below : entry.1 < ofs)
    (greatest : ∀ other ∈ table, other.1 < ofs → other.1 ≤ entry.1) :
    BelowUpTo table ofs target := by
  have ordered := List.pairwise_iff_getElem.mp sorted
  obtain ⟨targetBound, rfl⟩ := List.getElem?_eq_some_iff.mp listed
  intro i other found
  obtain ⟨bound, rfl⟩ := List.getElem?_eq_some_iff.mp found
  rcases Nat.lt_trichotomy i target with before | same | behind
  · have := ordered i target bound targetBound before
    omega
  · subst same
    omega
  · -- An entry behind it is greater, so it cannot be below the offset as well.
    have larger := ordered target i targetBound bound behind
    have above : ¬ table[i].1 < ofs := fun low =>
      absurd (greatest _ (List.getElem_mem bound) low) (Nat.not_le.mpr larger)
    omega

end Table

section Dongs

variable {helper : SearchHelper} {ofs : Nat} {entry : Nat × Nat}

/-- The record of the dong at an offset, as it is stored. -/
def dongRecordAt (data : List UInt8) (offset : Nat) : DongDataF :=
  DongDataF.decode (bytesAt data offset 18)

/-- `FindDongOfOffset` comes back with the code of an entry, and with its record if asked for. -/
def FindsDong (helper : SearchHelper) (ofs : Nat) (entry : Nat × Nat) : Prop :=
  ∃ enough, ∀ fuel, enough ≤ fuel →
    helper.findDongCode fuel ofs = some entry.2 ∧
    ∀ dongDataF, ∃ next, helper.findDongOfOffset fuel ofs dongDataF =
      some (entry.2, dongRecordAt helper.fp.data entry.1, next)

/-- An entry with the code and the record of another one. -/
def SameDong (data : List UInt8) (entry other : Nat × Nat) : Prop :=
  entry.2 = other.2 ∧ dongRecordAt data entry.1 = dongRecordAt data other.1

/-- What comes back is the code and the record of the entry the search settles on. -/
theorem findsDong_iff_same {settled : Nat × Nat}
    (inside : settled.1 + 18 ≤ helper.fp.data.length)
    (settles : ∃ enough, ∀ fuel, enough ≤ fuel →
      findDongEntry fuel helper.ldCodeOffset ofs = some settled) :
    FindsDong helper ofs entry ↔ SameDong helper.fp.data settled entry := by
  obtain ⟨enough, settles⟩ := settles
  have answers : ∀ fuel, enough ≤ fuel →
      helper.findDongCode fuel ofs = some settled.2 ∧
      ∀ dongDataF, ∃ next, helper.findDongOfOffset fuel ofs dongDataF =
        some (settled.2, dongRecordAt helper.fp.data settled.1, next) := by
    intro fuel longer
    refine ⟨by rw [SearchHelper.findDongCode, settles fuel longer, Option.map_some], ?_⟩
    intro dongDataF
    obtain ⟨next, looked, _⟩ := findDongOfOffset_eq (settles fuel longer) inside dongDataF
    exact ⟨next, looked⟩
  constructor
  · rintro ⟨more, finds⟩
    -- With enough passes for both, the two answers are the same.
    obtain ⟨code, filled⟩ := finds (max enough more) (Nat.le_max_right _ _)
    obtain ⟨ownCode, ownFilled⟩ := answers (max enough more) (Nat.le_max_left _ _)
    obtain ⟨next, looked⟩ := filled ⟨0, 0, 0, 0, 0, 0, 0⟩
    obtain ⟨ownNext, ownLooked⟩ := ownFilled ⟨0, 0, 0, 0, 0, 0, 0⟩
    rw [ownCode] at code
    rw [ownLooked] at looked
    simp only [Option.some.injEq, Prod.mk.injEq] at code looked
    exact ⟨code, looked.2.1⟩
  · rintro ⟨code, record⟩
    refine ⟨enough, fun fuel longer => ?_⟩
    rw [← code, ← record]
    exact answers fuel longer

/-- The entry that the steps reach decides whether the dong of an offset is found. -/
theorem findsDong_iff_reached
    (sorted : helper.ldCodeOffset.Pairwise fun first second => first.1 < second.1)
    (stored : ∀ other ∈ helper.ldCodeOffset, other.1 + 18 ≤ helper.fp.data.length)
    {index : Nat} (listed : helper.ldCodeOffset[index]? = some entry) (below : entry.1 < ofs)
    (greatest : ∀ other ∈ helper.ldCodeOffset, other.1 < ofs → other.1 ≤ entry.1) :
    ∃ settled,
      helper.ldCodeOffset[descend (helper.ldCodeOffset.length / 2) index]? = some settled ∧
      (FindsDong helper ofs entry ↔ SameDong helper.fp.data settled entry) := by
  -- The search settles on the entry that the steps reach, whether it is the right one or not.
  have bound := (List.getElem?_eq_some_iff.mp listed).1
  have reached := Nat.lt_of_le_of_lt (descend_le (helper.ldCodeOffset.length / 2) index) bound
  have found := List.getElem?_eq_getElem reached
  have settles := findDongEntry_eq (belowUpTo_of_greatest sorted listed below greatest) bound
  rw [found] at settles
  exact ⟨_, found, findsDong_iff_same (stored _ (List.getElem_mem reached)) settles⟩

/--
`FindDongOfOffset` finds the dong of an offset exactly when the place its steps reach has it.

This place is the greatest sum of halvings of half the size that is not behind the dong.
So the dong is found if its index is such a sum, and otherwise only if its twin stands there.
-/
theorem findDongOfOffset_iff
    (sorted : helper.ldCodeOffset.Pairwise fun first second => first.1 < second.1)
    (stored : ∀ other ∈ helper.ldCodeOffset, other.1 + 18 ≤ helper.fp.data.length)
    {index : Nat} (listed : helper.ldCodeOffset[index]? = some entry) (below : entry.1 < ofs)
    (greatest : ∀ other ∈ helper.ldCodeOffset, other.1 < ofs → other.1 ≤ entry.1) :
    FindsDong helper ofs entry ↔
      ∃ reached settled,
        IsGreatest {total | IsHalvingSum (helper.ldCodeOffset.length / 2) total ∧ total ≤ index}
          reached ∧
        helper.ldCodeOffset[reached]? = some settled ∧
        SameDong helper.fp.data settled entry := by
  obtain ⟨own, found, finds⟩ := findsDong_iff_reached sorted stored listed below greatest
  have steps := descend_isGreatest (helper.ldCodeOffset.length / 2) index
  rw [finds]
  constructor
  · intro same
    exact ⟨_, _, steps, found, same⟩
  · rintro ⟨reached, settled, reaches, there, same⟩
    -- There is only one greatest sum.
    rw [reaches.unique steps, found, Option.some.injEq] at there
    exact there ▸ same

/-- The second of three dongs is found from a ho inside it. -/
theorem findDongOfOffset_second : FindsDong threeDongsHelper 60 (38, 2) := by
  have sum : IsHalvingSum (threeDongsHelper.ldCodeOffset.length / 2) 1 :=
    ⟨[1], by decide +kernel, rfl⟩
  have listed : threeDongsHelper.ldCodeOffset[1]? = some (38, 2) := rfl
  refine (findDongOfOffset_iff (by decide +kernel) (by decide +kernel) listed (by decide)
    (by decide +kernel)).mpr ⟨1, (38, 2), ?_, rfl, rfl, rfl⟩
  exact ⟨⟨sum, Nat.le_refl 1⟩, fun _ both => both.2⟩

/-- The third of three dongs is not found: the halvings of one only add up to one. -/
theorem findDongOfOffset_third :
    (threeDongsHelper.ldCodeOffset.Pairwise fun first second => first.1 < second.1) ∧
    (∀ other ∈ threeDongsHelper.ldCodeOffset,
      other.1 + 18 ≤ threeDongsHelper.fp.data.length) ∧
    threeDongsHelper.ldCodeOffset[2]? = some (67, 3) ∧ 67 < 89 ∧
    (∀ other ∈ threeDongsHelper.ldCodeOffset, other.1 < 89 → other.1 ≤ 67) ∧
    ¬ FindsDong threeDongsHelper 89 (67, 3) := by
  have listed : threeDongsHelper.ldCodeOffset[2]? = some (67, 3) := rfl
  have sorted : threeDongsHelper.ldCodeOffset.Pairwise fun first second => first.1 < second.1 := by
    decide +kernel
  have greatest : ∀ other ∈ threeDongsHelper.ldCodeOffset, other.1 < 89 → other.1 ≤ 67 := by
    decide +kernel
  refine ⟨sorted, by decide +kernel, listed, by decide, greatest, ?_⟩
  rintro ⟨enough, finds⟩
  -- The only step leads to the second dong, and the search stops there.
  obtain ⟨more, settles⟩ := findDongEntry_eq
    (belowUpTo_of_greatest sorted listed (by decide) greatest) (by decide)
  have short : descend 1 2 = 1 := by simp [descend]
  have settled := settles (max enough more) (Nat.le_max_right _ _)
  rw [show threeDongsHelper.ldCodeOffset.length / 2 = 1 by rfl, short] at settled
  obtain ⟨code, _⟩ := finds (max enough more) (Nat.le_max_left _ _)
  rw [SearchHelper.findDongCode, settled] at code
  exact absurd (Option.some.inj code) (by decide)

/-- If no two dongs have one code, all of them are found exactly in tables of a power of two. -/
theorem findDongOfOffset_all_iff (filled : helper.ldCodeOffset ≠ [])
    (sorted : helper.ldCodeOffset.Pairwise fun first second => first.1 < second.1)
    (stored : ∀ other ∈ helper.ldCodeOffset, other.1 + 18 ≤ helper.fp.data.length)
    (told : (helper.ldCodeOffset.map Prod.snd).Nodup) :
    (∀ ofs entry, entry ∈ helper.ldCodeOffset → entry.1 < ofs →
      (∀ other ∈ helper.ldCodeOffset, other.1 < ofs → other.1 ≤ entry.1) →
        FindsDong helper ofs entry) ↔
      ∃ k, helper.ldCodeOffset.length = 2 ^ k := by
  rw [← isHalvingSum_all_iff (List.length_pos_iff.mpr filled)]
  constructor
  · intro all index bound
    -- The first offset behind a dong has this dong as its greatest one below.
    have finds := all (helper.ldCodeOffset[index].1 + 1) _ (List.getElem_mem bound) (by omega)
      fun other _ low => Nat.le_of_lt_succ low
    obtain ⟨settled, there, iff⟩ := findsDong_iff_reached sorted stored
      (List.getElem?_eq_getElem bound) (Nat.lt_succ_self _) fun other _ low => Nat.le_of_lt_succ low
    obtain ⟨reached, rfl⟩ := List.getElem?_eq_some_iff.mp there
    obtain ⟨code, _⟩ := iff.mp finds
    -- The two entries have one code, so they are the same.
    have mapped : descend (helper.ldCodeOffset.length / 2) index <
        (helper.ldCodeOffset.map Prod.snd).length := by
      simpa using reached
    have own : index < (helper.ldCodeOffset.map Prod.snd).length := by simpa using bound
    have equal :
        (helper.ldCodeOffset.map Prod.snd)[descend (helper.ldCodeOffset.length / 2) index] =
        (helper.ldCodeOffset.map Prod.snd)[index] := by
      simpa using code
    exact descend_eq_iff.mp (told.getElem_inj_iff.mp equal)
  · intro all ofs entry member below greatest
    obtain ⟨index, bound, rfl⟩ := List.mem_iff_getElem.mp member
    have listed := List.getElem?_eq_getElem bound
    obtain ⟨settled, there, iff⟩ := findsDong_iff_reached sorted stored listed below greatest
    -- The steps lead to the dong itself.
    rw [descend_eq_iff.mpr (all index bound), listed, Option.some.injEq] at there
    exact iff.mpr (there ▸ ⟨rfl, rfl⟩)

end Dongs

end AndroidApps.Gildroia
