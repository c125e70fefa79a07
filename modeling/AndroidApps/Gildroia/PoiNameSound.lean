import AndroidApps.Gildroia.ChosungCollisions
import AndroidApps.Gildroia.OnePoiFile

/-! For which queries every POI that is found has a matching name. -/

namespace AndroidApps.Gildroia

variable {pText : Nat → UInt16} {nLen : Nat}

/-- A name that agrees with a query cannot end where the query is still compared. -/
theorem le_length_of_agrees {name : List UInt16} {stale : Nat → UInt16}
    (plain : ∀ ch ∈ name, ch ≠ 0) (query : ∀ i, i < nLen → pText i ≠ 0)
    (agree : agreesUpTo pText (u16cpy stale name) nLen nLen)
    (coded : name.length < nLen → compared pText nLen name.length) : nLen ≤ name.length := by
  by_contra ended
  -- The terminator of the name would match a character of the query.
  have matched := agree name.length (by omega) (coded (by omega))
  rw [u16cpy_end plain] at matched
  exact query name.length (by omega) (charMatches_zero matched)

/-- A name that agrees where a matcher compares, and matches elsewhere, matches the query. -/
theorem matches_of_agrees {name : List UInt16} {stale : Nat → UInt16}
    (plain : ∀ ch ∈ name, ch ≠ 0) (long : nLen ≤ name.length)
    (agree : agreesUpTo pText (u16cpy stale name) nLen nLen)
    (rest : ∀ j, j < nLen → ¬ compared pText nLen j →
      charMatches (pText j) (u16cpy stale name j)) : Matches pText nLen name := by
  -- A place of the query is compared by the matcher or is one of the others.
  intro j below
  have inside : j < name.length := by omega
  refine ⟨name[j], List.getElem?_eq_getElem inside, ?_⟩
  rw [← show u16cpy stale name j = name[j] from u16cpy_of_lt plain inside]
  by_cases here : compared pText nLen j
  · exact agree j below here
  · exact rest j below here

/-- Without consonants in the first two places every position is compared. -/
theorem compared_of_complete
    (complete : ∀ place, place < 2 → place < nLen → isChosung (pText place) = false) {j : Nat}
    (below : j < nLen) : compared pText nLen j := by
  rcases Nat.lt_or_ge j 2 with low | high
  · exact Or.inr ⟨below, complete j low below⟩
  · exact Or.inl high

/-- What such a query inserts matches it, whatever the bytes that were read. -/
theorem Insertable.matches {nSidoIdx : Nat} {entry : List UInt16 × PoiHeader}
    (complete : ∀ place, place < 2 → place < nLen → isChosung (pText place) = false)
    (query : ∀ i, i < nLen → pText i ≠ 0) (inserted : Insertable nSidoIdx pText nLen entry) :
    Matches pText nLen entry.1 := by
  -- Every place of such a query is compared, so that nothing is taken on trust.
  obtain ⟨_, text, stale, name, agree⟩ := inserted
  rw [name]
  rw [← u16cpy_cString] at agree
  have long := le_length_of_agrees cString_plain query agree fun below =>
    compared_of_complete complete below
  exact matches_of_agrees cString_plain long agree fun j below skipped =>
    absurd (compared_of_complete complete below) skipped

/-- No name is longer than its five-bit length. -/
theorem nameOf_length_le (text : List UInt8) (info : PoiHeaderF) :
    (nameOf text info).length ≤ 31 := by
  have short : (nameOf text info).length ≤ (textAt text info.nameOfs).length :=
    (List.takeWhile_prefix _).length_le
  rw [textAt_length] at short
  omega

/--
The name of a POI collides with a query.

It has the code of the query and agrees with it wherever a matcher compares, and yet it does not
match.
-/
structure CollidesWith (text : List UInt8) (pText : Nat → UInt16) (nLen : Nat)
    (info : PoiHeaderF) : Prop where
  belongs : Belongs text (tranChosungText pText nLen) info
  agrees : agreesUpTo pText (fun j => (nameOf text info).getD j 0) nLen nLen
  differs : ¬ Matches pText nLen (nameOf text info)

section Names

variable {text : List UInt8} {info : PoiHeaderF}

/-- No character of a name is its terminator. -/
theorem nameOf_plain : ∀ ch ∈ nameOf text info, ch ≠ 0 := cString_plain

/-- A name with the code of a query is compared with it to the end. -/
theorem Belongs.long (belongs : Belongs text (tranChosungText pText nLen) info)
    (query : ∀ i, i < nLen → pText i ≠ 0) {stale : Nat → UInt16}
    (agree : agreesUpTo pText (u16cpy stale (nameOf text info)) nLen nLen) :
    nLen ≤ (nameOf text info).length := by
  -- The name has the coded characters, so its terminator is compared if the query goes on.
  have coded := belongs.1
  rw [tranChosungText_mod] at coded
  exact le_length_of_agrees nameOf_plain query agree fun below => Or.inl (by omega)

/-- A POI with the code of a query that agrees with it in some buffer matches it or collides. -/
theorem Belongs.matches_or_collides (belongs : Belongs text (tranChosungText pText nLen) info)
    (query : ∀ i, i < nLen → pText i ≠ 0) {stale : Nat → UInt16}
    (agree : agreesUpTo pText (u16cpy stale (nameOf text info)) nLen nLen) :
    Matches pText nLen (nameOf text info) ∨ CollidesWith text pText nLen info := by
  have long := belongs.long query agree
  by_cases matched : Matches pText nLen (nameOf text info)
  · exact Or.inl matched
  · exact Or.inr
      ⟨belongs, (agreesUpTo_u16cpy stale nameOf_plain (by omega)).mp agree, matched⟩

/-- A name that collides with a query agrees with it in every buffer. -/
theorem CollidesWith.alwaysAgrees (collides : CollidesWith text pText nLen info)
    (query : ∀ i, i < nLen → pText i ≠ 0) : AlwaysAgrees pText nLen (nameOf text info) := by
  have long : nLen ≤ (nameOf text info).length := by
    -- Behind the end of the name there would be a terminator to agree with.
    by_contra ended
    have coded := collides.belongs.1
    rw [tranChosungText_mod] at coded
    have matched := collides.agrees (nameOf text info).length (by omega) (Or.inl (by omega))
    simp only [List.getD_eq_getElem?_getD, List.getElem?_eq_none (Nat.le_refl _),
      Option.getD_none] at matched
    exact query _ (by omega) (charMatches_zero matched)
  exact fun stale => (agreesUpTo_u16cpy stale nameOf_plain (by omega)).mpr collides.agrees

/-- No name collides with an identified query. -/
theorem CodeTells.not_collides (tells : CodeTells pText nLen)
    (query : ∀ i, i < nLen → pText i ≠ 0) : ¬ CollidesWith text pText nLen info := by
  intro collides
  have agree := collides.alwaysAgrees query fun _ => 0
  have long := collides.belongs.long query agree
  obtain ⟨⟨coded, code⟩, agrees, differs⟩ := collides
  rw [tranChosungText_mod] at coded code
  have short : ¬ 31 < nLen := by
    have := nameOf_length_le text info
    omega
  have name : ∀ j, j < nLen →
      (nameOf text info).getD j 0 = u16cpy (fun _ => 0) (nameOf text info) j := by
    intro j below
    have inside : j < (nameOf text info).length := by omega
    rw [u16cpy_of_lt nameOf_plain inside, List.getD_eq_getElem?_getD,
      List.getElem?_eq_getElem inside, Option.getD_some]
  refine differs (matches_of_agrees nameOf_plain long agree ?_)
  intro j below skipped
  -- A position that is not compared is a consonant among the first two.
  have low : j < 2 := by
    by_contra high
    exact skipped (Or.inl (by omega))
  have consonant : isChosung (pText j) = true := by
    by_contra complete
    exact skipped (Or.inr ⟨below, by simpa using complete⟩)
  rw [charMatches, if_pos consonant, ← name j below]
  exact tells.consonant short code agrees low below consonant

/-- With a query that its code does not identify the query with one character replaced collides. -/
theorem exists_collision (short : nLen ≤ 31) (query : ∀ i, i < nLen → pText i ≠ 0)
    (collides : Collides pText nLen) : ∃ text info, CollidesWith text pText nLen info := by
  obtain ⟨place, ch, low, inside, consonant, nonzero, differs, code⟩ := collides
  obtain ⟨name, named⟩ : ∃ name : List UInt16, name = (List.range nLen).map
      (replaced pText place ch) := ⟨_, rfl⟩
  have length : name.length = nLen := by rw [named, List.length_map, List.length_range]
  have chars : ∀ i, i < nLen → name.getD i 0 = replaced pText place ch i := by
    intro i below
    rw [named, List.getD_eq_getElem?_getD, List.getElem?_map, List.getElem?_range below]
    rfl
  have plain : ∀ other ∈ name, other ≠ 0 := by
    intro other listed
    rw [named] at listed
    obtain ⟨i, ranged, here⟩ := List.mem_map.mp listed
    subst here
    by_cases same : i = place
    · rw [same, replaced_here]
      exact nonzero
    · rw [replaced_other same]
      exact query i (List.mem_range.mp ranged)
  have few : name.length ≤ 31 := by omega
  refine ⟨(nameFile name few).data, headerOf name, ⟨?_, ?_⟩, ?_, ?_⟩
  · rw [nameOf_headerOf few plain, tranChosungText_mod]
    omega
  · rw [nameOf_headerOf few plain, tranChosungText_mod, ← code]
    apply tranChosungText_congr (by omega)
    intro i below _
    rw [chars i (by omega)]
  · -- Only the replaced position differs, and it is not compared.
    rw [nameOf_headerOf few plain]
    intro j below here
    show charMatches (pText j) (name.getD j 0)
    have other : j ≠ place := by
      intro same
      subst same
      rcases here with late | ⟨_, complete⟩
      · omega
      · rw [consonant] at complete
        exact Bool.noConfusion complete
    rw [chars j below, replaced_other other]
    exact charMatches_self _
  · rw [nameOf_headerOf few plain]
    intro matched
    obtain ⟨other, here, same⟩ := matched place inside
    have value := chars place inside
    rw [List.getD_eq_getElem?_getD, here, Option.getD_some, replaced_here] at value
    rw [charMatches, if_pos consonant, value] at same
    exact differs same

/-- The queries that no name collides with are those that their code identifies. -/
theorem codeTells_iff (query : ∀ i, i < nLen → pText i ≠ 0) :
    (∀ text info, ¬ CollidesWith text pText nLen info) ↔ CodeTells pText nLen := by
  constructor
  · intro none
    by_contra fails
    have short : nLen ≤ 31 := by
      by_contra long
      exact fails (Or.inl (by omega))
    obtain ⟨text, info, collides⟩ :=
      exists_collision short query (collides_of_not_tells short fails)
    exact none text info collides
  · exact fun tells text info => tells.not_collides query

end Names

section Module

variable {locals : Nat → PoiNameLocals} {choCode : Nat} {text : List UInt8}

/-- What every search of a helper keeps true of all entries holds of the whole result. -/
theorem searchPoiNameFrom_forall {Good : List UInt16 × PoiHeader → Prop} {fuel : Nat} :
    ∀ {helpers : List SearchHelper} {first : Nat} {textMng : TextMng} {poiHeaders : PoiMap}
      {result : List SearchHelper × TextMng × PoiMap},
      searchPoiNameFrom locals fuel pText nLen choCode (checkCompletHangul pText nLen) first
        helpers textMng poiHeaders = some result →
      textMng.textFp.data = text →
      (∀ (place : Nat) (helper : SearchHelper), helpers[place]? = some helper →
        ∀ (textMng : TextMng) (poiHeaders : PoiMap) (one : PoiNameResult),
        textMng.textFp.data = text →
        helper.searchPoiName (locals (first + place)) fuel textMng (first + place) pText nLen
          choCode (checkCompletHangul pText nLen) poiHeaders = some one →
        (∀ entry ∈ poiHeaders, Good entry) → ∀ entry ∈ one.poiHeaders, Good entry) →
      (∀ entry ∈ poiHeaders, Good entry) → ∀ entry ∈ result.2.2, Good entry := by
  intro helpers
  induction helpers with
  | nil =>
    intro first textMng poiHeaders result searched _ _ good
    obtain rfl := Option.some.inj searched
    exact good
  | cons head rest ih =>
    intro first textMng poiHeaders result searched opened keeps good
    unfold searchPoiNameFrom at searched
    cases here : head.searchPoiName (locals first) fuel textMng first pText nLen choCode
      (checkCompletHangul pText nLen) poiHeaders with
    | none => simp [here] at searched
    | some one =>
      simp only [here] at searched
      cases later : searchPoiNameFrom locals fuel pText nLen choCode (checkCompletHangul pText nLen)
        (first + 1) rest one.textMng one.poiHeaders with
      | none => simp [later] at searched
      | some others =>
        rw [later] at searched
        obtain rfl := Option.some.inj searched
        -- The head keeps the entries good, and the rest starts from those.
        have mine := keeps 0 head rfl textMng poiHeaders one opened here good
        have others := ih later ((searchPoiName_adds here).1.trans opened) (by
          intro place helper installed
          rw [show first + 1 + place = first + (place + 1) by omega]
          exact keeps (place + 1) helper installed) mine
        exact others

/-- A module whose sido files all have a chosung index as promised, for these POIs. -/
def Indexed (um : UmSearchModule) (pois : Nat → Set PoiHeaderF) : Prop :=
  ∀ place helper, um.helpers[place]? = some helper →
    PoiIndex helper.fp.data um.textMng.textFp.data helper.poiHeader.poiChoIdxOfs
      helper.poiHeader.poiChoIdxCnt (pois place)

/-- The lookup of a code in a file reports nothing that the index does not list. -/
def LookupSound (helper : SearchHelper) (junk choCode : Nat) : Prop :=
  FindsListed helper.fp .u32 junk choCode helper.poiHeader.poiChoIdxOfs 12
    helper.poiHeader.poiChoIdxCnt

/--
The lookup of a code can only be unsound at the bytes around the index.

The code is below all of the index, at a size whose bound underflows, or it is above all of them
and the bytes behind the index pass for it.
-/
theorem PoiIndex.lookupSound {helper : SearchHelper} {pois : Set PoiHeaderF} {junk choCode : Nat}
    (index : PoiIndex helper.fp.data text helper.poiHeader.poiChoIdxOfs
      helper.poiHeader.poiChoIdxCnt pois)
    (tame : ¬ ((∀ i, i < helper.poiHeader.poiChoIdxCnt →
      choCode < keyAt helper.fp.data .u32 helper.poiHeader.poiChoIdxOfs 12 i) ∧
        Underflows helper.poiHeader.poiChoIdxCnt))
    (noStray : ¬ StrayHit helper.fp .u32 junk choCode helper.poiHeader.poiChoIdxOfs 12
      helper.poiHeader.poiChoIdxCnt) : LookupSound helper junk choCode :=
  index.table.findsListed tame noStray

/-- Every POI that a search inserts has a name matching the query. -/
def InsertsMatching (locals : Nat → PoiNameLocals) (um : UmSearchModule) (pText : Nat → UInt16)
    (nLen : Nat) : Prop :=
  ∀ fuel after, um.searchPoiName locals fuel pText nLen = some after →
    ∀ entry ∈ after.poiHeaders, Matches pText nLen entry.1

/-- Without consonants in the first two places nothing but matching POIs is inserted. -/
theorem insertsMatching_of_complete {um : UmSearchModule}
    (complete : ∀ place, place < 2 → place < nLen → isChosung (pText place) = false)
    (query : ∀ i, i < nLen → pText i ≠ 0) : InsertsMatching locals um pText nLen := by
  -- What is inserted was added by one of the helpers and agrees with the query.
  intro fuel after searched entry listed
  obtain ⟨result, ran, rfl⟩ := searchPoiName_ran searched
  obtain ⟨added, content, agreeing⟩ := searchPoiNameFrom_adds ran
  have member := content.mem_iff.mp listed
  rw [List.append_nil] at member
  exact (agreeing entry member).2.matches complete query

/-- A lookup that reports nothing but listed codes leads to a POI's bucket, or nowhere. -/
theorem LookupSound.record {helper : SearchHelper} {locals : PoiNameLocals} {fuel : Nat}
    (sound : LookupSound helper locals.nKeyValue choCode) {found : Nat × Int} {fp : File}
    (looked : findChosungOffsetPOI locals fuel helper.fp helper.poiHeader.poiChoIdxOfs
      helper.poiHeader.poiChoIdxCnt choCode = some (some found, fp)) :
    ∃ record, record < helper.poiHeader.poiChoIdxCnt ∧
      keyAt helper.fp.data .u32 helper.poiHeader.poiChoIdxOfs 12 record = choCode := by
  unfold findChosungOffsetPOI at looked
  split at looked
  · cases looked
  · cases looked
  · rename_i searched
    obtain ⟨record, listed, key, _⟩ := sound fuel _ searched
    exact ⟨record, listed, key⟩

/-- Where no POI collides with the query, one helper whose lookup is sound inserts matching POIs. -/
theorem PoiIndex.matching {helper : SearchHelper} {pois : Set PoiHeaderF}
    (index : PoiIndex helper.fp.data text helper.poiHeader.poiChoIdxOfs
      helper.poiHeader.poiChoIdxCnt pois)
    (none : ∀ info ∈ pois, ¬ CollidesWith text pText nLen info)
    (query : ∀ i, i < nLen → pText i ≠ 0) (nonempty : 0 < nLen) {locals : PoiNameLocals}
    (sound : LookupSound helper locals.nKeyValue (tranChosungText pText nLen))
    {fuel nSidoIdx : Nat} {textMng : TextMng} {poiHeaders : PoiMap}
    {one : PoiNameResult} (opened : textMng.textFp.data = text)
    (searched : helper.searchPoiName locals fuel textMng nSidoIdx pText nLen
      (tranChosungText pText nLen) (checkCompletHangul pText nLen) poiHeaders = some one)
    (good : ∀ entry ∈ poiHeaders, Matches pText nLen entry.1) :
    ∀ entry ∈ one.poiHeaders, Matches pText nLen entry.1 := by
  cases looked : findChosungOffsetPOI locals fuel helper.fp helper.poiHeader.poiChoIdxOfs
    helper.poiHeader.poiChoIdxCnt (tranChosungText pText nLen) with
  | none =>
    rw [SearchHelper.searchPoiName, looked] at searched
    cases searched
  | some outcome =>
    obtain ⟨found, fp⟩ := outcome
    cases found with
    | none =>
      -- Without a bucket nothing is inserted.
      rw [SearchHelper.searchPoiName, looked] at searched
      cases searched
      exact good
    | some found =>
      -- The bucket is that of a listed code, and so its POIs are those the index promises.
      obtain ⟨record, listed, key⟩ := sound.record looked
      have coded : tranChosungText pText nLen % 256 = 1 ∨
          tranChosungText pText nLen % 256 = 2 := by
        rw [tranChosungText_mod]
        omega
      have bucket := bucketOf_listed index.table listed key
      have belongs : ∀ info ∈ bucketAt helper.fp.data helper.poiHeader.poiChoIdxOfs record,
          info ∈ pois ∧ Belongs text (tranChosungText pText nLen) info := by
        intro info member
        rw [← bucket] at member
        exact (index.exact _ coded info).mp member
      obtain ⟨more, other, again, added, content, origin, _⟩ :=
        searchPoiName_listed index.table listed key (index.buckets record listed) opened
          fun info member => index.named info (belongs info member).1
      obtain rfl := (searchPoiName_final _ _ _ _ _ _ _ _ _).unique searched again
      intro entry member
      rcases List.mem_append.mp (content.mem_iff.mp member) with new | old
      · obtain ⟨⟨_, buffer, stale, name, agree⟩, info, held, same⟩ := origin entry new
        subst same
        rw [← u16cpy_cString, ← name] at agree
        obtain ⟨poi, own⟩ := belongs info held
        exact (own.matches_or_collides query agree).resolve_right (none info poi)
      · exact good entry old

/-- No POI of a file collides with a query. -/
def NoneCollides (um : UmSearchModule) (pois : Nat → Set PoiHeaderF) (pText : Nat → UInt16)
    (nLen : Nat) : Prop :=
  ∀ place helper, um.helpers[place]? = some helper → ∀ info ∈ pois place,
    ¬ CollidesWith um.textMng.textFp.data pText nLen info

/-- The lookup of a query reports nothing but listed codes in every file. -/
def LookupsSound (locals : Nat → PoiNameLocals) (um : UmSearchModule) (pText : Nat → UInt16)
    (nLen : Nat) : Prop :=
  ∀ place helper, um.helpers[place]? = some helper →
    LookupSound helper (locals place).nKeyValue (tranChosungText pText nLen)

/-- Where no POI collides with the query, sound lookups lead to nothing but matching POIs. -/
theorem insertsMatching_of_sound {um : UmSearchModule} {pois : Nat → Set PoiHeaderF}
    (indexed : Indexed um pois) (none : NoneCollides um pois pText nLen)
    (sound : LookupsSound locals um pText nLen) (query : ∀ i, i < nLen → pText i ≠ 0) :
    InsertsMatching locals um pText nLen := by
  intro fuel after searched
  rcases Nat.eq_zero_or_pos nLen with empty | nonempty
  · -- Any name matches the empty query.
    intro entry _ i below
    omega
  · obtain ⟨result, ran, rfl⟩ := searchPoiName_ran searched
    refine searchPoiNameFrom_forall ran rfl ?_ (fun entry member => absurd member List.not_mem_nil)
    intro place helper installed textMng poiHeaders one opened here good
    exact (indexed place helper installed).matching (none place helper installed) query nonempty
      (by simpa using sound place helper installed) opened here good

/-- A search that comes back has inserted the POIs that collide with its query. -/
theorem not_insertsMatching_of_collides {um : UmSearchModule} {pois : Nat → Set PoiHeaderF}
    (indexed : Indexed um pois) (query : ∀ i, i < nLen → pText i ≠ 0)
    (quiet : ∀ helper ∈ um.helpers, ¬ LookupHangs helper pText nLen) {place : Nat}
    {helper : SearchHelper} (installed : um.helpers[place]? = some helper) {info : PoiHeaderF}
    (poi : info ∈ pois place) (collides : CollidesWith um.textMng.textFp.data pText nLen info) :
    ¬ InsertsMatching locals um pText nLen := by
  intro matching
  have nonempty : 0 < nLen := by
    by_contra empty
    exact collides.differs fun i below => by omega
  have index := indexed place helper installed
  have returns : ∃ fuel after, um.searchPoiName locals fuel pText nLen = some after := by
    refine (searchPoiName_allReturn fun other member => ?_).mpr quiet
    obtain ⟨own, here⟩ := List.mem_iff_getElem?.mp member
    exact (indexed own other here).table
  obtain ⟨fuel, after, searched⟩ := returns
  obtain ⟨result, ran, rfl⟩ := searchPoiName_ran searched
  -- The POI is inserted as often as its bucket has it, and that is at least once.
  have counted : result.2.2.count (nameOf um.textMng.textFp.data info, ⟨0 + place, info⟩) =
      (bucketOf helper.fp.data helper.poiHeader.poiChoIdxOfs helper.poiHeader.poiChoIdxCnt
        (tranChosungText pText nLen)).count info + _ :=
    searchPoiNameFrom_count ran rfl installed (by
      intro textMng poiHeaders one opened here
      rw [Nat.zero_add] at here ⊢
      exact index.count nonempty poi collides.belongs (collides.alwaysAgrees query) opened here)
  have coded : tranChosungText pText nLen % 256 = 1 ∨ tranChosungText pText nLen % 256 = 2 := by
    rw [tranChosungText_mod]
    omega
  have held := List.count_pos_iff.mpr ((index.exact _ coded info).mpr ⟨poi, collides.belongs⟩)
  have listed : (nameOf um.textMng.textFp.data info, ⟨0 + place, info⟩) ∈ result.2.2 := by
    rw [← List.count_pos_iff, counted]
    omega
  exact collides.differs (matching fuel _ searched _ listed)

end Module

section Counterexamples

/-- The uninitialised variables of a search whose name buffer holds the given characters. -/
def staleLocals (strName : Nat → UInt16) : PoiNameLocals :=
  ⟨0, 0, 0, strName, ⟨0, 0, 0, 0, 0⟩⟩

/--
A POI that the lookup leads to, and whose name agrees with the query without matching it,
is inserted into the result of a module with nothing but its file.
-/
theorem not_insertsMatching {fp textFp : File} {choIdxOfs choIdxCnt fuel : Nat}
    {info : PoiHeaderF} {strName : Nat → UInt16} {file : File}
    (found : findChosungOffsetPOI (staleLocals strName) fuel fp choIdxOfs choIdxCnt
      (tranChosungText pText nLen) = some (some (0, 1), file))
    (same : file.data = fp.data) (inside : 8 ≤ fp.data.length)
    (header : PoiHeaderF.decode (bytesAt fp.data 0 8) = info)
    (named : TextInside textFp.data info.nameOfs)
    (agree : agreesUpTo pText (u16cpy strName (nameOf textFp.data info)) nLen nLen)
    (differs : ¬ Matches pText nLen (nameOf textFp.data info)) :
    ¬ InsertsMatching (fun _ => staleLocals strName)
      (bareModule [bareHelper fp choIdxOfs choIdxCnt] textFp) pText nLen := by
  -- The module has one helper, and its search returns with the POI in the result.
  intro matching
  have single : ∃ result, (bareHelper fp choIdxOfs choIdxCnt).searchPoiName (staleLocals strName)
      fuel (bareTextMng textFp) 0 pText nLen (tranChosungText pText nLen)
        (checkCompletHangul pText nLen) [] = some result ∧ _ :=
    searchPoiName_single found same inside header named agree
  obtain ⟨result, searched, content⟩ := single
  have ran : (bareModule [bareHelper fp choIdxOfs choIdxCnt] textFp).searchPoiName
      (fun _ => staleLocals strName) fuel pText nLen =
        some ⟨[result.helper], result.textMng, [], [], result.poiHeaders⟩ := by
    simp only [UmSearchModule.searchPoiName, bareModule, searchPoiNameFrom, searched]
  refine differs (matching fuel _ ran (nameOf textFp.data info, ⟨0, info⟩) ?_)
  show _ ∈ result.poiHeaders
  rw [content]
  exact List.mem_cons_self

/-- A module with one helper has its index as promised when the file of that helper has. -/
theorem indexed_single {fp textFp : File} {choIdxOfs choIdxCnt : Nat} {pois : Set PoiHeaderF}
    (index : PoiIndex fp.data textFp.data choIdxOfs choIdxCnt pois) :
    Indexed (bareModule [bareHelper fp choIdxOfs choIdxCnt] textFp) fun _ => pois := by
  -- There is no helper at any other place.
  intro place helper installed
  cases place with
  | zero =>
    obtain rfl := Option.some.inj installed
    exact index
  | succ place => simp [bareModule] at installed

/-- In a file without POIs, a query with an early consonant may find bytes that follow the index. -/
theorem exists_stray_positive {place : Nat} (low : place < 2) (inside : place < nLen)
    (query : ∀ i, i < nLen → pText i ≠ 0) (consonant : isChosung (pText place) = true) :
    ∃ um pois, Indexed um pois ∧ ¬ InsertsMatching (fun _ => staleLocals pText) um pText nLen := by
  -- What is taken for a POI is named like the part of the query before the consonant.
  obtain ⟨name, named⟩ : ∃ name : List UInt16, name = (List.range place).map pText := ⟨_, rfl⟩
  have length : name.length = place := by rw [named, List.length_map, List.length_range]
  have plain : ∀ other ∈ name, other ≠ 0 := by
    intro other listed
    rw [named] at listed
    obtain ⟨i, ranged, here⟩ := List.mem_map.mp listed
    subst here
    exact query i (by have := List.mem_range.mp ranged; omega)
  have few : name.length ≤ 31 := by omega
  have small := tranChosungText_lt pText nLen
  have word : ∀ index (within : index < [tranChosungText pText nLen, 0, 1].length),
      [tranChosungText pText nLen, 0, 1][index] < 2 ^ 32 →
      wordAt (headedFile name [tranChosungText pText nLen, 0, 1] (by simp)).data
        (8 + index * 4) 4 = [tranChosungText pText nLen, 0, 1][index] :=
    fun index within fits => headedFile_word _ within fits
  have size : (headedFile name [tranChosungText pText nLen, 0, 1] (by simp)).data.length = 20 := by
    simp [headedFile]
  have index : PoiIndex (headedFile name [tranChosungText pText nLen, 0, 1] (by simp)).data
      (nameFile name few).data 8 0 ∅ := by
    refine ⟨⟨by decide, by rw [size]; omega, fun i j _ listed => by omega⟩,
      fun i listed => by omega, ?_, fun info poi => absurd poi (Set.notMem_empty info)⟩
    intro choCode _ info
    exact iff_of_false List.not_mem_nil fun both => absurd both.1 (Set.notMem_empty info)
  refine ⟨bareModule [bareHelper (headedFile name [tranChosungText pText nLen, 0, 1] (by simp)) 8 0]
    (nameFile name few), _, indexed_single index, ?_⟩
  have found := findChosungOffsetPOI_empty (staleLocals pText)
    (show 8 + 12 ≤ (headedFile name [tranChosungText pText nLen, 0, 1] (by simp)).data.length by
      rw [size]) (word 0 (by simp) small)
  rw [show wordAt (headedFile name [tranChosungText pText nLen, 0, 1] (by simp)).data (8 + 4) 4 = 0
      from word 1 (by simp) (by decide : 0 < 2 ^ 32),
    show wordAt (headedFile name [tranChosungText pText nLen, 0, 1] (by simp)).data (8 + 8) 4 = 1
      from word 2 (by simp) (by decide : 1 < 2 ^ 32)] at found
  refine not_insertsMatching found rfl (by rw [size]; omega) (headedFile_header _ few)
    (headerOf_inside name few) ?_ ?_
  · -- The stale buffer behind the name happens to hold the rest of the query.
    rw [nameOf_headerOf few plain]
    intro j below here
    have value : u16cpy pText name j = pText j := by
      rcases Nat.lt_trichotomy j place with before | same | behind
      · rw [u16cpy_of_lt plain (by omega)]
        simp [named]
      · subst same
        rcases here with late | ⟨_, complete⟩
        · omega
        · rw [consonant] at complete
          exact Bool.noConfusion complete
      · exact u16cpy_stale plain (by omega)
    rw [value]
    exact charMatches_self _
  · rw [nameOf_headerOf few plain]
    intro matched
    obtain ⟨ch, here, _⟩ := matched place inside
    rw [List.getElem?_eq_none (by omega)] at here
    cases here

end Counterexamples

/--
A search that is safe from false positives.

No POI of the files collides with the query, and the first two characters are complete or the
lookups are sound. A search that hangs in some file returns nothing at all.
-/
def SafeQuery (locals : Nat → PoiNameLocals) (um : UmSearchModule) (pois : Nat → Set PoiHeaderF)
    (pText : Nat → UInt16) (nLen : Nat) : Prop :=
  (∃ helper ∈ um.helpers, LookupHangs helper pText nLen) ∨
    NoneCollides um pois pText nLen ∧
      ((∀ place, place < 2 → place < nLen → isChosung (pText place) = false) ∨
        LookupsSound locals um pText nLen)

/--
A safe search inserts POIs with matching names only.

If the lookups of its query are sound, that is so exactly for the searches that are safe.
-/
theorem searchPoiName_matching (locals : Nat → PoiNameLocals) (um : UmSearchModule)
    (pois : Nat → Set PoiHeaderF) (indexed : Indexed um pois) (pText : Nat → UInt16) (nLen : Nat)
    (query : ∀ i, i < nLen → QueryChar (pText i)) :
    (SafeQuery locals um pois pText nLen → InsertsMatching locals um pText nLen) ∧
    (LookupsSound locals um pText nLen →
      (InsertsMatching locals um pText nLen ↔ SafeQuery locals um pois pText nLen)) := by
  have plain : ∀ i, i < nLen → pText i ≠ 0 := fun i below => (query i below).ne_zero
  have safe : SafeQuery locals um pois pText nLen → InsertsMatching locals um pText nLen := by
    rintro (⟨helper, member, hangs⟩ | ⟨none, complete | sound⟩)
    · -- Where one lookup hangs, the whole search does.
      intro fuel after searched
      refine absurd hangs ((searchPoiName_allReturn fun other listed => ?_).mp
        ⟨fuel, after, searched⟩ helper member)
      obtain ⟨place, here⟩ := List.mem_iff_getElem?.mp listed
      exact (indexed place other here).table
    · exact insertsMatching_of_complete complete plain
    · exact insertsMatching_of_sound indexed none sound plain
  refine ⟨safe, fun sound => ⟨fun matching => ?_, safe⟩⟩
  by_cases hangs : ∃ helper ∈ um.helpers, LookupHangs helper pText nLen
  · exact Or.inl hangs
  · refine Or.inr ⟨fun place helper installed info poi collides => ?_, Or.inr sound⟩
    refine not_insertsMatching_of_collides indexed plain ?_ installed poi collides matching
    exact fun other member hang => hangs ⟨other, member, hang⟩

/-- In the file of a syllable the query of that syllable only finds POIs that begin with it. -/
theorem searchPoiName_matching_syllable :
    let um := bareModule [bareHelper (onePoiFile [0xAC00]) 8 1] (nameFile [0xAC00] (by decide))
    Indexed um (fun _ => {headerOf [0xAC00]}) ∧ (∀ i, i < 1 → QueryChar 0xAC00) ∧
      InsertsMatching (fun _ => zeroLocals) um (fun _ => 0xAC00) 1 := by
  have indexed : Indexed (bareModule [bareHelper (onePoiFile [0xAC00]) 8 1]
      (nameFile [0xAC00] (by decide))) fun _ => {headerOf [0xAC00]} :=
    indexed_single (onePoiFile_index (by decide) (by simp))
  have query : ∀ i, i < 1 → QueryChar 0xAC00 := fun _ _ => Or.inl (by decide)
  refine ⟨indexed, query,
    (searchPoiName_matching (fun _ => zeroLocals) _ _ indexed _ 1 query).1 (Or.inr ⟨?_, ?_⟩)⟩
  · intro _ _ _ info _
    exact CodeTells.not_collides (Or.inr (by decide)) fun _ _ => by decide
  · exact Or.inl fun _ _ _ => (by decide : isChosung 0xAC00 = false)

/--
A small letter and a first consonant find the POI named by that letter and a digit.

The number of the letter has seven bits, and its highest covers the lowest of the consonant's.
-/
theorem searchPoiName_spilled :
    let query : Nat → UInt16 := fun i => [97, 0x3131].getD i 0
    let um := bareModule [bareHelper (onePoiFile [97, 48]) 8 2] (nameFile [97, 48] (by decide))
    (∀ i, i < 2 → QueryChar (query i)) ∧ Indexed um (fun _ => {headerOf [97, 48]}) ∧
      ¬ InsertsMatching (fun _ => zeroLocals) um query 2 := by
  -- Both units are characters of a query, and the POI is the only one of the file.
  refine ⟨?_, indexed_single (onePoiFile_index (by decide) (by simp)), ?_⟩
  · intro i below
    rcases Nat.lt_or_ge i 1 with first | second
    · have zero : i = 0 := by omega
      subst zero
      exact Or.inr (Or.inr (Or.inl (by decide)))
    · have one : i = 1 := by omega
      subst one
      exact Or.inr (Or.inl (by decide))
  · intro matching
    have found : ((bareModule [bareHelper (onePoiFile [97, 48]) 8 2]
        (nameFile [97, 48] (by decide))).searchPoiName (fun _ => zeroLocals) 5
          (fun i => [97, 0x3131].getD i 0) 2).map (fun after => after.poiHeaders) =
        some [([97, 48], ⟨0, headerOf [97, 48]⟩)] := by decide
    obtain ⟨after, searched, content⟩ := Option.map_eq_some_iff.mp found
    have matched := matching 5 after searched ([97, 48], ⟨0, headerOf [97, 48]⟩)
      (by rw [content]; exact List.mem_cons_self)
    obtain ⟨ch, held, same⟩ := matched 1 (by decide)
    obtain rfl := Option.some.inj held
    exact absurd same (by decide)

end AndroidApps.Gildroia
