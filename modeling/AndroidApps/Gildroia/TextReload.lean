import AndroidApps.Gildroia.TextStoreLaws

/-! The dictionary that is loaded from a saved text file, with what stands behind its table. -/

namespace AndroidApps.Gildroia.TextStore

open scoped StdMap

variable {inputs : List InputText} {store : TextStore} {words : List (List UInt16)}

section Table

/-- The offsets the loop over the table ends with: the place of the trailer is among them twice. -/
def loadedOffsets (store : TextStore) : List Nat := trailer store ++ [u32 store.file.length]

/-- What the loop over the table has read when a pass begins. -/
structure TableRead (store : TextStore) (walk : OffsetWalk) : Prop where
  opened : walk.fp.data = store.save
  -- As long as the indicator is clear, the words read so far are those of the trailer.
  reading : walk.feof = false → ∃ n ≤ (trailer store).length,
    walk.fp.pos = store.file.length + n * 4 ∧ walk.offsets = (trailer store).take n ∧
      (n ≠ 0 → walk.offsets.getLast? = some walk.textOfs)
  ended : walk.feof = true → walk.offsets = loadedOffsets store

/-- The bytes that the loop over the table has not passed yet. -/
def unread (walk : OffsetWalk) : Nat :=
  if walk.feof then 0 else walk.fp.data.length + 1 - walk.fp.pos

/-- A pass reads one more word of the trailer, or fails behind it and keeps the last word again. -/
theorem Holds.offsetPass_step (holds : Holds store words) {walk next : OffsetWalk}
    (before : TableRead store walk) (pass : offsetPass walk = .inl next) :
    TableRead store next ∧ unread next < unread walk := by
  have size := holds.save_length
  have count := holds.trailer_length
  obtain ⟨fp, feof, textOfs, offsets⟩ := walk
  obtain ⟨opened, reading, _⟩ := before
  cases feof with
  | true => simp [offsetPass] at pass
  | false =>
    obtain ⟨n, low, position, read, last⟩ := reading rfl
    simp only [offsetPass, Bool.false_eq_true, if_false, Sum.inl.injEq] at pass opened position read
    subst pass
    rcases Nat.lt_or_eq_of_le low with inside | behind
    · -- The word is inside the file, so that the indicator stays clear.
      have word : fp.freadWord 4 textOfs =
          ((trailer store)[n], fp.moveTo (store.file.length + n * 4 + 4)) := by
        rw [File.freadWord_inside (by rw [opened, position]; omega), opened, position,
          holds.wordAt_trailer inside]
      have clear : decide (fp.data.length < fp.pos + 4) = false := by
        rw [opened, position, decide_eq_false_iff_not]
        omega
      rw [word, clear]
      refine ⟨⟨opened, fun _ => ⟨n + 1, inside, ?_, ?_, ?_⟩, ?_⟩, ?_⟩
      · rw [File.moveTo_pos]
        omega
      · rw [read, List.take_succ_eq_append_getElem inside]
      · intro _
        exact List.getLast?_concat
      · intro set
        cases set
      · simp only [unread, opened, position, File.moveTo_data, File.moveTo_pos,
          Bool.false_eq_true, if_false]
        omega
    · -- Behind the trailer the variable still holds the place of the trailer.
      have set : decide (fp.data.length < fp.pos + 4) = true := by
        rw [opened, position, decide_eq_true_iff]
        omega
      have whole : offsets = trailer store := by rw [read, behind, List.take_length]
      have kept : textOfs = u32 store.file.length := by
        have end' := last (by omega)
        simp only [whole, trailer, List.getLast?_concat, Option.some.injEq] at end'
        exact end'.symm
      have word : fp.freadWord 4 textOfs = (textOfs, fp) :=
        File.fread_end (by decide) (by rw [opened, position]; omega)
      rw [word, set]
      refine ⟨⟨opened, ?_, fun _ => ?_⟩, ?_⟩
      · intro clear
        cases clear
      · rw [whole, kept, loadedOffsets]
      · simp only [unread, if_true, Bool.false_eq_true, if_false]
        rw [opened, position]
        omega

/-- The loop over the table ends with its offsets and the place of the trailer, twice. -/
theorem Holds.offsetPass_ends (holds : Holds store words) {fp : File}
    (saved : fp.data = store.save) (textOfs : Nat) :
    ∃ left, left.data = store.save ∧
      Loop.Ends offsetPass ⟨fp.moveTo store.file.length, false, textOfs, []⟩
        (left, loadedOffsets store) := by
  have start : TableRead store ⟨fp.moveTo store.file.length, false, textOfs, []⟩ := by
    refine ⟨saved, fun _ => ⟨0, Nat.zero_le _, rfl, rfl, fun some => (some rfl).elim⟩, ?_⟩
    exact fun set => nomatch set
  obtain ⟨⟨left, offsets⟩, ended, opened, read⟩ := Loop.ends_of_variant (TableRead store) unread
    (fun result : File × List Nat => result.1.data = store.save ∧ result.2 = loadedOffsets store)
    (fun walk next before pass => holds.offsetPass_step before pass)
    (fun walk result before pass => by
      -- Only a set indicator leaves the loop.
      unfold offsetPass at pass
      split at pass
      · rename_i set
        cases pass
        exact ⟨before.opened, before.ended set⟩
      · cases pass) start
  simp only at opened read
  subst read
  exact ⟨left, opened, ended⟩

end Table

section Keys

/-- The key under which the text of an offset is loaded. -/
def keyOf (store : TextStore) (ofs : Nat) : List UInt16 := cString (textAt store.save ofs)

/-- The parts of a packed offset, of which the position has lost its upper bits. -/
theorem offsetOf_parts (words : List (List UInt16)) (i : Nat) {word : List UInt16}
    (short : word.length ≤ 31) :
    offsetOf words i word / 32 = place words i % 2 ^ 27 ∧
      offsetOf words i word % 32 = word.length := by
  have position : u32 (place words i * 32) = place words i % 2 ^ 27 * 32 := by
    rw [u32]
    omega
  rw [offsetOf, packed, position, u32_of_lt (by omega)]
  omega

/-- A packed offset stays inside the texts, also when its position has lost its upper bits. -/
theorem textInside_offsetOf {i : Nat} {word : List UInt16} (listed : words[i]? = some word)
    (short : word.length ≤ 31) : TextInside (words.flatMap encode) (offsetOf words i word) := by
  have room := place_room listed
  have low := Nat.mod_le (place words i) (2 ^ 27)
  obtain ⟨position, length⟩ := offsetOf_parts words i short
  rw [TextInside, position, length]
  omega

/-- The key of a packed offset is read from the texts alone. -/
theorem Holds.keyOf_offset (holds : Holds store words) {i : Nat} {word : List UInt16}
    (listed : words[i]? = some word) (short : word.length ≤ 31) :
    keyOf store (offsetOf words i word) =
      cString (textAt (words.flatMap encode) (offsetOf words i word)) := by
  rw [keyOf, save_eq_trailer, holds.file, textAt_append (textInside_offsetOf listed short)]

/-- The offsets of the table are those of the texts. -/
theorem Holds.mem_table (holds : Holds store words) {ofs : Nat} :
    (ofs ∈ store.textIdx.entries.map fun entry => entry.2.2) ↔
      ∃ i word, words[i]? = some word ∧ ofs = offsetOf words i word := by
  -- The entries are the words with their offsets, in the order of the words.
  rw [List.mem_map]
  constructor
  · rintro ⟨entry, member, rfl⟩
    obtain ⟨i, word, listed, rfl⟩ := (holds.textIdx entry).mp member
    exact ⟨i, word, listed, rfl⟩
  · rintro ⟨i, word, listed, rfl⟩
    exact ⟨_, (holds.textIdx _).mpr ⟨i, word, listed, rfl⟩, rfl⟩

/-- The offsets that are loaded: those of the texts, and the place of the trailer. -/
theorem Holds.mem_loadedOffsets (holds : Holds store words) {ofs : Nat} :
    ofs ∈ loadedOffsets store ↔
      (∃ i word, words[i]? = some word ∧ ofs = offsetOf words i word) ∨
        ofs = u32 store.file.length := by
  rw [loadedOffsets, trailer, List.mem_append, List.mem_append, List.mem_singleton, or_assoc,
    or_self, holds.mem_table]

/-- The key of an offset that is loaded does not depend on the buffer. -/
theorem Holds.cString_loaded (holds : Holds store words)
    (short : ∀ word ∈ words, word.length ≤ 31) {ofs : Nat} (listed : ofs ∈ loadedOffsets store)
    {mng : TextMng} (opened : mng.textFp.data = store.save) :
    cString (mng.getTextOfs ofs 0).1 = keyOf store ofs := by
  have addressable := mng.textFp.addressable
  have size := holds.save_length
  rw [opened] at addressable
  rcases holds.mem_loadedOffsets.mp listed with ⟨i, word, place, rfl⟩ | rfl
  · -- The offset of a text is inside the file.
    have inside := textInside_offsetOf place (short word (List.mem_of_getElem? place))
    have room : TextInside mng.textFp.data (offsetOf words i word) := by
      rw [TextInside] at inside ⊢
      rw [opened, save_eq_trailer, holds.file, List.length_append]
      omega
    rw [cString_getTextOfs 0 room, opened, keyOf]
  · rw [u32_of_lt (by omega), holds.cString_trailer opened 0, keyOf]

/-- The texts are inserted under the keys of their offsets. -/
theorem Holds.insertTexts_eq (holds : Holds store words)
    (short : ∀ word ∈ words, word.length ≤ 31) : ∀ {offsets : List Nat} {mng : TextMng}
    {textIdx : StdMap (List UInt16) (Nat × Nat)}, offsets ⊆ loadedOffsets store →
      mng.textFp.data = store.save →
      (insertTexts offsets mng textIdx).2 =
        (offsets.map fun ofs => (keyOf store ofs, 0, ofs)).foldl
          (fun textIdx pair => textIdx.insert pair.1 pair.2) textIdx := by
  -- The induction is on the offsets still to be loaded. Reading a text moves the file and keeps its
  -- contents, so the next offset is read in the same file.
  intro offsets
  induction offsets with
  | nil =>
    intro mng textIdx _ _
    rfl
  | cons ofs rest ih =>
    intro mng textIdx within opened
    have key := holds.cString_loaded short (within List.mem_cons_self) opened
    rw [insertTexts, List.map_cons, List.foldl_cons]
    simp only
    rw [key, ih (fun other member => within (List.mem_cons_of_mem ofs member))
      (by rw [getTextOfs_data, opened])]

end Keys

section Dictionary

/-- `Load2` comes back with a dictionary that has the first offset of every key. -/
theorem Holds.load2_spec (holds : Holds store words) (short : ∀ word ∈ words, word.length ≤ 31)
    {mng : TextMng} (saved : mng.textFp.data = store.save) (junkIdxOfs junkOfs : Nat) :
    ∃ left textIdx, (∃ enough, ∀ fuel, enough ≤ fuel →
        load2 fuel junkIdxOfs junkOfs mng = some (left, textIdx)) ∧
      ∀ text, textIdx.find? text =
        ((loadedOffsets store).find? fun ofs => keyOf store ofs = text).map
          fun ofs => (0, ofs) := by
  have addressable := mng.textFp.addressable
  have size := holds.save_length
  rw [saved] at addressable
  obtain ⟨left, opened, enough, ended⟩ := holds.offsetPass_ends saved (u32 junkOfs)
  refine ⟨(insertTexts (loadedOffsets store) { mng with textFp := left } .empty).1,
    (insertTexts (loadedOffsets store) { mng with textFp := left } .empty).2,
    ⟨enough, fun fuel longer => ?_⟩, fun text => ?_⟩
  · -- The walk over the table begins where its last word says.
    simp only [load2, holds.freadWord_end saved]
    rw [File.fseek_of_lt (by omega), File.moveTo_moveTo, Loop.run_mono ended longer]
    rfl
  · rw [holds.insertTexts_eq short (List.Subset.refl _) opened, StdMap.find?_foldl_insert,
      List.find?_map]
    simp only [StdMap.find?, StdMap.empty, List.find?_nil, Option.map_none, Option.none_or,
      Function.comp_def, Option.map_map]
    congr!

/-- A dictionary has exactly the texts added, with the offsets that their calls gave. -/
def Restores (inputs : List InputText) (textIdx : StdMap (List UInt16) (Nat × Nat)) : Prop :=
  ∀ text ofs, (∃ nTextIdx, textIdx.find? text = some (nTextIdx, ofs)) ↔
    ∃ call ∈ calls inputs, call.1.text = text ∧ call.2.2 = ofs

/-- `Load2` comes back, and restores the dictionary. -/
def LoadsBack (inputs : List InputText) (junkIdxOfs junkOfs : Nat) (mng : TextMng) : Prop :=
  ∃ enough, ∀ fuel, enough ≤ fuel → ∃ left textIdx,
    load2 fuel junkIdxOfs junkOfs mng = some (left, textIdx) ∧ Restores inputs textIdx

/-- Every text is read at its own packed offset, and the size of the texts reads as one of them. -/
structure Reloads (words : List (List UInt16)) : Prop where
  own : ∀ i word, words[i]? = some word →
    cString (textAt (words.flatMap encode) (offsetOf words i word)) = word
  size : ∃ word ∈ words, SizeReads words word

/-- As long as the texts take less than 2 ^ 27 bytes, each of them is read at its own offset. -/
theorem reloads_of_small (small : (words.flatMap encode).length < 2 ^ 27)
    (fine : ∀ word ∈ words, word.length ≤ 31 ∧ 0 ∉ word)
    (size : ∃ word ∈ words, SizeReads words word) : Reloads words := by
  refine ⟨fun i word listed => ?_, size⟩
  obtain ⟨short, plain⟩ := fine word (List.mem_of_getElem? listed)
  have read := textAt_word small listed short []
  rw [List.append_nil] at read
  rw [read, cString_eq_self plain]

/-- What the calls gave are the packed offsets of the texts. -/
theorem exists_call_iff {text : List UInt16} {ofs : Nat} :
    (∃ call ∈ calls inputs, call.1.text = text ∧ call.2.2 = ofs) ↔
      ∃ i, (wordsOf inputs)[i]? = some text ∧ ofs = offsetOf (wordsOf inputs) i text := by
  -- No text is listed twice, so a call that gave a place of the text gave the only one.
  obtain ⟨holds, givens, called⟩ := addTexts_init inputs
  constructor
  · rintro ⟨call, member, rfl, rfl⟩
    obtain ⟨i, listed, given⟩ := givens call member
    exact ⟨i, listed, by rw [given]⟩
  · rintro ⟨i, listed, rfl⟩
    obtain ⟨input, member, rfl⟩ := mem_wordsOf (List.mem_of_getElem? listed)
    obtain ⟨given, call⟩ := called input member
    obtain ⟨j, listedCall, same⟩ := givens _ call
    have place := (List.getElem?_inj (List.getElem?_eq_some_iff.mp listed).1
      holds.distinct).mp (listed.trans listedCall.symm)
    exact ⟨_, call, rfl, by rw [same, place]⟩

/-- Every text whose own offset reads as it is the first with its key, and there are no others. -/
theorem Holds.find?_loadedOffsets (holds : Holds store words)
    (short : ∀ word ∈ words, word.length ≤ 31)
    (fine : ∀ word ∈ words, word ≠ [] ∧ 0 ∉ word) (addressable : store.save.length < 2 ^ 31)
    (reloads : Reloads words) (text : List UInt16) (ofs : Nat) :
    ((loadedOffsets store).find? fun ofs => keyOf store ofs = text) = some ofs ↔
      ∃ i, words[i]? = some text ∧ ofs = offsetOf words i text := by
  have length := holds.save_length
  have own {i : Nat} {word : List UInt16} (listed : words[i]? = some word) :
      keyOf store (offsetOf words i word) = word := by
    rw [holds.keyOf_offset listed (short word (List.mem_of_getElem? listed)),
      reloads.own i word listed]
  have table {ofs : Nat} : (ofs ∈ store.textIdx.entries.map fun entry => entry.2.2) ↔
      ∃ i word, words[i]? = some word ∧ ofs = offsetOf words i word := holds.mem_table
  -- The place of the trailer has the key of a text, whose own offset comes before it.
  have before : ((loadedOffsets store).find? fun ofs => keyOf store ofs = text) =
      (store.textIdx.entries.map fun entry => entry.2.2).find?
        fun ofs => keyOf store ofs = text := by
    rw [loadedOffsets, trailer, List.append_assoc, List.find?_append]
    by_cases held : text ∈ words
    · obtain ⟨i, listed⟩ := List.mem_iff_getElem?.mp held
      refine Option.or_eq_left_of_isSome (List.find?_isSome.mpr ?_)
      exact ⟨_, table.mpr ⟨i, text, listed, rfl⟩, decide_eq_true (own listed)⟩
    · refine Option.or_eq_left_of_none (List.find?_eq_none.mpr fun ofs member key => ?_)
      obtain ⟨word, other, reads⟩ := reloads.size
      have place : ofs = store.file.length := by
        rw [u32_of_lt (by omega)] at member
        simpa using member
      rw [place, keyOf, (holds.trailer_read fine other).mpr reads, decide_eq_true_iff] at key
      exact held (key ▸ other)
  rw [before]
  constructor
  · intro found
    obtain ⟨i, word, listed, rfl⟩ := table.mp (List.mem_of_find?_eq_some found)
    have key : keyOf store (offsetOf words i word) = text := by simpa using List.find?_some found
    rw [own listed] at key
    subst key
    exact ⟨i, listed, rfl⟩
  · rintro ⟨i, listed, rfl⟩
    -- The first offset with this key is that of a text, and texts are told apart.
    have some : ((store.textIdx.entries.map fun entry => entry.2.2).find? fun ofs =>
        keyOf store ofs = text).isSome := by
      rw [List.find?_isSome]
      exact ⟨_, table.mpr ⟨i, text, listed, rfl⟩, decide_eq_true (own listed)⟩
    obtain ⟨ofs, found⟩ := Option.isSome_iff_exists.mp some
    obtain ⟨j, word, listedWord, rfl⟩ := table.mp (List.mem_of_find?_eq_some found)
    have key : keyOf store (offsetOf words j word) = text := by simpa using List.find?_some found
    rw [own listedWord] at key
    subst key
    have place := (List.getElem?_inj (List.getElem?_eq_some_iff.mp listed).1
      holds.distinct).mp (listed.trans listedWord.symm)
    rw [found, place]

/-- The dictionary is restored only when the place of the trailer reads as one of the texts. -/
theorem load2_restores_iff (short : ∀ input ∈ inputs, input.text.length ≤ 31) {mng : TextMng}
    (saved : mng.textFp.data = (init.addTexts inputs).2.save) (junkIdxOfs junkOfs : Nat) :
    LoadsBack inputs junkIdxOfs junkOfs mng ↔ Reloads (wordsOf inputs) := by
  obtain ⟨holds, _⟩ := addTexts_init inputs
  generalize (init.addTexts inputs).2 = store at holds saved
  have shortWords : ∀ word ∈ wordsOf inputs, word.length ≤ 31 := by
    intro word held
    obtain ⟨input, member, rfl⟩ := mem_wordsOf held
    exact short input member
  have addressable := mng.textFp.addressable
  have length := holds.save_length
  rw [saved] at addressable
  obtain ⟨left, textIdx, ⟨enough, returns⟩, lookup⟩ :=
    holds.load2_spec shortWords saved junkIdxOfs junkOfs
  have found (text : List UInt16) (ofs : Nat) :
      (∃ nTextIdx, textIdx.find? text = some (nTextIdx, ofs)) ↔
        ((loadedOffsets store).find? fun ofs => keyOf store ofs = text) = some ofs := by
    rw [lookup]
    simp
  constructor
  · rintro ⟨more, loads⟩
    obtain ⟨_, _, same, restores⟩ := loads (max enough more) (Nat.le_max_right _ _)
    rw [returns _ (Nat.le_max_left _ _)] at same
    cases same
    refine ⟨fun i word listed => ?_, ?_⟩
    · -- The offset under which a text is found reads as this text.
      have held := (restores word _).mpr (exists_call_iff.mpr ⟨i, listed, rfl⟩)
      have key := List.find?_some ((found _ _).mp held)
      rw [decide_eq_true_iff] at key
      rwa [← holds.keyOf_offset listed (shortWords word (List.mem_of_getElem? listed))]
    · -- The place of the trailer is loaded under some key, which has to be one of the texts.
      have member : store.file.length ∈ loadedOffsets store :=
        holds.mem_loadedOffsets.mpr (.inr (u32_of_lt (by omega)).symm)
      have some : ((loadedOffsets store).find? fun ofs =>
          keyOf store ofs = keyOf store store.file.length).isSome := by
        rw [List.find?_isSome]
        exact ⟨_, member, decide_eq_true rfl⟩
      obtain ⟨ofs, first⟩ := Option.isSome_iff_exists.mp some
      obtain ⟨i, listed, _⟩ := exists_call_iff.mp ((restores _ ofs).mp ((found _ ofs).mpr first))
      have held := List.mem_of_getElem? listed
      exact ⟨_, held, (holds.trailer_read wordsOf_fine held).mp rfl⟩
  · intro reloads
    refine ⟨enough, fun fuel longer => ⟨left, textIdx, returns fuel longer, ?_⟩⟩
    intro text ofs
    rw [found, exists_call_iff]
    exact holds.find?_loadedOffsets shortWords wordsOf_fine addressable reloads text ofs

/-- A new text manager on the file saved behind some calls. -/
def newTexts (inputs : List InputText)
    (addressable : (init.addTexts inputs).2.save.length < 2 ^ 31) : TextMng :=
  ⟨savedFile inputs addressable, noNames, 0, 0, 0, 0, fun _ => List.replicate 32 0, zeros_sized⟩

theorem lastFirstTexts_addressable : (init.addTexts lastFirstTexts).2.save.length < 2 ^ 31 := by
  decide +kernel

theorem shortText_addressable : (init.addTexts [shortText]).2.save.length < 2 ^ 31 := by
  decide +kernel

/-- Two texts are restored: the size of both of them, 66 bytes, reads as `aa`. -/
theorem load2_restores_lastFirst :
    LoadsBack lastFirstTexts 0 0 (newTexts lastFirstTexts lastFirstTexts_addressable) := by
  refine (load2_restores_iff (by decide +kernel) rfl 0 0).mpr
    (reloads_of_small (by decide +kernel) (by decide +kernel) ?_)
  exact ⟨[0x61, 0x61], by decide +kernel, by decide +kernel, by decide +kernel⟩

/-- Behind the text `a` a second text is loaded, which nobody added. -/
theorem load2_restores_alone :
    shortText.text.length ≤ 31 ∧
      ¬ LoadsBack [shortText] 0 0 (newTexts [shortText] shortText_addressable) := by
  refine ⟨by decide +kernel, ?_⟩
  rintro ⟨more, loads⟩
  obtain ⟨holds, _⟩ := addTexts_init [shortText]
  obtain ⟨left, textIdx, ⟨enough, returns⟩, lookup⟩ :=
    holds.load2_spec (by decide +kernel)
      (show (newTexts [shortText] shortText_addressable).textFp.data = _ from rfl) 0 0
  obtain ⟨_, _, same, restores⟩ := loads (max enough more) (Nat.le_max_right _ _)
  rw [returns _ (Nat.le_max_left _ _)] at same
  cases same
  -- The place of the trailer, 2, reads as two units from the start of the file.
  have extra : textIdx.find? [0x61, 0x01] = some (0, 2) := by
    rw [lookup]
    decide +kernel
  obtain ⟨call, member, text, _⟩ := (restores _ _).mp ⟨0, extra⟩
  have only : ∀ call ∈ calls [shortText], call.1.text ≠ [0x61, 0x01] := by decide +kernel
  exact only call member text

end Dictionary

end AndroidApps.Gildroia.TextStore
