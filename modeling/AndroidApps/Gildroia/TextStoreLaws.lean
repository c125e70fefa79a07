import AndroidApps.Gildroia.OnePoiFile
import AndroidApps.Gildroia.TextStore

/-! What the text manager saves is read back by offset, by index and as a dictionary, or is not. -/

namespace AndroidApps.Gildroia

open scoped StdMap

section Trimming

/-- Trimming leaves something of a string that is not blank. -/
theorem InputText.text_ne_nil (input : InputText) : input.text ≠ [] := by
  -- The last unit that is no blank end stays, and it is no space.
  obtain ⟨unit, member, kept⟩ := input.nonBlank
  have right : unit ∈ trimRight input.units := by
    have split := List.takeWhile_append_dropWhile (p := isBlankEnd) (l := input.units.reverse)
    rw [trimRight, List.mem_reverse]
    have reversed := List.mem_reverse.mpr member
    rw [← split, List.mem_append] at reversed
    rcases reversed with removed | left
    · have blank := List.mem_takeWhile_imp removed
      rw [kept] at blank
      cases blank
    · exact left
  intro empty
  have all := List.dropWhile_eq_nil_iff.mp empty unit right
  unfold isBlankEnd at kept
  rw [all] at kept
  cases kept

/-- Trimming leaves no terminator inside. -/
theorem InputText.text_plain (input : InputText) : 0 ∉ input.text := by
  intro member
  have right := (List.dropWhile_sublist _).mem member
  rw [trimRight, List.mem_reverse] at right
  have inside := (List.dropWhile_sublist _).mem right
  exact input.plain (List.mem_reverse.mp inside)

end Trimming

namespace TextStore

section Words

@[simp] theorem encode_length (text : List UInt16) : (encode text).length = 2 * text.length := by
  -- Each unit is written as two bytes.
  induction text with
  | nil => rfl
  | cons unit rest ih =>
    simp only [encode, List.flatMap_cons, List.length_append, leBytes_length] at ih ⊢
    rw [ih, List.length_cons]
    omega

/-- The distinct texts of a list, in the order of their first places. -/
def distinct (texts : List (List UInt16)) : List (List UInt16) :=
  texts.foldl (fun words text => if text ∈ words then words else words ++ [text]) []

/-- The place of a text in the file. -/
def place (words : List (List UInt16)) (i : Nat) : Nat :=
  ((words.take i).flatMap encode).length

/-- The packed offset of a text in the file. -/
def offsetOf (words : List (List UInt16)) (i : Nat) (word : List UInt16) : Nat :=
  packed (place words i) word.length

/-- A store that holds some distinct texts, in the order in which they were added. -/
structure Holds (store : TextStore) (words : List (List UInt16)) : Prop where
  text : store.text = [] :: words
  file : store.file = words.flatMap encode
  distinct : words.Nodup
  textIdx : ∀ entry, entry ∈ store.textIdx.entries ↔
    ∃ i word, words[i]? = some word ∧ entry = (word, i + 1, offsetOf words i word)

/-- A store of more texts has the others at the same places. -/
theorem offsetOf_longer {words more : List (List UInt16)} (longer : words <+: more) {i : Nat}
    {word : List UInt16} (listed : words[i]? = some word) :
    more[i]? = some word ∧ offsetOf more i word = offsetOf words i word := by
  obtain ⟨rest, rfl⟩ := longer
  have inside := (List.getElem?_eq_some_iff.mp listed).1
  refine ⟨by rw [List.getElem?_append_left inside, listed], ?_⟩
  rw [offsetOf, offsetOf, place, place, List.take_append_of_le_length inside.le]

/-- A text is found in the dictionary of a store exactly when it is held. -/
theorem Holds.find?_eq_none {store : TextStore} {words : List (List UInt16)}
    (holds : Holds store words) {text : List UInt16} :
    store.textIdx.find? text = none ↔ text ∉ words := by
  -- The entries of the dictionary are the texts of the list with their places, so a key that is
  -- missing is a text that is not listed.
  rw [StdMap.find?_eq_none]
  constructor
  · intro fresh member
    obtain ⟨i, listed⟩ := List.mem_iff_getElem?.mp member
    exact fresh _ ((holds.textIdx _).mpr ⟨i, text, listed, rfl⟩) rfl
  · intro absent entry member same
    obtain ⟨i, word, listed, rfl⟩ := (holds.textIdx entry).mp member
    exact absent (same ▸ List.mem_of_getElem? listed)

/-- A new text goes to the end of the file and of the list, and into the dictionary. -/
theorem Holds.add {store : TextStore} {words : List (List UInt16)} (holds : Holds store words)
    {text : List UInt16} (fresh : text ∉ words) :
    Holds ⟨store.text ++ [text], store.textIdx.insert text
      (words.length + 1, offsetOf (words ++ [text]) words.length text), store.file ++ encode text⟩
      (words ++ [text]) := by
  have absent := StdMap.find?_eq_none.mp (holds.find?_eq_none.mpr fresh)
  refine ⟨by rw [holds.text, List.cons_append], by rw [holds.file]; simp, ?_, ?_⟩
  · rw [List.nodup_append]
    refine ⟨holds.distinct, List.nodup_singleton text, ?_⟩
    intro word member other last same
    rw [List.mem_singleton.mp last] at same
    exact fresh (same ▸ member)
  · intro entry
    have placed : entry ∈ (store.textIdx.insert text
        (words.length + 1, offsetOf (words ++ [text]) words.length text)).entries ↔
        entry = (text, words.length + 1, offsetOf (words ++ [text]) words.length text) ∨
          entry ∈ store.textIdx.entries :=
      (StdMap.insertEntry_perm absent).mem_iff.trans List.mem_cons
    rw [placed, holds.textIdx]
    constructor
    · -- The new text is the last one, and the others stay where they are.
      rintro (rfl | ⟨i, word, listed, rfl⟩)
      · exact ⟨words.length, text, by simp, rfl⟩
      · obtain ⟨still, same⟩ := offsetOf_longer (List.prefix_append words [text]) listed
        exact ⟨i, word, still, by rw [same]⟩
    · rintro ⟨i, word, listed, rfl⟩
      rcases Nat.lt_or_ge i words.length with before | behind
      · rw [List.getElem?_append_left before] at listed
        rw [(offsetOf_longer (List.prefix_append words [text]) listed).2]
        exact .inr ⟨i, word, listed, rfl⟩
      · rw [List.getElem?_append_right behind, List.getElem?_singleton] at listed
        split at listed
        · rename_i first
          have last : i = words.length := by omega
          cases listed
          rw [last]
          exact .inl rfl
        · cases listed

/-- A text that is added is in the store behind it. -/
theorem addText_holds {store : TextStore} {words : List (List UInt16)} (holds : Holds store words)
    (input : InputText) :
    ∃ more, Holds (store.addText input).2 more ∧ words <+: more ∧
      more = (if input.text ∈ words then words else words ++ [input.text]) ∧
      ∃ i, more[i]? = some input.text ∧
        (store.addText input).1 = (i + 1, offsetOf more i input.text) := by
  -- A text that is new is written behind the file, which is where the place of the next text is. A
  -- text that is held leaves the store as it is, and its entry says what the first call gave.
  unfold addText
  simp only
  split
  · rename_i absent
    have fresh := holds.find?_eq_none.mp absent
    have position : packed store.file.length input.text.length =
        offsetOf (words ++ [input.text]) words.length input.text := by
      rw [offsetOf, place, holds.file, List.take_left']
      rfl
    have index : store.text.length = words.length + 1 := by rw [holds.text, List.length_cons]
    rw [position, index]
    refine ⟨words ++ [input.text], holds.add fresh, List.prefix_append words _, ?_, words.length,
      by simp, rfl⟩
    rw [if_neg fresh]
  · rename_i nTextIdx offset found
    obtain ⟨i, word, listed, same⟩ := (holds.textIdx _).mp (StdMap.find?_eq_some.mp found)
    simp only [Prod.mk.injEq] at same
    obtain ⟨own, index, position⟩ := same
    subst own index position
    refine ⟨words, holds, List.prefix_refl words, ?_, i, listed, rfl⟩
    rw [if_pos (List.mem_of_getElem? listed)]

/-- What a call gave for a text, in terms of the texts held in the end. -/
def Given (words : List (List UInt16)) (input : InputText) (given : Nat × Nat) : Prop :=
  ∃ i, words[i]? = some input.text ∧ given = (i + 1, offsetOf words i input.text)

/-- Texts added one after the other are all held in the end, as their calls said. -/
theorem addTexts_holds (inputs : List InputText) :
    ∀ {store : TextStore} {words : List (List UInt16)}, Holds store words →
      ∃ more, Holds (store.addTexts inputs).2 more ∧ words <+: more ∧
        more = (inputs.map InputText.text).foldl
          (fun words text => if text ∈ words then words else words ++ [text]) words ∧
        List.Forall₂ (Given more) inputs (store.addTexts inputs).1 := by
  -- The induction is on the calls. What an earlier call gave stays right because the list only
  -- grows at its end, and a place depends only on the texts before it.
  induction inputs with
  | nil =>
    intro store words holds
    exact ⟨words, holds, List.prefix_refl words, rfl, .nil⟩
  | cons input inputs ih =>
    intro store words holds
    obtain ⟨next, holdsNext, grown, added, i, listed, given⟩ := addText_holds holds input
    obtain ⟨more, holdsMore, longer, all, others⟩ := ih holdsNext
    refine ⟨more, holdsMore, grown.trans longer, ?_, .cons ?_ others⟩
    · rw [all, added]
      rfl
    · obtain ⟨still, same⟩ := offsetOf_longer longer listed
      exact ⟨i, still, given.trans (by rw [same])⟩

theorem init_holds : Holds init [] := by
  -- Nothing was added, so that there is no entry and no word.
  refine ⟨rfl, rfl, List.nodup_nil, ?_⟩
  intro entry
  constructor
  · intro member
    cases member
  · rintro ⟨i, word, listed, _⟩
    cases listed

theorem mem_foldl_distinct (texts : List (List UInt16)) : ∀ (words : List (List UInt16)) {word},
    word ∈ texts.foldl (fun words text => if text ∈ words then words else words ++ [text]) words ↔
      word ∈ words ∨ word ∈ texts := by
  -- The induction is on the texts. A text that is skipped is skipped because it is in the list
  -- already.
  induction texts with
  | nil => simp
  | cons text texts ih =>
    intro words word
    rw [List.foldl_cons, ih, List.mem_cons]
    split
    · rename_i held
      constructor
      · rintro (old | later)
        · exact .inl old
        · exact .inr (.inr later)
      · rintro (old | rfl | later)
        · exact .inl old
        · exact .inl held
        · exact .inr later
    · rw [List.mem_append, List.mem_singleton, or_assoc]

/-- The distinct texts of a list are its texts. -/
theorem mem_distinct {texts : List (List UInt16)} {word : List UInt16} :
    word ∈ distinct texts ↔ word ∈ texts := by
  rw [distinct, mem_foldl_distinct]
  simp

/-- The texts added to a new store, each of them once. -/
def wordsOf (inputs : List InputText) : List (List UInt16) := distinct (inputs.map InputText.text)

/-- The texts added to a new store, with what their calls gave. -/
def calls (inputs : List InputText) : List (InputText × Nat × Nat) :=
  inputs.zip (init.addTexts inputs).1

/-- What a new store holds behind some calls, and what the calls gave. -/
theorem addTexts_init (inputs : List InputText) :
    Holds (init.addTexts inputs).2 (wordsOf inputs) ∧
      (∀ call ∈ calls inputs, Given (wordsOf inputs) call.1 call.2) ∧
      ∀ input ∈ inputs, ∃ given, (input, given) ∈ calls inputs := by
  -- The words of all calls, without repetition, are what the run leaves behind the empty store.
  obtain ⟨words, holds, _, all, given⟩ := addTexts_holds inputs init_holds
  rw [← distinct, ← wordsOf] at all
  subst all
  refine ⟨holds, fun call member => List.forall₂_zip given member, ?_⟩
  intro input member
  rw [← List.map_fst_zip given.length_eq.le] at member
  obtain ⟨call, called, same⟩ := List.mem_map.mp member
  exact ⟨call.2, same ▸ called⟩

/-- Every text that is held was added. -/
theorem mem_wordsOf {inputs : List InputText} {word : List UInt16} (held : word ∈ wordsOf inputs) :
    ∃ input ∈ inputs, input.text = word :=
  List.mem_map.mp (mem_distinct.mp held)

/-- The texts that are held are strings, of something. -/
theorem wordsOf_fine {inputs : List InputText} : ∀ word ∈ wordsOf inputs, word ≠ [] ∧ 0 ∉ word := by
  intro word held
  obtain ⟨input, _, rfl⟩ := mem_wordsOf held
  exact ⟨input.text_ne_nil, input.text_plain⟩

end Words

section Layout

variable {words : List (List UInt16)} {i : Nat} {word : List UInt16}

/-- A text in the middle of the others. -/
theorem flatMap_encode_split (listed : words[i]? = some word) :
    words.flatMap encode =
      (words.take i).flatMap encode ++ (encode word ++ (words.drop (i + 1)).flatMap encode) := by
  obtain ⟨inside, same⟩ := List.getElem?_eq_some_iff.mp listed
  rw [← List.flatMap_cons, ← same, ← List.drop_eq_getElem_cons inside, ← List.flatMap_append,
    List.take_append_drop]

/-- The place of a text leaves room for it. -/
theorem place_room (listed : words[i]? = some word) :
    place words i + 2 * word.length ≤ (words.flatMap encode).length := by
  rw [flatMap_encode_split listed]
  simp only [List.length_append, encode_length, place]
  omega

/-- The bytes at the place of a text are read as it. -/
theorem elementsAt_word (listed : words[i]? = some word) (rest : List UInt8) :
    File.elementsAt decodeChar 2 (words.flatMap encode ++ rest) (place words i) word.length =
      word := by
  -- The bytes at the place are exactly the encoding of the text, so each unit is decoded from the
  -- two bytes it was written as.
  refine List.ext_getElem (by simp) fun j inside within => ?_
  rw [File.elementsAt_length] at inside
  have whole : bytesAt (words.flatMap encode ++ rest) (place words i) (2 * word.length) =
      encode word := by
    rw [flatMap_encode_split listed, List.append_assoc, List.append_assoc]
    exact bytesAt_append rfl (encode_length word)
  have words : encode word = (word.map UInt16.toNat).flatMap (leBytes 2) := by
    rw [encode, List.flatMap_map]
  simp only [File.elementsAt, List.getElem_map, List.getElem_range]
  rw [← bytesAt_bytesAt (show j * 2 + 2 ≤ 2 * word.length by omega), whole, words,
    bytesAt_words 2 (by simpa using inside), List.getElem_map, decodeChar_leBytes]

section Small

-- The texts take less than 2 ^ 27 bytes, so that every place fits into the upper bits.
variable (small : (words.flatMap encode).length < 2 ^ 27)

include small in
/-- The packed offset of a text is not cut off. -/
theorem offsetOf_eq (listed : words[i]? = some word) :
    offsetOf words i word = place words i * 32 + word.length := by
  have room := place_room listed
  have position : u32 (place words i * 32) = place words i * 32 := u32_of_lt (by omega)
  rw [offsetOf, packed, position, u32_of_lt (by omega)]

include small in
/-- A text of at most 31 units is read back by its packed offset. -/
theorem textAt_word (listed : words[i]? = some word) (short : word.length ≤ 31)
    (rest : List UInt8) :
    textAt (words.flatMap encode ++ rest) (offsetOf words i word) = word := by
  have position : (place words i * 32 + word.length) / 32 = place words i := by omega
  have length : (place words i * 32 + word.length) % 32 = word.length := by omega
  rw [textAt, offsetOf_eq small listed, position, length, elementsAt_word listed rest]

include small in
/-- The packed offset of a text is that of a text in the file. -/
theorem textInside_word (listed : words[i]? = some word) (short : word.length ≤ 31)
    (rest : List UInt8) :
    TextInside (words.flatMap encode ++ rest) (offsetOf words i word) := by
  have room := place_room listed
  rw [TextInside, offsetOf_eq small listed, List.length_append]
  omega

/-- The place of a text is behind those before it. -/
theorem place_mono {j : Nat} (listed : words[i]? = some word) (later : i < j) :
    place words i + 2 * word.length ≤ place words j := by
  obtain ⟨inside, same⟩ := List.getElem?_eq_some_iff.mp listed
  have listedBefore : (words.take j)[i]? = some word := by
    rw [List.getElem?_take_of_lt later, listed]
  have room := place_room listedBefore
  rwa [place, List.take_take, Nat.min_eq_left later.le] at room

include small in
/-- Different texts have different packed offsets. -/
theorem offsetOf_inj {j : Nat} {other : List UInt16} (listed : words[i]? = some word)
    (listedOther : words[j]? = some other) (nonempty : word ≠ []) (nonemptyOther : other ≠ [])
    (same : offsetOf words i word = offsetOf words j other) : i = j := by
  -- The places are told apart, not the lengths: an earlier text that is not empty ends before a
  -- later one begins.
  rw [offsetOf_eq small listed, offsetOf_eq small listedOther] at same
  have some := List.length_pos_iff.mpr nonempty
  have someOther := List.length_pos_iff.mpr nonemptyOther
  rcases Nat.lt_trichotomy i j with before | same | behind
  · have := place_mono listed before
    omega
  · exact same
  · have := place_mono listedOther behind
    omega

end Small

end Layout

section Offsets

/-- The texts added are read back from a text manager by the offsets their calls gave. -/
structure OffsetsReadBack (inputs : List InputText) (mng : TextMng) : Prop where
  read : ∀ call ∈ calls inputs, ∀ nBufIdx,
    cString (mng.getTextOfs call.2.2 nBufIdx).1 = call.1.text ∧
      call.2.2 % 32 = call.1.text.length
  told : ∀ call ∈ calls inputs, ∀ other ∈ calls inputs,
    (call.2.2 = other.2.2 ↔ call.1.text = other.1.text)

variable {inputs : List InputText} {textFp : File}

/-- The contents of the file are the texts and what stands behind them. -/
theorem save_eq (inputs : List InputText) : ∃ rest,
    (init.addTexts inputs).2.save = (wordsOf inputs).flatMap encode ++ rest := by
  obtain ⟨holds, _⟩ := addTexts_init inputs
  exact ⟨_, by rw [save, holds.file, List.append_assoc]⟩

/-- A text held is read back as a string, whatever the buffers held. -/
theorem cString_word {words : List (List UInt16)} (small : (words.flatMap encode).length < 2 ^ 27)
    {i : Nat} {word : List UInt16} (listed : words[i]? = some word) (short : word.length ≤ 31)
    (plain : 0 ∉ word) {mng : TextMng} {rest : List UInt8}
    (loaded : mng.textFp.data = words.flatMap encode ++ rest) (nBufIdx : Fin 4) :
    cString (mng.getTextOfs (offsetOf words i word) nBufIdx).1 = word := by
  have inside := textInside_word small listed short rest
  rw [← loaded] at inside
  rw [cString_getTextOfs nBufIdx inside, loaded, textAt_word small listed short rest,
    cString_eq_self plain]

/-- Texts are read back by their offsets exactly when none of them is longer than 31 units. -/
theorem offsetsReadBack_iff (saved : textFp.data = (init.addTexts inputs).2.save)
    (small : (init.addTexts inputs).2.file.length < 2 ^ 27)
    (nameFp : File) (textBuff : Fin 4 → List UInt16) (sized : ∀ i, (textBuff i).length = 32) :
    OffsetsReadBack inputs (LoadedTexts.load textFp nameFp textBuff sized).mng ↔
      ∀ input ∈ inputs, input.text.length ≤ 31 := by
  obtain ⟨holds, givens, called⟩ := addTexts_init inputs
  obtain ⟨rest, contents⟩ := save_eq inputs
  have loaded : (LoadedTexts.load textFp nameFp textBuff sized).mng.textFp.data =
      (wordsOf inputs).flatMap encode ++ rest := by
    rw [← contents, ← saved]
    simp [LoadedTexts.load]
  rw [holds.file] at small
  generalize (LoadedTexts.load textFp nameFp textBuff sized).mng = mng at loaded
  constructor
  · -- The length that is read back has five bits.
    intro readBack input member
    obtain ⟨given, call⟩ := called input member
    have length := (readBack.read _ call 0).2
    have low := Nat.mod_lt given.2 (show 0 < 32 by decide)
    dsimp only at length
    omega
  · intro short
    have shortCall : ∀ call ∈ calls inputs, call.1.text.length ≤ 31 := by
      intro call member
      exact short call.1 (List.of_mem_zip member).1
    constructor
    · intro call member nBufIdx
      obtain ⟨i, listed, given⟩ := givens call member
      have low := shortCall call member
      rw [given]
      refine ⟨cString_word small listed low call.1.text_plain loaded nBufIdx, ?_⟩
      rw [offsetOf_eq small listed]
      omega
    · -- Different texts stand at different places, and equal ones were added once.
      intro call member other memberOther
      obtain ⟨i, listed, given⟩ := givens call member
      obtain ⟨j, listedOther, givenOther⟩ := givens other memberOther
      rw [given, givenOther]
      constructor
      · intro same
        have place := offsetOf_inj small listed listedOther call.1.text_ne_nil
          other.1.text_ne_nil same
        rw [place, listedOther] at listed
        exact (Option.some.inj listed).symm
      · intro same
        rw [← same] at listedOther ⊢
        have place := (List.getElem?_inj (List.getElem?_eq_some_iff.mp listed).1
          holds.distinct).mp (listed.trans listedOther.symm)
        rw [place]

/-- The text `a` with blanks around it. -/
def shortText : InputText := ⟨[0x20, 0x61, 0x0D], by decide, 0x61, by decide, by decide⟩

/-- A text of 32 units. -/
def longText : InputText :=
  ⟨List.replicate 32 0x61, by decide, 0x61, by decide, by decide⟩

/-- The file saved behind some calls. -/
def savedFile (inputs : List InputText)
    (addressable : (init.addTexts inputs).2.save.length < 2 ^ 31) : File :=
  ⟨(init.addTexts inputs).2.save, 0, addressable⟩

/-- A file without names. -/
def noNames : File := ⟨[], 0, by decide⟩

/-- Two texts, one of them added twice, are read back by their offsets. -/
theorem offsetsReadBack_twice :
    OffsetsReadBack [shortText, ⟨[0x62, 0x61], by decide, 0x62, by decide, by decide⟩, shortText]
      (LoadedTexts.load (savedFile [shortText,
        ⟨[0x62, 0x61], by decide, 0x62, by decide, by decide⟩, shortText] (by decide +kernel))
        noNames (fun _ => List.replicate 32 0) (fun _ => rfl)).mng :=
  (offsetsReadBack_iff rfl (by decide +kernel) noNames _ _).mpr (by decide +kernel)

/-- A text of 32 units is given a length of 0. -/
theorem offsetsReadBack_long :
    (init.addTexts [longText]).2.file.length < 2 ^ 27 ∧
      ¬ OffsetsReadBack [longText]
        (LoadedTexts.load (savedFile [longText] (by decide +kernel)) noNames
          (fun _ => List.replicate 32 0) (fun _ => rfl)).mng := by
  refine ⟨by decide +kernel, fun readBack => ?_⟩
  have length := (readBack.read (longText, 1, 32) (by decide +kernel) 0).2
  exact absurd length (by decide +kernel)

end Offsets

section Trailer

/-- Two lists that agree up to an element that stops a scan are scanned alike. -/
theorem takeWhile_agree {α : Type} {p : α → Bool} (z : Nat) (stop : α) (stops : p stop = false) :
    ∀ {first second : List α}, first[z]? = some stop → (∀ i ≤ z, first[i]? = second[i]?) →
      first.takeWhile p = second.takeWhile p := by
  -- The induction is on the place of the element that stops the scan.
  induction z with
  | zero =>
    intro first second here agree
    have there := (agree 0 le_rfl).symm.trans here
    obtain ⟨_, rfl⟩ := List.head?_eq_some_iff.mp (List.head?_eq_getElem? ▸ here)
    obtain ⟨_, rfl⟩ := List.head?_eq_some_iff.mp (List.head?_eq_getElem? ▸ there)
    rw [List.takeWhile_cons_of_neg (by simp [stops]), List.takeWhile_cons_of_neg (by simp [stops])]
  | succ z ih =>
    intro first second here agree
    cases first with
    | nil => cases here
    | cons head tail =>
      have heads := agree 0 (Nat.zero_le _)
      cases second with
      | nil => cases heads
      | cons other rest =>
        cases heads
        have tails := ih here fun i low => agree (i + 1) (Nat.succ_le_succ low)
        rw [List.takeWhile_cons, List.takeWhile_cons, tails]

/-- The element behind a scan has stopped it. -/
theorem takeWhile_stop {α : Type} {p : α → Bool} : ∀ {list : List α} {element : α},
    list[(list.takeWhile p).length]? = some element → p element = false := by
  -- The induction follows the scan, which ends in front of the element.
  intro list
  induction list with
  | nil => simp
  | cons head tail ih =>
    intro element here
    by_cases goes : p head
    · rw [List.takeWhile_cons_of_pos goes, List.length_cons, List.getElem?_cons_succ] at here
      exact ih here
    · rw [List.takeWhile_cons_of_neg goes, List.length_nil, List.getElem?_cons_zero] at here
      cases here
      simpa using goes

variable {inputs : List InputText} {store : TextStore} {words : List (List UInt16)}

/-- The texts of a store in the order of its dictionary. -/
def sortedWords (store : TextStore) : List (List UInt16) := store.textIdx.entries.map Prod.fst

theorem sortedWords_sorted (store : TextStore) : (sortedWords store).Pairwise (· < ·) :=
  List.pairwise_map.mpr store.textIdx.sorted

/-- The dictionary has the texts of the store. -/
theorem Holds.sorted_perm (holds : Holds store words) : (sortedWords store).Perm words := by
  -- Neither list repeats a text, the dictionary because it is sorted and the store by its
  -- invariant, so it is enough that they have the same members.
  have told : (sortedWords store).Nodup := (sortedWords_sorted store).imp fun below => below.ne
  refine (List.perm_ext_iff_of_nodup told holds.distinct).mpr fun word => ?_
  rw [sortedWords, List.mem_map]
  constructor
  · rintro ⟨entry, member, rfl⟩
    obtain ⟨i, word, listed, rfl⟩ := (holds.textIdx entry).mp member
    exact List.mem_of_getElem? listed
  · intro member
    obtain ⟨i, listed⟩ := List.mem_iff_getElem?.mp member
    exact ⟨_, (holds.textIdx _).mpr ⟨i, word, listed, rfl⟩, rfl⟩

/-- The words behind the texts: their packed offsets in order, and where these begin. -/
def trailer (store : TextStore) : List Nat :=
  (store.textIdx.entries.map fun entry => entry.2.2) ++ [u32 store.file.length]

/-- The saved file is the texts and the trailer. -/
theorem save_eq_trailer (store : TextStore) :
    store.save = store.file ++ (trailer store).flatMap (leBytes 4) := by
  rw [save, trailer, List.flatMap_append, List.flatMap_map, List.append_assoc,
    List.flatMap_singleton]

theorem Holds.trailer_length (holds : Holds store words) :
    (trailer store).length = words.length + 1 := by
  rw [← holds.sorted_perm.length_eq, trailer, sortedWords]
  simp

/-- The size of the saved file. -/
theorem Holds.save_length (holds : Holds store words) :
    store.save.length = store.file.length + 4 * words.length + 4 := by
  rw [save_eq_trailer, List.length_append, length_words, holds.trailer_length]
  omega

/-- The words of the trailer have 32 bits. -/
theorem Holds.trailer_lt (holds : Holds store words) {word : Nat} (member : word ∈ trailer store) :
    word < 256 ^ 4 := by
  rw [trailer, List.mem_append, List.mem_map, List.mem_singleton] at member
  rcases member with ⟨entry, listed, rfl⟩ | rfl
  · obtain ⟨i, word, _, rfl⟩ := (holds.textIdx entry).mp listed
    exact u32_lt _
  · exact u32_lt _

/-- The words of the trailer stand behind the texts. -/
theorem Holds.wordAt_trailer (holds : Holds store words) {n : Nat}
    (listed : n < (trailer store).length) :
    wordAt store.save (store.file.length + n * 4) 4 = (trailer store)[n] := by
  rw [wordAt, save_eq_trailer, bytesAt_append_right]
  exact wordAt_words listed (holds.trailer_lt (List.getElem_mem listed))

/-- The last word of the file says where the trailer begins. -/
theorem Holds.trailer_last (holds : Holds store words) {n : Nat} (last : n = words.length)
    (listed : n < (trailer store).length) : (trailer store)[n] = u32 store.file.length := by
  -- The trailer has one word for each entry, and then the length of the file.
  have entries : store.textIdx.entries.length = words.length := by
    rw [← holds.sorted_perm.length_eq, sortedWords, List.length_map]
  subst last
  simp only [trailer]
  rw [List.getElem_append_right (by simp [entries])]
  simp [entries]

/-- The last word of the file is read as the place of the trailer. -/
theorem Holds.freadWord_end (holds : Holds store words) {textFp : File}
    (saved : textFp.data = store.save) (old : Nat) :
    (textFp.fseekEnd 4).freadWord 4 old =
      (store.file.length, textFp.moveTo (store.file.length + words.length * 4 + 4)) := by
  -- Seeking four bytes from the end leads to the last word of the trailer.
  have size := holds.save_length
  have addressable := textFp.addressable
  have listed : words.length < (trailer store).length := by
    rw [holds.trailer_length]
    omega
  have last : textFp.fseekEnd 4 = textFp.moveTo (store.file.length + words.length * 4) := by
    rw [File.fseekEnd, saved, if_pos (by omega)]
    congr 1
    omega
  rw [last, File.freadWord_inside (by simp only [File.moveTo_pos, File.moveTo_data, saved]; omega)]
  simp only [File.moveTo_data, File.moveTo_pos, File.moveTo_moveTo, saved]
  rw [saved] at addressable
  rw [holds.wordAt_trailer listed, holds.trailer_last rfl listed, u32_of_lt (by omega)]

/-- The other words are the packed offsets of the texts in order. -/
theorem Holds.trailer_entry (holds : Holds store words) {n : Nat} (before : n < words.length)
    (listed : n < (trailer store).length) :
    ∃ i word, words[i]? = some word ∧ (sortedWords store)[n]? = some word ∧
      (trailer store)[n] = offsetOf words i word := by
  -- The trailer is written by going through the dictionary in order, so its word n is that of the
  -- entry n.
  have entries : store.textIdx.entries.length = words.length := by
    rw [← holds.sorted_perm.length_eq, sortedWords, List.length_map]
  have inside : n < store.textIdx.entries.length := by omega
  obtain ⟨i, word, place, same⟩ := (holds.textIdx _).mp (List.getElem_mem inside)
  refine ⟨i, word, place, ?_, ?_⟩
  · rw [sortedWords, List.getElem?_map, List.getElem?_eq_getElem inside, same]
    rfl
  · simp only [trailer]
    rw [List.getElem_append_left (by simpa using inside), List.getElem_map, same]

/-- The texts take an even number of bytes. -/
theorem flatMap_encode_even (words : List (List UInt16)) :
    ∃ half, (words.flatMap encode).length = 2 * half := by
  -- Each text adds two bytes for every unit.
  induction words with
  | nil => exact ⟨0, rfl⟩
  | cons word rest ih =>
    obtain ⟨half, even⟩ := ih
    refine ⟨word.length + half, ?_⟩
    rw [List.flatMap_cons, List.length_append, encode_length, even]
    omega

/-- A small word has two zero bytes at its end. -/
theorem leBytes_small {value : Nat} (small : value < 256) :
    bytesAt (leBytes 4 value) 2 2 = [0, 0] := by
  simp [bytesAt, leBytes, Nat.div_eq_of_lt small]

/-- The trailer has a zero unit: the packed offset of the first text is a small number. -/
theorem Holds.zero_unit (holds : Holds store words) (some : words ≠ [])
    (short : store.file.length < 32) :
    ∃ j < words.length, decodeChar (bytesAt store.save (store.file.length + j * 4 + 2) 2) = 0 := by
  -- The first text begins at 0, so its packed offset is its length. That fits in the low half of
  -- its word, and the high half is the zero unit.
  obtain ⟨word, rest, rfl⟩ := List.exists_cons_of_ne_nil some
  have room : 0 + 2 * word.length ≤ store.file.length := by
    rw [holds.file]
    exact place_room (i := 0) rfl
  have first : offsetOf (word :: rest) 0 word = word.length := by
    have start : u32 (place (word :: rest) 0 * 32) = 0 := rfl
    rw [offsetOf, packed, start, Nat.zero_add, u32_of_lt (by omega)]
  have member : word.length ∈ store.textIdx.entries.map fun entry => entry.2.2 := by
    refine List.mem_map.mpr ⟨_, (holds.textIdx _).mpr ⟨0, word, rfl, rfl⟩, first⟩
  obtain ⟨j, inside, same⟩ := List.mem_iff_getElem.mp member
  have listed : j < (trailer store).length := by
    rw [trailer, List.length_append]
    omega
  have held : (trailer store)[j] = word.length := by
    simp only [trailer]
    rw [List.getElem_append_left inside, same]
  have entries : j < (word :: rest).length := by
    have := holds.trailer_length
    rw [trailer, List.length_append] at this
    simp only [List.length_singleton] at this
    omega
  refine ⟨j, entries, ?_⟩
  have bytes : bytesAt store.save (store.file.length + j * 4) 4 = leBytes 4 word.length := by
    rw [save_eq_trailer, bytesAt_append_right, bytesAt_words 4 listed, held]
  rw [← bytesAt_bytesAt (show 2 + 2 ≤ 4 by decide), bytes, leBytes_small (by omega)]
  rfl

/-- The unit where the trailer begins is not zero: it holds the length of a text. -/
theorem Holds.trailer_unit (holds : Holds store words) (some : words ≠ [])
    (nonempty : ∀ word ∈ words, word ≠ []) (short : store.file.length < 32) :
    decodeChar (bytesAt store.save store.file.length 2) ≠ 0 := by
  -- The first word of the trailer is a packed offset, which is at least the length of its text. The
  -- file is short, so the whole offset fits in the unit.
  have count := List.length_pos_iff.mpr some
  have listed : 0 < (trailer store).length := by
    rw [holds.trailer_length]
    omega
  obtain ⟨i, word, place, _, offset⟩ := holds.trailer_entry count listed
  have long := List.length_pos_iff.mpr (nonempty word (List.mem_of_getElem? place))
  have room := place_room place
  rw [← holds.file] at room
  rw [offsetOf_eq (by rw [← holds.file]; omega) place] at offset
  have bytes : bytesAt store.save store.file.length 4 = leBytes 4 (trailer store)[0] := by
    rw [save_eq_trailer, ← Nat.add_zero store.file.length, bytesAt_append_right,
      ← bytesAt_words 4 listed, Nat.zero_mul]
  have narrow (value : Nat) : bytesAt (leBytes 4 value) 0 2 = leBytes 2 value := rfl
  rw [← Nat.add_zero store.file.length, ← bytesAt_bytesAt (show 0 + 2 ≤ 4 by decide), bytes, narrow,
    offset]
  have unit := decodeChar_leBytes (UInt16.ofNat (TextStore.place words i * 32 + word.length))
  have small : TextStore.place words i * 32 + word.length < 2 ^ 16 := by omega
  rw [UInt16.toNat_ofNat_of_lt' small] at unit
  rw [unit]
  intro zero
  have value := congrArg UInt16.toNat zero
  rw [UInt16.toNat_ofNat_of_lt' small, UInt16.toNat_zero] at value
  omega

/-- The units of the texts are not zero. -/
theorem Holds.text_unit (holds : Holds store words) (plain : ∀ word ∈ words, 0 ∉ word) {i : Nat}
    (inside : i * 2 < store.file.length) :
    decodeChar (bytesAt store.save (i * 2) 2) ≠ 0 := by
  -- The texts written one behind the other are read as one long text, and none of its units is
  -- zero.
  have whole : store.file = [words.flatten].flatMap encode := by
    rw [holds.file, List.flatMap_singleton]
    simp only [encode, List.flatten_eq_flatMap, List.flatMap_assoc, id]
    rfl
  have alone : [words.flatten][0]? = some words.flatten := rfl
  have read := elementsAt_word alone ((trailer store).flatMap (leBytes 4))
  rw [← whole, ← save_eq_trailer] at read
  have within : i < words.flatten.length := by
    rw [whole, List.flatMap_singleton, encode_length] at inside
    omega
  have unit : decodeChar (bytesAt store.save (i * 2) 2) ∈ words.flatten := by
    rw [← read, File.elementsAt]
    refine List.mem_map.mpr ⟨i, List.mem_range.mpr within, ?_⟩
    simp [place]
  intro zero
  rw [zero] at unit
  obtain ⟨word, held, member⟩ := List.mem_flatten.mp unit
  exact plain word held member

/-- The number of bytes of some texts, taken for a packed offset, is read as one of them. -/
def SizeReads (words : List (List UInt16)) (word : List UInt16) : Prop :=
  32 ≤ (words.flatMap encode).length ∧
    cString (textAt (words.flatMap encode) (words.flatMap encode).length) = word

/--
When the place of the trailer reads as one of the texts, it is read from the texts alone.

In a file of less than 32 bytes of text, what is read goes on behind all of them.
-/
theorem Holds.trailer_read (holds : Holds store words)
    (fine : ∀ word ∈ words, word ≠ [] ∧ 0 ∉ word) {word : List UInt16} (held : word ∈ words) :
    cString (textAt store.save store.file.length) = word ↔ SizeReads words word := by
  rw [SizeReads, ← holds.file]
  rcases Nat.lt_or_ge store.file.length 32 with short | long
  · refine ⟨fun same => absurd same ?_, fun both => by omega⟩
    obtain ⟨i, listed⟩ := List.mem_iff_getElem?.mp held
    have room := place_room listed
    have some := List.length_pos_iff.mpr (fine word held).1
    rw [← holds.file] at room
    intro same
    -- The string stops inside the texts or right behind them, where no unit is zero.
    have there : (textAt store.save store.file.length)[(cString (textAt store.save
        store.file.length)).length]? =
          Option.some (decodeChar (bytesAt store.save (word.length * 2) 2)) := by
      rw [same, textAt, File.elementsAt, List.getElem?_map, List.getElem?_range (by omega),
        Nat.div_eq_of_lt short]
      simp
    have stopped := takeWhile_stop there
    rw [bne_eq_false_iff_eq] at stopped
    rcases Nat.lt_or_eq_of_le (show word.length * 2 ≤ store.file.length by omega) with before | last
    · exact holds.text_unit (fun word held => (fine word held).2) before stopped
    · rw [last] at stopped
      exact holds.trailer_unit (List.ne_nil_of_mem held) (fun word held => (fine word held).1)
        short stopped
  · have inside : TextInside store.file store.file.length := by
      rw [TextInside]
      omega
    rw [save_eq_trailer, textAt_append inside]
    exact ⟨fun same => ⟨long, same⟩, fun both => both.2⟩

/--
The text read at the place of the trailer does not depend on the buffer.

When the file ends before the text does, a zero unit of the trailer has ended its string.
-/
theorem Holds.cString_trailer (holds : Holds store words) {mng : TextMng}
    (loaded : mng.textFp.data = store.save) (nBufIdx : Fin 4) :
    cString (mng.getTextOfs store.file.length nBufIdx).1 =
      cString (textAt store.save store.file.length) := by
  by_cases inside : TextInside mng.textFp.data store.file.length
  · rw [cString_getTextOfs nBufIdx inside, loaded]
  have size := holds.save_length
  rw [TextInside, loaded, Nat.not_le] at inside
  have some : words ≠ [] := by
    intro none
    have empty : store.file.length = 0 := by rw [holds.file, none]; rfl
    omega
  have count := List.length_pos_iff.mpr some
  have short : store.file.length < 32 := by omega
  obtain ⟨half, even⟩ := flatMap_encode_even words
  rw [← holds.file] at even
  obtain ⟨j, listed, zero⟩ := holds.zero_unit some short
  -- The zero unit stands inside the text and inside the file.
  have place : store.file.length + j * 4 + 2 = (half + j * 2 + 1) * 2 := by omega
  have start : store.file.length / 32 = 0 := by omega
  have length : store.file.length % 32 = store.file.length := by omega
  have there : ∀ i ≤ half + j * 2 + 1,
      (textAt store.save store.file.length)[i]? =
        Option.some (decodeChar (bytesAt store.save (i * 2) 2)) := by
    intro i low
    rw [textAt, File.elementsAt, List.getElem?_map, List.getElem?_range (by omega), start]
    simp
  have here : ∀ i ≤ half + j * 2 + 1,
      (mng.getTextOfs store.file.length nBufIdx).1[i]? =
        Option.some (decodeChar (bytesAt store.save (i * 2) 2)) := by
    intro i low
    have sized := mng.sized nBufIdx
    have within : i < ((mng.textBuff nBufIdx).take store.file.length).length := by
      rw [List.length_take, sized]
      omega
    simp only [TextMng.getTextOfs, length, start]
    rw [List.getElem?_append_left (by rwa [File.freadArray_length]), File.fseek_of_lt (by decide),
      File.freadArray_getElem? _ within]
    · simp only [File.moveTo_pos, File.moveTo_data, loaded, Nat.zero_add]
    · simp only [File.moveTo_pos, File.moveTo_data, loaded]
      omega
  refine takeWhile_agree (half + j * 2 + 1) 0 (by decide) ?_ ?_
  · rw [here _ le_rfl, ← place, zero]
  · intro i low
    rw [here i low, there i low]

end Trailer

section Indices

variable {inputs : List InputText} {textFp : File}

/-- The texts added are read back from a loaded text manager by the indices their calls gave. -/
structure IndicesReadBack (inputs : List InputText) (junk : Nat) (loaded : LoadedTexts) : Prop where
  file : ∀ call ∈ calls inputs, cString (loaded.getText junk call.2.1).1 = call.1.text
  memory : ∀ call ∈ calls inputs, (init.addTexts inputs).2.text[call.2.1]? = some call.1.text

variable {store : TextStore} {words : List (List UInt16)} {loaded : LoadedTexts}

/-- A loaded text manager knows its texts and where the trailer begins. -/
theorem load_spec (saved : textFp.data = store.save) (holds : Holds store words) (nameFp : File)
    (textBuff : Fin 4 → List UInt16) (sized : ∀ i, (textBuff i).length = 32) :
    (LoadedTexts.load textFp nameFp textBuff sized).mng.textFp.data = store.save ∧
      (LoadedTexts.load textFp nameFp textBuff sized).textIdxOfs = store.file.length := by
  refine ⟨by simp [LoadedTexts.load, saved], ?_⟩
  simp only [LoadedTexts.load, holds.freadWord_end saved 0]

/-- `getText` reads the text at a word of the trailer. -/
theorem getText_trailer (holds : Holds store words) (small : store.file.length < 2 ^ 27)
    (opened : loaded.mng.textFp.data = store.save)
    (index : loaded.textIdxOfs = store.file.length) (junk : Nat) {n : Nat}
    (listed : n < (trailer store).length) :
    ∃ mng : TextMng, mng.textFp.data = store.save ∧
      (loaded.getText junk n).1 = (mng.getTextOfs (trailer store)[n] 0).1 := by
  -- The seek leads to the word n of the trailer, which is read whole, and the offset in it is what
  -- the text is read at.
  have size := holds.save_length
  have addressable := loaded.mng.textFp.addressable
  rw [opened] at addressable
  have count := holds.trailer_length
  have place : u32 (loaded.textIdxOfs + n * 4) = store.file.length + n * 4 := by
    rw [index, u32_of_lt (by omega)]
  refine ⟨{ loaded.mng with textFp := loaded.mng.textFp.moveTo (store.file.length + n * 4 + 4) },
    opened, ?_⟩
  simp only [LoadedTexts.getText, place]
  rw [File.freadWord_fseek (by rw [opened]; omega), opened, holds.wordAt_trailer listed]

/-- The texts of the trailer: those of the store in order, and what stands where it begins. -/
def trailerText (store : TextStore) (n : Nat) : Option (List UInt16) :=
  if n < (sortedWords store).length then (sortedWords store)[n]?
  else if n = (sortedWords store).length then
    some (cString (textAt store.save store.file.length))
  else none

/-- `getText` reads the texts of the trailer. -/
theorem getText_text (holds : Holds store words) (small : store.file.length < 2 ^ 27)
    (opened : loaded.mng.textFp.data = store.save)
    (index : loaded.textIdxOfs = store.file.length)
    (fine : ∀ word ∈ words, word.length ≤ 31 ∧ 0 ∉ word) (junk : Nat) {n : Nat}
    (listed : n ≤ words.length) :
    trailerText store n = some (cString (loaded.getText junk n).1) := by
  -- The words before the last are offsets of texts. The last one is the place of the trailer, and
  -- what is read there is what the trailer happens to say.
  have count := holds.trailer_length
  have sorted := holds.sorted_perm.length_eq
  have listedWord : n < (trailer store).length := by omega
  obtain ⟨mng, same, read⟩ := getText_trailer holds small opened index junk listedWord
  rw [trailerText, read]
  rcases Nat.lt_or_eq_of_le listed with before | last
  · obtain ⟨i, word, place, ordered, offset⟩ := holds.trailer_entry before listedWord
    obtain ⟨short, plain⟩ := fine word (List.mem_of_getElem? place)
    have contents : mng.textFp.data =
        words.flatMap encode ++ (trailer store).flatMap (leBytes 4) := by
      rw [same, save_eq_trailer, holds.file]
    rw [holds.file] at small
    rw [if_pos (by omega), ordered, offset, cString_word small place short plain contents 0]
  · rw [if_neg (by omega), if_pos (by omega), holds.trailer_last last listedWord,
      u32_of_lt (by omega), holds.cString_trailer same 0]

/--
The index agrees with the order of insertion.

The last text comes before all others, which were added in order, and the size of the texts happens
to be read as it.
-/
def LastFirst (words : List (List UInt16)) : Prop :=
  words = [] ∨ ∃ earlier last, words = earlier ++ [last] ∧ (last :: earlier).Pairwise (· < ·) ∧
    SizeReads words last

/-- The texts of the trailer are those added, one place further, in this case only. -/
theorem lastFirst_iff (holds : Holds store words)
    (fine : ∀ word ∈ words, word ≠ [] ∧ 0 ∉ word) :
    (∀ i word, words[i]? = some word → trailerText store (i + 1) = some word) ↔
      LastFirst words := by
  have ordered := sortedWords_sorted store
  have permuted := holds.sorted_perm
  have reads {word : List UInt16} (held : word ∈ words) := holds.trailer_read fine held
  unfold trailerText LastFirst
  generalize sortedWords store = sorted at ordered permuted
  have count := permuted.length_eq
  rcases List.eq_nil_or_concat words with none | ⟨earlier, last, split⟩
  · simp [none]
  rw [List.concat_eq_append] at split
  subst split
  rw [List.length_append, List.length_singleton] at count
  obtain ⟨smallest, others, rfl⟩ := List.exists_cons_of_length_eq_add_one count
  constructor
  · intro agree
    -- Behind the smallest text come the earlier ones, so that the last one is the smallest.
    have same : others = earlier := by
      refine List.ext_getElem? fun i => ?_
      rcases Nat.lt_or_ge i earlier.length with before | behind
      · have shifted := agree i earlier[i] (by
          rw [List.getElem?_append_left before, List.getElem?_eq_getElem before])
        rw [if_pos (by omega), List.getElem?_cons_succ] at shifted
        rw [shifted, List.getElem?_eq_getElem before]
      · rw [List.getElem?_eq_none behind, List.getElem?_eq_none]
        rw [List.length_cons] at count
        omega
    subst same
    have own : smallest = last := by
      have member := permuted.mem_iff.mp List.mem_cons_self
      rcases List.mem_append.mp member with inside | end'
      · exact absurd ((List.pairwise_cons.mp ordered).1 smallest inside) (lt_irrefl _)
      · exact List.mem_singleton.mp end'
    subst own
    have trailing := agree others.length smallest (by simp)
    rw [if_neg (by simp), if_pos (by simp), Option.some.injEq] at trailing
    exact .inr ⟨others, smallest, rfl, ordered, (reads (by simp)).mp trailing⟩
  · rintro (none | ⟨before, end', split, ascending, trailing⟩) i word listed
    · simp at none
    · obtain ⟨rfl, rfl⟩ := List.append_singleton_inj.mp split
      have order : smallest :: others = last :: earlier :=
        List.Perm.eq_of_pairwise
          (fun first second _ _ below above => absurd above (lt_asymm below)) ordered ascending
          (permuted.trans (List.perm_append_singleton last earlier))
      rw [order, List.length_cons]
      rcases Nat.lt_or_ge i earlier.length with inside | behind
      · rw [List.getElem?_append_left inside] at listed
        rw [if_pos (by omega), List.getElem?_cons_succ, listed]
      · rw [List.getElem?_append_right behind] at listed
        have first : i - earlier.length = 0 := by
          have := (List.getElem?_eq_some_iff.mp listed).1
          simpa using this
        rw [first] at listed
        cases listed
        rw [if_neg (by omega), if_pos (by omega), (reads (by simp)).mpr trailing]

/-- Texts are read back by their indices only when the last one comes first. -/
theorem indicesReadBack_iff (short : ∀ input ∈ inputs, input.text.length ≤ 31)
    (saved : textFp.data = (init.addTexts inputs).2.save)
    (small : (init.addTexts inputs).2.file.length < 2 ^ 27) (junk : Nat)
    (nameFp : File) (textBuff : Fin 4 → List UInt16) (sized : ∀ i, (textBuff i).length = 32) :
    IndicesReadBack inputs junk (LoadedTexts.load textFp nameFp textBuff sized) ↔
      LastFirst (wordsOf inputs) := by
  obtain ⟨holds, givens, called⟩ := addTexts_init inputs
  have fine : ∀ word ∈ wordsOf inputs, word.length ≤ 31 ∧ 0 ∉ word := by
    intro word held
    obtain ⟨input, member, rfl⟩ := mem_wordsOf held
    exact ⟨short input member, input.text_plain⟩
  obtain ⟨opened, index⟩ := load_spec saved holds nameFp textBuff sized
  generalize LoadedTexts.load textFp nameFp textBuff sized = loaded at opened index
  have read {i : Nat} {word : List UInt16} (listed : (wordsOf inputs)[i]? = some word) :
      trailerText (init.addTexts inputs).2 (i + 1) =
        some (cString (loaded.getText junk (i + 1)).1) :=
    getText_text holds small opened index fine junk (List.getElem?_eq_some_iff.mp listed).1
  rw [← lastFirst_iff holds wordsOf_fine]
  constructor
  · -- Every text held has a call, which gave its index.
    intro readBack i word listed
    obtain ⟨input, member, rfl⟩ := mem_wordsOf (List.mem_of_getElem? listed)
    obtain ⟨given, call⟩ := called input member
    obtain ⟨j, listedCall, same⟩ := givens _ call
    have place := (List.getElem?_inj (List.getElem?_eq_some_iff.mp listed).1
      holds.distinct).mp (listed.trans listedCall.symm)
    have back := readBack.file _ call
    rw [same, ← place] at back
    rw [read listed, back]
  · intro agree
    refine ⟨?_, ?_⟩
    · intro call member
      obtain ⟨i, listed, given⟩ := givens call member
      have trailing := agree i call.1.text listed
      rw [read listed, Option.some.injEq] at trailing
      rw [given, trailing]
    · intro call member
      obtain ⟨i, listed, given⟩ := givens call member
      rw [given, holds.text, List.getElem?_cons_succ, listed]

/-- A text of 31 units and one that comes before it. -/
def lastFirstTexts : List InputText :=
  [⟨0x62 :: List.replicate 30 0x61, by decide, 0x62, by decide, by decide⟩,
    ⟨[0x61, 0x61], by decide, 0x61, by decide, by decide⟩]

/-- Two texts are read back by their indices: the trailer begins at byte 66, which reads as `aa`. -/
theorem indicesReadBack_lastFirst :
    IndicesReadBack lastFirstTexts 0
      (LoadedTexts.load (savedFile lastFirstTexts (by decide +kernel)) noNames
        (fun _ => List.replicate 32 0) (fun _ => rfl)) := by
  refine (indicesReadBack_iff (by decide +kernel) rfl (by decide +kernel) 0 noNames _ _).mpr ?_
  exact .inr ⟨[0x62 :: List.replicate 30 0x61], [0x61, 0x61], by decide +kernel, by decide +kernel,
    by decide +kernel, by decide +kernel⟩

/-- A text alone is not read back by its index, which is that of the word behind its offset. -/
theorem indicesReadBack_alone :
    shortText.text.length ≤ 31 ∧ (init.addTexts [shortText]).2.file.length < 2 ^ 27 ∧
      ¬ IndicesReadBack [shortText] 0
        (LoadedTexts.load (savedFile [shortText] (by decide +kernel)) noNames
          (fun _ => List.replicate 32 0) (fun _ => rfl)) := by
  refine ⟨by decide +kernel, by decide +kernel, fun readBack => ?_⟩
  have text := readBack.file (shortText, 1, 1) (by decide +kernel)
  exact absurd text (by decide +kernel)

end Indices

end TextStore

end AndroidApps.Gildroia
