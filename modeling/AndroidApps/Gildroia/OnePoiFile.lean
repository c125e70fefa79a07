import AndroidApps.Gildroia.PoiNameComplete

/-! Files with a single POI of any given name, and what a search in them inserts. -/

namespace AndroidApps.Gildroia

variable {pText : Nat → UInt16} {nLen : Nat}

/-- The text file of one name. -/
def nameFile (name : List UInt16) (short : name.length ≤ 31) : File :=
  ⟨(name.map UInt16.toNat).flatMap (leBytes 2), 0, by
    rw [length_words, List.length_map]
    omega⟩

/-- The header of a POI whose name stands at the start of the text file. -/
def headerOf (name : List UInt16) : PoiHeaderF := ⟨name.length, 0, 0, 0, 0⟩

/-- A character is read back from its two bytes. -/
theorem decodeChar_leBytes (ch : UInt16) : decodeChar (leBytes 2 ch.toNat) = ch := by
  have whole : bytesAt (leBytes 2 ch.toNat) 0 2 = leBytes 2 ch.toNat := by
    simp [bytesAt, List.take_of_length_le]
  have small : ch.toNat < 256 ^ 2 := ch.toNat_lt
  rw [decodeChar, wordAt, whole, leWord_leBytes_of_lt small, UInt16.ofNat_toNat]

theorem headerOf_inside (name : List UInt16) (short : name.length ≤ 31) :
    TextInside (nameFile name short).data (headerOf name).nameOfs := by
  show name.length / 32 + name.length % 32 * 2 ≤ _
  rw [nameFile, length_words, List.length_map]
  omega

/-- The text file holds the name that the header refers to. -/
theorem nameOf_headerOf {name : List UInt16} (short : name.length ≤ 31)
    (plain : ∀ ch ∈ name, ch ≠ 0) : nameOf (nameFile name short).data (headerOf name) = name := by
  have stored : textAt (nameFile name short).data (headerOf name).nameOfs = name := by
    have place : (headerOf name).nameOfs / 32 = 0 := by
      show name.length / 32 = 0
      omega
    have count : (headerOf name).nameOfs % 32 = name.length := by
      show name.length % 32 = name.length
      omega
    rw [textAt, place, count]
    apply List.ext_getElem
    · exact File.elementsAt_length ..
    · intro i _ inside
      -- The i-th character stands two bytes behind the one before.
      simp only [File.elementsAt, List.getElem_map, List.getElem_range, Nat.zero_add, nameFile]
      rw [bytesAt_words 2 (by simpa using inside), List.getElem_map, decodeChar_leBytes]
  rw [nameOf, stored, cString, List.takeWhile_eq_self_iff]
  simpa using plain

/-- A file that begins with the header of a POI, given by words. -/
def headedFile (name : List UInt16) (words : List Nat) (few : words.length ≤ 6) : File :=
  ⟨(name.length :: 0 :: words).flatMap (leBytes 4), 0, by
    rw [length_words, List.length_cons, List.length_cons]
    omega⟩

/-- The words behind the header start at the eighth byte. -/
theorem headedFile_word {name : List UInt16} {words : List Nat} (few : words.length ≤ 6)
    {index : Nat} (listed : index < words.length) (fits : words[index] < 2 ^ 32) :
    wordAt (headedFile name words few).data (8 + index * 4) 4 = words[index] := by
  -- The header is two words, so that the words are those of the whole list from the third one on.
  have inside : index + 2 < (name.length :: 0 :: words).length := by
    rw [List.length_cons, List.length_cons]
    omega
  have word : wordAt ((name.length :: 0 :: words).flatMap (leBytes 4)) ((index + 2) * 4) 4 =
      (name.length :: 0 :: words)[index + 2] := wordAt_words inside (by simpa using fits)
  rw [List.getElem_cons_succ, List.getElem_cons_succ] at word
  rw [show 8 + index * 4 = (index + 2) * 4 by omega]
  exact word

/-- The header is the first element of the file. -/
theorem headedFile_header {name : List UInt16} {words : List Nat} (few : words.length ≤ 6)
    (short : name.length ≤ 31) :
    PoiHeaderF.decode (bytesAt (headedFile name words few).data 0 8) = headerOf name := by
  -- The two fields of the header are the first two words of the file.
  have first : wordAt ((name.length :: 0 :: words).flatMap (leBytes 4)) (0 * 4) 4 =
      (name.length :: 0 :: words)[0] := wordAt_words (by simp) (by simp; omega)
  have second : wordAt ((name.length :: 0 :: words).flatMap (leBytes 4)) (1 * 4) 4 =
      (name.length :: 0 :: words)[1] := wordAt_words (by simp) (by simp)
  unfold PoiHeaderF.decode headerOf
  simp only [wordAt] at first second ⊢
  rw [bytesAt_bytesAt (by decide), bytesAt_bytesAt (by decide)]
  simp only [headedFile]
  rw [show 0 + 0 = 0 * 4 by rfl, show 0 + 4 = 1 * 4 by rfl, first, second]
  simp [bitField]

/-- A lookup that leads to a single POI inserts it when its name agrees with the query. -/
theorem searchPoiName_single {locals : PoiNameLocals} {fuel nSidoIdx choCode : Nat}
    {helper : SearchHelper} {textMng : TextMng} {poiHeaders : PoiMap} {info : PoiHeaderF}
    {file : File}
    (found : findChosungOffsetPOI locals fuel helper.fp helper.poiHeader.poiChoIdxOfs
      helper.poiHeader.poiChoIdxCnt choCode = some (some (0, 1), file))
    (same : file.data = helper.fp.data) (inside : 8 ≤ helper.fp.data.length)
    (header : PoiHeaderF.decode (bytesAt helper.fp.data 0 8) = info)
    (named : TextInside textMng.textFp.data info.nameOfs)
    (agree : agreesUpTo pText (u16cpy locals.strName (nameOf textMng.textFp.data info)) nLen
      nLen) :
    ∃ result, helper.searchPoiName locals fuel textMng nSidoIdx pText nLen choCode
        (checkCompletHangul pText nLen) poiHeaders = some result ∧
      result.poiHeaders =
        poiHeaders.insert (nameOf textMng.textFp.data info, ⟨nSidoIdx, info⟩) := by
  unfold SearchHelper.searchPoiName
  rw [found]
  refine ⟨_, rfl, ?_⟩
  -- The only pass reads the header at the start and the name it refers to.
  have read : (file.fseek 0).fread PoiHeaderF.decode 8 locals.info =
      (info, file.moveTo (0 + 8)) := by
    rw [File.fread_fseek (by rw [same]; omega), same, header]
  have next : PoiNameVars.next ⟨file.fseek 0, textMng, locals.info, matchStart locals.strName,
      poiHeaders⟩ = info := by
    rw [PoiNameVars.next, read]
  have name : cString (PoiNameVars.text ⟨file.fseek 0, textMng, locals.info,
      matchStart locals.strName, poiHeaders⟩) = nameOf textMng.textFp.data info := by
    rw [PoiNameVars.text, next, cString_getTextOfs 0 named, nameOf]
  have inserted : (poiNamePass nSidoIdx pText nLen (checkCompletHangul pText nLen)
      ⟨file.fseek 0, textMng, locals.info, matchStart locals.strName, poiHeaders⟩).poiHeaders =
        _ :=
    poiNamePass_insert (Or.inl rfl) (by rw [← u16cpy_cString, name]; exact agree)
  rw [name, next] at inserted
  exact inserted

section Coded

variable {name : List UInt16}

/-- The index code of the first characters of a name. -/
def codeOf (name : List UInt16) (length : Nat) : Nat :=
  tranChosungText (fun i => name.getD i 0) length

/-- The code of one character is smaller than that of two. -/
theorem codeOf_increasing (name : List UInt16) : codeOf name 1 < codeOf name 2 := by
  have more : choIdx (name.getD 0 0) ≤
      (choIdx (name.getD 0 0) ||| choIdx (name.getD 1 0) <<< 6) := Nat.left_le_or
  rw [codeOf, codeOf, tranChosungText_one, tranChosungText_two _ (Nat.le_refl 2)]
  omega

/-- A file with one POI and an index record for each code of its name. -/
def onePoiFile (name : List UInt16) : File :=
  headedFile name [codeOf name 1, 0, 1, codeOf name 2, 0, 1] (Nat.le_refl 6)

/-- The three words of either index record. -/
theorem onePoiFile_record (name : List UInt16) {index : Nat} (listed : index < 2) :
    wordAt (onePoiFile name).data (8 + index * 12) 4 = codeOf name (index + 1) ∧
    wordAt (onePoiFile name).data (8 + index * 12 + 4) 4 = 0 ∧
    wordAt (onePoiFile name).data (8 + index * 12 + 8) 4 = 1 := by
  -- Both records are runs of three among the words behind the header.
  have one : codeOf name 1 < 2 ^ 32 := tranChosungText_lt _ 1
  have two : codeOf name 2 < 2 ^ 32 := tranChosungText_lt _ 2
  have word : ∀ place (within : place < [codeOf name 1, 0, 1, codeOf name 2, 0, 1].length),
      [codeOf name 1, 0, 1, codeOf name 2, 0, 1][place] < 2 ^ 32 →
      wordAt (onePoiFile name).data (8 + place * 4) 4 =
        [codeOf name 1, 0, 1, codeOf name 2, 0, 1][place] :=
    fun place within fits => headedFile_word _ within fits
  rcases Nat.lt_or_ge index 1 with first | second
  · have zero : index = 0 := by omega
    subst zero
    exact ⟨word 0 (by simp) one, word 1 (by simp) (by decide : 0 < 2 ^ 32),
      word 2 (by simp) (by decide : 1 < 2 ^ 32)⟩
  · have last : index = 1 := by omega
    subst last
    exact ⟨word 3 (by simp) two, word 4 (by simp) (by decide : 0 < 2 ^ 32),
      word 5 (by simp) (by decide : 1 < 2 ^ 32)⟩

@[simp] theorem onePoiFile_length (name : List UInt16) : (onePoiFile name).data.length = 32 := by
  simp [onePoiFile, headedFile]

/-- The index of such a file is as promised. -/
theorem onePoiFile_index (short : name.length ≤ 31) (plain : ∀ ch ∈ name, ch ≠ 0) :
    PoiIndex (onePoiFile name).data (nameFile name short).data 8 (min name.length 2)
      {headerOf name} := by
  have stored := nameOf_headerOf short plain
  apply poiIndex_of_records
  · rw [stored]
  · refine ⟨by decide, ?_, ?_⟩
    · rw [onePoiFile_length]
      omega
    · intro i j before listed
      -- There are at most two records, so these are the first and the second.
      have first : i = 0 := by omega
      have second : j = 1 := by omega
      subst first second
      have low := (onePoiFile_record name (show 0 < 2 by decide)).1
      have high := (onePoiFile_record name (show 1 < 2 by decide)).1
      show wordAt _ _ 4 < wordAt _ _ 4
      rw [low, high]
      exact codeOf_increasing name
  · intro index listed
    obtain ⟨_, offset, count⟩ := onePoiFile_record name (show index < 2 by omega)
    rw [offset, count, onePoiFile_length]
    omega
  · intro index listed
    obtain ⟨_, offset, count⟩ := onePoiFile_record name (show index < 2 by omega)
    rw [bucketAt, offset, count, File.elementsAt_succ]
    rw [onePoiFile, headedFile_header _ short]
    rfl
  · exact headerOf_inside name short
  · intro index listed
    rw [stored]
    exact (onePoiFile_record name (show index < 2 by omega)).1

end Coded

end AndroidApps.Gildroia
