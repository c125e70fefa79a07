import AndroidApps.CommonLib.FilesystemInfo

/-! Which files the walk over a device comes to, and when it comes to an end. -/

namespace AndroidApps.CommonLib

open JString (ofChars ofBytes utf8)

section Rows

/-- A word of a listing. -/
abbrev RowWord : Type := { chars : List Char // chars ≠ [] ∧ ' ' ∉ chars ∧ '\n' ∉ chars }

/-- Words, with one space behind each of them and as many more as are said. -/
def spaced (front : List (RowWord × Nat)) : List Char :=
  front.flatMap fun word => word.1.1 ++ List.replicate (word.2 + 1) ' '

/-- Words, with one space behind each of them. -/
def tidy (front : List (RowWord × Nat)) : List Char :=
  front.flatMap fun word => word.1.1 ++ [' ']

/-- A row of a listing: two words or more, with spaces between them. -/
structure Row where
  front : List (RowWord × Nat)
  several : front ≠ []
  last : RowWord

namespace Row

/-- The row as it is printed. -/
def text (row : Row) : List Char := spaced row.front ++ row.last.1

/-- The row of a directory. -/
def isDir (row : Row) : Bool := (ofChars row.text).head? == some 0x64

/-- The row of a file. -/
def isFile (row : Row) : Bool := (ofChars row.text).head? == some 0x2D

/-- What stands in front of the last word of a name, which begins behind the sixth word. -/
def nameFront (row : Row) : JString := ofChars (tidy (row.front.drop 6))

/-- The name in a row. -/
def name (row : Row) : JString := row.nameFront ++ ofChars row.last.1

/-- The name in a row without its last byte. -/
def cutName (row : Row) : JString := row.nameFront ++ ofBytes (utf8 row.last.1).dropLast

end Row

/-- The rows of a listing with the names that are read from them: the last one is cut. -/
def shownRows : List Row → List (Row × JString)
  | [] => []
  | [row] => [(row, row.cutName)]
  | row :: other :: rest => (row, row.name) :: shownRows (other :: rest)

end Rows

section Squeezing

/-- A byte below 0x80 of a text is one of its characters. -/
theorem mem_utf8 {byte : UInt8} (small : byte < 0x80) {chars : List Char}
    (member : byte ∈ utf8 chars) : Char.ofNat byte.toNat ∈ chars := by
  obtain ⟨ch, inside, here⟩ := List.mem_flatMap.mp member
  rw [JString.utf8EncodeChar_mem small here, Char.ofNat_toNat]
  exact inside

/-- A word has no space in its bytes. -/
theorem space_not_mem (word : RowWord) : 0x20 ∉ utf8 word.1 :=
  fun member => word.2.2.1 (mem_utf8 (by decide) member)

/-- A word has no line feed in its bytes. -/
theorem lineFeed_not_mem (word : RowWord) : 0x0A ∉ utf8 word.1 :=
  fun member => word.2.2.2 (mem_utf8 (by decide) member)

/-- The bytes of two texts, one behind the other. -/
theorem utf8_append (front back : List Char) : utf8 (front ++ back) = utf8 front ++ utf8 back :=
  List.flatMap_append

/-- The bytes of spaces. -/
theorem utf8_spaces (count : Nat) :
    utf8 (List.replicate count ' ') = List.replicate count 0x20 := by
  induction count with
  | zero => rfl
  | succ count ih =>
    rw [List.replicate_succ, List.replicate_succ, ← ih]
    rfl

/-- A word begins with a byte that is no space. -/
theorem utf8_word (word : RowWord) : ∃ byte rest, utf8 word.1 = byte :: rest ∧ byte ≠ 0x20 := by
  have filled : utf8 word.1 ≠ [] := by
    obtain ⟨ch, others, split⟩ := List.exists_cons_of_ne_nil word.2.1
    rw [split, utf8, List.flatMap_cons]
    intro empty
    exact String.utf8EncodeChar_ne_nil (List.append_eq_nil_iff.mp empty).1
  obtain ⟨byte, rest, split⟩ := List.exists_cons_of_ne_nil filled
  refine ⟨byte, rest, split, ?_⟩
  -- A space as its first byte would be one of its characters.
  rintro rfl
  exact space_not_mem word (split ▸ List.mem_cons_self)

/-- A byte that is no space stays, if another one is behind it. -/
theorem squeeze_cons {byte : UInt8} (visible : byte ≠ 0x20) {rest : List UInt8}
    (more : rest ≠ []) : squeeze (byte :: rest) = byte :: squeeze rest := by
  obtain ⟨next, others, rfl⟩ := List.exists_cons_of_ne_nil more
  rw [squeeze, if_neg fun spaces => visible spaces.1]

/-- Bytes that are no spaces stay, if another one is behind them. -/
theorem squeeze_append {bytes rest : List UInt8} (visible : 0x20 ∉ bytes) (more : rest ≠ []) :
    squeeze (bytes ++ rest) = bytes ++ squeeze rest := by
  induction bytes with
  | nil => rfl
  | cons byte bytes ih =>
    rw [List.mem_cons, not_or] at visible
    rw [List.cons_append, squeeze_cons (Ne.symm visible.1) (by simp [more]), ih visible.2]
    rfl

/-- Of some spaces in front of another byte one is left. -/
theorem squeeze_spaces (count : Nat) {byte : UInt8} (visible : byte ≠ 0x20) (rest : List UInt8) :
    squeeze (List.replicate (count + 1) 0x20 ++ byte :: rest) =
      0x20 :: squeeze (byte :: rest) := by
  induction count with
  | zero =>
    show squeeze (0x20 :: byte :: rest) = _
    rw [squeeze, if_neg fun spaces => visible spaces.2]
  | succ count ih =>
    rw [← ih, List.replicate_succ, List.replicate_succ]
    -- The first of two spaces goes.
    show squeeze (0x20 :: 0x20 :: (List.replicate count 0x20 ++ byte :: rest)) = _
    rw [squeeze, if_pos ⟨rfl, rfl⟩]
    rfl

/-- The last byte of a word at the end is dropped. -/
theorem squeeze_end {bytes : List UInt8} (visible : 0x20 ∉ bytes) :
    squeeze bytes = bytes.dropLast := by
  induction bytes with
  | nil => rfl
  | cons byte bytes ih =>
    rw [List.mem_cons, not_or] at visible
    cases bytes with
    | nil => rfl
    | cons next rest =>
      -- Only the byte that nothing follows is left out.
      rw [squeeze_cons (Ne.symm visible.1) (by simp), ih visible.2, List.dropLast_cons_cons]

/-- Words in front of another one are brought to one space each. -/
theorem squeeze_spaced (front : List (RowWord × Nat)) {byte : UInt8} (visible : byte ≠ 0x20)
    (rest : List UInt8) :
    squeeze (utf8 (spaced front) ++ byte :: rest) =
      utf8 (tidy front) ++ squeeze (byte :: rest) := by
  induction front with
  | nil => rfl
  | cons word front ih =>
    -- Behind the spaces there is the next word, or what follows all of them.
    obtain ⟨next, others, begins, shown⟩ : ∃ next others,
        utf8 (spaced front) ++ byte :: rest = next :: others ∧ next ≠ 0x20 := by
      cases front with
      | nil => exact ⟨byte, rest, rfl, visible⟩
      | cons second front =>
        obtain ⟨next, others, split, shown⟩ := utf8_word second.1
        have begins : utf8 (spaced (second :: front)) = next :: (others ++
            utf8 (List.replicate (second.2 + 1) ' ') ++ utf8 (spaced front)) := by
          rw [spaced, List.flatMap_cons, utf8_append, utf8_append, split]
          rfl
        rw [begins]
        exact ⟨next, _, rfl, shown⟩
    -- The word stays, one of its spaces does, and the others are cut from the rest.
    rw [spaced, List.flatMap_cons, ← spaced, utf8_append, utf8_append, utf8_spaces,
      List.append_assoc, List.append_assoc, begins,
      squeeze_append (space_not_mem word.1) (by simp), squeeze_spaces word.2 shown, ← begins, ih]
    have first : tidy (word :: front) = word.1.1 ++ [' '] ++ tidy front := List.flatMap_cons
    rw [first, utf8_append, utf8_append, List.append_assoc, List.append_assoc]
    rfl

/-- A row that others follow. -/
theorem squeeze_row (row : Row) {rest : List UInt8} (more : rest ≠ []) :
    squeeze (utf8 row.text ++ 0x0A :: rest) =
      utf8 (tidy row.front ++ row.last.1) ++ 0x0A :: squeeze rest := by
  obtain ⟨byte, others, split, shown⟩ := utf8_word row.last
  have behind : squeeze (utf8 row.last.1 ++ 0x0A :: rest) =
      utf8 row.last.1 ++ squeeze (0x0A :: rest) :=
    squeeze_append (space_not_mem row.last) (by simp)
  -- The line feed stays too, since something follows it.
  rw [squeeze_cons (by decide) more, split, List.cons_append] at behind
  rw [Row.text, utf8_append, List.append_assoc, split, List.cons_append,
    squeeze_spaced row.front shown, behind, utf8_append, split, List.append_assoc]

/-- The last row loses its last byte. -/
theorem squeeze_lastRow (row : Row) :
    squeeze (utf8 row.text) = utf8 (tidy row.front) ++ (utf8 row.last.1).dropLast := by
  obtain ⟨byte, others, split, shown⟩ := utf8_word row.last
  have behind := squeeze_end (space_not_mem row.last)
  rw [split] at behind
  rw [Row.text, utf8_append, split, squeeze_spaced row.front shown, behind]

end Squeezing

section Cutting

/-- The units of two texts, one behind the other. -/
theorem ofChars_append (front back : List Char) :
    ofChars (front ++ back) = ofChars front ++ ofChars back :=
  List.flatMap_append

/-- The units of several texts. -/
theorem ofChars_flatMap {α : Type} (parts : List α) (text : α → List Char) :
    ofChars (parts.flatMap text) = parts.flatMap fun part => ofChars (text part) := by
  rw [ofChars, List.flatMap_assoc]
  rfl

/-- A text without units has no characters. -/
theorem ofChars_eq_nil {chars : List Char} : ofChars chars = [] ↔ chars = [] := by
  constructor
  · intro empty
    cases chars with
    | nil => rfl
    | cons ch chars =>
      rw [ofChars, List.flatMap_cons, JString.utf16] at empty
      split at empty
      · cases empty
      · cases empty
  · rintro rfl
    rfl

/-- Words with a space behind each of them, as units. -/
theorem ofChars_tidy (front : List (RowWord × Nat)) :
    ofChars (tidy front) = front.flatMap fun word => ofChars word.1.1 ++ [0x20] := by
  induction front with
  | nil => rfl
  | cons word front ih =>
    have first : tidy (word :: front) = word.1.1 ++ [' '] ++ tidy front := List.flatMap_cons
    rw [first, ofChars_append, ofChars_append, ih, List.flatMap_cons]
    rfl

/-- The first pieces are cut off, up to the limit. -/
theorem splitLimit_words (limit : Nat) : ∀ (front : List JString) {last : JString},
    (∀ piece ∈ front, (0x20 : UInt16) ∉ piece) → (0x20 : UInt16) ∉ last →
      splitLimit 0x20 (limit + 1) (front.flatMap (· ++ [0x20]) ++ last) =
        front.take limit ++ [(front.drop limit).flatMap (· ++ [0x20]) ++ last] := by
  induction limit with
  | zero =>
    intro front last _ _
    rfl
  | succ limit ih =>
    intro front last plain plainLast
    cases front with
    | nil =>
      -- The last piece has no separator to be cut at.
      have whole : last.dropWhile (· ≠ 0x20) = [] := by
        rw [List.dropWhile_eq_nil_iff]
        intro unit member
        simpa using fun same : unit = 0x20 => plainLast (same ▸ member)
      rw [List.flatMap_nil, List.nil_append, splitLimit, whole]
      rfl
    | cons first front =>
      rw [List.forall_mem_cons] at plain
      have stop : ∀ unit ∈ first, (decide (unit ≠ 0x20)) = true := by
        intro unit member
        simpa using fun same : unit = 0x20 => plain.1 (same ▸ member)
      -- The first separator stands right behind the first piece.
      rw [List.flatMap_cons, List.append_assoc, List.append_assoc, splitLimit,
        List.dropWhile_append_of_pos stop, List.takeWhile_append_of_pos stop]
      have cut := ih front plain.2 plainLast
      simpa using cut

/-- A word as units, with no space and no line feed in it. -/
theorem word_plain (word : RowWord) :
    (0x20 : UInt16) ∉ ofChars word.1 ∧ (0x0A : UInt16) ∉ ofChars word.1 := by
  have read := JString.ofBytes_utf8 word.1 []
  rw [List.append_nil] at read
  rw [show ofChars word.1 = ofBytes (utf8 word.1) from read.symm ▸ (List.append_nil _).symm]
  exact ⟨fun member => space_not_mem word (JString.mem_ofBytes (by decide) member),
    fun member => lineFeed_not_mem word (JString.mem_ofBytes (by decide) member)⟩

/-- A word that lost its last byte has no space and no line feed in it either. -/
theorem cutWord_plain (word : RowWord) :
    (0x20 : UInt16) ∉ ofBytes (utf8 word.1).dropLast ∧
      (0x0A : UInt16) ∉ ofBytes (utf8 word.1).dropLast := by
  constructor
  · intro member
    exact space_not_mem word (List.mem_of_mem_dropLast (JString.mem_ofBytes (by decide) member))
  · intro member
    exact lineFeed_not_mem word (List.mem_of_mem_dropLast (JString.mem_ofBytes (by decide) member))

namespace Row

/-- A row with one space behind each word, and with its last word as it is or cut. -/
def shown (row : Row) (last : JString) : JString := ofChars (tidy row.front) ++ last

/-- The pieces of a row. -/
theorem split_shown (row : Row) {last : JString} (plain : (0x20 : UInt16) ∉ last) :
    splitLimit 0x20 7 (row.shown last) =
      (row.front.map fun word => ofChars word.1.1).take 6 ++ [row.nameFront ++ last] := by
  have cut := splitLimit_words 6 (row.front.map fun word => ofChars word.1.1)
    (List.forall_mem_map.mpr fun word _ => (word_plain word.1).1) plain
  rw [List.flatMap_map] at cut
  rw [shown, ofChars_tidy, cut, nameFront, ofChars_tidy, ← List.map_drop, List.flatMap_map]

/-- The name is the last piece of a row. -/
theorem name_shown (row : Row) {last : JString} (plain : (0x20 : UInt16) ∉ last) :
    (splitLimit 0x20 7 (row.shown last)).getLastD [] = row.nameFront ++ last := by
  rw [row.split_shown plain, List.getLastD_concat]

/-- A row and its first piece begin with the same unit. -/
theorem kind_shown (row : Row) {last : JString} (plain : (0x20 : UInt16) ∉ last) :
    ((splitLimit 0x20 7 (row.shown last)).headD []).head? = (ofChars row.text).head? := by
  rw [row.split_shown plain]
  obtain ⟨first, others, split⟩ := List.exists_cons_of_ne_nil row.several
  obtain ⟨unit, units, begins⟩ := List.exists_cons_of_ne_nil
    (fun empty => first.1.2.1 (ofChars_eq_nil.mp empty))
  have front : row.text = first.1.1 ++ (List.replicate (first.2 + 1) ' ' ++ spaced others ++
      row.last.1) := by
    rw [text, split, spaced, List.flatMap_cons, ← spaced, List.append_assoc, List.append_assoc,
      List.append_assoc]
  rw [front, ofChars_append, split, begins]
  simp [begins]

end Row

/-- Pieces with a separator between them: one behind each of them but the last. -/
theorem intercalate_snoc (separator : UInt16) (pieces : List JString) (last : JString) :
    [separator].intercalate (pieces ++ [last]) = pieces.flatMap (· ++ [separator]) ++ last := by
  induction pieces with
  | nil => simp
  | cons piece pieces ih =>
    rw [List.flatMap_cons, List.append_assoc, ← ih]
    cases pieces with
    | nil => simp
    | cons => simp [List.intercalate_cons_cons]

/-- The bytes of a listing, when its spaces and its last byte are gone. -/
theorem squeeze_listing (rows : List Row) (final : Row) :
    squeeze (utf8 (rows.flatMap (fun row => row.text ++ ['\n']) ++ final.text)) =
      utf8 (rows.flatMap (fun row => tidy row.front ++ row.last.1 ++ ['\n']) ++
        tidy final.front) ++ (utf8 final.last.1).dropLast := by
  induction rows with
  | nil => exact squeeze_lastRow final
  | cons row rows ih =>
    -- A row is followed by a line feed and at least the last row.
    have more : utf8 (rows.flatMap (fun row => row.text ++ ['\n']) ++ final.text) ≠ [] := by
      obtain ⟨byte, others, split, -⟩ := utf8_word final.last
      rw [Row.text, utf8_append, utf8_append, split]
      simp
    rw [List.flatMap_cons, List.append_assoc, List.append_assoc, utf8_append]
    have first := squeeze_row row more
    rw [ih] at first
    rw [List.flatMap_cons, List.append_assoc, List.append_assoc]
    simp only [utf8_append, List.append_assoc] at first ⊢
    exact first

/-- What is left of a listing: its rows with one space behind each word, and the last one cut. -/
theorem removeDbSpace_listing (rows : List Row) (final : Row) :
    removeDbSpace (joined ((rows ++ [final]).map fun row => ofChars row.text)) =
      some ([0x0A].intercalate ((rows.map fun row => row.shown (ofChars row.last.1)) ++
        [final.shown (ofBytes (utf8 final.last.1).dropLast)])) := by
  have printed : joined ((rows ++ [final]).map fun row => ofChars row.text) =
      some (ofChars (rows.flatMap (fun row => row.text ++ ['\n']) ++ final.text)) := by
    have lines : joined ((rows ++ [final]).map fun row => ofChars row.text) = some
        ([0x0A].intercalate ((rows ++ [final]).map fun row => ofChars row.text)) := by
      cases rows with
      | nil => rfl
      | cons => rfl
    rw [lines, List.map_append, List.map_singleton, intercalate_snoc, List.flatMap_map,
      ofChars_append, ofChars_flatMap]
    simp only [ofChars_append]
    rfl
  have filled : getBytes (ofChars (rows.flatMap (fun row => row.text ++ ['\n']) ++ final.text)) =
      utf8 (rows.flatMap (fun row => row.text ++ ['\n']) ++ final.text) := by
    rw [getBytes, JString.chars_ofChars]
  have some' : utf8 (rows.flatMap (fun row => row.text ++ ['\n']) ++ final.text) ≠ [] := by
    obtain ⟨byte, others, split, -⟩ := utf8_word final.last
    rw [Row.text, utf8_append, utf8_append, split]
    simp
  obtain ⟨byte, others, split⟩ := List.exists_cons_of_ne_nil some'
  have squeezed := squeeze_listing rows final
  rw [split] at squeezed filled
  rw [printed, removeDbSpace, filled]
  simp only [Option.some.injEq]
  rw [squeezed, JString.ofBytes_utf8, ofChars_append, intercalate_snoc, List.flatMap_map,
    ofChars_flatMap, List.append_assoc]
  simp only [ofChars_append, Row.shown]
  rfl

end Cutting

section Process

/-- The directories that are found at a path, with the rows that are printed for each path. -/
def below (entries : JString → List Row) (path : JString) : List JString :=
  if skipsDir path then []
  else (shownRows (entries path)).flatMap fun shown =>
    if shown.1.isDir then [slash path ++ shown.2] else []

/-- What is written at a path. -/
def written (device : Device) (entries : JString → List Row) (path : JString) : List UInt8 :=
  if skipsDir path then []
  else (shownRows (entries path)).flatMap fun shown =>
    if shown.1.isFile then fileText device (slash path ++ shown.2) else []

variable {device : Device} {entries : JString → List Row} {path : JString}

/-- The names that are read from a listing: those of its rows, and the cut one of the last. -/
theorem shownRows_concat (rows : List Row) (final : Row) :
    shownRows (rows ++ [final]) =
      rows.map (fun row => (row, row.name)) ++ [(final, final.cutName)] := by
  induction rows with
  | nil => rfl
  | cons row rows ih =>
    cases rows with
    | nil => rfl
    | cons other rest =>
      show (row, row.name) :: shownRows (other :: rest ++ [final]) = _
      rw [ih]
      rfl

/-- A row is a directory's, a file's, or neither. -/
theorem processRow_shown (row : Row) {last : JString} (plain : (0x20 : UInt16) ∉ last) :
    processRow device path (row.shown last) =
      (if row.isDir then [path ++ (row.nameFront ++ last)] else [],
        if row.isFile then fileText device (path ++ (row.nameFront ++ last)) else []) := by
  have kind := row.kind_shown plain
  have name := row.name_shown plain
  unfold processRow Row.isDir Row.isFile
  simp only [kind, name, beq_iff_eq]
  by_cases dir : (ofChars row.text).head? = some 0x64
  · simp [dir]
  · by_cases file : (ofChars row.text).head? = some 0x2D
    · simp [file]
    · simp [dir, file]

/-- A row has no line feed in it, and something at its front. -/
theorem Row.shown_plain (row : Row) {last : JString} (plain : (0x0A : UInt16) ∉ last) :
    (0x0A : UInt16) ∉ row.shown last ∧ row.shown last ≠ [] := by
  unfold Row.shown
  rw [ofChars_tidy]
  constructor
  · intro member
    rcases List.mem_append.mp member with front | back
    · obtain ⟨word, -, inside⟩ := List.mem_flatMap.mp front
      rcases List.mem_append.mp inside with unit | space
      · exact (word_plain word.1).2 unit
      · exact absurd (List.mem_singleton.mp space) (by decide)
    · exact plain back
  · obtain ⟨first, others, split⟩ := List.exists_cons_of_ne_nil row.several
    rw [split]
    simp

/-- A listing is cut into its rows again. -/
theorem split_listing (rows : List Row) (final : Row) :
    JString.split 0x0A ([0x0A].intercalate
        ((rows.map fun row => row.shown (ofChars row.last.1)) ++
          [final.shown (ofBytes (utf8 final.last.1).dropLast)])) =
      (rows.map fun row => row.shown (ofChars row.last.1)) ++
        [final.shown (ofBytes (utf8 final.last.1).dropLast)] := by
  obtain ⟨plain, filled⟩ := final.shown_plain (cutWord_plain final.last).2
  cases rows with
  | nil =>
    rw [List.map_nil, List.nil_append, List.intercalate_singleton]
    exact JString.split_of_not_mem plain
  | cons row rows =>
    refine JString.split_intercalate (by simp) ?_ filled
    intro piece member
    rcases List.mem_append.mp member with front | last
    · obtain ⟨other, -, rfl⟩ := List.mem_map.mp front
      exact (other.shown_plain (word_plain other.last).2).1
    · rw [List.mem_singleton.mp last]
      exact plain

/-- A directory that is walked, and whose listing does not fit into the pipe. -/
def Clogs (device : Device) (path : JString) : Prop :=
  skipsDir path = false ∧ (device.ls path).Overflows device.pipe

/-- What is done at a path for which rows are printed, if they fit into the pipe. -/
theorem process_listed
    (printed : (device.ls path).lines = (entries path).map fun row => ofChars row.text)
    (fits : ¬ Clogs device path) :
    process device path = .returns (below entries path) (written device entries path) := by
  unfold process below written
  by_cases skipped : skipsDir path = true
  · simp [skipped]
  · have read : shell device.pipe (device.ls path) = some (joined (device.ls path).lines) :=
      if_neg fun overflows => fits ⟨by simpa using skipped, overflows⟩
    rw [if_neg skipped, if_neg skipped, if_neg skipped, read, printed]
    dsimp only
    rcases List.eq_nil_or_concat (entries path) with none | ⟨rows, final, some'⟩
    · -- Where nothing is printed, there is one row with nothing in it.
      rw [none]
      rfl
    · rw [some', List.concat_eq_append, removeDbSpace_listing]
      dsimp only
      rw [split_listing, shownRows_concat]
      simp only [List.map_append, List.map_map, List.map_singleton, List.flatMap_append,
        List.flatMap_map, List.flatMap_singleton, Function.comp_def,
        processRow_shown _ (cutWord_plain _).1, processRow_shown _ (word_plain _).1]
      rfl

/-- Nothing comes of a listing that does not fit into the pipe. -/
theorem process_clogs (clogs : Clogs device path) : process device path = .blocks := by
  have waits : shell device.pipe (device.ls path) = none := if_pos clogs.2
  rw [process, clogs.1, if_neg Bool.false_ne_true, waits]

end Process

section Ends

variable {device : Device} {entries : JString → List Row} {path : JString}

/-- The paths that are taken from the queue in a round, from the root on. -/
abbrev walked (entries : JString → List Row) (round : Nat) : List JString :=
  Levels.level (below entries) [[0x2F]] round

/--
The last row of a listing is that of a directory whose name is read as a single byte.

The name is a single byte, or two words of which the second one is: `split` cuts six words off.
-/
def EndsInLetter (rows : List Row) : Prop :=
  ∃ row, rows.getLast? = some row ∧ row.isDir = true ∧ row.front.length ≤ 6 ∧
    (utf8 row.last.1).length = 1

/-- A device that can be walked over: what it prints, and that its paths do not grow for ever. -/
structure Walkable (device : Device) (entries : JString → List Row) : Prop where
  printed : ∀ round, ∀ path ∈ walked entries round,
    (device.ls path).lines = (entries path).map fun row => ofChars row.text
  slashed : ∀ path, (∃ row ∈ entries path, row.isDir = true) → entries (slash path) = entries path
  finite : ∃ longest, ∀ path, longest < path.length → ∀ row ∈ entries path, row.isDir = false

/-- The rows that are read from a listing are its own. -/
theorem shownRows_mem {rows : List Row} {shown : Row × JString} (member : shown ∈ shownRows rows) :
    shown.1 ∈ rows := by
  rcases List.eq_nil_or_concat rows with rfl | ⟨front, final, rfl⟩
  · cases member
  · rw [List.concat_eq_append, shownRows_concat] at member
    rcases List.mem_append.mp member with other | last
    · obtain ⟨row, inside, rfl⟩ := List.mem_map.mp other
      simp [inside]
    · rw [List.mem_singleton.mp last]
      simp

/-- A word is cut to nothing exactly when it is a single byte. -/
theorem cutWord_eq_nil (word : RowWord) :
    ofBytes (utf8 word.1).dropLast = [] ↔ (utf8 word.1).length = 1 := by
  obtain ⟨byte, rest, split, -⟩ := utf8_word word
  constructor
  · intro empty
    obtain ⟨front, back, -, ⟨bytes, read⟩ | read⟩ :=
      JString.ofBytes_utf8_cut word.1 (List.dropLast_prefix (utf8 word.1))
    · -- The bytes in front are those of no character.
      rw [read] at empty
      rw [ofChars_eq_nil.mp empty] at bytes
      have length := congrArg List.length bytes
      rw [List.length_dropLast, split, List.length_cons] at length
      rw [split, List.length_cons]
      simpa [utf8] using length
    · -- A character cut in two is read as a replacement character, so that something is left.
      rw [read] at empty
      simp at empty
  · intro single
    rw [split, List.length_cons, Nat.add_eq_right, List.length_eq_zero_iff] at single
    rw [split, single]
    rfl

/-- A name that is read from a listing is empty only where the listing ends in a letter. -/
theorem shown_name_ne_nil {rows : List Row} (letter : ¬ EndsInLetter rows) {shown : Row × JString}
    (member : shown ∈ shownRows rows) (dir : shown.1.isDir = true) : shown.2 ≠ [] := by
  intro empty
  rcases List.eq_nil_or_concat rows with rfl | ⟨front, final, rfl⟩
  · cases member
  · rw [List.concat_eq_append] at member letter
    rw [shownRows_concat] at member
    rcases List.mem_append.mp member with other | last
    · -- The row is not the last one, and its name ends in a whole word.
      obtain ⟨row, -, rfl⟩ := List.mem_map.mp other
      exact row.last.2.1 (ofChars_eq_nil.mp (List.append_eq_nil_iff.mp empty).2)
    · obtain rfl := List.mem_singleton.mp last
      obtain ⟨none, cut⟩ := List.append_eq_nil_iff.mp empty
      refine letter ⟨final, by simp, dir, ?_, (cutWord_eq_nil final.last).mp cut⟩
      -- There is no word between the sixth one and the last one.
      rw [Row.nameFront, ofChars_eq_nil, tidy, List.flatMap_eq_nil_iff] at none
      by_contra many
      obtain ⟨word, others, behind⟩ := List.exists_cons_of_ne_nil
        (show final.front.drop 6 ≠ [] by rw [Ne, List.drop_eq_nil_iff]; exact many)
      have absurd' := none word (behind ▸ List.mem_cons_self)
      simp at absurd'

/-- Where a listing ends in a letter, the directory itself is found again. -/
theorem slash_below (letter : EndsInLetter (entries path)) (open' : skipsDir path = false) :
    slash path ∈ below entries path := by
  obtain ⟨final, last, dir, few, single⟩ := letter
  obtain ⟨front, rows⟩ := List.getLast?_eq_some_iff.mp last
  have empty : final.cutName = [] := by
    rw [Row.cutName, (cutWord_eq_nil final.last).mpr single, Row.nameFront,
      List.drop_eq_nil_iff.mpr few]
    rfl
  rw [below, if_neg (by simp [open']), rows, shownRows_concat, List.mem_flatMap]
  refine ⟨(final, final.cutName), by simp, ?_⟩
  rw [if_pos dir, empty, List.append_nil]
  exact List.mem_singleton_self _

/-- No skipped directory is written with a slash at its end. -/
theorem skips_unslashed : ∀ skip ∈ skipDirList ++ skipDirList2,
    skip ≠ [] ∧ skip.getLast? ≠ some 0x2F := by decide

/-- A slash does not make a directory one that is skipped. -/
theorem skipsDir_slash (open' : skipsDir path = false) : skipsDir (slash path) = false := by
  unfold slash
  split
  · exact open'
  · simp only [skipsDir, Bool.or_eq_false_iff, List.any_eq_false, List.isSuffixOf_iff_suffix,
      List.isPrefixOf_iff_prefix] at open' ⊢
    refine ⟨fun skip member suffix => ?_, fun skip member before => ?_⟩
    · -- What ends the longer path ends in a slash.
      obtain ⟨filled, unslashed⟩ := skips_unslashed skip (List.mem_append_left _ member)
      obtain ⟨front, same⟩ := suffix
      have last := congrArg List.getLast? same
      rw [List.getLast?_append_of_ne_nil _ filled, List.getLast?_concat] at last
      exact unslashed last
    · -- What begins the longer path is the whole of it, or begins the path itself.
      obtain ⟨-, unslashed⟩ := skips_unslashed skip (List.mem_append_right _ member)
      rcases List.prefix_concat_iff.mp before with whole | inside
      · exact unslashed (by rw [whole, List.getLast?_concat])
      · exact open'.2 skip member inside

/-- A second slash is not added. -/
theorem slash_slash : slash (slash path) = slash path := by
  unfold slash
  by_cases slashed : path.getLast? = some 0x2F
  · rw [if_pos slashed, if_pos slashed]
  · rw [if_neg slashed, if_pos List.getLast?_concat]

/-- A directory whose listing ends in a letter is found again in every round. -/
theorem walked_endless (walkable : Walkable device entries) {round : Nat}
    (member : path ∈ walked entries round) (open' : skipsDir path = false)
    (letter : EndsInLetter (entries path)) (more : Nat) :
    slash path ∈ walked entries (round + 1 + more) := by
  induction more with
  | zero => exact List.mem_flatMap.mpr ⟨path, member, slash_below letter open'⟩
  | succ more ih =>
    obtain ⟨final, last, dir, few, single⟩ := letter
    -- The directory with a slash at its end lists the same rows, and so it ends in that letter too.
    have same : entries (slash path) = entries path :=
      walkable.slashed path ⟨final, List.mem_of_getLast? last, dir⟩
    have again : slash (slash path) ∈ below entries (slash path) :=
      slash_below (same ▸ ⟨final, last, dir, few, single⟩) (skipsDir_slash open')
    rw [slash_slash] at again
    exact List.mem_flatMap.mpr ⟨slash path, ih, again⟩

/-- As long as no listing ends in a letter, the paths grow from round to round. -/
theorem walked_length (lettered : ∀ round, ∀ path ∈ walked entries round,
    skipsDir path = false → ¬ EndsInLetter (entries path)) (round : Nat) :
    ∀ path ∈ walked entries round, round < path.length := by
  induction round with
  | zero =>
    intro path member
    rw [List.mem_singleton.mp member]
    exact Nat.one_pos
  | succ round ih =>
    intro path member
    obtain ⟨above, before, found⟩ := List.mem_flatMap.mp member
    have longer := ih above before
    rw [below] at found
    split at found
    · cases found
    · rename_i open'
      obtain ⟨shown, inside, here⟩ := List.mem_flatMap.mp found
      split at here
      · rename_i dir
        rw [List.mem_singleton.mp here, List.length_append]
        -- A directory below is a slash and a name longer than the one above it.
        have filled := List.length_pos_iff.mpr
          (shown_name_ne_nil (lettered round above before (by simpa using open')) inside dir)
        have slashed : above.length ≤ (slash above).length := by
          unfold slash
          split <;> simp
        omega
      · cases here

/-- As long as no listing ends in a letter, some round has no paths left. -/
theorem walked_empty (walkable : Walkable device entries)
    (lettered : ∀ round, ∀ path ∈ walked entries round,
      skipsDir path = false → ¬ EndsInLetter (entries path)) :
    ∃ rounds, walked entries rounds = [] := by
  obtain ⟨longest, finite⟩ := walkable.finite
  refine ⟨longest + 1, List.flatMap_eq_nil_iff.mpr fun path member => ?_⟩
  have long := walked_length lettered longest path member
  -- Such a path has no directories below it.
  rw [below]
  split
  · rfl
  · refine List.flatMap_eq_nil_iff.mpr fun shown inside => ?_
    rw [if_neg (by simp [finite path long shown.1 (shownRows_mem inside)])]

/--
Which files are written, and when the walk comes to an end.

A listing that does not fit into the pipe is waited for without end. Of each listing the last row is
read without its last byte, and a directory with a name of one letter in that row is taken for the
directory it is in, so that the walk goes round for ever; nothing else keeps it from ending.
-/
theorem walk_ends_iff (device : Device) (entries : JString → List Row)
    (walkable : Walkable device entries) (startTime endTime : JString) :
    (Loop.Returns (innerRun device startTime endTime) ↔
      ∀ round, ∀ path ∈ walked entries round, skipsDir path = false →
        ¬ (device.ls path).Overflows device.pipe ∧ ¬ EndsInLetter (entries path)) ∧
      ∀ fuel log, innerRun device startTime endTime fuel = some log → ∃ rounds,
        walked entries rounds = [] ∧ log = some (
          timeLine (JString.ofString "start time : ") startTime ++
            Levels.texts (below entries) (written device entries) [[0x2F]] rounds ++
              timeLine (JString.ofString "end time : ") endTime) := by
  have visits : ∀ round, Levels.Visiting (process device) (below entries)
      (written device entries) (Clogs device) (walked entries round) :=
    fun round path member =>
      ⟨process_clogs, fun fits => process_listed (walkable.printed round path member) fits⟩
  constructor
  · have same : Loop.Returns (innerRun device startTime endTime) ↔
        (∃ round, walked entries round = []) ∧
          ∀ round, ∀ path ∈ walked entries round, ¬ Clogs device path := by
      rw [← Levels.terminates_iff visits (timeLine (JString.ofString "start time : ") startTime),
        ← Loop.returns_run_iff]
      simp only [Loop.Returns, innerRun, Option.isSome_map]
    rw [same]
    constructor
    · rintro ⟨⟨rounds, empty⟩, fits⟩ round path member open'
      refine ⟨fun overflows => fits round path member ⟨open', overflows⟩, fun letter => ?_⟩
      -- The directory would be found again in a round that is empty.
      have there := walked_endless walkable member open' letter rounds
      have nothing : walked entries (round + 1 + rounds) = [] :=
        Levels.level_empty empty (by omega)
      rw [nothing] at there
      cases there
    · intro met
      refine ⟨walked_empty walkable fun round path member open' =>
        (met round path member open').2, fun round path member clogs => ?_⟩
      exact (met round path member clogs.1).1 clogs.2
  · intro fuel log ran
    obtain ⟨result, ended, rfl⟩ := Option.map_eq_some_iff.mp ran
    obtain ⟨rounds, empty, rfl⟩ := Levels.ends_texts visits ⟨fuel, ended⟩
    exact ⟨rounds, empty, rfl⟩

/-- Words of a row, with one space behind each. -/
def someWords : List (RowWord × Nat) := [
  (⟨['d', 'r', 'w', 'x'], by decide⟩, 0), (⟨['r', 'o', 'o', 't'], by decide⟩, 4),
  (⟨['r', 'o', 'o', 't'], by decide⟩, 14), (⟨['2', '0', '1', '2'], by decide⟩, 0),
  (⟨['1', '2', ':', '0', '0'], by decide⟩, 0)]

/-- The row of a directory `d`. -/
def letterRow : Row := ⟨someWords, by decide, ⟨['d'], by decide⟩⟩

/-- The root has one directory `d`, and nothing is in it. -/
def letterEntries (path : JString) : List Row := if path = [0x2F] then [letterRow] else []

/-- A device that prints these rows. -/
def letterDevice : Device where
  pipe := 65536
  ls path := ⟨(letterEntries path).map fun row => ofChars row.text, 0⟩
  file _ := none

/-- A walk over one directory with a name of one letter does not come to an end. -/
theorem walk_ends_iff_letter : ¬ Loop.Returns (innerRun letterDevice [] []) := by
  have walkable : Walkable letterDevice letterEntries := by
    refine ⟨fun _ _ _ => rfl, ?_, 1, ?_⟩
    · rintro path ⟨row, member, -⟩
      unfold letterEntries at member
      split at member
      · rename_i root
        subst root
        rfl
      · cases member
    · intro path long row member
      unfold letterEntries at member
      split at member
      · rename_i root
        subst root
        simp at long
      · cases member
  rw [(walk_ends_iff letterDevice letterEntries walkable [] []).1]
  intro lettered
  refine (lettered 0 [0x2F] (List.mem_singleton_self _) (by decide)).2 ?_
  exact ⟨letterRow, rfl, by decide, by decide, by decide⟩

end Ends

end AndroidApps.CommonLib
