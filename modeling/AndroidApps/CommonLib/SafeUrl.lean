import AndroidApps.Lib.FormEncoding

/-! The encoding of the path of an address, which goes through forms and loses what ends them. -/

namespace AndroidApps.CommonLib.HttpManager

section Model

/-- The scheme that every address is given. -/
def scheme : JString := JString.ofString "http://"

/-- The loop that encodes the pieces of the path, as far as the character set is supported. -/
def encodePieces (strEnc : Option Charset) : List JString → JString
  | [] => []
  | piece :: rest =>
    match strEnc with
    | some charset => 0x2F :: urlEncode charset piece ++ encodePieces strEnc rest
    | none => [0x2F]

/-- `safeUrlEncoder`, with `none` for its exception. -/
def safeUrlEncoder (strEnc : Option Charset) (strInput : JString) : Option JString :=
  let strProcess := if scheme <+: strInput then strInput.drop 7 else strInput
  match JString.split 0x2F strProcess with
  | [] => none
  | host :: pieces =>
    match JString.split 0x2B (scheme ++ host ++ encodePieces strEnc pieces) with
    | [] => none
    | first :: rest => some (first ++ rest.flatMap (percentUnits 0x20 ++ ·))

/-- An address with these segments behind its host. -/
def address (host : JString) (segments : List JString) : JString :=
  scheme ++ [0x2F].intercalate (host :: segments)

/-- The segments can be read from an encoded address, which has no space and no plus. -/
def Restores (charset : Charset) (host : JString) (segments : List JString)
    (encoded : JString) : Prop :=
  ∃ rest pieces, encoded = scheme ++ rest ∧ rest.splitOn 0x2F = host :: pieces ∧
    pieces.map (charset.decode ∘ percentDecode) = segments ∧ 0x20 ∉ encoded ∧ 0x2B ∉ encoded

/-- Something visible is at the end of the last segment. -/
def Closed (segments : List JString) : Prop :=
  ∀ last ∈ segments.getLast?, last ≠ [] ∧ last.getLast? ≠ some 0x20

/-- The characters that are left of some segments, the last of which loses its spaces. -/
def left (segments : List JString) : List (List Char) :=
  segments.dropLast.map JString.chars ++
    segments.getLast?.toList.map fun last => (JString.chars last).rdropWhile (· == ' ')

end Model

section Encoding

variable (charset : Charset) {host : JString} {segments kept : List JString}

/-- Every piece is put behind a slash. -/
theorem encodePieces_eq (pieces : List JString) :
    encodePieces (some charset) pieces = pieces.flatMap (0x2F :: urlEncode charset ·) := by
  induction pieces with
  | nil => rfl
  | cons piece rest ih => rw [encodePieces, ih, List.flatMap_cons]

/-- The scheme is taken away from an address. -/
theorem process_address (host : JString) (segments : List JString) :
    (if scheme <+: address host segments then (address host segments).drop 7
      else address host segments) = [0x2F].intercalate (host :: segments) := by
  have begins : scheme <+: address host segments := List.prefix_append _ _
  rw [if_pos begins]
  exact List.drop_left' (by decide)

/-- The pieces of an address are encoded behind its host. -/
theorem safeUrlEncoder_address (cut : JString.split 0x2F
    ([0x2F].intercalate (host :: segments)) = host :: kept) :
    safeUrlEncoder (some charset) (address host segments) =
      some (JString.replaced 0x2B (percentUnits 0x20)
        ((scheme ++ host ++ encodePieces (some charset) kept).rdropWhile (· == 0x2B))) := by
  -- The scheme begins with a letter, so that there is something to cut at pluses.
  have letter : 0x68 ∈ scheme ++ host ++ encodePieces (some charset) kept := by
    simp [show (0x68 : UInt16) ∈ scheme by decide]
  have noPlus : (0x68 : UInt16) ≠ 0x2B := by decide
  have filled : percentUnits 0x20 ≠ [] := List.cons_ne_nil _ _
  obtain ⟨first, rest, pieces, joined⟩ := JString.split_replaced filled letter noPlus
  rw [safeUrlEncoder, process_address, cut]
  simp only [pieces, joined]

/-- The pluses at the end of the pieces are the spaces at the end of the last one. -/
theorem rdropWhile_encodePieces (pieces : List JString) :
    (encodePieces (some charset) pieces).rdropWhile (· == 0x2B) =
      (left pieces).flatMap fun text => 0x2F :: text.flatMap (formUnits charset) := by
  rw [encodePieces_eq]
  obtain rfl | ⟨front, last, rfl⟩ := List.eq_nil_or_concat' pieces
  · rfl
  · -- The slash in front of the last piece is left in any case.
    have slash : ∃ unit ∈ (0x2F : UInt16) :: urlEncode charset last, (unit == 0x2B) = false :=
      ⟨0x2F, List.mem_cons_self, by decide⟩
    rw [List.flatMap_append, List.flatMap_singleton, Ends.rdropWhile_append_of_kept slash,
      Ends.rdropWhile_cons, if_neg (fun both => absurd both.2 (by decide)), urlEncode,
      rdropWhile_formUnits]
    simp [left, urlEncode, List.flatMap_map]

/-- A piece that is left stands behind its slash as an escape. -/
theorem replaced_left (texts : List (List Char)) :
    JString.replaced 0x2B (percentUnits 0x20)
        (texts.flatMap fun text => 0x2F :: text.flatMap (formUnits charset)) =
      (texts.map (escape charset)).flatMap (0x2F :: ·) := by
  rw [JString.replaced, List.flatMap_assoc, List.flatMap_map]
  congr 1
  funext text
  rw [List.flatMap_cons, ← JString.replaced, replaced_formUnits]
  rfl

/-- What comes out for an address, of which these pieces are kept. -/
theorem safeUrlEncoder_kept (noPlus : 0x2B ∉ host)
    (cut : JString.split 0x2F ([0x2F].intercalate (host :: segments)) = host :: kept) :
    safeUrlEncoder (some charset) (address host segments) =
      some (scheme ++ (host ++ ((left kept).map (escape charset)).flatMap (0x2F :: ·))) := by
  -- Neither the scheme nor the host has a plus to cut at or to drop.
  have plain : 0x2B ∉ scheme ++ host := by
    simp [noPlus, show (0x2B : UInt16) ∉ scheme by decide]
  have none : ∀ unit ∈ scheme ++ host, (unit == 0x2B) = false := by
    intro unit member
    simpa using fun same : unit = 0x2B => plain (same ▸ member)
  rw [safeUrlEncoder_address charset cut, Ends.rdropWhile_append_of_none none,
    rdropWhile_encodePieces, JString.replaced, List.flatMap_append, ← JString.replaced,
    ← JString.replaced, JString.replaced_of_not_mem plain, replaced_left, List.append_assoc]

end Encoding

section Restoring

variable (charset : Charset) {host : JString} {segments kept : List JString}

/-- An address is cut at its slashes into the host and the escapes. -/
theorem splitOn_escapes (plainHost : 0x2F ∉ host) (texts : List (List Char)) :
    (host ++ (texts.map (escape charset)).flatMap (0x2F :: ·)).splitOn 0x2F =
      host :: texts.map (escape charset) := by
  have plainTexts : ∀ piece ∈ host :: texts.map (escape charset), 0x2F ∉ piece := by
    intro piece member
    rcases List.mem_cons.mp member with rfl | inside
    · exact plainHost
    · obtain ⟨text, -, rfl⟩ := List.mem_map.mp inside
      exact fun slash => escape_plain charset text slash (by decide)
  rw [← JString.intercalate_cons, List.splitOn_intercalate 0x2F plainTexts (by simp)]

/-- The escapes are read back as the texts. -/
theorem decode_escapes (texts : List (List Char)) :
    (texts.map (escape charset)).map (charset.decode ∘ percentDecode) =
      texts.map JString.ofChars := by
  rw [List.map_map]
  exact List.map_congr_left fun text _ => decode_escape charset text

/-- Only the host can bring a space or a plus in. -/
theorem not_mem_address_iff (unit : UInt16) (spare : unit ∈ reserved) (noSlash : unit ≠ 0x2F)
    (noScheme : unit ∉ scheme) (texts : List (List Char)) :
    unit ∉ scheme ++ (host ++ (texts.map (escape charset)).flatMap (0x2F :: ·)) ↔
      unit ∉ host := by
  -- An escape has no reserved unit, and nothing else stands in front of one but a slash.
  have inTexts : unit ∉ (texts.map (escape charset)).flatMap (0x2F :: ·) := by
    intro member
    obtain ⟨piece, listed, inside⟩ := List.mem_flatMap.mp member
    obtain ⟨text, -, rfl⟩ := List.mem_map.mp listed
    rcases List.mem_cons.mp inside with slash | escaped
    · exact noSlash slash
    · exact escape_plain charset text escaped spare
  simp only [List.mem_append, noScheme, inTexts, false_or, or_false]

/-- A path that holds the escapes of some texts restores nothing else. -/
theorem restores_iff (plainHost : 0x2F ∉ host) (noPlus : 0x2B ∉ host)
    (texts : List (List Char)) :
    Restores charset host segments
        (scheme ++ (host ++ (texts.map (escape charset)).flatMap (0x2F :: ·))) ↔
      0x20 ∉ host ∧ texts.map JString.ofChars = segments := by
  have cut := splitOn_escapes charset plainHost texts
  have decoded := decode_escapes charset texts
  have space : _ ↔ (0x20 : UInt16) ∉ host :=
    not_mem_address_iff charset 0x20 (by decide) (by decide) (by decide) texts
  have plus : _ ↔ (0x2B : UInt16) ∉ host :=
    not_mem_address_iff charset 0x2B (by decide) (by decide) (by decide) texts
  constructor
  · intro ⟨rest, pieces, same, split, read, noSpace, _⟩
    obtain rfl := List.append_cancel_left same
    -- The pieces behind the host are the escapes.
    obtain ⟨-, rfl⟩ := List.cons.inj (cut.symm.trans split)
    exact ⟨space.mp noSpace, decoded.symm.trans read⟩
  · intro ⟨noSpace, read⟩
    exact ⟨_, _, rfl, cut, decoded.trans read, space.mpr noSpace, plus.mpr noPlus⟩

/-- A character but a space does not end in a space. -/
theorem utf16_getLast {ch : Char} (visible : ch ≠ ' ') (text : List Char) :
    (JString.ofChars (text ++ [ch])).getLast? ≠ some 0x20 := by
  have valid : ch.toNat < 0xD800 ∨ 0xDFFF < ch.toNat ∧ ch.toNat < 0x110000 := ch.valid
  rw [JString.ofChars, List.flatMap_append, List.flatMap_singleton]
  unfold JString.utf16
  split
  · rename_i narrow
    rw [List.getLast?_concat]
    intro space
    -- The unit of a character tells which one it is.
    have value : (UInt16.ofNat ch.toNat).toNat = ch.toNat := UInt16.toNat_ofNat_of_lt' narrow
    rw [Option.some.inj space] at value
    exact visible (Char.toNat_inj.mp value.symm)
  · have low : (UInt16.ofNat (0xDC00 + (ch.toNat - 0x10000) % 0x400)).toNat =
        0xDC00 + (ch.toNat - 0x10000) % 0x400 :=
      UInt16.toNat_ofNat_of_lt' (by simp only [UInt16.size]; omega)
    rw [List.getLast?_append, List.getLast?_cons_cons, List.getLast?_singleton]
    intro space
    rw [Option.some.inj space] at low
    simp only [UInt16.reduceToNat] at low
    omega

/-- A last segment survives whole if it has no half of a pair and no space at its end. -/
theorem ofChars_trimmed_iff (last : JString) :
    JString.ofChars ((JString.chars last).rdropWhile (· == ' ')) = last ↔
      JString.Whole last ∧ last.getLast? ≠ some 0x20 := by
  constructor
  · intro same
    rw [← same]
    refine ⟨JString.whole_ofChars _, ?_⟩
    obtain empty | ⟨front, ch, some⟩ :=
      List.eq_nil_or_concat' ((JString.chars last).rdropWhile (· == ' '))
    · rw [empty]
      exact nofun
    · rw [some]
      have filled : (JString.chars last).rdropWhile (· == ' ') ≠ [] := by simp [some]
      have stays := List.rdropWhile_last_not (· == ' ') (JString.chars last) filled
      simp only [some, List.getLast_concat, beq_iff_eq] at stays
      exact utf16_getLast stays front
  · intro ⟨whole, visible⟩
    have kept : (JString.chars last).rdropWhile (· == ' ') = JString.chars last := by
      refine List.rdropWhile_eq_self_iff.mpr fun filled space => visible ?_
      -- A space among the characters is one among the units.
      have put := List.dropLast_append_getLast filled
      rw [eq_of_beq space] at put
      rw [← show JString.ofChars (JString.chars last) = last from whole, ← put, JString.ofChars,
        List.flatMap_append, List.flatMap_singleton]
      exact List.getLast?_concat
    rw [kept]
    exact whole

/-- As many segments are left as there are. -/
theorem length_left (pieces : List JString) : (left pieces).length = pieces.length := by
  obtain rfl | ⟨front, last, rfl⟩ := List.eq_nil_or_concat' pieces
  · rfl
  · simp [left]

/-- The segments are left whole if they are whole and the last one ends with something visible. -/
theorem left_kept_iff :
    (left (segments.rdropWhile List.isEmpty)).map JString.ofChars = segments ↔
      (∀ segment ∈ segments, JString.Whole segment) ∧ Closed segments := by
  obtain rfl | ⟨front, last, rfl⟩ := List.eq_nil_or_concat' segments
  · simp [left, Closed]
  · by_cases empty : last = []
    · -- An empty segment at the end is missing.
      subst empty
      rw [List.rdropWhile_concat_pos _ _ _ (by rfl)]
      refine iff_of_false ?_ fun both => (both.2 [] (by simp)).1 rfl
      intro same
      have lengths := congrArg List.length same
      have fewer := (List.rdropWhile_prefix List.isEmpty front).length_le
      rw [List.length_map, length_left, List.length_append, List.length_singleton] at lengths
      omega
    · rw [List.rdropWhile_concat_neg _ _ _ (by simpa using empty)]
      simp only [left, List.dropLast_concat, List.getLast?_concat, Option.toList_some,
        List.map_append, List.map_singleton, List.map_map]
      have closed : Closed (front ++ [last]) ↔ last.getLast? ≠ some 0x20 := by
        simp [Closed, empty]
      rw [closed]
      constructor
      · intro same
        obtain ⟨fronts, lasts⟩ := List.append_inj' same rfl
        obtain ⟨whole, visible⟩ := (ofChars_trimmed_iff last).mp (List.cons.inj lasts).1
        refine ⟨fun segment member => ?_, visible⟩
        rcases List.mem_append.mp member with before | here
        · rw [← List.map_id front, List.map_map] at fronts
          exact List.map_inj_left.mp fronts segment before
        · rwa [List.mem_singleton.mp here]
      · intro ⟨whole, visible⟩
        have trimmed := (ofChars_trimmed_iff last).mpr ⟨whole last (by simp), visible⟩
        have fronts : front.map (JString.ofChars ∘ JString.chars) = front.map id :=
          List.map_congr_left fun segment before => whole segment (by simp [before])
        rw [trimmed, fronts, List.map_id]

/-- The pieces of an address are its host and its segments up to the last one with units. -/
theorem split_address (plainHost : 0x2F ∉ host) (plain : ∀ segment ∈ segments, 0x2F ∉ segment) :
    JString.split 0x2F ([0x2F].intercalate (host :: segments)) =
        host :: segments.rdropWhile List.isEmpty ∨
      JString.split 0x2F ([0x2F].intercalate (host :: segments)) = [] ∧ ¬ Closed segments := by
  obtain rfl | ⟨front, last, rfl⟩ := List.eq_nil_or_concat' segments
  · rw [List.intercalate_singleton, JString.split_of_not_mem plainHost]
    exact .inl rfl
  · have present : 0x2F ∈ [0x2F].intercalate (host :: (front ++ [last])) := by
      rw [JString.intercalate_cons]
      simp
    have cut := List.splitOn_intercalate 0x2F (List.forall_mem_cons.mpr ⟨plainHost, plain⟩)
      (List.cons_ne_nil host _)
    rw [JString.split, if_pos present, cut, Ends.rdropWhile_cons]
    split
    · -- Where nothing is left, the last segment is empty like all others.
      rename_i gone
      refine .inr ⟨rfl, fun closed => (closed last (by simp)).1 ?_⟩
      exact List.isEmpty_iff.mp (List.rdropWhile_eq_nil_iff.mp gone.1 last (by simp))
    · exact .inl rfl

/--
An address is restored from what it is encoded to, apart from three cases.

A space in the host is left, half of a pair is replaced, and what is empty or blank at the end is
lost.
-/
theorem safeUrlEncoder_restores_iff (plainHost : 0x2F ∉ host) (noPlus : 0x2B ∉ host)
    (plain : ∀ segment ∈ segments, 0x2F ∉ segment) :
    (∃ encoded, safeUrlEncoder (some charset) (address host segments) = some encoded ∧
        Restores charset host segments encoded) ↔
      0x20 ∉ host ∧ (∀ segment ∈ segments, JString.Whole segment) ∧ Closed segments := by
  -- Either all pieces up to the last one with units are encoded, or there is none at all.
  obtain cut | ⟨cut, opened⟩ := split_address plainHost plain
  · rw [safeUrlEncoder_kept charset noPlus cut, ← left_kept_iff,
      ← restores_iff charset plainHost noPlus]
    simp
  · have thrown : safeUrlEncoder (some charset) (address host segments) = none := by
      rw [safeUrlEncoder, process_address, cut]
    rw [thrown]
    simp [opened]

/-- A segment with a space in it comes back. -/
theorem safeUrlEncoder_restores_space :
    ∃ encoded, safeUrlEncoder (some Charset.utf8) (address [0x68] [[0x61, 0x20, 0x62]]) =
        some encoded ∧
      Restores Charset.utf8 [0x68] [[0x61, 0x20, 0x62]] encoded := by
  have whole : JString.Whole [0x61, 0x20, 0x62] := by decide
  have closed : Closed [[0x61, 0x20, 0x62]] := by simp [Closed]
  exact (safeUrlEncoder_restores_iff Charset.utf8 (by decide) (by decide) (by simp)).mpr
    ⟨by decide, by simpa using whole, closed⟩

/-- The slash at the end of an address is lost. -/
theorem safeUrlEncoder_slash :
    ¬ ∃ encoded, safeUrlEncoder (some Charset.utf8) (address [0x68] [[0x61], []]) =
        some encoded ∧
      Restores Charset.utf8 [0x68] [[0x61], []] encoded := by
  rintro ⟨encoded, returned, rest, pieces, put, split, read, -⟩
  have shorter : safeUrlEncoder (some Charset.utf8) (address [0x68] [[0x61], []]) =
      some (scheme ++ [0x68, 0x2F, 0x61]) := by decide
  obtain rfl := Option.some.inj (shorter.symm.trans returned)
  obtain rfl := List.append_cancel_left put
  -- One segment is left of the two.
  cases split
  have lengths := congrArg List.length read
  contradiction

end Restoring

end AndroidApps.CommonLib.HttpManager
