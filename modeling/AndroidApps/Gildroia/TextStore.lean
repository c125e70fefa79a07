import AndroidApps.Gildroia.TextMng
import AndroidApps.Lib.StdMap

/-! The text manager while texts are added to it, the file it saves and the ways to load it. -/

namespace AndroidApps.Gildroia

open scoped StdMap

section Trimming

/-- The units `Trim_Right` removes. -/
def isBlankEnd (unit : UInt16) : Bool := unit == 0x20 || unit == 0x0D || unit == 0x0A

/-- `Trim_Left`. -/
def trimLeft (str : List UInt16) : List UInt16 := str.dropWhile fun unit => unit == 0x20

/-- `Trim_Right`, of a string in which something is left. -/
def trimRight (str : List UInt16) : List UInt16 := (str.reverse.dropWhile isBlankEnd).reverse

/-- `Trim`. -/
def trim (str : List UInt16) : List UInt16 := trimLeft (trimRight str)

/-- A string that can be added: it ends with its terminator, and trimming leaves something of it. -/
structure InputText where
  units : List UInt16
  plain : 0 ∉ units
  nonBlank : ∃ unit ∈ units, isBlankEnd unit = false
  deriving DecidableEq

/-- What is stored of a string. -/
def InputText.text (input : InputText) : List UInt16 := trim input.units

end Trimming

section Writing

/-- A `CTextMng` behind `Init`: the texts, their indices and packed offsets, and the file so far. -/
structure TextStore where
  text : List (List UInt16)
  textIdx : StdMap (List UInt16) (Nat × Nat)
  file : List UInt8

namespace TextStore

/-- `Init` on a new object, in which the index 0 stands for no text. -/
def init : TextStore := ⟨[[]], .empty, []⟩

/-- The bytes of a text. -/
def encode (text : List UInt16) : List UInt8 := text.flatMap fun unit => leBytes 2 unit.toNat

/-- The word that holds the position of a text in its upper 27 bits and its length in the others. -/
def packed (position nLen : Nat) : Nat := u32 (u32 (position * 32) + nLen)

/-- `addText`: the index and the packed offset of the text. -/
def addText (store : TextStore) (input : InputText) : (Nat × Nat) × TextStore :=
  let text := input.text
  match store.textIdx.find? text with
  | none =>
    let nTextIdx := store.text.length
    let offset := packed store.file.length text.length
    ((nTextIdx, offset),
      ⟨store.text ++ [text], store.textIdx.insert text (nTextIdx, offset),
        store.file ++ encode text⟩)
  | some (nTextIdx, offset) => ((nTextIdx, offset), store)

/-- Texts added one after the other, with what each call gave. -/
def addTexts : TextStore → List InputText → List (Nat × Nat) × TextStore
  | store, [] => ([], store)
  | store, input :: inputs =>
    let (given, store) := store.addText input
    let (others, store) := addTexts store inputs
    (given :: others, store)

/-- `Save`: the packed offsets in the order of the texts, and where they begin. -/
def save (store : TextStore) : List UInt8 :=
  store.file ++ (store.textIdx.entries.flatMap fun entry => leBytes 4 entry.2.2) ++
    leBytes 4 (u32 store.file.length)

end TextStore

end Writing

section Loading

/-- A loaded text manager with the place of its index. -/
structure LoadedTexts where
  mng : TextMng
  textIdxOfs : Nat

/-- `Load` on a new object, when both files can be opened. -/
def LoadedTexts.load (textFp nameFp : File) (textBuff : Fin 4 → List UInt16)
    (sized : ∀ i, (textBuff i).length = 32) : LoadedTexts :=
  let (textIdxOfs, textFp) := (textFp.fseekEnd 4).freadWord 4 0
  let (sigunguOfs, nameFp) := (nameFp.fseekEnd 12).freadWord 4 0
  let (dongOfs, nameFp) := nameFp.freadWord 4 0
  let (roadOfs, nameFp) := nameFp.freadWord 4 0
  ⟨⟨textFp, nameFp, 0, sigunguOfs, dongOfs, roadOfs, textBuff, sized⟩, textIdxOfs⟩

/-- `getText` on a loaded object, with its uninitialised variable. -/
def LoadedTexts.getText (store : LoadedTexts) (junk textIdx : Nat) : List UInt16 × LoadedTexts :=
  let (txtOfs, textFp) :=
    (store.mng.textFp.fseek (u32 (store.textIdxOfs + textIdx * 4))).freadWord 4 (u32 junk)
  let (text, mng) := TextMng.getTextOfs { store.mng with textFp := textFp } txtOfs 0
  (text, { store with mng := mng })

/-- The variables of the loop of `Load2` over the packed offsets, and the end-of-file indicator. -/
structure OffsetWalk where
  fp : File
  feof : Bool
  textOfs : Nat
  offsets : List Nat

/-- One word of the table, or of what is behind it: the indicator is set by a read that fails. -/
def offsetPass (walk : OffsetWalk) : OffsetWalk ⊕ (File × List Nat) :=
  if walk.feof then .inr (walk.fp, walk.offsets)
  else
    let (textOfs, fp) := walk.fp.freadWord 4 walk.textOfs
    .inl ⟨fp, decide (walk.fp.data.length < walk.fp.pos + 4), textOfs, walk.offsets ++ [textOfs]⟩

/-- The loop of `Load2` over the texts. -/
def insertTexts : List Nat → TextMng → StdMap (List UInt16) (Nat × Nat) →
    TextMng × StdMap (List UInt16) (Nat × Nat)
  | [], mng, textIdx => (mng, textIdx)
  | ofs :: rest, mng, textIdx =>
    let (text, mng) := mng.getTextOfs ofs 0
    insertTexts rest mng (textIdx.insert (cString text) (0, ofs))

/-- `Load2` on a new object, with its uninitialised variables. -/
def load2 (fuel junkIdxOfs junkOfs : Nat) (mng : TextMng) :
    Option (TextMng × StdMap (List UInt16) (Nat × Nat)) :=
  let (textIdxOfs, textFp) := (mng.textFp.fseekEnd 4).freadWord 4 (u32 junkIdxOfs)
  (Loop.run offsetPass fuel ⟨textFp.fseek textIdxOfs, false, u32 junkOfs, []⟩).map
    fun (textFp, offsets) => insertTexts offsets { mng with textFp := textFp } .empty

end Loading

end AndroidApps.Gildroia
