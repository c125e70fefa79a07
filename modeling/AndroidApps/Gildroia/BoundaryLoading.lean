import AndroidApps.Gildroia.AdminBoundLaws

/-! The maps of the boundaries keep the dongs of a file as long as no region hides another one. -/

namespace AndroidApps.Gildroia

section Table

/-- A gugun in the file, with as many dongs behind its box as its `child_num` says. -/
structure GugunRecord where
  bound : Bound
  dongs : List ChildBound

/-- A sido in the file, with as many guguns behind its box as its `child_num` says. -/
structure SidoRecord where
  bound : Bound
  guguns : List GugunRecord

/-- The guguns that stand in the file from a position on, and the position behind them. -/
def gugunsAt (data : List UInt8) : Nat → Nat → List GugunRecord × Nat
  | 0, position => ([], position)
  | count + 1, position =>
    let parent := ParentBound.decode (bytesAt data position 17)
    let dongs := File.elementsAt ChildBound.decode 27 data (position + 17) parent.childNum
    let behind := gugunsAt data count (position + 17 + parent.childNum * 27)
    (⟨parent.bound, dongs⟩ :: behind.1, behind.2)

/-- The sidos that stand in the file from a position on, and the position behind them. -/
def sidosAt (data : List UInt8) : Nat → Nat → List SidoRecord × Nat
  | 0, position => ([], position)
  | count + 1, position =>
    let parent := ParentBound.decode (bytesAt data position 17)
    let guguns := gugunsAt data parent.childNum (position + 17)
    let behind := sidosAt data count guguns.2
    (⟨parent.bound, guguns.1⟩ :: behind.1, behind.2)

/-- The table of the file, which the number of its sidos stands in front of. -/
def tableAt (data : List UInt8) : List SidoRecord × Nat :=
  sidosAt data (leWord (bytesAt data 60 4)) 64

/-- A file that holds its whole table, whatever rings stand behind it. -/
def TableInside (data : List UInt8) : Prop := (tableAt data).2 ≤ data.length

instance (data : List UInt8) : Decidable (TableInside data) := inferInstanceAs (Decidable (_ ≤ _))

/-- Guguns stand behind each other. -/
theorem gugunsAt_le (data : List UInt8) (count : Nat) :
    ∀ position, position ≤ (gugunsAt data count position).2 := by
  -- Each record moves the position past its own head and its dongs.
  induction count with
  | zero =>
    intro position
    exact Nat.le_refl position
  | succ count ih =>
    intro position
    refine Nat.le_trans ?_ (ih _)
    omega

/-- Sidos stand behind each other. -/
theorem sidosAt_le (data : List UInt8) (count : Nat) :
    ∀ position, position ≤ (sidosAt data count position).2 := by
  -- Each record moves the position past its own head and its guguns.
  induction count with
  | zero =>
    intro position
    exact Nat.le_refl position
  | succ count ih =>
    intro position
    refine Nat.le_trans ?_ (ih _)
    refine Nat.le_trans ?_ (gugunsAt_le data _ _)
    omega

end Table

section Maps

/-- The map of the dongs of a gugun. -/
def GugunRecord.dongMap (gugun : GugunRecord) : DongAdminMap :=
  gugun.dongs.foldl (fun map dong => map.insert dong.bound dong) .empty

/-- The map of the guguns of a sido. -/
def SidoRecord.gugunMap (sido : SidoRecord) : GunGuAdminMap :=
  sido.guguns.foldl (fun map gugun => map.insert gugun.bound gugun.dongMap) .empty

/-- The map of all sidos. -/
def sidoMapOf (sidos : List SidoRecord) : SidoAdminMap :=
  sidos.foldl (fun map sido => map.insert sido.bound sido.gugunMap) .empty

/-- A record inside the file is read. -/
theorem readRecord_inside {α : Type} {decode : List UInt8 → α} {width : Nat} {fp : File}
    (inside : fp.pos + width ≤ fp.data.length) :
    readRecord decode width fp =
      some (decode (bytesAt fp.data fp.pos width), fp.moveTo (fp.pos + width)) :=
  if_pos inside

/-- The loop over the dongs of a gugun inserts them one after the other. -/
theorem createDongs_eq (count : Nat) : ∀ (map : DongAdminMap) (fp : File),
    fp.pos + count * 27 ≤ fp.data.length →
    createDongs count map fp =
      some ((File.elementsAt ChildBound.decode 27 fp.data fp.pos count).foldl
        (fun map dong => map.insert dong.bound dong) map, fp.moveTo (fp.pos + count * 27)) := by
  -- The induction is on the dongs still to be read, with the position behind those already read.
  induction count with
  | zero =>
    intro map fp _
    simp [createDongs, File.elementsAt, File.moveTo]
  | succ count ih =>
    intro map fp inside
    rw [createDongs, readRecord_inside (by omega)]
    simp only [Option.bind_eq_bind, Option.bind_some]
    rw [ih _ _ (by simp only [File.moveTo_pos, File.moveTo_data]; omega), File.elementsAt_succ]
    simp only [File.moveTo_data, File.moveTo_pos, File.moveTo_moveTo, List.foldl_cons]
    congr 3
    omega

/-- The loop over the guguns of a sido inserts the map of each of them. -/
theorem createGuguns_eq (count : Nat) : ∀ (map : GunGuAdminMap) (fp : File),
    (gugunsAt fp.data count fp.pos).2 ≤ fp.data.length →
    createGuguns count map fp =
      some ((gugunsAt fp.data count fp.pos).1.foldl
        (fun map gugun => map.insert gugun.bound gugun.dongMap) map,
        fp.moveTo (gugunsAt fp.data count fp.pos).2) := by
  induction count with
  | zero =>
    intro map fp _
    simp [createGuguns, gugunsAt, File.moveTo]
  | succ count ih =>
    intro map fp inside
    -- What is read here stands in front of the guguns behind it, and so inside the file.
    have behind := gugunsAt_le fp.data count
      (fp.pos + 17 + (ParentBound.decode (bytesAt fp.data fp.pos 17)).childNum * 27)
    simp only [gugunsAt] at inside
    rw [createGuguns, readRecord_inside (by omega)]
    simp only [Option.bind_eq_bind, Option.bind_some]
    rw [createDongs_eq _ _ _ (by simp only [File.moveTo_pos, File.moveTo_data]; omega)]
    simp only [Option.bind_some, File.moveTo_data, File.moveTo_pos, File.moveTo_moveTo]
    rw [ih _ _ (by simpa only [File.moveTo_data, File.moveTo_pos] using inside)]
    simp only [File.moveTo_data, File.moveTo_pos, File.moveTo_moveTo, gugunsAt, List.foldl_cons]
    rfl

/-- The loop over the sidos inserts the map of each of them. -/
theorem createSidos_eq (count : Nat) : ∀ (map : SidoAdminMap) (fp : File),
    (sidosAt fp.data count fp.pos).2 ≤ fp.data.length →
    createSidos count map fp =
      some ((sidosAt fp.data count fp.pos).1.foldl
        (fun map sido => map.insert sido.bound sido.gugunMap) map,
        fp.moveTo (sidosAt fp.data count fp.pos).2) := by
  -- The position behind the guguns of a sido is where the next sido stands.
  induction count with
  | zero =>
    intro map fp _
    simp [createSidos, sidosAt, File.moveTo]
  | succ count ih =>
    intro map fp inside
    have own := gugunsAt_le fp.data (ParentBound.decode (bytesAt fp.data fp.pos 17)).childNum
      (fp.pos + 17)
    have behind := sidosAt_le fp.data count (gugunsAt fp.data
      (ParentBound.decode (bytesAt fp.data fp.pos 17)).childNum (fp.pos + 17)).2
    simp only [sidosAt] at inside
    rw [createSidos, readRecord_inside (by omega)]
    simp only [Option.bind_eq_bind, Option.bind_some]
    rw [createGuguns_eq _ _ _ (by simp only [File.moveTo_pos, File.moveTo_data]; omega)]
    simp only [Option.bind_some, File.moveTo_data, File.moveTo_pos, File.moveTo_moveTo]
    rw [ih _ _ (by simpa only [File.moveTo_data, File.moveTo_pos] using inside)]
    simp only [File.moveTo_data, File.moveTo_pos, File.moveTo_moveTo, sidosAt, List.foldl_cons]
    rfl

variable {fp : File}

/-- A file with its whole table is loaded, into the maps of its records. -/
theorem create_eq (manager : AdminBoundManager) (inside : TableInside fp.data) :
    manager.create fp =
      some { manager with
        boundaryMap := sidoMapOf (tableAt fp.data).1
        pFile := some (fp.moveTo (tableAt fp.data).2) } := by
  -- The header and the number of sidos are inside, because the table behind them is.
  have behind : 64 ≤ (tableAt fp.data).2 := sidosAt_le fp.data _ 64
  unfold TableInside at inside
  have rewound : fp.fseek 0 = fp.moveTo 0 := rfl
  unfold AdminBoundManager.create
  rw [rewound, readRecord_inside (by simp only [File.moveTo_pos, File.moveTo_data]; omega)]
  simp only [Option.bind_eq_bind, Option.bind_some]
  rw [readRecord_inside (by simp only [File.moveTo_pos, File.moveTo_data]; omega)]
  simp only [Option.bind_some, File.moveTo_data, File.moveTo_pos, File.moveTo_moveTo]
  rw [createSidos_eq]
  · simp only [Option.bind_some]
    rfl
  · exact inside

end Maps

section Paths

/-- The dongs of a gugun in the file, below its box. -/
def GugunRecord.paths (gugun : GugunRecord) : List (Bound × Bound × ChildBound) :=
  gugun.dongs.map fun dong => (gugun.bound, dong.bound, dong)

/-- The dongs of a sido in the file, below its box and that of their gugun. -/
def SidoRecord.paths (sido : SidoRecord) : List (Bound × Bound × Bound × ChildBound) :=
  (sido.guguns.flatMap GugunRecord.paths).map fun path => (sido.bound, path)

/-- The dongs of an entry of a sido's map. -/
def gugunPaths (gugun : Bound × DongAdminMap) : List (Bound × Bound × ChildBound) :=
  gugun.2.entries.map fun dong => (gugun.1, dong)

/-- The dongs of an entry of the map of all sidos. -/
def sidoPaths (sido : Bound × GunGuAdminMap) : List (Bound × Bound × Bound × ChildBound) :=
  (sido.2.entries.flatMap gugunPaths).map fun path => (sido.1, path)

/-- All dongs of the maps, each with the boxes it is stored under. -/
def storedPaths (sidos : SidoAdminMap) : List (Bound × Bound × Bound × ChildBound) :=
  sidos.entries.flatMap sidoPaths

/-- The sum of `child_num` over the guguns of a file. -/
def dongNum (sidos : List SidoRecord) : Nat :=
  ((sidos.flatMap SidoRecord.guguns).map fun gugun => gugun.dongs.length).sum

/-- As many dongs are stored as there are paths. -/
theorem storedPaths_length (sidos : SidoAdminMap) :
    (storedPaths sidos).length = (allDongs sidos).length := by
  simp only [storedPaths, sidoPaths, gugunPaths, allDongs, List.length_flatMap, List.length_map]

/-- A file has as many paths as its guguns have dongs. -/
theorem filePaths_length (sidos : List SidoRecord) :
    (sidos.flatMap SidoRecord.paths).length = dongNum sidos := by
  -- A path is a dong with the boxes above it, so that there is one for each dong.
  induction sidos with
  | nil => rfl
  | cons sido rest ih =>
    rw [dongNum] at ih ⊢
    rw [List.flatMap_cons, List.flatMap_cons, List.map_append, List.sum_append, List.length_append,
      ih, SidoRecord.paths, List.length_map, List.length_flatMap]
    simp only [GugunRecord.paths, List.length_map]

/-- The map of a gugun never holds more than its dongs. -/
theorem dongMap_subperm (gugun : GugunRecord) :
    (gugunPaths (gugun.bound, gugun.dongMap)).Subperm gugun.paths := by
  have part := StdMap.built_subperm ChildBound.bound id (fun entry => [entry])
    (fun dong => [(dong.bound, dong)]) (fun _ => List.Subperm.refl _) gugun.dongs
  rw [List.flatMap_singleton', ← List.map_eq_flatMap] at part
  have paired := part.map (Prod.mk_right_injective gugun.bound)
  rwa [List.map_map] at paired

/-- The map of a gugun holds all its dongs exactly when their boxes are different. -/
theorem dongMap_perm_iff (gugun : GugunRecord) :
    (gugunPaths (gugun.bound, gugun.dongMap)).Perm gugun.paths ↔
      gugun.dongs.Pairwise fun first later => first.bound ≠ later.bound := by
  have whole := StdMap.built_perm_iff ChildBound.bound id (fun entry => [entry])
    (fun dong => [(dong.bound, dong)]) (fun _ => List.Subperm.refl _) gugun.dongs
  rw [List.flatMap_singleton', ← List.map_eq_flatMap] at whole
  have paired : (gugunPaths (gugun.bound, gugun.dongMap)).Perm
      ((gugun.dongs.map fun dong => (dong.bound, dong)).map (Prod.mk gugun.bound)) ↔ _ :=
    List.map_perm_map_iff (Prod.mk_right_injective gugun.bound)
  rw [List.map_map] at paired
  refine paired.trans (whole.trans ?_)
  -- Each dong is one item, so that none of them may come late.
  simp only [id_eq, List.cons_ne_nil, List.Perm.refl, implies_true, true_and, imp_false, ne_eq]

/-- The map of a sido never holds more than its dongs. -/
theorem gugunMap_subperm (sido : SidoRecord) :
    (sidoPaths (sido.bound, sido.gugunMap)).Subperm sido.paths := by
  have part := StdMap.built_subperm GugunRecord.bound GugunRecord.dongMap gugunPaths
    GugunRecord.paths dongMap_subperm sido.guguns
  exact part.map (Prod.mk_right_injective sido.bound)

/-- A gugun without paths is one without dongs. -/
theorem GugunRecord.paths_eq_nil {gugun : GugunRecord} : gugun.paths = [] ↔ gugun.dongs = [] :=
  List.map_eq_nil_iff

/-- A sido without paths is one none of whose guguns has a dong. -/
theorem SidoRecord.paths_eq_nil {sido : SidoRecord} :
    sido.paths = [] ↔ ∀ gugun ∈ sido.guguns, gugun.dongs = [] := by
  rw [SidoRecord.paths, List.map_eq_nil_iff, List.flatMap_eq_nil_iff]
  simp only [GugunRecord.paths_eq_nil]

/-- The map of a sido holds all its dongs exactly when no dong of it is hidden. -/
theorem gugunMap_perm_iff (sido : SidoRecord) :
    (sidoPaths (sido.bound, sido.gugunMap)).Perm sido.paths ↔
      (∀ gugun ∈ sido.guguns,
        gugun.dongs.Pairwise fun first later => first.bound ≠ later.bound) ∧
      sido.guguns.Pairwise fun first later => first.bound = later.bound → later.dongs = [] := by
  have whole := StdMap.built_perm_iff GugunRecord.bound GugunRecord.dongMap gugunPaths
    GugunRecord.paths dongMap_subperm sido.guguns
  refine (List.map_perm_map_iff (Prod.mk_right_injective sido.bound)).trans (whole.trans ?_)
  simp only [dongMap_perm_iff, GugunRecord.paths_eq_nil]

/-- Boxes that hide no dong: where one is used again, nothing stands below it the second time. -/
structure HidesNothing (sidos : List SidoRecord) : Prop where
  dongs : ∀ sido ∈ sidos, ∀ gugun ∈ sido.guguns,
    gugun.dongs.Pairwise fun first later => first.bound ≠ later.bound
  guguns : ∀ sido ∈ sidos,
    sido.guguns.Pairwise fun first later => first.bound = later.bound → later.dongs = []
  sidos : sidos.Pairwise fun first later =>
    first.bound = later.bound → ∀ gugun ∈ later.guguns, gugun.dongs = []

/-- The maps never hold more than the dongs of the file. -/
theorem sidoMapOf_subperm (sidos : List SidoRecord) :
    (storedPaths (sidoMapOf sidos)).Subperm (sidos.flatMap SidoRecord.paths) :=
  StdMap.built_subperm SidoRecord.bound SidoRecord.gugunMap sidoPaths SidoRecord.paths
    gugunMap_subperm sidos

/-- The maps hold all dongs of the file exactly when its boxes hide none. -/
theorem sidoMapOf_perm_iff (sidos : List SidoRecord) :
    (storedPaths (sidoMapOf sidos)).Perm (sidos.flatMap SidoRecord.paths) ↔ HidesNothing sidos := by
  -- The rule for nested maps says so of each sido, and of the sidos among each other.
  have whole := StdMap.built_perm_iff SidoRecord.bound SidoRecord.gugunMap sidoPaths
    SidoRecord.paths gugunMap_subperm sidos
  refine whole.trans ?_
  simp only [gugunMap_perm_iff, SidoRecord.paths_eq_nil]
  constructor
  · rintro ⟨all, sidos⟩
    exact ⟨fun sido member => (all sido member).1, fun sido member => (all sido member).2, sidos⟩
  · intro hidden
    exact ⟨fun sido member => ⟨hidden.dongs sido member, hidden.guguns sido member⟩, hidden.sidos⟩

end Paths

section Loading

/--
What loading without a loss is: every dong of the file is stored, once and under its own boxes.

The number of dongs in the maps is then the sum of `child_num` over the guguns.
-/
def LoadsAll (manager : AdminBoundManager) (fp : File) : Prop :=
  ∃ loaded, manager.create fp = some loaded ∧
    (allDongs loaded.boundaryMap).length = dongNum (tableAt fp.data).1 ∧
    (storedPaths loaded.boundaryMap).Perm ((tableAt fp.data).1.flatMap SidoRecord.paths)

variable {fp : File}

/-- Whatever the boxes are, the file is loaded, and what is stored stands in it. -/
theorem create_subperm (manager : AdminBoundManager) (inside : TableInside fp.data) :
    ∃ loaded, manager.create fp = some loaded ∧
      (storedPaths loaded.boundaryMap).Subperm ((tableAt fp.data).1.flatMap SidoRecord.paths) :=
  ⟨_, create_eq manager inside, sidoMapOf_subperm _⟩

/-- Loading loses no dong exactly when the boxes of the file hide none. -/
theorem create_loadsAll_iff (manager : AdminBoundManager) (inside : TableInside fp.data) :
    LoadsAll manager fp ↔ HidesNothing (tableAt fp.data).1 := by
  have created := create_eq manager inside
  rw [← sidoMapOf_perm_iff]
  constructor
  · rintro ⟨loaded, done, _, all⟩
    rw [created] at done
    cases done
    exact all
  · intro all
    refine ⟨_, created, ?_, all⟩
    -- The count follows from the paths, of which there is one for each dong.
    rw [← storedPaths_length, ← filePaths_length]
    exact all.length_eq

/-- The file of a single dong is loaded whole. -/
theorem create_loadsAll_iff_square : LoadsAll .start squareFile := by
  have inside : TableInside squareFile.data := by decide +kernel
  exact (create_loadsAll_iff .start inside).mpr
    ⟨by decide +kernel, by decide +kernel, by decide +kernel⟩

/-- A file of one gugun with two dongs, whose rings differ but not their boxes. -/
def twinFile : File where
  data := List.replicate 60 0 ++ leBytes 4 1 ++ boxBytes ⟨10, 40, 30, 20⟩ ++ [1] ++
    boxBytes ⟨10, 40, 30, 20⟩ ++ [2] ++
    boxBytes ⟨10, 40, 30, 20⟩ ++ leBytes 4 152 ++ leBytes 2 3 ++ [11, 5, 0x70, 0, 0] ++
    boxBytes ⟨10, 40, 30, 20⟩ ++ leBytes 4 176 ++ leBytes 2 3 ++ [11, 5, 0x80, 0, 0] ++
    [10, 20, 30, 20, 30, 40].flatMap (leBytes 4) ++ [10, 20, 30, 40, 10, 40].flatMap (leBytes 4)
  pos := 0
  addressable := by decide +kernel

/-- The second one of two dongs in the same box is not stored. -/
theorem create_twins : TableInside twinFile.data ∧ ¬ LoadsAll .start twinFile := by
  -- Two dongs are in the file, and one is left in the map.
  refine ⟨by decide +kernel, ?_⟩
  rintro ⟨loaded, created, counted, _⟩
  have stored : (AdminBoundManager.start.create twinFile).map
      (fun manager => (allDongs manager.boundaryMap).length) = some 1 := by decide +kernel
  have given : dongNum (tableAt twinFile.data).1 = 2 := by decide +kernel
  rw [created, Option.map_some, counted, given] at stored
  cases stored

end Loading

end AndroidApps.Gildroia
