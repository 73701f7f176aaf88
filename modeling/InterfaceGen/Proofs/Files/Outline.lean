import InterfaceGen.Proofs.Files.WellFormed

/-!
# What a walk sees of a tree

A walk through directories asks where paths lead and whether there is a file or a directory, never
for the bytes of a file. So it finds the same in a tree and in its outline, where all files are
empty: `find_outline`. Writing into a file that is there leaves the outline alone, `outline_set`.
-/

namespace InterfaceGen

/-- What is at a place, a file without its bytes. -/
def FileEntry.outline : FileEntry → FileEntry
  | directory => directory
  | file _ => file []

namespace FileTree

/-- The tree with all files emptied. -/
def outline (t : FileTree) : FileTree :=
  { t with entries := t.entries.map fun e => (e.1, e.2.outline) }

variable {t : FileTree}

theorem lookup_map_snd {α β γ : Type} [BEq α] (f : β → γ) (a : α) (entries : List (α × β)) :
    (entries.map fun e => (e.1, f e.2)).lookup a = (entries.lookup a).map f := by
  induction entries with
  | nil => rfl
  | cons e entries ih =>
    rw [List.map_cons, List.lookup_cons, List.lookup_cons, ih]
    split <;> rfl

/-- The outline has the same entries without the contents of files. -/
theorem entry?_outline (t : FileTree) (place : Place) :
    t.outline.entry? place = (t.entry? place).map FileEntry.outline := by
  unfold entry?
  split
  · rfl
  · exact lookup_map_snd _ _ _

/-- Names lead to the same places. -/
theorem follow_outline (t : FileTree) (place : Place) (names : List String) :
    t.outline.follow place names = t.follow place names := by
  induction names generalizing place with
  | nil => rfl
  | cons name names ih =>
    rw [follow, follow, entry?_outline]
    rcases t.entry? place with _ | _ | bytes
    · rfl
    · simp only [Option.map_some, FileEntry.outline, ih]
    · rfl

theorem locate_outline (t : FileTree) (path : FilePath) : t.outline.locate path = t.locate path := by
  rw [locate, locate, follow_outline]
  rfl

/-- What is found is the same but for its contents. -/
theorem find?_outline (t : FileTree) (path : FilePath) :
    t.outline.find? path = (t.find? path).map FileEntry.outline := by
  rw [find?, find?, locate_outline]
  cases t.locate path with
  | error error => rfl
  | ok place => exact entry?_outline t place

theorem isDirectory_outline (t : FileTree) (path : FilePath) :
    t.outline.isDirectory path = t.isDirectory path := by
  rw [isDirectory, isDirectory, find?_outline]
  rcases t.find? path with _ | _ | bytes <;> rfl

theorem isFile_outline (t : FileTree) (path : FilePath) :
    t.outline.isFile path = t.isFile path := by
  rw [isFile, isFile, find?_outline]
  rcases t.find? path with _ | _ | bytes <;> rfl

/-- What is below a place is the same, but for the bytes of files. -/
theorem below_outline (t : FileTree) (place : Place) :
    t.outline.below place = (t.below place).map fun e => (e.1, e.2.outline) := by
  rw [below, below, outline, List.filterMap_map, List.map_filterMap]
  congr 1
  funext e
  dsimp only [Function.comp_apply]
  split <;> rfl

theorem contents_outline (t : FileTree) (directory : FilePath) :
    t.outline.contents directory = (t.contents directory).map fun e => (e.1, e.2.outline) := by
  rw [contents, contents, locate_outline]
  cases t.locate directory with
  | error error => rfl
  | ok place => exact below_outline t place

/-- A directory has the same names in it. -/
theorem childNames_outline (t : FileTree) (directory : FilePath) :
    t.outline.childNames directory = t.childNames directory := by
  rw [childNames, childNames, contents_outline, List.filterMap_map]
  congr 1
  funext e
  rcases e with ⟨_ | ⟨name, _ | ⟨next, names⟩⟩, entry⟩ <;> rfl

theorem directoriesFrom_outline (t : FileTree) (directory : FilePath) :
    t.outline.directoriesFrom directory = t.directoriesFrom directory := by
  rw [directoriesFrom, directoriesFrom, contents_outline, List.filterMap_map]
  congr 2
  funext e
  rcases e with ⟨names, _ | bytes⟩ <;> rfl

theorem matching_outline (t : FileTree) (directory : FilePath) (part : GlobPart) :
    t.outline.matching directory part = t.matching directory part := by
  cases part with
  | anyDepth => exact directoriesFrom_outline t directory
  | up => rfl
  | name pattern => rw [matching, matching, childNames_outline]

/-- The same paths are selected. -/
theorem select_outline (t : FileTree) (directoriesOnly : Bool) (parts : List GlobPart)
    (path : FilePath) :
    t.outline.select directoriesOnly parts path = t.select directoriesOnly parts path := by
  have entered : t.outline.isDirectory = t.isDirectory := funext (isDirectory_outline t)
  induction parts generalizing path with
  | nil => rfl
  | cons part parts ih =>
    have later : t.outline.select directoriesOnly parts = t.select directoriesOnly parts := funext ih
    rw [select, select, matching_outline, entered, later]

/-- The same paths match a pattern. -/
theorem glob_outline (t : FileTree) (directory : FilePath) (glob : Glob) :
    t.outline.glob directory glob = t.glob directory glob := by
  rw [FileTree.glob, FileTree.glob, isDirectory_outline, select_outline]

end FileTree

/-- A walk finds the same files in a tree and in its outline. -/
theorem SourceFile.find_outline (t : FileTree) (directory : FilePath) (glob : Glob) :
    find t.outline directory glob = find t directory glob := by
  have files : t.outline.isFile = t.isFile := funext t.isFile_outline
  rw [find, find, FileTree.glob_outline, files]

/-- Two trees of one outline. -/
theorem SourceFile.find_congr {t u : FileTree} (h : t.outline = u.outline) (directory : FilePath)
    (glob : Glob) : find t directory glob = find u directory glob := by
  rw [← find_outline t, h, find_outline]

namespace FileTree

variable {t u : FileTree} {place : Place} {bytes : List UInt8}

/-! ## Trees of one outline -/

theorem places_outline (t : FileTree) : t.outline.entries.map (·.1) = t.entries.map (·.1) := by
  rw [outline, List.map_map]
  rfl

/-- Trees with one outline have the same directories. -/
theorem entry?_eq_directory_iff (h : t.outline = u.outline) :
    t.entry? place = some .directory ↔ u.entry? place = some .directory := by
  have iff : ∀ t : FileTree, t.entry? place = some .directory ↔
      t.outline.entry? place = some .directory := by
    intro t
    rw [entry?_outline]
    rcases t.entry? place with _ | _ | bytes <;> simp [FileEntry.outline]
  rw [iff t, iff u, h]

/-- Whether a tree is well-formed does not depend on what its files hold. -/
theorem WellFormed.congr (wf : t.WellFormed) (h : t.outline = u.outline) : u.WellFormed := by
  have places : t.entries.map (·.1) = u.entries.map (·.1) := by
    rw [← places_outline, h, places_outline]
  have listed : ∀ e ∈ u.entries, ∃ d ∈ t.entries, d.1 = e.1 := by
    intro e he
    have there : e.1 ∈ t.entries.map (·.1) := by
      rw [places]
      exact List.mem_map_of_mem he
    exact List.mem_map.1 there
  constructor
  · rw [← places]
    exact wf.nodup
  · intro e he
    obtain ⟨d, hd, same⟩ := listed e he
    exact same ▸ wf.nonempty d hd
  · intro e he
    obtain ⟨d, hd, same⟩ := listed e he
    exact same ▸ wf.named d hd
  · intro e he
    obtain ⟨d, hd, same⟩ := listed e he
    rw [← entry?_eq_directory_iff h, ← same]
    exact wf.above d hd

/-- Writing into a file that is there leaves the outline alone. -/
theorem outline_set (wf : t.WellFormed) (h : t.entry? place = some (.file bytes))
    (new : List UInt8) : (t.set place (.file new)).outline = t.outline := by
  have there := mem_entries h (ne_nil_of_file h)
  have listed : t.entries.any (·.1 == place) = true :=
    List.any_eq_true.2 ⟨_, there, beq_self_eq_true _⟩
  rw [set, if_pos listed, outline, outline, List.map_map]
  congr 1
  apply List.map_congr_left
  intro e he
  rw [Function.comp_apply]
  split
  · next same =>
    have entry := wf.entry?_of_mem he
    rw [same, h, Option.some.injEq] at entry
    rw [← entry, same]
    rfl
  · rfl

end FileTree

end InterfaceGen
