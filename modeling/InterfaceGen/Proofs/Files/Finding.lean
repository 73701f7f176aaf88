import InterfaceGen.Proofs.Files.WellFormed
import InterfaceGen.Batch.Session

/-!
# What a walk finds

In a well-formed tree a walk for names with an ending finds the files below the directory whose
names end so, each by the names that lead to it: `mem_find_iff`. No file is found twice.
-/

namespace InterfaceGen

namespace FilePath

/-- Paths are ordered by their names. -/
theorem le_iff {a b : FilePath} : le a b = true ↔ ¬b.names < a.names := by
  rw [le, Bool.not_eq_true', decide_eq_false_iff_not]

theorem le_trans {a b c : FilePath} (h : le a b = true) (more : le b c = true) : le a c = true := by
  rw [le_iff, List.not_lt] at h more ⊢
  exact List.le_trans h more

theorem le_total (a b : FilePath) : (le a b || le b a) = true := by
  rw [Bool.or_eq_true, le_iff, le_iff, List.not_lt, List.not_lt]
  exact List.le_total ..

end FilePath

namespace NamePattern

/-- A part of plain characters accepts the name that it spells. -/
theorem accepts_chars {text name : List Char} :
    accepts (text.map .char) name = true ↔ name = text := by
  induction text generalizing name with
  | nil => cases name <;> simp [accepts]
  | cons c text ih =>
    cases name with
    | nil => simp [accepts]
    | cons d name => simp [accepts, ih]

/-- Exactly the names with this ending are described. -/
theorem accepts_ending {text name : List Char} :
    accepts (.run :: text.map .char) name = true ↔ text <:+ name := by
  induction name with
  | nil =>
    rw [accepts, accepts_chars, List.suffix_nil, eq_comm]
  | cons c name ih =>
    rw [accepts, Bool.or_eq_true, accepts_chars, ih, List.suffix_cons_iff, eq_comm]

end NamePattern

namespace FileTree

variable {t : FileTree} {directory : FilePath} {place : Place} {names : List String}
  {entry : FileEntry}

/-- What is below a place has a place that continues it. -/
theorem mem_below_iff : (names, entry) ∈ t.below place ↔
    names ≠ [] ∧ (place ++ names, entry) ∈ t.entries := by
  rw [below, List.mem_filterMap]
  constructor
  · rintro ⟨⟨other, found⟩, listed, kept⟩
    simp only at kept
    split at kept
    · next down =>
      rw [Bool.and_eq_true, List.isPrefixOf_iff_prefix, decide_eq_true_eq] at down
      obtain ⟨⟨more, rfl⟩, longer⟩ := down
      simp only [List.drop_left, Option.some.injEq, Prod.mk.injEq] at kept
      obtain ⟨rfl, rfl⟩ := kept
      refine ⟨?_, listed⟩
      rintro rfl
      simp at longer
    · cases kept
  · rintro ⟨nonempty, listed⟩
    refine ⟨_, listed, ?_⟩
    have down : (place.isPrefixOf (place ++ names) && place.length < (place ++ names).length) =
        true := by
      rw [Bool.and_eq_true, List.isPrefixOf_iff_prefix, decide_eq_true_eq]
      have := List.length_pos_iff.2 nonempty
      exact ⟨List.prefix_append _ _, by rw [List.length_append]; omega⟩
    simp only [down, if_true, List.drop_left]

/-- The names below a directory lead on from its place. -/
theorem WellFormed.locate_below (h : t.WellFormed) (located : t.locate directory = .ok place)
    (he : t.entry? (place ++ names) = some entry) :
    t.locate { directory with names := directory.names ++ names } = .ok (place ++ names) := by
  have named := h.named_of_append he
  have clean : (FilePath.mk directory.start names).hasNull = false := by
    rw [FilePath.hasNull, List.any_eq_false]
    intro name hm null
    exact (named name hm).noNull (by simpa using null)
  rw [locate] at located ⊢
  split at located
  · cases located
  · next sound =>
    have start : t.follow (t.startPlace directory.start) directory.names = .ok place := by
      cases way : t.follow (t.startPlace directory.start) directory.names with
      | error obstacle => rw [way] at located; cases located
      | ok reached => rw [way] at located; exact congrArg _ (Except.ok.inj located)
    have sound' : ¬ (FilePath.mk directory.start (directory.names ++ names)).hasNull = true := by
      rw [FilePath.hasNull, List.any_append, Bool.or_eq_true, not_or]
      exact ⟨sound, Bool.eq_false_iff.1 clean⟩
    rw [if_neg sound', follow_append, start]
    exact congrArg (Except.mapError _) (h.follow_names he)

/-- A path finds the entry at the place to which it leads. -/
theorem find?_eq_some_iff {path : FilePath} : t.find? path = some entry ↔
    ∃ place, t.locate path = .ok place ∧ t.entry? place = some entry := by
  rw [find?]
  cases t.locate path <;> simp

/-- A path is that of a directory exactly if it leads to one. -/
theorem isDirectory_iff {path : FilePath} : t.isDirectory path = true ↔
    ∃ place, t.locate path = .ok place ∧ t.entry? place = some .directory := by
  rw [isDirectory, beq_iff_eq, find?_eq_some_iff]

theorem isFile_iff {path : FilePath} : t.isFile path = true ↔
    ∃ place bytes, t.locate path = .ok place ∧ t.entry? place = some (.file bytes) := by
  have iff : t.isFile path = true ↔ ∃ bytes, t.find? path = some (.file bytes) := by
    rw [isFile]
    rcases t.find? path with _ | _ | bytes <;> simp
  simp only [iff, find?_eq_some_iff]
  exact exists_comm

/-- A directory below a directory. -/
theorem WellFormed.mem_directoriesFrom_iff (h : t.WellFormed)
    (located : t.locate directory = .ok place) (there : t.entry? place = some .directory)
    {path : FilePath} :
    path ∈ t.directoriesFrom directory ↔ ∃ names, t.entry? (place ++ names) = some .directory ∧
      path = { directory with names := directory.names ++ names } := by
  rw [directoriesFrom, List.mem_cons, List.mem_filterMap, contents, located]
  constructor
  · rintro (rfl | ⟨⟨names, _ | bytes⟩, listed, kept⟩)
    · exact ⟨[], by simpa using there, by simp⟩
    · have inside := mem_below_iff.1 listed
      exact ⟨names, h.entry?_of_mem inside.2, (Option.some.inj kept).symm⟩
    · cases kept
  · rintro ⟨names, entry, rfl⟩
    by_cases none : names = []
    · exact .inl (by simp [none])
    · refine .inr ⟨(names, .directory), mem_below_iff.2 ⟨none, ?_⟩, rfl⟩
      exact mem_entries entry (List.append_ne_nil_of_right_ne_nil _ none)

/-- The names in a directory are those of its entries. -/
theorem WellFormed.mem_childNames_iff (h : t.WellFormed)
    (located : t.locate directory = .ok place) {name : String} :
    name ∈ t.childNames directory ↔ ∃ entry, t.entry? (place ++ [name]) = some entry := by
  rw [childNames, contents, located, List.mem_filterMap]
  constructor
  · rintro ⟨⟨_ | ⟨first, _ | ⟨next, more⟩⟩, entry⟩, listed, kept⟩
    · cases kept
    · obtain rfl := Option.some.inj kept
      exact ⟨entry, h.entry?_of_mem (mem_below_iff.1 listed).2⟩
    · cases kept
  · rintro ⟨entry, there⟩
    exact ⟨([name], entry), mem_below_iff.2 ⟨List.cons_ne_nil _ _,
      mem_entries there (by simp)⟩, rfl⟩

/-- What a glob for an ending describes: names below directories below the directory. -/
theorem WellFormed.mem_glob_iff (h : t.WellFormed) (located : t.locate directory = .ok place)
    (there : t.entry? place = some .directory) {text : String} {path : FilePath} :
    path ∈ t.glob directory (.ending text) ↔ ∃ names name entry,
      t.entry? (place ++ (names ++ [name])) = some entry ∧ text.toList <:+ name.toList ∧
        path = { directory with names := directory.names ++ (names ++ [name]) } := by
  have entered : t.isDirectory directory = true := isDirectory_iff.2 ⟨place, located, there⟩
  have selected : path ∈ t.glob directory (.ending text) ↔
      ∃ d ∈ t.directoriesFrom directory, t.isDirectory d = true ∧
        ∃ name ∈ t.childNames d, text.toList <:+ name.toList ∧ d.child name = path := by
    rw [FileTree.glob, if_pos entered]
    simp [Glob.ending, select, matching, NamePattern.accepts_ending, and_assoc]
  rw [selected]
  constructor
  · rintro ⟨d, hd, -, name, hn, ends, rfl⟩
    obtain ⟨names, inside, rfl⟩ := (h.mem_directoriesFrom_iff located there).1 hd
    obtain ⟨entry, he⟩ := (h.mem_childNames_iff (h.locate_below located inside)).1 hn
    exact ⟨names, name, entry, by rwa [← List.append_assoc], ends,
      by simp [FilePath.child]⟩
  · rintro ⟨names, name, entry, he, ends, rfl⟩
    rw [← List.append_assoc] at he
    have inside := h.above_of_append he (List.cons_ne_nil name [])
    have below := h.locate_below located inside
    exact ⟨_, (h.mem_directoriesFrom_iff located there).2 ⟨names, inside, rfl⟩,
      isDirectory_iff.2 ⟨_, below, inside⟩, name, (h.mem_childNames_iff below).2 ⟨entry, he⟩, ends,
      by simp [FilePath.child]⟩

end FileTree

namespace SourceFile

variable {t : FileTree} {directory : FilePath} {place : Place} {f : SourceFile} {text : String}

open FileTree

/-- A walk for names with an ending finds the files below the directory whose names end so. -/
theorem mem_find_iff (h : t.WellFormed) :
    f ∈ find t directory (.ending text) ↔
      ∃ place names bytes, t.locate directory = .ok place ∧ names ≠ [] ∧
        t.entry? (place ++ names) = some (.file bytes) ∧
        text.toList <:+ (names.getLast?.getD "").toList ∧ f = below directory ⟨.here, names⟩ := by
  have listed : f ∈ find t directory (.ending text) ↔
      ∃ path ∈ t.glob directory (.ending text), t.isFile path = true ∧
        (⟨path, ⟨.here, path.names.drop directory.names.length⟩⟩ : SourceFile) = f := by
    simp [find, and_assoc]
  rw [listed]
  constructor
  · rintro ⟨path, hp, file, rfl⟩
    have entered : t.isDirectory directory = true := by
      rw [FileTree.glob] at hp
      split at hp
      · next yes => exact yes
      · cases hp
    obtain ⟨place, located, there⟩ := isDirectory_iff.1 entered
    obtain ⟨names, name, entry, he, ends, rfl⟩ := (h.mem_glob_iff located there).1 hp
    obtain ⟨reached, bytes, way, found⟩ := isFile_iff.1 file
    rw [h.locate_below located he, Except.ok.injEq] at way
    refine ⟨place, names ++ [name], bytes, located, by simp, way ▸ found, by simpa using ends, ?_⟩
    simp [below, FilePath.join]
  · rintro ⟨place, names, bytes, located, nonempty, he, ends, rfl⟩
    have there := h.above_of_append he nonempty
    obtain ⟨init, name, rfl⟩ : ∃ init name, names = init ++ [name] :=
      ⟨_, _, (List.dropLast_concat_getLast nonempty).symm⟩
    refine ⟨_, (h.mem_glob_iff located there).2 ⟨init, name, _, he, by simpa using ends, rfl⟩,
      isFile_iff.2 ⟨_, bytes, h.locate_below located he, he⟩, ?_⟩
    simp [below, FilePath.join]

/-- Files that the glob describes in order are found in this order. -/
theorem find_of_pairwise {t : FileTree} {directory : FilePath} {glob : Glob}
    {paths : List FilePath} (h : ((t.glob directory glob).filter t.isFile).eraseDups = paths)
    (sorted : paths.Pairwise fun a b => FilePath.le a b = true) :
    find t directory glob =
      paths.map fun path => ⟨path, ⟨.here, path.names.drop directory.names.length⟩⟩ := by
  rw [find, h, List.mergeSort_of_pairwise sorted]

theorem nodup_eraseDups {α : Type} [BEq α] [LawfulBEq α] : (list : List α) → list.eraseDups.Nodup
  | [] => by simp
  | a :: list => by
    rw [List.eraseDups_cons, List.nodup_cons]
    refine ⟨fun ha => ?_, nodup_eraseDups _⟩
    have other := (List.mem_filter.1 (List.mem_eraseDups.1 ha)).2
    simp at other
termination_by list => list.length
decreasing_by
  have := List.length_filter_le (fun b => !b == a) list
  simp only [List.length_cons]
  omega

/-- No file is found twice. -/
theorem nodup_find (t : FileTree) (directory : FilePath) (glob : Glob) :
    (find t directory glob).Nodup := by
  have paths : (((t.glob directory glob).filter t.isFile).eraseDups.mergeSort FilePath.le).Nodup :=
    (List.mergeSort_perm _ _).nodup_iff.2 (nodup_eraseDups _)
  refine List.pairwise_map.2 (paths.imp fun differ same => ?_)
  exact differ (congrArg SourceFile.fullPath same)

/-- Files are found in the order of their paths. -/
theorem pairwise_find (t : FileTree) (directory : FilePath) (glob : Glob) :
    (find t directory glob).Pairwise fun f g => FilePath.le f.fullPath g.fullPath = true := by
  have sorted : ∀ paths : List FilePath,
      (paths.mergeSort FilePath.le).Pairwise fun a b => FilePath.le a b = true :=
    List.pairwise_mergeSort (fun _ _ _ => FilePath.le_trans) FilePath.le_total
  exact List.pairwise_map.2 (sorted _)

/-- The path of a found file leads to where its names stand below the directory. -/
theorem locate_of_mem_find (h : t.WellFormed) (located : t.locate directory = .ok place)
    (hf : f ∈ find t directory (.ending text)) :
    t.locate f.fullPath = .ok (place ++ f.relative.names) := by
  obtain ⟨reached, names, bytes, way, nonempty, he, ends, rfl⟩ := (mem_find_iff h).1 hf
  rw [located, Except.ok.injEq] at way
  exact h.locate_below located (way ▸ he)

/-- A file is there. -/
theorem exists_file_of_mem_find (h : t.WellFormed) (hf : f ∈ find t directory (.ending text)) :
    ∃ root bytes, t.locate f.fullPath = .ok (root ++ f.relative.names) ∧
      t.entry? (root ++ f.relative.names) = some (.file bytes) := by
  obtain ⟨root, names, bytes, located, -, entry, -, same⟩ := (mem_find_iff h).1 hf
  refine ⟨root, bytes, locate_of_mem_find h located hf, ?_⟩
  rw [same]
  exact entry

/-- What is found has names of files. -/
theorem isNamed_of_mem_find (h : t.WellFormed) (hf : f ∈ find t directory (.ending text)) :
    f.IsNamed := by
  obtain ⟨place, names, bytes, -, nonempty, he, -, rfl⟩ := (mem_find_iff h).1 hf
  exact ⟨rfl, nonempty, h.named_of_append he⟩

/-- A file that is found is known by its names below the directory. -/
theorem eq_of_names (h : t.WellFormed) {g : SourceFile}
    (hf : f ∈ find t directory (.ending text)) (hg : g ∈ find t directory (.ending text))
    (same : f.relative.names = g.relative.names) : f = g := by
  obtain ⟨-, names, -, -, -, -, -, rfl⟩ := (mem_find_iff h).1 hf
  obtain ⟨-, more, -, -, -, -, -, rfl⟩ := (mem_find_iff h).1 hg
  exact congrArg (fun names => below directory ⟨.here, names⟩) same

/-- Two found files that are at one place are one. -/
theorem eq_of_locate (h : t.WellFormed) {g : SourceFile}
    (hf : f ∈ find t directory (.ending text)) (hg : g ∈ find t directory (.ending text))
    (same : t.locate f.fullPath = t.locate g.fullPath) : f = g := by
  obtain ⟨place, -, -, located, -⟩ := (mem_find_iff h).1 hf
  rw [locate_of_mem_find h located hf, locate_of_mem_find h located hg, Except.ok.injEq,
    List.append_cancel_left_eq] at same
  exact eq_of_names h hf hg same

end SourceFile

end InterfaceGen
