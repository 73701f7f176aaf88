import InterfaceGen.Proofs.Files.WellFormed
import InterfaceGen.Proofs.Imports.Path
import InterfaceGen.Proofs.Text.Stored

/-!
# Locations of files

What the names on the way to a file say about its location: where none of them has a line break the
location has none, nor has a path that leads there. The parts of the location are these names, the
last one without its suffix, and the path to a parent leads there: `walk_parentPath`.
-/

namespace InterfaceGen

open InterfaceGen.Text

/-! ## Stems -/

theorem FilePath.mem_of_mem_stemOf {name : String} {c : Char} (h : c ∈ (stemOf name).toList) :
    c ∈ name.toList := by
  unfold stemOf at h
  dsimp only at h
  split at h
  · exact h
  · rw [String.toList_ofList, List.mem_reverse] at h
    exact List.mem_reverse.1 ((List.dropWhile_suffix _).subset (List.mem_of_mem_drop h))

theorem FilePath.stemOf_ne_empty {name : String} (h : name ≠ "") : stemOf name ≠ "" := by
  unfold stemOf
  dsimp only
  split
  · exact h
  · next kept =>
    intro empty
    simp only [Bool.or_eq_true, List.isEmpty_iff, not_or] at kept
    have none := congrArg String.toList empty
    rw [String.toList_ofList, String.toList_empty, List.reverse_eq_nil_iff] at none
    exact kept.2 none

/-! ## Parts of locations -/

namespace SourceFile.IsNamed

variable {f h : SourceFile}

theorem isFileName (hf : f.IsNamed) : IsFileName f.fileName := by
  rw [fileName, FilePath.name, List.getLast?_eq_some_getLast hf.nonempty, Option.getD_some]
  exact hf.named _ (List.getLast_mem hf.nonempty)

/-- The directories on the way to a file have names of files. -/
theorem isFileName_directory (hf : f.IsNamed) {name : String}
    (hn : name ∈ f.relative.parent.names) : IsFileName name :=
  hf.named name (List.dropLast_subset _ hn)

theorem slash_notMem_baseName (hf : f.IsNamed) : '/' ∉ f.baseName.toList :=
  fun slash => hf.isFileName.noSlash (FilePath.mem_of_mem_stemOf slash)

theorem baseName_ne_empty (hf : f.IsNamed) : f.baseName ≠ "" :=
  FilePath.stemOf_ne_empty hf.isFileName.nonempty

/-- The location is the directories and the name without its suffix. -/
theorem parts_location (hf : f.IsNamed) :
    Location.parts f.location = f.relative.parent.names ++ [f.baseName] := by
  have base := Location.parts_of_notMem hf.slash_notMem_baseName
  by_cases none : f.relative.parent.names = []
  · have same : f.relative.parent = ⟨.here, []⟩ := by
      rw [← none, ← hf.start]
      rfl
    have top : f.directory = "" := if_pos same
    rw [location, if_pos top, base, none, List.nil_append]
  · have spelled : f.directory = "/".intercalate f.relative.parent.names := by
      have differ : f.relative.parent ≠ ⟨.here, []⟩ := fun same => none (congrArg FilePath.names same)
      have below : ¬ (f.relative.parent.start = .here ∧ f.relative.parent.names = []) :=
        fun both => none both.2
      have start : f.relative.parent.start = .here := hf.start
      rw [directory, if_neg differ, FilePath.toText, if_neg below, start, PathStart.toText,
        String.empty_append]
    have parted : Location.parts f.directory = f.relative.parent.names := by
      rw [spelled]
      exact Location.parts_intercalate none fun name hn => (hf.isFileName_directory hn).noSlash
    have nonempty : f.directory ≠ "" := by
      intro empty
      rw [empty] at parted
      have listed : "" ∈ f.relative.parent.names := by
        rw [← parted]
        decide
      exact (hf.isFileName_directory listed).nonempty rfl
    rw [location, if_neg nonempty, spelled, Location.parts_intercalate_append none
      (fun name hn => (hf.isFileName_directory hn).noSlash), base]

/-- The directories of a location are those on the way to the file. -/
theorem directories_location (hf : f.IsNamed) :
    Location.directories f.location = f.relative.parent.names := by
  rw [Location.directories, hf.parts_location, List.dropLast_concat]

/-- The path to a parent leads from the directory of the child to the file of the parent, unless
that is named like a way. -/
theorem walk_parentPath (hf : f.IsNamed) (hh : h.IsNamed) (ne_here : h.baseName ≠ ".")
    (ne_up : h.baseName ≠ "..") :
    Location.walk f.relative.parent.names (Location.parentPath f.location h.location) =
      some (h.relative.parent.names ++ [h.baseName]) := by
  rw [← hf.directories_location, ← hh.parts_location]
  refine Location.walk_parentPath_of_ne_empty (fun empty => ?_) (fun name hn => ?_) fun part hp => ?_
  · have parted := hf.parts_location
    rw [empty] at parted
    have only : f.relative.parent.names ++ [f.baseName] = [""] := parted.symm
    have last := congrArg List.getLast? only
    rw [List.getLast?_concat] at last
    exact hf.baseName_ne_empty (Option.some.inj last)
  · rw [hf.directories_location] at hn
    exact (hf.isFileName_directory hn).nonempty
  · rw [hh.parts_location, List.mem_append, List.mem_singleton] at hp
    rcases hp with above | rfl
    · have name := hh.isFileName_directory above
      exact ⟨name.nonempty, name.ne_here, name.ne_up⟩
    · exact ⟨hh.baseName_ne_empty, ne_here, ne_up⟩

end SourceFile.IsNamed

/-! ## Locations on one line -/

/-- Names on one line make a path on one line. -/
theorem Text.IsOneLine.intercalate {names : List String} (h : ∀ name ∈ names, IsOneLine name) :
    IsOneLine ("/".intercalate names) := by
  induction names with
  | nil => decide
  | cons name names ih =>
    cases names with
    | nil => simpa using h name (List.mem_cons_self ..)
    | cons next names =>
      have later := ih fun n hn => h n (List.mem_cons_of_mem _ hn)
      have slash : IsOneLine "/" := by decide
      rw [String.intercalate_cons_cons]
      exact ((h name (List.mem_cons_self ..)).append slash).append later

theorem Text.IsOneLine.stemOf {name : String} (h : IsOneLine name) :
    IsOneLine (FilePath.stemOf name) :=
  h.of_subset fun _ => FilePath.mem_of_mem_stemOf

/-- A location is on one line if the names on the way are. -/
theorem SourceFile.isOneLine_location {f : SourceFile}
    (h : ∀ name ∈ f.relative.names, IsOneLine name) : IsOneLine f.location := by
  have above : IsOneLine f.relative.parent.toText := by
    have names : IsOneLine ("/".intercalate f.relative.parent.names) :=
      .intercalate fun name hn => h name (List.dropLast_subset _ hn)
    have start : IsOneLine f.relative.parent.start.toText := by
      cases f.relative.parent.start <;> decide
    unfold FilePath.toText
    split
    · decide
    · exact start.append names
  have directory : IsOneLine f.directory := by
    unfold SourceFile.directory
    split
    · decide
    · exact above
  have base : IsOneLine f.baseName := by
    refine IsOneLine.stemOf ?_
    rw [fileName, FilePath.name]
    cases last : f.relative.names.getLast? with
    | none => decide
    | some name => exact h name (List.mem_of_getLast? last)
  have slash : IsOneLine "/" := by decide
  unfold location
  split
  · exact base
  · exact (directory.append slash).append base

namespace Location

/-- Besides dots and slashes only the location of the parent is in the path to it. -/
theorem isOneLine_parentPath (child : String) {parent : String} (h : IsOneLine parent) :
    IsOneLine (parentPath child parent) := by
  have here : IsOneLine "./" := by decide
  have file : IsOneLine (fileName parent) := by
    obtain ⟨piece, hp, same⟩ := List.mem_map.1 (fileName_mem_parts parent)
    refine h.of_subset fun c hc => mem_of_mem_cutAt hp ?_
    rw [← same, String.toList_ofList] at hc
    exact hc
  have path : IsOneLine (importPath (some child) parent) := by
    intro c hc
    rcases mem_importPath hc with rfl | rfl | inside
    · decide
    · decide
    · exact h c inside
  unfold parentPath
  split
  · exact here.append file
  · simp only
    split
    · exact path
    · exact here.append path

end Location

end InterfaceGen
