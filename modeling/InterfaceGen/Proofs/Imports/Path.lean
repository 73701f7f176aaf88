import InterfaceGen.Imports.Path
import InterfaceGen.Proofs.Text.Cutting

/-!
# Where an import path leads

`walk` follows a path from a directory, one part after the other. Between clean locations both kinds
of paths, that of an import and that to a parent, lead from the directory of the current location to
the target: `walk_importPath` and `walk_parentPath`.
-/

namespace InterfaceGen.Location

open InterfaceGen.Text

/-- Goes on from a directory by one part of a path: `..` leaves the directory, which there has to
be one to leave for, and `.` stays. -/
def step (place : List String) (part : String) : Option (List String) :=
  if part = ".." then
    if place = [] then none else some place.dropLast
  else if part = "." then some place
  else some (place ++ [part])

/-- The place that a path leads to from a directory. -/
def walk (directory : List String) (path : String) : Option (List String) :=
  (parts path).foldlM step directory

/-- The directories that a location is in. -/
def directories (location : String) : List String :=
  (parts location).dropLast

/-- A name that can stand in a path for itself. -/
def IsSegment (part : String) : Prop :=
  part ≠ "" ∧ part ≠ "." ∧ part ≠ ".."

instance : DecidablePred IsSegment :=
  fun _ => inferInstanceAs (Decidable (_ ∧ _))

/-- All parts of the location are names. -/
def IsClean (location : String) : Prop :=
  ∀ part ∈ parts location, IsSegment part

instance : DecidablePred IsClean :=
  fun location => inferInstanceAs (Decidable (∀ part ∈ parts location, IsSegment part))

/-! ## The parts of a text -/

theorem parts_ne_nil (text : String) : parts text ≠ [] := by
  rw [parts, ne_eq, List.map_eq_nil_iff]
  exact cutAt_ne_nil '/' text.toList

/-- No part of a text has a slash. -/
theorem slash_notMem_of_mem_parts {text part : String} (h : part ∈ parts text) :
    '/' ∉ part.toList := by
  obtain ⟨piece, hp, rfl⟩ := List.mem_map.1 h
  rw [String.toList_ofList]
  exact notMem_of_mem_cutAt hp

theorem parts_of_notMem {name : String} (h : '/' ∉ name.toList) : parts name = [name] := by
  rw [parts, cutAt_of_notMem h, List.map_singleton, String.ofList_toList]

/-- A name without a slash is the first part. -/
theorem parts_append {name : String} (h : '/' ∉ name.toList) (rest : String) :
    parts (name ++ "/" ++ rest) = name :: parts rest := by
  have text : (name ++ "/" ++ rest).toList = name.toList ++ '/' :: rest.toList := by
    simp [String.toList_append]
  rw [parts, text, cutAt_append_cons h, List.map_cons, String.ofList_toList]
  rfl

/-- Names without slashes are the parts of the text that they make. -/
theorem parts_intercalate {names : List String} (nonempty : names ≠ [])
    (h : ∀ name ∈ names, '/' ∉ name.toList) : parts ("/".intercalate names) = names := by
  have texts : ∀ text ∈ names.map String.toList, '/' ∉ text := by
    intro text ht
    obtain ⟨name, hn, rfl⟩ := List.mem_map.1 ht
    exact h name hn
  have whole : ("/".intercalate names).toList = ['/'].intercalate (names.map String.toList) := by
    rw [String.toList_intercalate]
    rfl
  rw [parts, whole, cutAt_intercalate (by simpa using nonempty) texts, List.map_map]
  simp [Function.comp_def]

theorem parts_intercalate_append {names : List String} (nonempty : names ≠ [])
    (h : ∀ name ∈ names, '/' ∉ name.toList) (rest : String) :
    parts ("/".intercalate names ++ "/" ++ rest) = names ++ parts rest := by
  induction names with
  | nil => exact absurd rfl nonempty
  | cons name names ih =>
    have first := h name (List.mem_cons_self ..)
    cases names with
    | nil => rw [String.intercalate_singleton, parts_append first, List.singleton_append]
    | cons next names =>
      have whole : "/".intercalate (name :: next :: names) ++ "/" ++ rest =
          name ++ "/" ++ ("/".intercalate (next :: names) ++ "/" ++ rest) := by
        rw [String.intercalate_cons_cons]
        simp only [String.append_assoc]
      rw [whole, parts_append first, ih (List.cons_ne_nil _ _) fun n hn =>
        h n (List.mem_cons_of_mem _ hn)]
      rfl

/-- The directories and the name of the file are the parts of a location. -/
theorem directories_append_fileName (location : String) :
    directories location ++ [fileName location] = parts location := by
  have nonempty := parts_ne_nil location
  rw [directories, fileName, List.getLast?_eq_some_getLast nonempty, Option.getD_some,
    List.dropLast_concat_getLast]

theorem fileName_mem_parts (location : String) : fileName location ∈ parts location := by
  rw [← directories_append_fileName]
  simp

theorem mem_directories {location name : String} (h : name ∈ directories location) :
    name ∈ parts location :=
  List.dropLast_subset _ h

/-! ## Clean locations -/

/-- No directory of the location is without a name. -/
def HasNamedDirectories (location : String) : Prop :=
  ∀ name ∈ directories location, name ≠ ""

namespace HasNamedDirectories

variable {location : String}

/-- The text of the directories says what they are. -/
theorem directory_eq_empty (h : HasNamedDirectories location) :
    directory location = "" ↔ directories location = [] := by
  constructor
  · intro empty
    apply Classical.byContradiction
    intro nonempty
    have same : parts (directory location) = directories location :=
      parts_intercalate nonempty fun name hn => slash_notMem_of_mem_parts (mem_directories hn)
    rw [empty] at same
    have listed : "" ∈ directories location := by
      rw [← same]
      decide
    exact h "" listed rfl
  · intro none
    rw [directory, show (parts location).dropLast = [] from none]
    rfl

/-- Locations with one directory have the same directories. -/
theorem directories_eq {other : String} (h : HasNamedDirectories location)
    (ho : HasNamedDirectories other) (same : directory location = directory other) :
    directories location = directories other := by
  by_cases none : directories location = []
  · have empty := h.directory_eq_empty.2 none
    rw [none, ho.directory_eq_empty.1 (same.symm.trans empty)]
  · have some' : directories other ≠ [] := fun none' =>
      none (h.directory_eq_empty.1 (same.trans (ho.directory_eq_empty.2 none')))
    have left : parts (directory location) = directories location :=
      parts_intercalate none fun name hn => slash_notMem_of_mem_parts (mem_directories hn)
    have right : parts (directory other) = directories other :=
      parts_intercalate some' fun name hn => slash_notMem_of_mem_parts (mem_directories hn)
    rw [← left, same, right]

/-- The depth of a location is the number of its directories. -/
theorem depth_eq (h : HasNamedDirectories location) :
    depth location = (directories location).length := by
  rw [depth, directories, List.length_dropLast]
  split
  · next empty =>
    have none := h.directory_eq_empty.1 empty
    rw [← List.length_dropLast, show (parts location).dropLast = [] from none]
    rfl
  · rfl

end HasNamedDirectories

namespace IsClean

variable {location : String}

theorem ne_empty (h : IsClean location) : location ≠ "" := by
  rintro rfl
  exact (h "" (by decide)).1 rfl

/-- A clean location has no directory without a name. -/
theorem hasNamedDirectories (h : IsClean location) : HasNamedDirectories location :=
  fun name hn => (h name (mem_directories hn)).1

end IsClean

/-! ## Walks -/

/-- A name leads one directory down. -/
theorem step_of_isSegment {part : String} (h : IsSegment part) (place : List String) :
    step place part = some (place ++ [part]) := by
  rw [step, if_neg h.2.2, if_neg h.2.1]

/-- Names are gone down one after the other. -/
theorem foldlM_step {names : List String} (h : ∀ name ∈ names, IsSegment name)
    (place : List String) : names.foldlM step place = some (place ++ names) := by
  induction names generalizing place with
  | nil => simp
  | cons name names ih =>
    rw [List.foldlM_cons, step_of_isSegment (h name (by simp)), Option.bind_eq_bind,
      Option.bind_some, ih fun n hn => h n (List.mem_cons_of_mem _ hn)]
    simp

/-- A clean path leads down along its parts. -/
theorem walk_clean {target : String} (h : IsClean target) (place : List String) :
    walk place target = some (place ++ parts target) :=
  foldlM_step h place

/-- A single dot leads nowhere. -/
theorem walk_here (place : List String) (path : String) :
    walk place ("./" ++ path) = walk place path := by
  have dot : parts ("./" ++ path) = "." :: parts path := @parts_append "." (by decide) path
  rw [walk, dot, List.foldlM_cons]
  rfl

/-- Two dots lead up, where there is a directory above. -/
theorem walk_up {place : List String} (h : place ≠ []) (path : String) :
    walk place ("../" ++ path) = walk place.dropLast path := by
  have dots : parts ("../" ++ path) = ".." :: parts path := @parts_append ".." (by decide) path
  have up : step place ".." = some place.dropLast := by
    rw [step, if_pos rfl, if_neg h]
  rw [walk, dots, List.foldlM_cons, up]
  rfl

/-- As many steps up as there are directories lead to the root. -/
theorem walk_climb (place : List String) (path : String) :
    walk place (String.join (List.replicate place.length "../") ++ path) = walk [] path := by
  induction h : place.length generalizing place with
  | zero =>
    rw [List.length_eq_zero_iff.1 h]
    simp
  | succ n ih =>
    have nonempty : place ≠ [] := by
      rintro rfl
      exact absurd h (by simp)
    have shorter : place.dropLast.length = n := by
      rw [List.length_dropLast, h]
      rfl
    rw [List.replicate_succ, String.join_cons, String.append_assoc, walk_up nonempty,
      ih _ shorter]

/-- Besides the characters of the target there are only dots and slashes in a path. -/
theorem mem_importPath {current : Option String} {target : String} {c : Char}
    (h : c ∈ (importPath current target).toList) : c = '.' ∨ c = '/' ∨ c ∈ target.toList := by
  have climb : ∀ n, c ∈ (String.join (List.replicate n "../")).toList → c = '.' ∨ c = '/' := by
    intro n hn
    induction n with
    | zero => exact absurd hn (by simp)
    | succ n ih =>
      rw [List.replicate_succ, String.join_cons, String.toList_append, List.mem_append] at hn
      rcases hn with up | further
      · simpa using up
      · exact ih further
  have here : c ∈ "./".toList → c = '.' ∨ c = '/' := by simp
  rw [← or_assoc]
  unfold importPath at h
  split at h
  all_goals rw [String.toList_append, List.mem_append] at h
  · exact h.imp_left here
  · exact h.imp_left here
  · exact h.imp_left (climb _)

/-- The path of an import climbs to the root and goes down to the target. -/
theorem importPath_of_ne_empty {current : String} (nonempty : current ≠ "")
    (h : HasNamedDirectories current) (target : String) :
    importPath (some current) target =
      String.join (List.replicate (directories current).length "../") ++ target := by
  rw [importPath]
  · rw [h.depth_eq]
  · rintro ⟨⟩
    exact nonempty rfl

/-- The path of an import leads from the directory of the current location to the target. -/
theorem walk_importPath_of_ne_empty {current target : String} (nonempty : current ≠ "")
    (hc : HasNamedDirectories current) (ht : IsClean target) :
    walk (directories current) (importPath (some current) target) = some (parts target) := by
  rw [importPath_of_ne_empty nonempty hc, walk_climb, walk_clean ht, List.nil_append]

theorem walk_importPath {current target : String} (hc : IsClean current) (ht : IsClean target) :
    walk (directories current) (importPath (some current) target) = some (parts target) :=
  walk_importPath_of_ne_empty hc.ne_empty hc.hasNamedDirectories ht

/-- The path to a parent leads from the directory of the child to the parent, whatever the name of
the child. -/
theorem walk_parentPath_of_ne_empty {child parent : String} (nonempty : child ≠ "")
    (hc : HasNamedDirectories child) (hp : IsClean parent) :
    walk (directories child) (parentPath child parent) = some (parts parent) := by
  unfold parentPath
  split
  · next same =>
    have file : parts (fileName parent) = [fileName parent] :=
      parts_of_notMem (slash_notMem_of_mem_parts (fileName_mem_parts parent))
    have clean : IsClean (fileName parent) := by
      intro part hm
      rw [file, List.mem_singleton] at hm
      rw [hm]
      exact hp _ (fileName_mem_parts parent)
    rw [walk_here, walk_clean clean, file, hc.directories_eq hp.hasNamedDirectories same,
      directories_append_fileName]
  · simp only
    split
    · exact walk_importPath_of_ne_empty nonempty hc hp
    · rw [walk_here]
      exact walk_importPath_of_ne_empty nonempty hc hp

/-- The path of a parent leads from the child's directory to the parent. -/
theorem walk_parentPath {child parent : String} (hc : IsClean child) (hp : IsClean parent) :
    walk (directories child) (parentPath child parent) = some (parts parent) :=
  walk_parentPath_of_ne_empty hc.ne_empty hc.hasNamedDirectories hp

/-- The path to a parent begins with a dot. -/
theorem dotted_parentPath (child parent : String) :
    "./".toList <+: (parentPath child parent).toList ∨
      "../".toList <+: (parentPath child parent).toList := by
  have dot : ∀ rest : String, "./".toList <+: ("./" ++ rest).toList := by
    intro rest
    rw [String.toList_append]
    exact List.prefix_append _ _
  unfold parentPath
  split
  · exact .inl (dot _)
  · simp only
    split
    · next up => exact .inr (List.isPrefixOf_iff_prefix.1 up)
    · exact .inl (dot _)

end InterfaceGen.Location
