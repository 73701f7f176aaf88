import InterfaceGen.Files.Source
import Mathlib.Data.List.Induction

/-!
# Trees of files

In a well-formed tree each entry has a place of its own, made of names that a file system stores,
below a directory that is there. Then the names of an entry lead to it: `follow_names`. A place
holds what was put there last: `entry?_set`.
-/

namespace InterfaceGen

/-- A name that a file or a directory can have. -/
structure IsFileName (name : String) : Prop where
  nonempty : name ≠ ""
  ne_here : name ≠ "."
  ne_up : name ≠ ".."
  noSlash : '/' ∉ name.toList
  noNull : '\x00' ∉ name.toList
  short : name.utf8ByteSize ≤ FileTree.nameLimit

instance (name : String) : Decidable (IsFileName name) :=
  decidable_of_iff (name ≠ "" ∧ name ≠ "." ∧ name ≠ ".." ∧ '/' ∉ name.toList ∧
      '\x00' ∉ name.toList ∧ name.utf8ByteSize ≤ FileTree.nameLimit)
    ⟨fun ⟨a, b, c, d, e, f⟩ => ⟨a, b, c, d, e, f⟩, fun ⟨a, b, c, d, e, f⟩ => ⟨a, b, c, d, e, f⟩⟩

/-- A file is found by the names of directories and its own. -/
structure SourceFile.IsNamed (f : SourceFile) : Prop where
  start : f.relative.start = .here
  nonempty : f.relative.names ≠ []
  named : ∀ name ∈ f.relative.names, IsFileName name

namespace FileTree

deriving instance DecidableEq for FileTree

/-- Every entry has a place of its own below a directory that is there. -/
structure WellFormed (t : FileTree) : Prop where
  nodup : (t.entries.map (·.1)).Nodup
  nonempty : ∀ e ∈ t.entries, e.1 ≠ []
  named : ∀ e ∈ t.entries, ∀ name ∈ e.1, IsFileName name
  above : ∀ e ∈ t.entries, t.entry? e.1.dropLast = some .directory

instance (t : FileTree) : Decidable t.WellFormed :=
  decidable_of_iff ((t.entries.map (·.1)).Nodup ∧ (∀ e ∈ t.entries, e.1 ≠ []) ∧
      (∀ e ∈ t.entries, ∀ name ∈ e.1, IsFileName name) ∧
      ∀ e ∈ t.entries, t.entry? e.1.dropLast = some .directory)
    ⟨fun ⟨a, b, c, d⟩ => ⟨a, b, c, d⟩, fun ⟨a, b, c, d⟩ => ⟨a, b, c, d⟩⟩

variable {t : FileTree} {place other : Place} {entry : FileEntry}

/-! ## Entries -/

@[simp] theorem entry?_root (t : FileTree) : t.entry? [] = some .directory :=
  if_pos rfl

theorem entry?_of_ne_nil (h : place ≠ []) : t.entry? place = t.entries.lookup place :=
  if_neg h

/-- An entry below the root is listed with its place. -/
theorem mem_entries (h : t.entry? place = some entry) (nonempty : place ≠ []) :
    (place, entry) ∈ t.entries := by
  rw [entry?_of_ne_nil nonempty, List.lookup_eq_some_iff] at h
  obtain ⟨before, after, split, -⟩ := h
  rw [split]
  simp

/-- Entries of another place stay where those of one place are replaced. -/
theorem lookup_replace_of_ne (h : other ≠ place) (entries : List (Place × FileEntry)) :
    (entries.map fun e => if e.1 = place then (place, entry) else e).lookup other =
      entries.lookup other := by
  induction entries with
  | nil => rfl
  | cons e entries ih =>
    obtain ⟨key, value⟩ := e
    rw [List.map_cons, List.lookup_cons, ih]
    by_cases same : key = place
    · have off : (other == place) = false := beq_eq_false_iff_ne.2 h
      rw [if_pos same, List.lookup_cons, same, off]
    · rw [if_neg same, List.lookup_cons]

theorem lookup_replace_self {entries : List (Place × FileEntry)}
    (h : entries.any (·.1 == place) = true) :
    (entries.map fun e => if e.1 = place then (place, entry) else e).lookup place =
      some entry := by
  induction entries with
  | nil => cases h
  | cons e entries ih =>
    obtain ⟨key, value⟩ := e
    rw [List.map_cons, List.lookup_cons]
    by_cases same : key = place
    · rw [if_pos same, beq_self_eq_true]
    · have off : (place == key) = false := beq_eq_false_iff_ne.2 (Ne.symm same)
      have later : entries.any (·.1 == place) = true := by
        rw [List.any_cons, beq_eq_false_iff_ne.2 same, Bool.false_or] at h
        exact h
      rw [if_neg same, off, ih later]

/-- A place holds what was put there last. -/
theorem entry?_set (t : FileTree) (nonempty : place ≠ []) (entry : FileEntry) (other : Place) :
    entry? (t.set place entry) other = if other = place then some entry else t.entry? other := by
  by_cases root : other = []
  · rw [root, entry?_root, entry?_root, if_neg (Ne.symm nonempty)]
  rw [entry?_of_ne_nil root, entry?_of_ne_nil root, set]
  by_cases there : t.entries.any (·.1 == place) = true
  · rw [if_pos there]
    split
    · next same => rw [same, lookup_replace_self there]
    · next differ => exact lookup_replace_of_ne differ t.entries
  · rw [if_neg there, List.lookup_append]
    split
    · next same =>
      have absent : t.entries.lookup place = none := by
        rw [List.lookup_eq_none_iff]
        intro e he
        rw [bne_iff_ne]
        rintro rfl
        exact there (List.any_eq_true.2 ⟨e, he, beq_self_eq_true _⟩)
      rw [same, absent, Option.none_or, List.lookup_cons, beq_self_eq_true]
    · next differ =>
      rw [List.lookup_cons, beq_eq_false_iff_ne.2 differ]
      exact Option.or_none

theorem entry?_set_self (t : FileTree) (nonempty : place ≠ []) (entry : FileEntry) :
    entry? (t.set place entry) place = some entry := by
  rw [entry?_set t nonempty, if_pos rfl]

theorem entry?_set_of_ne (t : FileTree) (nonempty : place ≠ []) (differ : other ≠ place)
    (entry : FileEntry) : entry? (t.set place entry) other = t.entry? other := by
  rw [entry?_set t nonempty, if_neg differ]

/-- In a well-formed tree every listed entry is found at its place. -/
theorem WellFormed.entry?_of_mem (h : t.WellFormed) (hm : (place, entry) ∈ t.entries) :
    t.entry? place = some entry := by
  rw [entry?_of_ne_nil (h.nonempty _ hm), List.lookup_eq_some_iff]
  obtain ⟨before, after, split⟩ := List.append_of_mem hm
  refine ⟨before, after, split, fun p hp => ?_⟩
  have apart := h.nodup
  rw [split, List.map_append, List.map_cons, List.nodup_append] at apart
  rw [bne_iff_ne]
  exact fun same => apart.2.2 p.1 (List.mem_map_of_mem hp) place (List.mem_cons_self ..) same.symm

/-- A file stands at a place of its own, not at the root. -/
theorem ne_nil_of_file {bytes : List UInt8} (h : t.entry? place = some (.file bytes)) :
    place ≠ [] := by
  rintro rfl
  rw [entry?_root] at h
  cases h

/-! ## Ways through directories -/

/-- Names are followed one part after the other. -/
theorem follow_append (t : FileTree) (place : Place) (names more : List String) :
    t.follow place (names ++ more) =
      (t.follow place names).bind fun reached => t.follow reached more := by
  induction names generalizing place with
  | nil => rfl
  | cons name names ih =>
    rw [List.cons_append, follow, follow]
    split
    · rfl
    · rfl
    · split
      · rfl
      · exact ih _

/-- A name leads from a directory to what has it. -/
theorem follow_name {name : String} (h : t.entry? place = some .directory) (named : IsFileName name) :
    t.follow place [name] = .ok (place ++ [name]) := by
  rw [follow, h]
  simp only
  rw [if_neg (Nat.not_lt.2 named.short), if_neg named.ne_up]
  rfl

/-- What is above an entry is a directory. -/
theorem WellFormed.above_of_append (h : t.WellFormed) {names : List String}
    (he : t.entry? (place ++ names) = some entry) (nonempty : names ≠ []) :
    t.entry? place = some .directory := by
  induction names using List.reverseRecOn generalizing entry with
  | nil => exact absurd rfl nonempty
  | append_singleton names name ih =>
    have there := mem_entries he (by simp)
    have up := h.above _ there
    rw [← List.append_assoc, List.dropLast_concat] at up
    by_cases last : names = []
    · rwa [last, List.append_nil] at up
    · exact ih up last

/-- The names on the way to an entry are names of files. -/
theorem WellFormed.named_of_append (h : t.WellFormed) {names : List String}
    (he : t.entry? (place ++ names) = some entry) : ∀ name ∈ names, IsFileName name := by
  intro name hm
  have nonempty : place ++ names ≠ [] := List.append_ne_nil_of_right_ne_nil _ (List.ne_nil_of_mem hm)
  exact h.named _ (mem_entries he nonempty) name (List.mem_append_right _ hm)

/-- The names of an entry lead there. -/
theorem WellFormed.follow_names (h : t.WellFormed) {names : List String}
    (he : t.entry? (place ++ names) = some entry) : t.follow place names = .ok (place ++ names) := by
  induction names using List.reverseRecOn generalizing entry with
  | nil => rw [List.append_nil]; rfl
  | append_singleton names name ih =>
    have named := h.named_of_append he name (by simp)
    rw [← List.append_assoc] at he
    have up := h.above_of_append he (List.cons_ne_nil name [])
    rw [follow_append, ih up, ← List.append_assoc]
    exact follow_name up named

end FileTree
end InterfaceGen
