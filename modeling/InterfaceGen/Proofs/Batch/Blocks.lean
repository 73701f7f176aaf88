import InterfaceGen.Proofs.Batch.Header
import InterfaceGen.Proofs.Files.Outline
import InterfaceGen.Proofs.Files.Text
import InterfaceGen.Proofs.Text.Stored
import InterfaceGen.Declaration.Printer

/-!
# Texts with imports in front

An import is put in front of a text as a block: its line and an empty one. No block hides the first
header of the text or makes another one, `firstFrom?_blocks`. `Grown t u`: files of `u` are those of
`t`, some with blocks in front of their text, whose line ends are unified.
-/

namespace InterfaceGen

open InterfaceGen.Text

/-! ## Blocks of imports -/

/-- The text of an import with an empty line after it. -/
def Import.block (i : Import) : String :=
  i.statement ++ "\n\n"

/-- The texts of imports, each with an empty line after it. -/
def Import.blocks (imports : List Import) : List Char :=
  imports.flatMap fun i => i.block.toList

/-- Name and path of the import have no line breaks. -/
def Import.IsOneLine (i : Import) : Prop :=
  Text.IsOneLine i.name ∧ Text.IsOneLine i.path

theorem Import.blocks_cons (i : Import) (imports : List Import) :
    blocks (i :: imports) = i.block.toList ++ blocks imports :=
  List.flatMap_cons

/-- The blocks of two lists of imports stand behind each other. -/
theorem Import.blocks_append (imports more : List Import) :
    blocks (imports ++ more) = blocks imports ++ blocks more :=
  List.flatMap_append

/-- The block of an import is written on a line that begins like no header. -/
theorem Import.exists_line {i : Import} (h : i.IsOneLine) :
    ∃ line, i.block.toList = 'i' :: line ++ ['\n', '\n'] ∧ '\n' ∉ 'i' :: line ∧ '\r' ∉ line := by
  refine ⟨"mport \x7b ".toList ++ i.name.toList ++ " \x7d from '".toList ++ i.path.toList ++
    "';".toList, ?_, ?_, ?_⟩
  · simp [block, statement, String.toList_append]
  · have name : '\n' ∉ i.name.toList := fun hm => (h.1 _ hm).1 rfl
    have path : '\n' ∉ i.path.toList := fun hm => (h.2 _ hm).1 rfl
    simp [name, path]
  · have name : '\r' ∉ i.name.toList := fun hm => (h.1 _ hm).2 rfl
    have path : '\r' ∉ i.path.toList := fun hm => (h.2 _ hm).2 rfl
    simp [name, path]

/-- Imports in front do not hide the first header, nor do they make one. -/
theorem InterfaceHeader.firstFrom?_blocks {imports : List Import} (h : ∀ i ∈ imports, i.IsOneLine)
    (text : List Char) : firstFrom? true (Import.blocks imports ++ text) = firstFrom? true text := by
  induction imports with
  | nil => rfl
  | cons i imports ih =>
    obtain ⟨line, block, inside, -⟩ := Import.exists_line (h i (List.mem_cons_self ..))
    have shape : Import.blocks (i :: imports) ++ text =
        'i' :: line ++ '\n' :: '\n' :: (Import.blocks imports ++ text) := by
      rw [Import.blocks_cons, block]
      simp
    rw [shape, firstFrom?_other (by decide) inside, firstFrom?_empty,
      ih fun j hj => h j (List.mem_cons_of_mem _ hj)]

/-- No block of an import on one line holds a carriage return. -/
theorem Import.cr_notMem_blocks {imports : List Import} (h : ∀ i ∈ imports, i.IsOneLine) :
    '\r' ∉ blocks imports := by
  rw [blocks, List.mem_flatMap]
  rintro ⟨i, hi, hm⟩
  obtain ⟨line, block, -, inside⟩ := exists_line (h i hi)
  rw [block] at hm
  simp [inside] at hm

namespace FileTree

variable {t u v : FileTree} {path : FilePath} {place : Place}

/-- The file at the place gets imports in front of its text. -/
def PrependedAt (t u : FileTree) (place : Place) (imports : List Import) : Prop :=
  ∃ bytes chars, t.entry? place = some (.file bytes) ∧ Utf8.decode bytes = .ok chars ∧
    u.entry? place = some (.file (Utf8.encode (Import.blocks imports ++ unifyBreaks chars)))

/-- Nothing but imports in front of some files makes a difference between the trees. -/
structure Grown (t u : FileTree) : Prop where
  outline : t.outline = u.outline
  entry : ∀ place, u.entry? place = t.entry? place ∨
    ∃ imports, imports ≠ [] ∧ (∀ i ∈ imports, i.IsOneLine) ∧ PrependedAt t u place imports

namespace Grown

theorem refl (t : FileTree) : Grown t t :=
  ⟨rfl, fun _ => .inl rfl⟩

/-- What two updates put in front of a file stands in front of it together. -/
theorem trans (first : Grown t u) (second : Grown u v) : Grown t v := by
  refine ⟨first.outline.trans second.outline, fun place => ?_⟩
  rcases second.entry place with same | ⟨later, some', plain, bytes, chars, entry, decoded, new⟩
  · rcases first.entry place with same' | ⟨imports, some', plain, bytes, chars, entry, decoded, new⟩
    · exact .inl (same.trans same')
    · exact .inr ⟨imports, some', plain, bytes, chars, entry, decoded, same.trans new⟩
  · rcases first.entry place with same | ⟨imports, -, plain', old, text, entry', decoded', new'⟩
    · exact .inr ⟨later, some', plain, bytes, chars, same ▸ entry, decoded, new⟩
    · -- What was written first is what is read before the second blocks are put in front.
      have written : bytes = Utf8.encode (Import.blocks imports ++ unifyBreaks text) := by
        simpa using entry.symm.trans new'
      have read : chars = Import.blocks imports ++ unifyBreaks text := by
        rw [written, Utf8.decode_encode] at decoded
        simpa using decoded.symm
      have unified : unifyBreaks chars = chars := by
        apply unifyBreaks_of_notMem
        rw [read, List.mem_append, not_or]
        exact ⟨Import.cr_notMem_blocks plain', cr_notMem_unifyBreaks text⟩
      refine .inr ⟨later ++ imports, by simp [some'], fun i hi => ?_, old, text, entry', decoded', ?_⟩
      · exact (List.mem_append.1 hi).elim (plain i) (plain' i)
      · rw [new, unified, read, Import.blocks_append, List.append_assoc]

/-- Paths lead to the same places. -/
theorem locate (h : Grown t u) (path : FilePath) : t.locate path = u.locate path :=
  locate_congr h.outline path

/-- The same files are found. -/
theorem find (h : Grown t u) (directory : FilePath) (glob : Glob) :
    SourceFile.find t directory glob = SourceFile.find u directory glob :=
  SourceFile.find_congr h.outline directory glob

/-- A file is read as before, or with imports in front of its text. -/
theorem readText (h : Grown t u) (path : FilePath) :
    u.readText path = t.readText path ∨ ∃ text imports, t.readText path = .ok text ∧
      (∀ i ∈ imports, i.IsOneLine) ∧
      u.readText path = .ok (String.ofList (Import.blocks imports) ++ text) := by
  cases located : t.locate path with
  | error error =>
    refine .inl (readText_congr (h.locate path).symm fun place there => ?_)
    rw [← h.locate path, located] at there
    cases there
  | ok place =>
    rcases h.entry place with same | ⟨imports, -, plain, bytes, chars, entry, decoded, new⟩
    · refine .inl (readText_congr (h.locate path).symm fun other there => ?_)
      rw [← h.locate path, located, Except.ok.injEq] at there
      rw [← there, same]
    · have old : t.Holds path place bytes chars := ⟨located, entry, decoded⟩
      have now : u.Holds path place _ _ :=
        ⟨h.locate path ▸ located, new, Utf8.decode_encode _⟩
      refine .inr ⟨_, imports, old.readText, plain, ?_⟩
      rw [now.readText, unifyBreaks_of_notMem, String.ofList_append]
      rw [List.mem_append, not_or]
      exact ⟨Import.cr_notMem_blocks plain, cr_notMem_unifyBreaks chars⟩

end Grown

end FileTree

end InterfaceGen
