import InterfaceGen.Batch.Report
import InterfaceGen.Batch.Session
import InterfaceGen.Graph
import InterfaceGen.Text.Pattern

/-!
# Imports of parents

A second pass over written interfaces. The first header of each file says which interface it
declares and which one that extends. Where the parent is declared in another file and not imported
yet, an import is put in front of the file that declares the child.
-/

namespace InterfaceGen

namespace InterfaceHeader

open InterfaceGen.Text

/-- The parts of a header that are kept. -/
inductive Part where
  | name
  | parent
  deriving DecidableEq

/-- The header of a written interface, at the beginning of a line. -/
def pattern : Pattern Part :=
  .lineStart ++ .word "export interface " ++ .capture .name (.someRun isWordChar) ++
  .optional (.spacing ++ .word "extends" ++ .spacing ++ .capture .parent (.someRun isWordChar))

/-- The interface that a text declares first, with its parent. -/
def first? (text : String) : Option (String × Option String) :=
  (pattern.firstOccurrence? text.toList).map fun o =>
    (String.ofList ((o.captured? .name).getD []), (o.captured? .parent).map String.ofList)

end InterfaceHeader

namespace DeclarationGraph

/-- The graph with what the first header of a file says; a file that cannot be read says
nothing. -/
def addFile (t : FileTree) (g : DeclarationGraph) (f : SourceFile) : DeclarationGraph :=
  match t.readText f.fullPath with
  | .error _ => g
  | .ok text =>
    match InterfaceHeader.first? text with
    | none => g
    | some (name, parent) =>
      let declared := g.declare name ⟨f.location, f.fullPath⟩
      match parent with
      | none => declared
      | some parent => declared.extend name parent

/-- The graph of the interfaces in files. -/
def ofFiles (t : FileTree) (files : List SourceFile) : DeclarationGraph :=
  files.foldl (addFile t) empty

end DeclarationGraph

namespace FileTree

/-- How an import of a name begins. -/
def importOpening (name : String) : String :=
  "import \x7b " ++ name ++ " \x7d"

/-- Puts the import of a parent in front of the file that declares the child, unless that file
cannot be read or written or holds such an import. Says whether the file was changed. -/
def addParentImport (child : Origin) (parentName : String) (parent : Origin) :
    StateM FileTree Bool := fun t =>
  match t.readText child.path with
  | .error _ => (false, t)
  | .ok text =>
    let opening := importOpening parentName
    if Text.occurs opening.toList text.toList then (false, t)
    else
      let path := Location.parentPath child.location parent.location
      match t.writeText child.path (opening ++ " from '" ++ path ++ "';\n\n" ++ text) with
      | .error _ => (false, t)
      | .ok t => (true, t)

/-- Adds the missing imports of parents, one extension after the other. Gives the locations of the
files that were changed, once for each change. -/
def addParentImports (g : DeclarationGraph) : List (String × String) → StateM FileTree (List String)
  | [] => return []
  | (child, parent) :: rest => do
    match g.origin? child, g.origin? parent with
    | some c, some p =>
      let changed ← addParentImport c parent p
      let updated ← addParentImports g rest
      return if changed then c.location :: updated else updated
    | _, _ => addParentImports g rest

/-- Adds the missing imports of parents to the interfaces below a directory. -/
def updateImports (directory : FilePath) : StateM FileTree UpdateReport := do
  let t ← get
  let files := SourceFile.find t directory Session.targets
  let g := DeclarationGraph.ofFiles t files
  let updated ← addParentImports g g.declaredEdges
  return ⟨files.length, updated.length, g.declaredCount, updated⟩

end FileTree

end InterfaceGen
