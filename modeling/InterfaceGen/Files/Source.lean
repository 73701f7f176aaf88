import InterfaceGen.Files.Glob
import InterfaceGen.Files.Tree
import InterfaceGen.Text.Infix

/-!
# Files to work on

A walk through a directory finds the files that a glob describes at any depth, in the order of
their paths. The location of a file is its path from there without the suffix.
-/

namespace InterfaceGen

namespace FileTree

/-- The names of what is in the directory. -/
def childNames (t : FileTree) (directory : FilePath) : List String :=
  (t.contents directory).filterMap fun
    | ([name], _) => some name
    | _ => none

/-- The directory and all those below it. -/
def directoriesFrom (t : FileTree) (directory : FilePath) : List FilePath :=
  directory :: (t.contents directory).filterMap fun
    | (names, .directory) => some { directory with names := directory.names ++ names }
    | (_, .file _) => none

/-- What a part of a glob describes in a directory. -/
def matching (t : FileTree) (directory : FilePath) : GlobPart → List FilePath
  | .anyDepth => t.directoriesFrom directory
  | .up => [directory.child ".."]
  | .name pattern =>
    ((t.childNames directory).filter fun name => pattern.accepts name.toList).map directory.child

/-- What the parts of a glob describe from a directory on. Only a directory has parts after it. -/
def select (t : FileTree) (directoriesOnly : Bool) : List GlobPart → FilePath → List FilePath
  | [], path => [path]
  | part :: rest, directory =>
    let found := t.matching directory part
    let entered := if rest.isEmpty && !directoriesOnly then found else found.filter t.isDirectory
    entered.flatMap (t.select directoriesOnly rest)

/-- What a glob describes at any depth below a directory. -/
def glob (t : FileTree) (directory : FilePath) (glob : Glob) : List FilePath :=
  if t.isDirectory directory then
    t.select glob.directoriesOnly (.anyDepth :: glob.parts) directory
  else []

end FileTree

/-- A file found below a directory. -/
structure SourceFile where
  /-- The path by which the file is read. -/
  fullPath : FilePath
  /-- The path from the directory that was walked. -/
  relative : FilePath
  deriving DecidableEq, Repr

namespace SourceFile

/-- The path from the directory that was walked. -/
def relativePath (f : SourceFile) : String := f.relative.toText

/-- The name of the file. -/
def fileName (f : SourceFile) : String := f.relative.name

/-- The directory of the file; empty for that which was walked. -/
def directory (f : SourceFile) : String :=
  if f.relative.parent = ⟨.here, []⟩ then "" else f.relative.parent.toText

/-- The name of the file without its suffix. -/
def baseName (f : SourceFile) : String := FilePath.stemOf f.fileName

/-- The logical location from which imports of the file are counted. -/
def location (f : SourceFile) : String :=
  if f.directory = "" then f.baseName else f.directory ++ "/" ++ f.baseName

/-- Is the file, by its name, a test? -/
def isTest (f : SourceFile) : Bool :=
  Text.occurs "test".toList (f.fileName.toList.map Char.toLower)

/-- The file at a path below a directory. -/
def below (directory relative : FilePath) : SourceFile :=
  ⟨directory.join relative, relative⟩

/-- The files that a glob describes below a directory, in the order of their paths. -/
def find (t : FileTree) (directory : FilePath) (glob : Glob) : List SourceFile :=
  let files := ((t.glob directory glob).filter t.isFile).eraseDups
  (files.mergeSort FilePath.le).map fun path =>
    ⟨path, ⟨.here, path.names.drop directory.names.length⟩⟩

end SourceFile

end InterfaceGen
