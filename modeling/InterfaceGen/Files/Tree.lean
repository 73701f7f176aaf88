import InterfaceGen.Files.Error
import InterfaceGen.Files.Path
import InterfaceGen.Text.Lines

/-!
# File trees

The files and directories below the root, as a value. A path is followed name by name and leads to
a place; each directory that it leads through has to be there, also where `..` leaves it again.
Texts are stored as UTF-8; reading one unifies its line ends, writing one leaves them as they are.
-/

namespace InterfaceGen

/-- What is at a place. -/
inductive FileEntry where
  | directory
  | file (bytes : List UInt8)
  deriving DecidableEq, Repr

/-- The names from the root to a file or a directory, none of which leads back. -/
abbrev Place := List String

/-- What is below the root; the root itself is a directory without an entry. -/
structure FileTree where
  /-- Where paths begin that do not begin at the root. -/
  workingDirectory : Place
  entries : List (Place × FileEntry)

namespace FileTree

/-- A root with nothing below it. -/
def empty (workingDirectory : Place) : FileTree :=
  ⟨workingDirectory, []⟩

/-- What is at the place. -/
def entry? (t : FileTree) (place : Place) : Option FileEntry :=
  if place = [] then some .directory else t.entries.lookup place

/-- The tree with an entry at a place. -/
def set (t : FileTree) (place : Place) (entry : FileEntry) : FileTree :=
  if t.entries.any (·.1 == place) then
    { t with entries := t.entries.map fun e => if e.1 = place then (place, entry) else e }
  else { t with entries := t.entries ++ [(place, entry)] }

/-- What keeps a path from leading anywhere. -/
inductive Obstacle where
  /-- Nothing is there. -/
  | nothing
  /-- There is a file, through which no path leads. -/
  | file
  /-- The next name is too long. -/
  | longName

/-- The error for a path that meets the obstacle. -/
def Obstacle.error : Obstacle → FilePath → FileError
  | nothing, path => .notFound path.toText
  | file, path => .notDirectory path.toText
  | longName, path => .longName path.toText

/-- The greatest number of bytes of a name. -/
def nameLimit : Nat := 255

/-- Where the names lead from a place, which may be nowhere yet. -/
def follow (t : FileTree) (place : Place) : List String → Except Obstacle Place
  | [] => .ok place
  | name :: rest =>
    match t.entry? place with
    | none => .error .nothing
    | some (.file _) => .error .file
    | some .directory =>
      if nameLimit < name.utf8ByteSize then .error .longName
      else t.follow (if name = ".." then place.dropLast else place ++ [name]) rest

/-- Where the path begins. -/
def startPlace (t : FileTree) : PathStart → Place
  | .here => t.workingDirectory
  | .root | .doubleRoot => []

/-- The place that the path leads to. -/
def locate (t : FileTree) (path : FilePath) : Except FileError Place :=
  if path.hasNull then .error .nullCharacter
  else (t.follow (t.startPlace path.start) path.names).mapError (·.error path)

/-- What the path leads to. -/
def find? (t : FileTree) (path : FilePath) : Option FileEntry :=
  match t.locate path with
  | .ok place => t.entry? place
  | .error _ => none

/-- Does the path lead to a directory? -/
def isDirectory (t : FileTree) (path : FilePath) : Bool :=
  t.find? path == some .directory

/-- Does the path lead to a file? -/
def isFile (t : FileTree) (path : FilePath) : Bool :=
  match t.find? path with
  | some (.file _) => true
  | _ => false

/-- The entries below a place, at any depth, with the names that lead there. -/
def below (t : FileTree) (place : Place) : List (List String × FileEntry) :=
  t.entries.filterMap fun (other, entry) =>
    if place.isPrefixOf other && place.length < other.length then
      some (other.drop place.length, entry)
    else none

/-- The entries at any depth below where a path leads, with the names that lead there. -/
def contents (t : FileTree) (path : FilePath) : List (List String × FileEntry) :=
  match t.locate path with
  | .ok place => t.below place
  | .error _ => []

/-- The bytes of a file. -/
def readBytes (t : FileTree) (path : FilePath) : Except FileError (List UInt8) :=
  match t.locate path with
  | .error error => .error error
  | .ok place =>
    match t.entry? place with
    | some (.file bytes) => .ok bytes
    | some .directory => .error (.isDirectory path.toText)
    | none => .error (.notFound path.toText)

/-- The text of a file, with unified line ends. -/
def readText (t : FileTree) (path : FilePath) : Except ReadError String :=
  match t.readBytes path with
  | .error error => .error (.file error)
  | .ok bytes =>
    match Text.Utf8.decode bytes with
    | .error error => .error (.undecodable error)
    | .ok chars => .ok (String.ofList (Text.unifyBreaks chars))

/-- The tree with these bytes in a file, which is made if it is not there. -/
def writeBytes (t : FileTree) (path : FilePath) (bytes : List UInt8) : Except FileError FileTree :=
  match t.locate path with
  | .error error => .error error
  | .ok place =>
    if t.entry? place = some .directory then .error (.isDirectory path.toText)
    else .ok (t.set place (.file bytes))

/-- The tree with this text in a file, which is made if it is not there. -/
def writeText (t : FileTree) (path : FilePath) (text : String) : Except FileError FileTree :=
  t.writeBytes path (Text.Utf8.encode text.toList)

/-- The tree with one more directory. -/
def makeDirectory (t : FileTree) (path : FilePath) : Except FileError FileTree :=
  match t.locate path with
  | .error error => .error error
  | .ok place =>
    if (t.entry? place).isSome then .error (.fileExists path.toText)
    else .ok (t.set place .directory)

/-- The outcome of making a directory, where one that is there already is as good. -/
def ensured (t : FileTree) (path : FilePath) :
    Except FileError FileTree → Except FileError Unit × FileTree
  | .ok made => (.ok (), made)
  | .error error => (if t.isDirectory path then .ok () else .error error, t)

/-- Makes the directory whose names are given from the last one on, after those above it if they
are not there. What was made stays even if one of them cannot be made. -/
def makeNames (start : PathStart) : List String → StateM FileTree (Except FileError Unit)
  | [] => fun t => (.ok (), t)
  | name :: above => fun t =>
    let path : FilePath := ⟨start, (name :: above).reverse⟩
    match t.makeDirectory path with
    | .error (.notFound _) =>
      match makeNames start above t with
      | (.error error, t) => (.error error, t)
      | (.ok (), t) => t.ensured path (t.makeDirectory path)
    | outcome => t.ensured path outcome

/-- Makes a directory and all those above it, unless they are there. -/
def makeDirectories (path : FilePath) : StateM FileTree (Except FileError Unit) :=
  makeNames path.start path.names.reverse

/-- Puts bytes into a file of a directory that is made if need be. The directory stays even if
the file cannot be written. -/
def place (directory : FilePath) (name : String) (bytes : List UInt8) :
    StateM FileTree (Except FileError Unit) := fun t =>
  match makeDirectories directory t with
  | (.error error, t) => (.error error, t)
  | (.ok (), t) =>
    match t.writeBytes (directory.child name) bytes with
    | .error error => (.error error, t)
    | .ok written => (.ok (), written)

end FileTree

end InterfaceGen
