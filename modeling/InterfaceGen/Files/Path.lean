import InterfaceGen.Text.Split

/-!
# File paths

A path is the list of names on a way, from the working directory or from the root. The name `..`
leads back to the directory above. Names split at their last dot into a stem and a suffix; a dot
at the beginning or the end makes no suffix.
-/

namespace InterfaceGen

/-- Where a path begins. -/
inductive PathStart where
  /-- At the working directory. -/
  | here
  /-- At the root. -/
  | root
  /-- At the root, written with two slashes. -/
  | doubleRoot
  deriving DecidableEq, Repr

/-- How the beginning is written. -/
def PathStart.toText : PathStart → String
  | here => ""
  | root => "/"
  | doubleRoot => "//"

/-- The names on the way to a file or a directory. -/
structure FilePath where
  start : PathStart
  names : List String
  deriving DecidableEq, Repr

namespace FilePath

open InterfaceGen.Text

/-- Where a text begins. Exactly two slashes are kept apart from one, three are not. -/
def startOf (text : List Char) : PathStart :=
  match (text.takeWhile (· = '/')).length with
  | 0 => .here
  | 2 => .doubleRoot
  | _ => .root

/-- Reads a path; empty parts and single dots lead nowhere. -/
def ofString (text : String) : FilePath where
  start := startOf text.toList
  names := ((cutAt '/' text.toList).map String.ofList).filter fun part => part ≠ "" && part ≠ "."

/-- The beginning and the names, joined by slashes; a single dot for the path that goes nowhere. -/
def toText (path : FilePath) : String :=
  if path.start = .here ∧ path.names = [] then "."
  else path.start.toText ++ "/".intercalate path.names

/-- The path of what has this name in the directory. -/
def child (path : FilePath) (name : String) : FilePath :=
  { path with names := path.names ++ [name] }

/-- The second path, taken from where the first one leads unless it begins at the root. -/
def join (path next : FilePath) : FilePath :=
  if next.start = .here then { path with names := path.names ++ next.names } else next

/-- The last name. -/
def name (path : FilePath) : String :=
  path.names.getLast?.getD ""

/-- The path without its last name. -/
def parent (path : FilePath) : FilePath :=
  { path with names := path.names.dropLast }

/-- Does a name hold a null character, which no file system can store? -/
def hasNull (path : FilePath) : Bool :=
  path.names.any fun name => name.toList.contains '\x00'

/-- A name without its suffix. -/
def stemOf (name : String) : String :=
  let reversed := name.toList.reverse
  let suffix := reversed.takeWhile (· ≠ '.')
  let stem := (reversed.dropWhile (· ≠ '.')).drop 1
  if suffix.isEmpty || stem.isEmpty then name else String.ofList stem.reverse

/-- The order of paths with the same beginning: name by name, each by code points. -/
def le (a b : FilePath) : Bool :=
  !decide (b.names < a.names)

end FilePath

end InterfaceGen
