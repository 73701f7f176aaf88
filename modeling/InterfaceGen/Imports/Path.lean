import InterfaceGen.Text.Split

/-!
# Import paths

A location is a path of names joined by slashes, its last part the name of a file without its
ending. An import path climbs out of the directories of the current location and goes down to the
target; it is made from the two texts alone.
-/

namespace InterfaceGen.Location

open InterfaceGen.Text

/-- The parts of a location, its directories first. -/
def parts (location : String) : List String :=
  (cutAt '/' location.toList).map String.ofList

/-- The text before the last slash; empty if there is none. -/
def directory (location : String) : String :=
  "/".intercalate (parts location).dropLast

/-- The text after the last slash. -/
def fileName (location : String) : String :=
  ((parts location).getLast?).getD ""

/-- The number of directories that a location is in; a file below the root is in none. -/
def depth (location : String) : Nat :=
  if directory location = "" then 0 else (parts location).length - 1

/-- The path from a location to a target location. Without a current location there is nothing to
climb out of. -/
def importPath (current : Option String) (target : String) : String :=
  match current with
  | none | some "" => "./" ++ target
  | some location => String.join (List.replicate (depth location) "../") ++ target

/-- The path from a location to that of its parent: short within one directory, and never without
a dot in front. -/
def parentPath (child parent : String) : String :=
  if directory child = directory parent then "./" ++ fileName parent
  else
    let path := importPath (some child) parent
    if "../".toList.isPrefixOf path.toList then path else "./" ++ path

end InterfaceGen.Location
