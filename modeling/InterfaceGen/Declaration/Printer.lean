import InterfaceGen.Declaration
import InterfaceGen.Text.Blank

/-!
# Written declarations

The TypeScript text of imports, interfaces and enums, one item a line, each line ended. Where
nothing can be written a one-line comment with the reason, the sentinel, stands in its place;
`isSentinel` tells it from a declaration.
-/

namespace InterfaceGen

/-- The lines, each with its end. -/
def unlines (lines : List String) : String :=
  String.join (lines.map (· ++ "\n"))

/-- The text of an import. -/
def Import.statement (i : Import) : String :=
  "import \x7b " ++ i.name ++ " \x7d from '" ++ i.path ++ "';"

/-- The imports, one a line, with an empty line after the last. -/
def importLines (imports : List Import) : List String :=
  if imports.isEmpty then [] else imports.map Import.statement ++ [""]

/-- The text of a property. -/
def Property.line (p : Property) : String :=
  "  " ++ p.externalName ++ (if p.isOptional then "?" else "") ++ ": " ++ p.mappedType ++ ";"

/-- The line that opens an interface; an empty parent is none. -/
def Interface.header (i : Interface) : String :=
  "export interface " ++ i.name ++
    (match i.parent with
      | some parent => if parent = "" then "" else " extends " ++ parent
      | none => "") ++
    " \x7b"

/-- The text of an interface, after its imports. -/
def Interface.render (i : Interface) (imports : List Import) : String :=
  unlines (importLines imports ++ i.header :: i.properties.map Property.line ++ ["\x7d"])

/-- The text of a constant, without the comma that separates it from the next. -/
def Constant.entry (c : Constant) : String :=
  "  " ++ c.name ++ " = \"" ++ c.literal ++ "\""

/-- The lines between the braces of an enum. -/
def constantLines : List Constant → List String
  | [] => []
  | [last] => [last.entry]
  | c :: rest => (c.entry ++ ",") :: constantLines rest

/-- The text of an enum. -/
def Enumeration.render (e : Enumeration) : String :=
  unlines
    (("export enum " ++ e.name ++ " \x7b") ::
      (if e.constants.isEmpty then ["  // No enum values found"] else constantLines e.constants) ++
      ["\x7d"])

/-- The comment that stands in the place of a declaration that could not be written. -/
def sentinel (reason : String) : String :=
  "// " ++ reason ++ "\n"

/-- Does the text begin, after blanks, with a comment mark? -/
def opensWithComment (text : String) : Bool :=
  "//".toList.isPrefixOf (Text.trimLeft text.toList)

/-- Is the output no declaration: nothing, only blanks, or a comment? -/
def isSentinel (output : Option String) : Bool :=
  match output with
  | none => true
  | some text => (Text.trim text.toList).isEmpty || opensWithComment text

end InterfaceGen
