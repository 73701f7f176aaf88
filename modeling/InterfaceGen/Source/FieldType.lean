import InterfaceGen.Text.Pattern
import InterfaceGen.Types.Wildcard

/-!
# The declared type of a field

A declared type is brought into one form: single spaces, none of them next to a bracket, one after
each comma, no package names, no wildcards. It is accepted if its angle brackets are balanced and
what stands outside them is one name, perhaps of an array.
-/

namespace InterfaceGen.Source.FieldType

open InterfaceGen.Text InterfaceGen.Types

/-- Is `c` one of the marks that no blanks stay next to? -/
def isMark (c : Char) : Bool :=
  c == '<' || c == '>' || c == ',' || c == '[' || c == ']'

/-- The text without the blanks next to marks; `afterMark` says that a mark stands before it,
perhaps with blanks between. -/
def tightenFrom (afterMark : Bool) : List Char → List Char
  | [] => []
  | c :: rest =>
    if isBlank c then
      if afterMark || (trimLeft rest).head?.any isMark then tightenFrom afterMark rest
      else c :: tightenFrom false rest
    else c :: tightenFrom (isMark c) rest

/-- The text without the blanks next to marks. -/
def tighten (text : List Char) : List Char :=
  tightenFrom false text

/-- The text with one space after each comma. -/
def spaceCommas (text : List Char) : List Char :=
  text.flatMap fun c => if c = ',' then [',', ' '] else [c]

/-- One part of a package name, with its dot. -/
def packagePart : Pattern Empty :=
  .one (fun c => c.isLower || c == '_') ++ .run isNameChar ++ .word "."

/-- The package name before a type name. -/
def qualifier : Pattern Empty :=
  .wordEdge ++ packagePart ++ .many packagePart ++ .followedBy (.one isNameStart)

/-- The declared type in its one form. -/
def cleanChars (text : List Char) : List Char :=
  Wildcard.stripChars (qualifier.erase (spaceCommas (tighten (trim (collapse text)))))

/-- The declared type in its one form. -/
def clean (text : String) : String :=
  String.ofList (cleanChars text.toList)

/-- What stands outside the angle brackets, if they are balanced. -/
def outside? : Nat → List Char → Option (List Char)
  | 0, [] => some []
  | _ + 1, [] => none
  | depth, '<' :: rest => outside? (depth + 1) rest
  | 0, '>' :: _ => none
  | depth + 1, '>' :: rest => outside? depth rest
  | 0, c :: rest => (outside? 0 rest).map (c :: ·)
  | depth + 1, _ :: rest => outside? (depth + 1) rest

/-- Is the text a number of empty bracket pairs? -/
def isArraySuffix : List Char → Bool
  | [] => true
  | '[' :: ']' :: rest => isArraySuffix rest
  | _ => false

/-- Is the text a name, perhaps of an array, perhaps with a line feed after it? -/
def isPlain (text : List Char) : Bool :=
  let core := withoutFinalBreak text
  core.head?.any isNameStart && isArraySuffix (core.dropWhile isNameChar)

/-- Can the text be the type of a field? -/
def isPlausible (text : String) : Bool :=
  (outside? 0 text.toList).any isPlain

end InterfaceGen.Source.FieldType
