import InterfaceGen.Declaration
import InterfaceGen.Source.Annotation
import InterfaceGen.Source.FieldType
import InterfaceGen.Types.Mapping

/-!
# The fields of a data class

Fields are found in two passes over a text without comments: first those with an annotation that
names them, then all private ones. A Java name counts once, so the second pass adds what the first
did not see. Names and types of an unusual look are passed over.
-/

namespace InterfaceGen.Source.FieldList

open InterfaceGen.Text InterfaceGen.Source.Annotation

/-- The parts of a field declaration that are kept. -/
inductive Part where
  | literal
  | type
  | names
  deriving DecidableEq

/-- The annotation that names a property, up to the annotations behind it. -/
def naming : Pattern Part :=
  .word "@JsonProperty" ++ .blanks ++ .word "(" ++ .blanks ++
  .optional (.word "value" ++ .blanks ++ .word "=" ++ .blanks) ++
  literal .literal ++ argumentsEnd ++ .blanks

/-- Two words with blanks between, at a word edge. -/
def wordPair (first second : String) : Pattern Part :=
  .word first ++ .spacing ++ .word second ++ .wordEdge

/-- The modifiers of a field; a field that is both static and final is none. -/
def modifiers : Pattern Part :=
  .notFollowedBy (wordPair "static" "final" <|> wordPair "final" "static") ++
  .many ((.word "static" <|> .word "final" <|> .word "transient" <|> .word "volatile") ++ .spacing)

/-- Can `c` stand in the type of a field? -/
def isTypeChar (c : Char) : Bool :=
  isNameChar c || c == '<' || c == '>' || c == '[' || c == ']' || c == ',' || c == '.' ||
    c == '?' || isBlank c

/-- The type of a field, as short as the rest allows. -/
def declaredType : Pattern Part :=
  .capture .type (.one isNameStart ++ .fewest isTypeChar)

/-- What ends a declaration: perhaps an initial value, and the semicolon. -/
def ending : Pattern Part :=
  .blanks ++ .optional (.word "=" ++ .run (· != ';')) ++ .word ";"

/-- A private field with a naming annotation. -/
def annotatedField : Pattern Part :=
  naming ++ .many annotation ++ .word "private" ++ .spacing ++ modifiers ++ declaredType ++
  .spacing ++ .capture .names .name ++ ending

/-- What separates the names of fields that share their type. -/
def comma : Pattern Part :=
  .blanks ++ .word "," ++ .blanks

/-- A private field, or several of one type. -/
def plainField : Pattern Part :=
  .wordEdge ++ .word "private" ++ .spacing ++ modifiers ++ declaredType ++ .spacing ++
  .capture .names (.name ++ .many (comma ++ .name)) ++ ending

/-- A field as a pass finds it. -/
structure Found where
  /-- The literal of the annotation that names it. -/
  literal : Option (List Char)
  type : List Char
  name : List Char

/-- The fields with a naming annotation. -/
def annotated (text : List Char) : List Found :=
  (annotatedField.occurrences text).map fun o =>
    ⟨o.captured? .literal, (o.captured? .type).getD [], (o.captured? .names).getD []⟩

/-- The private fields. -/
def plain (text : List Char) : List Found :=
  (plainField.occurrences text).flatMap fun o =>
    (comma.cut ((o.captured? .names).getD [])).map fun name =>
      ⟨none, (o.captured? .type).getD [], name⟩

/-- How a literal names a property: as it is if it is an identifier, else between quotes. -/
def externalName (literal : String) : String :=
  if isIdentifier literal.toList then literal else "\"" ++ literal ++ "\""

/-- The name that marks the version of a class and no field. -/
def versionMarker : String := "serialVersionUID"

/-- The field, if its name and its type are of the usual look. -/
def Found.field? (found : Found) (types : TypeSystem) : Option Field :=
  let name := String.ofList found.name
  let declared := FieldType.clean (String.ofList found.type)
  if name ≠ versionMarker ∧ isFieldName found.name ∧ FieldType.isPlausible declared then
    some {
      externalName := (found.literal.map fun l => externalName (String.ofList l)).getD name
      mappedType := types.mapType declared
      isOptional := true
      declaredType := declared
      sourceName := name }
  else none

/-- The fields with one more, unless there is one of its Java name among them. -/
def add (fields : List Field) (field : Field) : List Field :=
  if fields.any (·.sourceName == field.sourceName) then fields else fields ++ [field]

/-- The fields with one more, unless there is one of its external name and type among them. -/
def addDistinct (fields : List Field) (field : Field) : List Field :=
  if fields.any fun f =>
      f.externalName == field.externalName && f.mappedType == field.mappedType then fields
  else fields ++ [field]

/-- The fields of a text without comments. -/
def ofText (text : String) (types : TypeSystem) : List Field :=
  let found := annotated text.toList ++ plain text.toList
  let named := (found.filterMap fun f => f.field? types).foldl add []
  named.foldl addDistinct []

end InterfaceGen.Source.FieldList
