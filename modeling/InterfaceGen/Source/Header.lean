import InterfaceGen.Source.Failure
import InterfaceGen.Source.Literal
import InterfaceGen.Text.Pattern
import InterfaceGen.Text.Split
import InterfaceGen.Types.System

/-!
# Headers of classes and enums

A header is recognised by its look, in the text with blanked literals, so that no word in a
literal is taken for one. Of several headers the last with a name that a declaration can have
gives the signature.
-/

namespace InterfaceGen.Source

open InterfaceGen.Text

/-- A header found in a text. -/
structure Header where
  /-- The offset of its first character. -/
  start : Nat
  /-- The offset behind its last character. -/
  stop : Nat
  kind : Kind
  name : String
  /-- What stands behind `extends`, with the qualifiers of its name. -/
  supertype : Option String
  deriving DecidableEq, Repr

namespace Header

/-- The parts of a header that are kept. -/
inductive Part where
  | kind
  | name
  | supertype
  deriving DecidableEq

/-- One of several words that begin at a word edge, and the blanks behind it, or nothing. -/
def modifier (words : Pattern Part) : Pattern Part :=
  .optional (.wordEdge ++ words ++ .spacing)

/-- A header: modifiers, the keyword and the name, type parameters, and the extended class. -/
def pattern : Pattern Part :=
  modifier (.word "public" <|> .word "private" <|> .word "protected") ++
  modifier (.word "abstract" <|> .word "static") ++
  modifier (.word "final") ++
  .wordEdge ++ .capture .kind (.word "class" <|> .word "enum") ++ .spacing ++
  .capture .name (.one Char.isUpper ++ .run isNameChar) ++
  .optional (.blanks ++ .word "<" ++ .fewest (· != '\x7b') ++ .word ">") ++
  .optional (.spacing ++ .word "extends" ++ .spacing ++
    .capture .supertype (.one isNameStart ++ .run fun c => isNameChar c || c == '.'))

/-- What an occurrence of the pattern says. -/
def ofOccurrence (o : Occurrence Part) : Header where
  start := o.start
  stop := o.stop
  kind := if o.captured? .kind = some "enum".toList then .enumKind else .classKind
  name := String.ofList ((o.captured? .name).getD [])
  supertype := (o.captured? .supertype).map String.ofList

/-- All headers of a text, from left to right. -/
def findAll (text : String) : List Header :=
  (pattern.occurrences (Literal.blankChars text.toList)).map ofOccurrence

/-- The last part of a qualified name, if it is a class name. -/
def simpleName? (qualified : String) : Option String :=
  match (cutAt '.' qualified.toList).getLast? with
  | some name => if isClassName name then some (String.ofList name) else none
  | none => none

/-- What a header says about the declaration; only classes have a supertype. -/
def signature (h : Header) : Signature where
  kind := h.kind
  name := h.name
  supertype := if h.kind = .classKind then h.supertype.bind simpleName? else none

end Header

/-- The signature of the last header with a valid name; without one, the last header is at
fault. -/
def signature (text : String) (types : TypeSystem) : Except Failure Signature :=
  let headers := Header.findAll text
  match (headers.filter fun h => types.isDeclarationName h.name).getLast? with
  | some h => .ok h.signature
  | none =>
    match headers.getLast? with
    | some h => .error (.invalidName h.kind h.name)
    | none => .error .noDeclaration

end InterfaceGen.Source
