import InterfaceGen.Source.Annotation
import InterfaceGen.Source.Header

/-!
# The constants of an enum

The body of an enum is the text between its braces. It is cut at the commas outside parentheses,
braces and literals, up to the first semicolon; each piece that looks like a constant, after its
annotations, is one. A constant is written as the literal that its arguments begin with, or else
as its name in small letters.
-/

namespace InterfaceGen.Source

open InterfaceGen.Text InterfaceGen.Source.Annotation

namespace EnumBody

/-- The length of the text before the brace that closes the `depth` braces that are open. -/
def closingOffset? : Nat → List Char → Option Nat
  | _, [] => none
  | depth, '\x7b' :: rest => (closingOffset? (depth + 1) rest).map (· + 1)
  | 0, '\x7d' :: _ => some 0
  | depth + 1, '\x7d' :: rest => (closingOffset? depth rest).map (· + 1)
  | depth, _ :: rest => (closingOffset? depth rest).map (· + 1)

/-- The place that an offset means in a text of this length: a negative one counts from the end,
but not beyond the beginning. -/
def place (length : Nat) (offset : Int) : Nat :=
  (if offset < 0 then offset + length else offset).toNat

/-- The text between the first opening brace from the offset on and the brace that closes it.
Braces in literals are no braces. -/
def find? (text : String) (offset : Int) : Option String :=
  let chars := text.toList
  let start := place chars.length offset
  let scan := (Literal.blankChars chars).drop start
  let before := (scan.takeWhile (· ≠ '\x7b')).length
  match scan.drop before with
  | [] => none
  | _ :: inner =>
    (closingOffset? 0 inner).map fun length =>
      String.ofList ((chars.drop (start + before + 1)).take length)

/-- Where a walk through an enum body stands. -/
structure SplitState where
  depth : Int
  inLiteral : Bool
  /-- Is the character before a backslash? -/
  escaped : Bool

/-- Marks the commas outside literals, parentheses and braces as cuts and, if asked for, the first
such semicolon as the end. -/
def splitStep (stopAtSemicolon : Bool) (s : SplitState) (c : Char) : SplitState × Mark :=
  let next := { s with escaped := c == '\\' }
  if c = '"' ∧ !s.escaped then ({ next with inLiteral := !s.inLiteral }, .keep)
  else if s.inLiteral then (next, .keep)
  else if c = '(' ∨ c = '\x7b' then ({ next with depth := s.depth + 1 }, .keep)
  else if c = ')' ∨ c = '\x7d' then ({ next with depth := s.depth - 1 }, .keep)
  else if c = ';' ∧ s.depth = 0 ∧ stopAtSemicolon then (next, .stop)
  else if c = ',' ∧ s.depth = 0 then (next, .cut)
  else (next, .keep)

/-- The pieces of an enum body. -/
def split (text : List Char) (stopAtSemicolon : Bool) : List (List Char) :=
  tidy (cutBy (splitStep stopAtSemicolon) ⟨0, false, false⟩ text)

/-- The parts of a constant that are kept. -/
inductive Part where
  | name
  | arguments
  | literal
  deriving DecidableEq

/-- Any character. -/
def anyRun : Pattern Part := .run fun _ => true

/-- A constant: a name in capitals, perhaps arguments, perhaps a body. -/
def entry : Pattern Part :=
  .capture .name (.one (fun c => c.isUpper || c == '_') ++
    .run fun c => c.isUpper || c.isDigit || c == '_') ++ .blanks ++
  .optional (.word "(" ++ .capture .arguments anyRun ++ .word ")") ++ .blanks ++
  .optional (.word "\x7b" ++ anyRun ++ .word "\x7d") ++ .finish

/-- The literal that an argument list begins with. -/
def leadingLiteral : Pattern Part :=
  .blanks ++ literal .literal

/-- The annotations before a constant. -/
def leadingAnnotations : Pattern Part :=
  annotation ++ .many annotation

/-- A piece without the annotations that it begins with. -/
def withoutAnnotations (piece : List Char) : List Char :=
  match leadingAnnotations.matchStart piece with
  | some s => s.rest
  | none => piece

/-- The constant that a piece of the body declares. -/
def constant? (piece : List Char) : Option Constant :=
  (entry.matchStart (trim (withoutAnnotations piece))).map fun s =>
    let name := (s.captured? .name).getD []
    let arguments := (s.captured? .arguments).getD []
    let literal := ((leadingLiteral.matchStart arguments).bind (·.captured? .literal)).getD
      (name.map Char.toLower)
    ⟨String.ofList name, String.ofList literal⟩

/-- The constants of an enum body. -/
def constants (body : String) : List Constant :=
  (split body.toList true).filterMap constant?

end EnumBody

/-- The constants of the last enum of this name. -/
def enumConstants (text : String) (name : String) : Except Failure (List Constant) :=
  let headers := (Header.findAll text).filter fun h => h.kind = .enumKind && h.name = name
  match headers.getLast? with
  | none => .error (.noEnum name)
  | some h =>
    match EnumBody.find? text h.stop with
    | none => .error .openEnumBody
    | some body => .ok (EnumBody.constants body)

end InterfaceGen.Source
