import InterfaceGen.Text.Pattern

/-!
# Annotations

The look of annotations and of the literals in their arguments, shared by fields and constants.
-/

namespace InterfaceGen.Source.Annotation

open InterfaceGen.Text

variable {ι : Type}

/-- A character of a literal, or a backslash with what it stands before. -/
def literalItem : Pattern ι :=
  .word "\\" ++ .one (· != '\n') <|> .one fun c => c != '"' && c != '\\'

/-- A double-quoted literal that is not empty, its text kept under a name. -/
def literal (name : ι) : Pattern ι :=
  .word "\"" ++ .capture name (literalItem ++ .many literalItem) ++ .word "\""

/-- What is left of an argument list, through the first closing parenthesis. -/
def argumentsEnd : Pattern ι :=
  .run (· != ')') ++ .word ")"

/-- An annotation, and the blanks behind it. -/
def annotation : Pattern ι :=
  .word "@" ++ .someRun isWordChar ++ .optional (.blanks ++ .word "(" ++ argumentsEnd) ++ .blanks

end InterfaceGen.Source.Annotation
