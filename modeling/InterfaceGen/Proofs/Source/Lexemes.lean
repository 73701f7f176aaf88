import InterfaceGen.Proofs.Source.Brackets

/-!
# Sources as literals and single characters

A source text without comments, as a row of lexemes: each is a literal or one other character. What
counts as a literal is up to the reader of the text: the language has string and character literals,
the walks through an enum body know of strings only.
-/

namespace InterfaceGen.Source

/-- A literal with its quotes, or a character outside of literals. -/
inductive Lexeme where
  | literal (text : List Char)
  | other (c : Char)
  deriving DecidableEq

/-- A string literal with its quotes. -/
def IsStringLiteral (text : List Char) : Prop :=
  ∃ body, IsLiteral body ∧ text = '"' :: (body ++ ['"'])

/-- A character literal with its quotes. -/
def IsCharacterLiteral (text : List Char) : Prop :=
  ∃ body, IsQuoted '\'' false body ∧ text = '\'' :: (body ++ ['\''])

namespace Lexeme

/-- How the lexeme is written. -/
def written : Lexeme → List Char
  | literal text => text
  | other c => [c]

/-- The text of a row of lexemes. -/
def write (row : List Lexeme) : List Char :=
  row.flatMap written

/-- A lexeme of a text in which strings are the only literals. -/
def OfStrings : Lexeme → Prop
  | literal text => IsStringLiteral text
  | other c => c ≠ '"'

/-- A lexeme of a text with string and character literals. -/
def OfSource : Lexeme → Prop
  | literal text => IsStringLiteral text ∨ IsCharacterLiteral text
  | other c => c ≠ '"' ∧ c ≠ '\''

/-- The characters outside of all literals. -/
def outside : Lexeme → List Char
  | literal _ => []
  | other c => [c]

/-- A lexeme with spaces for what stands in a string literal. -/
def blanked : Lexeme → List Char
  | literal text =>
    if text.head? = some '"' then '"' :: (List.replicate (text.length - 2) ' ' ++ ['"']) else text
  | other c => [c]

/-- The character literal that a lexeme is, if it is one. -/
def character : Lexeme → List Char
  | literal text => if text.head? = some '\'' then text else []
  | other _ => []

/-- A string literal is blanked between its quotes. -/
theorem blanked_string {body : List Char} :
    (literal ('"' :: (body ++ ['"']))).blanked =
      '"' :: (List.replicate body.length ' ' ++ ['"']) := by
  simp [blanked]

/-- A run of characters outside of literals. -/
def plain (run : String) : List Lexeme :=
  run.toList.map other

/-- A run without quotes has lexemes of a source. -/
theorem ofSource_plain {run : String} (h : ∀ c ∈ run.toList, c ≠ '"' ∧ c ≠ '\'') :
    ∀ lexeme ∈ plain run, lexeme.OfSource := by
  intro lexeme inside
  obtain ⟨c, hc, rfl⟩ := List.mem_map.1 inside
  exact h c hc

/-- A text without double quotes has lexemes of strings. -/
theorem ofStrings_others {text : List Char} (h : '"' ∉ text) :
    ∀ lexeme ∈ text.map other, lexeme.OfStrings := by
  intro lexeme inside
  obtain ⟨c, hc, rfl⟩ := List.mem_map.1 inside
  rintro rfl
  exact h hc

@[simp] theorem write_nil : write [] = [] :=
  rfl

@[simp] theorem write_literal (text : List Char) (row : List Lexeme) :
    write (literal text :: row) = text ++ write row :=
  rfl

@[simp] theorem write_other (c : Char) (row : List Lexeme) :
    write (other c :: row) = c :: write row :=
  rfl

@[simp] theorem write_append (first second : List Lexeme) :
    write (first ++ second) = write first ++ write second :=
  List.flatMap_append

end Lexeme

end InterfaceGen.Source
