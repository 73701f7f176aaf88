import InterfaceGen.Text.Blank
import InterfaceGen.Text.Word

/-!
# The grammar of TypeScript types

The part of TypeScript's type grammar that mapped types are written in: names, generic types, index
signatures and parentheses are operands, the array suffix binds to the operand before it, and a
union joins operands from the left. `Derives` is the grammar, on rows of tokens.

A reader that goes over the tokens once, with what is still open on a stack, comes to the type of
every derivation (`Derives.runs`), so a row of tokens has one type at most: `Reads.unique`.
-/

namespace InterfaceGen.Types.Grammar

open InterfaceGen.Text

/-- A token of a type text: a word, or any other single character that is no blank. -/
inductive Lexeme where
  | word (chars : List Char)
  | mark (c : Char)
  deriving DecidableEq, Repr

/-- The word that has been read, if there is one. -/
def wordLexeme (word : List Char) : List Lexeme :=
  if word = [] then [] else [.word word]

/-- The tokens of a text behind a word that may go on. -/
def tokensFrom (word : List Char) : List Char → List Lexeme
  | [] => wordLexeme word
  | c :: rest =>
    if isNameChar c then tokensFrom (word ++ [c]) rest
    else if isBlank c then wordLexeme word ++ tokensFrom [] rest
    else wordLexeme word ++ .mark c :: tokensFrom [] rest

/-- The tokens of a text. -/
def tokens (text : List Char) : List Lexeme :=
  tokensFrom [] text

/-- A type as the grammar groups it. -/
inductive TypeTree where
  | reference (name : String) (arguments : List TypeTree)
  | array (element : TypeTree)
  | union (left right : TypeTree)
  | index (key value : TypeTree)

/-- The kinds of rows that the grammar derives. -/
inductive Level where
  /-- A type that an array suffix can follow. -/
  | operand
  /-- A generic type whose arguments may go on. -/
  | opened
  /-- Any type. -/
  | whole

/-- The row of tokens is a type of this kind. -/
inductive Derives : Level → List Lexeme → TypeTree → Prop where
  | name (n : List Char) : Derives .operand [.word n] (.reference (String.ofList n) [])
  | first (n : List Char) {row : List Lexeme} {t : TypeTree} (argument : Derives .whole row t) :
    Derives .opened (.word n :: .mark '<' :: row) (.reference (String.ofList n) [t])
  | further {row next : List Lexeme} {n : String} {ts : List TypeTree} {t : TypeTree}
    (before : Derives .opened row (.reference n ts)) (argument : Derives .whole next t) :
    Derives .opened (row ++ .mark ',' :: next) (.reference n (ts ++ [t]))
  | generic {row : List Lexeme} {t : TypeTree} (inner : Derives .opened row t) :
    Derives .operand (row ++ [.mark '>']) t
  | index (parameter : List Char) {row next : List Lexeme} {k v : TypeTree}
    (key : Derives .whole row k) (value : Derives .whole next v) :
    Derives .operand
      (.mark '\x7b' :: .mark '[' :: .word parameter :: .mark ':' ::
        (row ++ .mark ']' :: .mark ':' :: (next ++ [.mark '\x7d'])))
      (.index k v)
  | parentheses {row : List Lexeme} {t : TypeTree} (inner : Derives .whole row t) :
    Derives .operand (.mark '(' :: (row ++ [.mark ')'])) t
  | array {row : List Lexeme} {t : TypeTree} (element : Derives .operand row t) :
    Derives .operand (row ++ [.mark '[', .mark ']']) (.array t)
  | single {row : List Lexeme} {t : TypeTree} (operand : Derives .operand row t) :
    Derives .whole row t
  | union {row next : List Lexeme} {a b : TypeTree} (left : Derives .whole row a)
    (right : Derives .operand next b) : Derives .whole (row ++ .mark '|' :: next) (.union a b)

/-- The text is read as this type. -/
def Reads (text : String) (t : TypeTree) : Prop :=
  Derives .whole (tokens text.toList) t

/-! ## A reader with a stack -/

/-- What is open around the type that is being read, each with the union to its left. -/
inductive Frame where
  | arguments (left : Option TypeTree) (name : String) (before : List TypeTree)
  | key (left : Option TypeTree)
  | value (left : Option TypeTree) (key : TypeTree)
  | parentheses (left : Option TypeTree)

/-- What the reader has read last, which says what may come next. -/
inductive Mode where
  /-- Nothing yet of the next operand. -/
  | start
  | operand (t : TypeTree)
  /-- An operand and a square bracket behind it. -/
  | suffix (t : TypeTree)
  | brace
  | braceBracket
  | parameter
  /-- The key of an index signature with its bracket. -/
  | closedKey

/-- Where the reader stands. -/
structure Reader where
  frames : List Frame
  /-- The union to the left of the operand. -/
  left : Option TypeTree
  mode : Mode

/-- An operand with the union to its left. -/
def joined : Option TypeTree → TypeTree → TypeTree
  | none, t => t
  | some left, t => .union left t

/-- Closes what is open innermost. -/
def Reader.close (s : Reader) (t : TypeTree) (c : Char) : Option Reader :=
  match s.frames, c with
  | .arguments left name before :: frames, '>' =>
    some ⟨frames, left, .operand (.reference name (before ++ [joined s.left t]))⟩
  | .arguments left name before :: frames, ',' =>
    some ⟨.arguments left name (before ++ [joined s.left t]) :: frames, none, .start⟩
  | .value left key :: frames, '\x7d' => some ⟨frames, left, .operand (.index key (joined s.left t))⟩
  | .parentheses left :: frames, ')' => some ⟨frames, left, .operand (joined s.left t)⟩
  | _, _ => none

/-- Goes on by a mark behind an operand. A square bracket closes the key of an index signature only
where it is the closing one. -/
def Reader.afterOperand (s : Reader) (t : TypeTree) (c : Char) : Option Reader :=
  match c with
  | '[' => some { s with mode := .suffix t }
  | '|' => some ⟨s.frames, some (joined s.left t), .start⟩
  | '<' =>
    match t with
    | .reference name [] => some ⟨.arguments s.left name [] :: s.frames, none, .start⟩
    | _ => none
  | ']' =>
    match s.frames with
    | .key left :: frames => some ⟨.value left (joined s.left t) :: frames, none, .closedKey⟩
    | _ => none
  | c => s.close t c

/-- Goes on by a token. -/
def Reader.step (s : Reader) (token : Lexeme) : Option Reader :=
  match s.mode, token with
  | .start, .word n => some { s with mode := .operand (.reference (String.ofList n) []) }
  | .start, .mark '\x7b' => some { s with mode := .brace }
  | .start, .mark '(' => some ⟨.parentheses s.left :: s.frames, none, .start⟩
  | .operand t, .mark c => s.afterOperand t c
  | .suffix t, .mark ']' => some { s with mode := .operand (.array t) }
  | .brace, .mark '[' => some { s with mode := .braceBracket }
  | .braceBracket, .word _ => some { s with mode := .parameter }
  | .parameter, .mark ':' => some ⟨.key s.left :: s.frames, none, .start⟩
  | .closedKey, .mark ':' => some { s with mode := .start }
  | _, _ => none

/-- Goes on by a row of tokens. -/
def Reader.run (s : Reader) (row : List Lexeme) : Option Reader :=
  row.foldlM Reader.step s

/-- Running through two rows is running through them one after the other. -/
theorem Reader.run_append {s mid : Reader} {row : List Lexeme} (h : s.run row = some mid)
    (next : List Lexeme) : s.run (row ++ next) = mid.run next := by
  have split : s.run (row ++ next) = (s.run row).bind fun mid => mid.run next :=
    List.foldlM_append
  rw [split, h, Option.bind_some]

/-- Where the reader comes to by a row that the grammar derives. -/
def Runs : Level → List Lexeme → TypeTree → Prop
  | .operand, row, t => ∀ frames left,
    Reader.run ⟨frames, left, .start⟩ row = some ⟨frames, left, .operand t⟩
  | .opened, row, t => ∀ frames left, ∃ n before inner u,
    t = .reference n (before ++ [joined inner u]) ∧
      Reader.run ⟨frames, left, .start⟩ row =
        some ⟨.arguments left n before :: frames, inner, .operand u⟩
  | .whole, row, t => ∀ frames, ∃ left u, joined left u = t ∧
    Reader.run ⟨frames, none, .start⟩ row = some ⟨frames, left, .operand u⟩

/-- The reader comes to the type of each derivation. -/
theorem Derives.runs {level : Level} {row : List Lexeme} {t : TypeTree} (h : Derives level row t) :
    Runs level row t := by
  -- For every stack of frames, since an inner type is read on the frames of what is around it.
  induction h with
  | name n => exact fun _ _ => rfl
  | first n _ argument =>
    intro frames left
    obtain ⟨inner, u, rfl, run⟩ := argument (.arguments left (String.ofList n) [] :: frames)
    exact ⟨String.ofList n, [], inner, u, rfl, run⟩
  | @further row next n ts t _ _ before argument =>
    intro frames left
    obtain ⟨m, earlier, inner, u, same, run⟩ := before frames left
    obtain ⟨rfl, rfl⟩ := TypeTree.reference.inj same
    obtain ⟨inner', u', rfl, run'⟩ :=
      argument (.arguments left n (earlier ++ [joined inner u]) :: frames)
    exact ⟨n, earlier ++ [joined inner u], inner', u', rfl, (Reader.run_append run _).trans run'⟩
  | generic _ inner =>
    intro frames left
    obtain ⟨n, before, last, u, rfl, run⟩ := inner frames left
    exact Reader.run_append run _
  | @index parameter row next k v _ _ key value =>
    intro frames left
    obtain ⟨inner, u, rfl, run⟩ := key (.key left :: frames)
    obtain ⟨inner', u', rfl, run'⟩ := value (.value left (joined inner u) :: frames)
    exact (Reader.run_append run _).trans (Reader.run_append run' _)
  | parentheses _ inner =>
    intro frames left
    obtain ⟨last, u, rfl, run⟩ := inner (.parentheses left :: frames)
    exact Reader.run_append run _
  | array _ element => exact fun frames left => Reader.run_append (element frames left) _
  | @single row t _ operand => exact fun frames => ⟨none, t, rfl, operand frames none⟩
  | @union row next a b _ _ left right =>
    intro frames
    obtain ⟨before, u, rfl, run⟩ := left frames
    exact ⟨some (joined before u), b, rfl, (Reader.run_append run _).trans (right frames _)⟩

/-- No text has two readings. -/
theorem Reads.unique {text : String} {t u : TypeTree} (ht : Reads text t) (hu : Reads text u) :
    t = u := by
  obtain ⟨left, last, rfl, run⟩ := Derives.runs ht []
  obtain ⟨left', last', rfl, run'⟩ := Derives.runs hu []
  rw [run] at run'
  cases run'
  rfl

end InterfaceGen.Types.Grammar
