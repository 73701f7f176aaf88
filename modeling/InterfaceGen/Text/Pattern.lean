import InterfaceGen.Text.Blank
import InterfaceGen.Text.Word

/-!
# Patterns

A small language of text patterns, for the places where a declaration is recognised by its look.
A pattern is tried at a cursor and hands each cursor behind an occurrence, best first, to what has
to follow it; the first that leads to a full match wins. Order of preference: the first
alternative before the second, a longer run before a shorter one (`fewest` the other way round),
one more repetition before none.

`Pattern.matchAt` tries one place, `Pattern.pieces` cuts a whole text into its leftmost
occurrences, none overlapping, and the characters between them.
-/

namespace InterfaceGen.Text

/-- A place in a text, with what has been captured on the way to it, newest first. -/
structure Cursor (ι : Type) where
  /-- The character before the place. -/
  before : Option Char
  /-- The text after the place. -/
  rest : List Char
  /-- The number of characters before the place. -/
  offset : Nat
  captures : List (ι × List Char)

/-- Text patterns whose captures are named by `ι`. -/
inductive Pattern (ι : Type) where
  /-- One character of a class. -/
  | one (accept : Char → Bool)
  /-- Exactly this text. -/
  | exactly (text : List Char)
  /-- The first, then the second. -/
  | seq (first second : Pattern ι)
  /-- The first or else the second. -/
  | either (first second : Pattern ι)
  /-- The pattern or else nothing. -/
  | optional (item : Pattern ι)
  /-- As many characters of a class as possible. -/
  | run (accept : Char → Bool)
  /-- As few characters of a class as possible. -/
  | fewest (accept : Char → Bool)
  /-- As many repetitions as possible, none of them empty. -/
  | many (item : Pattern ι)
  /-- The pattern, its text kept under a name. -/
  | capture (name : ι) (item : Pattern ι)
  /-- Between a word character and something else. -/
  | wordEdge
  /-- At the beginning of a line. -/
  | lineStart
  /-- At the end of the text, or before a line feed that ends it. -/
  | finish
  /-- Where the pattern would match. -/
  | followedBy (item : Pattern ι)
  /-- Where the pattern would not match. -/
  | notFollowedBy (item : Pattern ι)

namespace Cursor

variable {ι : Type}

/-- The cursor at the beginning of a text. -/
def start (text : List Char) : Cursor ι :=
  ⟨none, text, 0, []⟩

/-- The cursor behind the text `word`, if it stands here. -/
def take? (word : List Char) (s : Cursor ι) : Option (Cursor ι) :=
  if word.isPrefixOf s.rest then
    some { s with
      before := word.getLast?.or s.before
      rest := s.rest.drop word.length
      offset := s.offset + word.length }
  else none

/-- The places that a run of accepted characters leads to, nearest first, from the place with
`before`, `rest` and `offset`. -/
def runEnds (accept : Char → Bool) (captures : List (ι × List Char)) :
    Option Char → List Char → Nat → List (Cursor ι)
  | before, [], offset => [⟨before, [], offset, captures⟩]
  | before, c :: rest, offset =>
    ⟨before, c :: rest, offset, captures⟩ ::
      if accept c then runEnds accept captures (some c) rest (offset + 1) else []

/-- The places that a run of accepted characters leads to, nearest (the cursor itself) first. -/
def ends (accept : Char → Bool) (s : Cursor ι) : List (Cursor ι) :=
  runEnds accept s.captures s.before s.rest s.offset

/-- The cursor with the text between `s` and it kept under a name. -/
def keepSince (s : Cursor ι) (name : ι) (t : Cursor ι) : Cursor ι :=
  { t with captures := (name, s.rest.take (t.offset - s.offset)) :: t.captures }

/-- Is exactly one of the two neighbours a word character? -/
def atWordEdge (s : Cursor ι) : Bool :=
  s.before.any isWordChar != s.rest.head?.any isWordChar

end Cursor

namespace Pattern

variable {ι : Type}

instance : Append (Pattern ι) := ⟨seq⟩
instance : OrElse (Pattern ι) := ⟨fun p q => either p (q ())⟩

/-- Exactly this word. -/
def word (text : String) : Pattern ι := exactly text.toList

/-- Any blanks. -/
def blanks : Pattern ι := run isBlank

/-- At least one character of a class, as many as possible. -/
def someRun (accept : Char → Bool) : Pattern ι := one accept ++ run accept

/-- At least one blank. -/
def spacing : Pattern ι := someRun isBlank

/-- An identifier. -/
def name : Pattern ι := one isNameStart ++ run isNameChar

/-- Tries `step` and then itself as often as possible before it goes on with `next`. Each step
has to move the cursor, so that there are never more of them than characters in `budget`. -/
def repeated (step : (Cursor ι → Option (Cursor ι)) → Cursor ι → Option (Cursor ι))
    (next : Cursor ι → Option (Cursor ι)) : List Char → Cursor ι → Option (Cursor ι)
  | [], s => next s
  | _ :: budget, s =>
    match step (fun t => if s.offset < t.offset then repeated step next budget t else none) s with
    | some t => some t
    | none => next s

/-- The cursor at which a match of the pattern and of `next` after it ends. -/
def follow : Pattern ι → (Cursor ι → Option (Cursor ι)) → Cursor ι → Option (Cursor ι)
  | one accept, next, s =>
    match s.rest with
    | [] => none
    | c :: rest =>
      if accept c then next { s with before := some c, rest, offset := s.offset + 1 } else none
  | exactly text, next, s => (s.take? text).bind next
  | seq p q, next, s => p.follow (fun t => q.follow next t) s
  | either p q, next, s =>
    match p.follow next s with
    | some t => some t
    | none => q.follow next s
  | optional p, next, s =>
    match p.follow next s with
    | some t => some t
    | none => next s
  | run accept, next, s => (s.ends accept).reverse.findSome? next
  | fewest accept, next, s => (s.ends accept).findSome? next
  | many p, next, s => repeated (fun k t => p.follow k t) next s.rest s
  | capture i p, next, s => p.follow (fun t => next (s.keepSince i t)) s
  | wordEdge, next, s => if s.atWordEdge then next s else none
  | lineStart, next, s => if s.before.all (· == '\n') then next s else none
  | finish, next, s => if s.rest = [] ∨ s.rest = ['\n'] then next s else none
  | followedBy p, next, s => if (p.follow some s).isSome then next s else none
  | notFollowedBy p, next, s => if (p.follow some s).isSome then none else next s

/-- The cursor behind the match of the pattern at `s`. -/
def matchAt (p : Pattern ι) (s : Cursor ι) : Option (Cursor ι) :=
  p.follow some s

/-- The cursor behind the match of the pattern at the beginning of the text. -/
def matchStart (p : Pattern ι) (text : List Char) : Option (Cursor ι) :=
  p.matchAt (.start text)

end Pattern

/-- An occurrence of a pattern: its place, its text, and what it captured. -/
structure Occurrence (ι : Type) where
  start : Nat
  stop : Nat
  text : List Char
  captures : List (ι × List Char)

/-- What is known under a name, if that part of the pattern took part. -/
def Cursor.captured? {ι : Type} [BEq ι] (s : Cursor ι) (name : ι) : Option (List Char) :=
  s.captures.lookup name

/-- What is known under a name, if that part of the pattern took part. -/
def Occurrence.captured? {ι : Type} [BEq ι] (o : Occurrence ι) (name : ι) : Option (List Char) :=
  o.captures.lookup name

/-- A piece of a searched text. -/
inductive Piece (ι : Type) where
  /-- A character outside all occurrences. -/
  | plain (c : Char)
  | occurrence (o : Occurrence ι)

namespace Pattern

variable {ι : Type}

/-- The pieces of the text after the first `skip` characters, which belong to an occurrence. -/
def piecesFrom (p : Pattern ι) : Nat → Option Char → List Char → Nat → List (Piece ι)
  | _, _, [], _ => []
  | skip + 1, _, c :: rest, offset => p.piecesFrom skip (some c) rest (offset + 1)
  | 0, before, c :: rest, offset =>
    match p.matchAt ⟨before, c :: rest, offset, []⟩ with
    | some t =>
      if offset < t.offset then
        .occurrence ⟨offset, t.offset, (c :: rest).take (t.offset - offset), t.captures⟩ ::
          p.piecesFrom (t.offset - offset - 1) (some c) rest (offset + 1)
      else .plain c :: p.piecesFrom 0 (some c) rest (offset + 1)
    | none => .plain c :: p.piecesFrom 0 (some c) rest (offset + 1)

/-- The text cut into the leftmost non-empty occurrences of the pattern and the characters
between them. -/
def pieces (p : Pattern ι) (text : List Char) : List (Piece ι) :=
  p.piecesFrom 0 none text 0

/-- The occurrences of the pattern from left to right. -/
def occurrences (p : Pattern ι) (text : List Char) : List (Occurrence ι) :=
  (p.pieces text).filterMap fun
    | .plain _ => none
    | .occurrence o => some o

/-- The first occurrence of the pattern. -/
def firstOccurrence? (p : Pattern ι) (text : List Char) : Option (Occurrence ι) :=
  (p.occurrences text).head?

/-- The text without the occurrences of the pattern. -/
def erase (p : Pattern ι) (text : List Char) : List Char :=
  (p.pieces text).filterMap fun
    | .plain c => some c
    | .occurrence _ => none

/-- The text cut at the characters of occurrences of the pattern, which are dropped. -/
def cut (p : Pattern ι) (text : List Char) : List (List Char) :=
  (p.pieces text).foldr
    (fun piece parts =>
      match piece, parts with
      | .plain c, part :: parts => (c :: part) :: parts
      | .plain c, [] => [[c]]
      | .occurrence _, parts => [] :: parts)
    [[]]

end Pattern

end InterfaceGen.Text
