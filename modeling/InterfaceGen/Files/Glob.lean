import InterfaceGen.Files.Path
import InterfaceGen.Text.Infix

/-!
# Globs

A glob describes paths name by name. In the description of a name `*` stands for any text, `?` for
any character, and brackets for one character of a set, which `!` at their beginning negates; a
bracket that is not closed stands for itself. A part `**` stands for any number of directories.
-/

namespace InterfaceGen

/-- A set of characters, as ranges with both ends. -/
structure CharSet where
  negated : Bool
  ranges : List (Char × Char)
  deriving DecidableEq, Repr

namespace CharSet

/-- Is the character in the set? -/
def contains (s : CharSet) (c : Char) : Bool :=
  (s.ranges.any fun (low, high) => low ≤ c && c ≤ high) != s.negated

/-- What is between the dashes that make ranges. Such a dash has a character before it, two where
the set is negated or where the first of them ends another range. A dash at the end makes none. -/
def pieces (least : Nat) (body : List Char) : List (List Char) :=
  match _h : (body.drop least).dropWhile (· ≠ '-') with
  | [] => [body]
  | [_] => [body]
  | _ :: rest => (body.take least ++ (body.drop least).takeWhile (· ≠ '-')) :: pieces 2 rest
termination_by body.length
decreasing_by
  have hs : ((body.drop least).dropWhile (· ≠ '-')).length ≤ (body.drop least).length :=
    (List.dropWhile_suffix _).length_le
  rw [_h] at hs
  simp only [List.length_drop, List.length_cons] at hs
  omega

/-- Does the range between two pieces run backwards? -/
def isBackward (piece next : List Char) : Bool :=
  match piece.getLast?, next.head? with
  | some low, some high => high < low
  | _, _ => false

/-- The pieces without the ranges that run backwards, whose two ends are dropped; from the last
one on. -/
def dropBackward : List (List Char) → List (List Char)
  | [] => []
  | piece :: rest =>
    match dropBackward rest with
    | [] => [piece]
    | next :: others =>
      if isBackward piece next then (piece.dropLast ++ next.drop 1) :: others
      else piece :: next :: others

/-- The characters of the pieces, with nothing where a dash between two of them makes a range. -/
def joinPieces (pieces : List (List Char)) : List (Option Char) :=
  [none].intercalate (pieces.map (·.map some))

/-- The ranges that characters and dashes write. -/
def rangesOf : List (Option Char) → List (Char × Char)
  | some low :: none :: some high :: rest => (low, high) :: rangesOf rest
  | some c :: rest => (c, c) :: rangesOf rest
  | none :: rest => ('-', '-') :: rangesOf rest
  | [] => []

/-- The set that is written between brackets. -/
def ofBody (body : List Char) : CharSet :=
  match joinPieces (dropBackward (pieces (if body.head? = some '!' then 2 else 1) body)) with
  | some '!' :: rest => ⟨true, rangesOf rest⟩
  | written => ⟨false, rangesOf written⟩

end CharSet

/-- What a part of the description of a name stands for. -/
inductive NameItem where
  /-- Any text. -/
  | run
  /-- Any character. -/
  | any
  | char (c : Char)
  | oneOf (set : CharSet)
  deriving DecidableEq, Repr

/-- The description of a name. -/
abbrev NamePattern := List NameItem

namespace NamePattern

/-- The number of characters at the beginning of a set that do not close its brackets: a mark that
negates it, and a bracket directly at the beginning. -/
def fixedLength (text : List Char) : Nat :=
  let mark := if text.head? = some '!' then 1 else 0
  if (text.drop mark).head? = some ']' then mark + 1 else mark

/-- What is between brackets, and what follows them. -/
def bracket? (text : List Char) : Option (List Char × List Char) :=
  let fixed := fixedLength text
  match (text.drop fixed).dropWhile (· ≠ ']') with
  | [] => none
  | _ :: rest => some (text.take fixed ++ (text.drop fixed).takeWhile (· ≠ ']'), rest)

/-- What follows brackets is shorter than the text. -/
theorem length_lt_of_bracket? {text body rest : List Char} (h : bracket? text = some (body, rest)) :
    rest.length < text.length := by
  have hs : ((text.drop (fixedLength text)).dropWhile (· ≠ ']')).length ≤
      (text.drop (fixedLength text)).length := (List.dropWhile_suffix _).length_le
  simp only [bracket?] at h
  split at h
  · cases h
  · rename_i heq
    simp only [Option.some.injEq, Prod.mk.injEq] at h
    obtain ⟨_, rfl⟩ := h
    rw [heq] at hs
    simp only [List.length_drop, List.length_cons] at hs
    omega

/-- Reads the description of a name. -/
def ofChars : List Char → NamePattern
  | [] => []
  | '*' :: rest => .run :: ofChars rest
  | '?' :: rest => .any :: ofChars rest
  | '[' :: rest =>
    match _h : bracket? rest with
    | some (body, rest) => .oneOf (.ofBody body) :: ofChars rest
    | none => .char '[' :: ofChars rest
  | c :: rest => .char c :: ofChars rest
termination_by text => text.length
decreasing_by
  · simp
  · simp
  · have hl := length_lt_of_bracket? _h
    simp only [List.length_cons]
    omega
  · simp
  · simp

/-- Is the whole name described so? -/
def accepts : NamePattern → List Char → Bool
  | [], name => name.isEmpty
  | .run :: rest, [] => accepts rest []
  | .run :: rest, c :: name => accepts rest (c :: name) || accepts (.run :: rest) name
  | _ :: _, [] => false
  | .any :: rest, _ :: name => accepts rest name
  | .char d :: rest, c :: name => c == d && accepts rest name
  | .oneOf set :: rest, c :: name => set.contains c && accepts rest name
termination_by pattern name => pattern.length + name.length

end NamePattern

/-- What a part of a glob stands for. -/
inductive GlobPart where
  /-- Any number of directories. -/
  | anyDepth
  /-- The directory above. -/
  | up
  /-- A name. -/
  | name (pattern : NamePattern)
  deriving DecidableEq, Repr

/-- A description of paths. -/
structure Glob where
  parts : List GlobPart
  /-- A slash at the end asks for directories. -/
  directoriesOnly : Bool
  deriving DecidableEq, Repr

/-- Why a text is no glob. -/
inductive GlobError where
  /-- Two stars in a row are not the whole part. -/
  | doubleStar
  deriving DecidableEq, Repr

/-- The error in words. -/
def GlobError.message : GlobError → String
  | doubleStar => "Invalid pattern: '**' can only be an entire path component"

namespace Glob

/-- Reads a part of a glob. -/
def partOf (text : String) : Except GlobError GlobPart :=
  if text = "**" then .ok .anyDepth
  else if text = ".." then .ok .up
  else if Text.occurs ['*', '*'] text.toList then .error .doubleStar
  else .ok (.name (.ofChars text.toList))

/-- Reads a glob. -/
def ofString (text : String) : Except GlobError Glob := do
  let parts ← (FilePath.ofString text).names.mapM partOf
  return ⟨parts, text.toList.getLast? = some '/'⟩

/-- The glob of names that end so, where no character stands for others. -/
def ending (text : String) : Glob :=
  ⟨[.name (.run :: text.toList.map .char)], false⟩

end Glob

end InterfaceGen
