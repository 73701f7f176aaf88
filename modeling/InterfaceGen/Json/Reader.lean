import InterfaceGen.Json.Value
import InterfaceGen.Text.Hexadecimal
import InterfaceGen.Text.Utf16

/-!
# Reading JSON

The usual syntax, with the words for the numbers that have no digits. Of two members of one name
the last counts. Integers of more than 4300 digits are refused, and so are control characters in
texts. Half of a surrogate pair alone is read as the replacement character.
-/

namespace InterfaceGen

/-- Why a text is not read as JSON. -/
inductive JsonError where
  /-- The text is not JSON. -/
  | malformed
  /-- An integer has this many digits, which is too many. -/
  | longInteger (digits : Nat)
  /-- The bytes are no text. -/
  | undecodable
  deriving DecidableEq, Repr

namespace JsonError

/-- The greatest number of digits of an integer. -/
def digitLimit : Nat := 4300

/-- The error in words. -/
def message : JsonError → String
  | malformed => "The text is not JSON"
  | longInteger digits =>
    "Exceeds the limit (" ++ toString digitLimit ++ " digits) for integer string conversion: " ++
      "value has " ++ toString digits ++ " digits; use sys.set_int_max_str_digits() to increase " ++
      "the limit"
  | undecodable => "The bytes are no text"

end JsonError

namespace Json.Reader

open InterfaceGen.Text

/-- The text without the blanks that it begins with. -/
def skipBlanks (text : List Char) : List Char :=
  text.dropWhile fun c => c == ' ' || c == '\t' || c == '\n' || c == '\r'

/-- The number that four hexadecimal digits write. -/
def hexNumber? (a b c d : Char) : Option Nat := do
  let a ← hexValue? a
  let b ← hexValue? b
  let c ← hexValue? c
  let d ← hexValue? d
  pure (((a * 16 + b) * 16 + c) * 16 + d)

/-- What a letter stands for behind a backslash. -/
def escaped? (c : Char) : Option Char :=
  match c with
  | '"' => some '"'
  | '\\' => some '\\'
  | '/' => some '/'
  | 'b' => some '\x08'
  | 'f' => some '\x0c'
  | 'n' => some '\n'
  | 'r' => some '\r'
  | 't' => some '\t'
  | _ => none

/-- The code points of a text through its closing quote, surrogates as they are written, and what
follows. -/
def codePoints? : List Char → Option (List Nat × List Char)
  | [] => none
  | '"' :: rest => some ([], rest)
  | '\\' :: 'u' :: a :: b :: c :: d :: rest =>
    match hexNumber? a b c d with
    | none => none
    | some n => (codePoints? rest).map fun (points, after) => (n :: points, after)
  | '\\' :: c :: rest =>
    match escaped? c with
    | none => none
    | some c => (codePoints? rest).map fun (points, after) => (c.toNat :: points, after)
  | c :: rest =>
    if c.toNat < 0x20 ∨ c = '\\' then none
    else (codePoints? rest).map fun (points, after) => (c.toNat :: points, after)

/-- The text behind an opening quote, and what follows it. -/
def text? (input : List Char) : Option (String × List Char) :=
  (codePoints? input).map fun (points, after) => (String.ofList (Utf16.joinSurrogates points), after)

/-- The digits that the text begins with, and what follows them. -/
def digits (input : List Char) : List Char × List Char :=
  (input.takeWhile Char.isDigit, input.dropWhile Char.isDigit)

/-- The number that decimal digits write. -/
def number (digits : List Char) : Nat :=
  digits.foldl (fun n c => 10 * n + (c.toNat - 0x30)) 0

/-- The whole part of a number: a zero, or digits that begin with none. -/
def whole? (input : List Char) : Option (List Char × List Char) :=
  match input with
  | '0' :: rest => some (['0'], rest)
  | _ =>
    let (whole, after) := digits input
    if whole.isEmpty then none else some (whole, after)

/-- The digits behind a point, if there are any. -/
def fraction (input : List Char) : List Char × List Char :=
  match input with
  | '.' :: rest =>
    let (places, after) := digits rest
    if places.isEmpty then ([], input) else (places, after)
  | _ => ([], input)

/-- The exponent, if there is one. -/
def exponent (input : List Char) : Option Int × List Char :=
  match input with
  | e :: rest =>
    if e = 'e' ∨ e = 'E' then
      let (negative, unsigned) :=
        match rest with
        | '-' :: rest => (true, rest)
        | '+' :: rest => (false, rest)
        | _ => (false, rest)
      let (places, after) := digits unsigned
      if places.isEmpty then (none, input)
      else (some (if negative then -(number places : Int) else number places), after)
    else (none, input)
  | [] => (none, input)

/-- A number without its sign, and what follows it. -/
def magnitude (negative : Bool) (input : List Char) : Except JsonError (Json × List Char) :=
  match whole? input with
  | none => .error .malformed
  | some (whole, afterWhole) =>
    let (places, afterPlaces) := fraction afterWhole
    let (power, after) := exponent afterPlaces
    if places.isEmpty && power.isNone then
      if JsonError.digitLimit < whole.length then .error (.longInteger whole.length)
      else .ok (.integer (if negative then -(number whole : Int) else number whole), after)
    else
      let digits := (whole ++ places).dropWhile (· = '0')
      .ok (.real (.ofDecimal negative (number digits) digits.length
        (power.getD 0 - places.length)), after)

/-- Does the text begin with the word? Then what follows it. -/
def afterWord? (word : String) (input : List Char) : Option (List Char) :=
  if word.toList.isPrefixOf input then some (input.drop word.length) else none

/-- A word with a meaning, and what follows it. -/
def word? (input : List Char) : Option (Json × List Char) :=
  let meanings : List (String × Json) := [
    ("null", .null), ("true", .bool true), ("false", .bool false), ("NaN", .real .nan),
    ("Infinity", .real (.infinite false)), ("-Infinity", .real (.infinite true))]
  meanings.findSome? fun (word, value) => (afterWord? word input).map (value, ·)

/-- A number, a word or a text, and what follows it. -/
def scalar (input : List Char) : Except JsonError (Json × List Char) :=
  match word? input with
  | some found => .ok found
  | none =>
    match input with
    | '"' :: rest =>
      match text? rest with
      | some (s, after) => .ok (.text s, after)
      | none => .error .malformed
    | '-' :: rest => magnitude true rest
    | _ => magnitude false input

mutual

/-- A value, and what follows it. Every nested value is shorter, so `budget` need not exceed the
length of the text. -/
def value (budget : Nat) (input : List Char) : Except JsonError (Json × List Char) :=
  match budget, input with
  | 0, _ => .error .malformed
  | budget + 1, '[' :: rest =>
    match skipBlanks rest with
    | ']' :: after => .ok (.array [], after)
    | inner => items budget [] inner
  | budget + 1, '\x7b' :: rest =>
    match skipBlanks rest with
    | '\x7d' :: after => .ok (.object [], after)
    | inner => members budget [] inner
  | _ + 1, input => scalar input

/-- The items of an array from one of them on, after those that are known, newest first. -/
def items (budget : Nat) (known : List Json) (input : List Char) :
    Except JsonError (Json × List Char) :=
  match budget with
  | 0 => .error .malformed
  | budget + 1 => do
    let (item, rest) ← value budget input
    match skipBlanks rest with
    | ',' :: rest => items budget (item :: known) (skipBlanks rest)
    | ']' :: after => .ok (.array (item :: known).reverse, after)
    | _ => .error .malformed

/-- The members of an object from one of them on, after those that are known. -/
def members (budget : Nat) (known : List (String × Json)) (input : List Char) :
    Except JsonError (Json × List Char) :=
  match budget, input with
  | budget + 1, '"' :: rest =>
    match text? rest with
    | none => .error .malformed
    | some (name, rest) =>
      match skipBlanks rest with
      | ':' :: rest => do
        let (member, rest) ← value budget (skipBlanks rest)
        let known := insertMember known name member
        match skipBlanks rest with
        | ',' :: rest => members budget known (skipBlanks rest)
        | '\x7d' :: after => .ok (.object known, after)
        | _ => .error .malformed
      | _ => .error .malformed
  | _, _ => .error .malformed

end

end Json.Reader

/-- The value that a text writes. -/
def Json.read (input : String) : Except JsonError Json := do
  let chars := input.toList
  let (value, rest) ← Json.Reader.value (chars.length + 1) (Json.Reader.skipBlanks chars)
  if (Json.Reader.skipBlanks rest).isEmpty then .ok value else .error .malformed

end InterfaceGen
