import InterfaceGen.Text.Alphanumeric

/-!
# Words and identifiers

A word character is a letter or digit of any script, or the underscore. Identifiers are written in
ASCII: a letter or underscore, then letters, digits and underscores.

The tests on whole names accept one line feed after the name, as a pattern anchored at the end of
a line does; `withoutFinalBreak` is that line end.
-/

namespace InterfaceGen.Text

/-- Is `c` part of a word? -/
def isWordChar (c : Char) : Bool :=
  isAlphanumeric c || c == '_'

/-- Can `c` begin an identifier? -/
def isNameStart (c : Char) : Bool :=
  c.isAlpha || c == '_'

/-- Can `c` stand in an identifier? -/
def isNameChar (c : Char) : Bool :=
  c.isAlphanum || c == '_'

/-- Does the text begin with a character of the first kind and go on with those of the second? -/
def isHeadedBy (first further : Char → Bool) : List Char → Bool
  | [] => false
  | c :: rest => first c && rest.all further

/-- The text without the line feed that it may end with. -/
def withoutFinalBreak (text : List Char) : List Char :=
  if text.getLast? = some '\n' then text.dropLast else text

/-- Is the text an identifier, perhaps with a line feed after it? -/
def isIdentifier (text : List Char) : Bool :=
  isHeadedBy isNameStart isNameChar (withoutFinalBreak text)

/-- Is the text a class name (an identifier that begins with a capital), perhaps with a line feed
after it? -/
def isClassName (text : List Char) : Bool :=
  isHeadedBy Char.isUpper isNameChar (withoutFinalBreak text)

/-- Is the text the name of a field (an identifier that begins with a small letter)? -/
def isFieldName (text : List Char) : Bool :=
  isHeadedBy Char.isLower isNameChar text

end InterfaceGen.Text
