import InterfaceGen.Source.Comment
import InterfaceGen.Text.Pattern

/-!
# Class constants

A private static final declaration is a constant of the class and not part of its data. It is
removed through the first semicolon after it. `normalize` is the text that headers and enum
constants are read from: without comments and without such declarations.
-/

namespace InterfaceGen.Source.Constant

open InterfaceGen.Text

/-- A constant declaration, from its first modifier through the next semicolon. -/
def pattern : Pattern Empty :=
  .word "private" ++ .spacing ++
    (.word "static" ++ .spacing ++ .word "final" <|> .word "final" ++ .spacing ++ .word "static") ++
    .spacing ++ .someRun (· != ';') ++ .word ";"

/-- The text without its constant declarations. -/
def strip (text : String) : String :=
  String.ofList (pattern.erase text.toList)

/-- The text without comments and constant declarations. -/
def normalize (text : String) : String :=
  strip (Comment.strip text)

end InterfaceGen.Source.Constant
