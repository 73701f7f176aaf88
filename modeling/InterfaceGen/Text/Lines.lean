/-!
# Line ends

A line ends with a line feed, a carriage return, or one after the other; a text that is read has
line feeds only.
-/

namespace InterfaceGen.Text

/-- The text with each line end written as a line feed. -/
def unifyBreaks : List Char → List Char
  | [] => []
  | '\r' :: '\n' :: rest => '\n' :: unifyBreaks rest
  | c :: rest => (if c = '\r' then '\n' else c) :: unifyBreaks rest

end InterfaceGen.Text
