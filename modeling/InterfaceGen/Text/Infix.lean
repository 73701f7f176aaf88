/-!
# Words within texts
-/

namespace InterfaceGen.Text

/-- Does the word occur in the text? -/
def occurs (word : List Char) : List Char → Bool
  | [] => word.isEmpty
  | c :: rest => word.isPrefixOf (c :: rest) || occurs word rest

/-- Exactly the infixes of a text occur in it. -/
theorem occurs_iff {word text : List Char} : occurs word text = true ↔ word <:+: text := by
  induction text with
  | nil => simp [occurs, List.isEmpty_iff]
  | cons c rest ih =>
    simp [occurs, ih, List.infix_cons_iff, List.isPrefixOf_iff_prefix]

end InterfaceGen.Text
