import InterfaceGen.Source.Literal

/-!
# Comments

Line comments run to the end of their line and leave nothing, block comments run to the first
closing mark and leave one space, so that the words on their two sides stay apart. What looks like
a comment inside a string or character literal is part of the literal; a block comment that is
never closed is no comment.
-/

namespace InterfaceGen.Source.Comment

/-- The text behind the first closing mark of a block comment. -/
def afterBlock? : List Char → Option (List Char)
  | [] => none
  | '*' :: '/' :: rest => some rest
  | _ :: rest => afterBlock? rest

theorem length_lt_of_afterBlock? {text after : List Char} (h : afterBlock? text = some after) :
    after.length < text.length := by
  fun_induction afterBlock? text with
  | case1 => simp at h
  | case2 rest =>
    cases h
    simp only [List.length_cons]
    omega
  | case3 c rest _ ih =>
    have := ih h
    simp only [List.length_cons]
    omega

/-- The text without its comments. -/
def stripChars (text : List Char) : List Char :=
  match text with
  | [] => []
  | '/' :: '/' :: rest => stripChars (rest.dropWhile (· ≠ '\n'))
  | '/' :: '*' :: rest =>
    match _h : afterBlock? rest with
    | some after => ' ' :: stripChars after
    | none => '/' :: stripChars ('*' :: rest)
  | c :: rest =>
    if c = '"' ∨ c = '\'' then
      match _h : Literal.scan c true rest with
      | some (body, after) => c :: (body ++ stripChars after)
      | none => c :: stripChars rest
    else c :: stripChars rest
termination_by text.length
decreasing_by
  · have := (List.dropWhile_sublist (· ≠ '\n') (l := rest)).length_le
    simp only [List.length_cons]
    omega
  · have := length_lt_of_afterBlock? _h
    simp only [List.length_cons]
    omega
  · simp
  · have := Literal.length_lt_of_scan _h
    simp only [List.length_cons]
    omega
  all_goals simp

/-- The text without its comments: line comments are dropped, block comments become one space. -/
def strip (text : String) : String :=
  String.ofList (stripChars text.toList)

end InterfaceGen.Source.Comment
