/-!
# String and character literals

A literal ends at the first quote of its own kind that no backslash stands before, and cannot run
over the end of its line. `scan` finds that end from behind the opening quote; `blank` overwrites
what stands between the quotes of double-quoted literals, so that every other character keeps its
place.
-/

namespace InterfaceGen.Source.Literal

/-- The rest of a literal through its closing quote, and the text behind it. The flag
`escapesBreak` says whether a backslash may stand at the end of a line within the literal. -/
def scan (quote : Char) (escapesBreak : Bool) : List Char → Option (List Char × List Char)
  | [] => none
  | '\\' :: c :: rest =>
    if c = '\n' ∧ escapesBreak = false then none
    else (scan quote escapesBreak rest).map fun (body, after) => ('\\' :: c :: body, after)
  | c :: rest =>
    if c = quote then some ([c], rest)
    else if c = '\\' ∨ c = '\n' then none
    else (scan quote escapesBreak rest).map fun (body, after) => (c :: body, after)

/-- Nothing is lost: the two parts are the text. -/
theorem append_of_scan {quote : Char} {escapesBreak : Bool} {text body after : List Char}
    (h : scan quote escapesBreak text = some (body, after)) : body ++ after = text := by
  fun_induction scan quote escapesBreak text generalizing body after with
  | case1 => simp at h
  | case2 => simp at h
  | case3 c rest _ ih =>
    obtain ⟨⟨b, a⟩, hs, he⟩ := Option.map_eq_some_iff.1 h
    simp only [Prod.mk.injEq] at he
    simp [← he.1, ← he.2, ih hs]
  | case4 =>
    simp only [Option.some.injEq, Prod.mk.injEq] at h
    simp [← h.1, ← h.2]
  | case5 => simp at h
  | case6 c rest _ _ _ ih =>
    obtain ⟨⟨b, a⟩, hs, he⟩ := Option.map_eq_some_iff.1 h
    simp only [Prod.mk.injEq] at he
    simp [← he.1, ← he.2, ih hs]

/-- What follows a literal is shorter than the text behind its opening quote. -/
theorem length_lt_of_scan {quote : Char} {escapesBreak : Bool} {text body after : List Char}
    (h : scan quote escapesBreak text = some (body, after)) : after.length < text.length := by
  fun_induction scan quote escapesBreak text generalizing body after with
  | case1 => simp at h
  | case2 => simp at h
  | case3 c rest _ ih =>
    obtain ⟨⟨b, a⟩, hs, he⟩ := Option.map_eq_some_iff.1 h
    simp only [Prod.mk.injEq] at he
    have := ih hs
    simp only [← he.2, List.length_cons]
    omega
  | case4 => simp_all
  | case5 => simp at h
  | case6 c rest _ _ _ ih =>
    obtain ⟨⟨b, a⟩, hs, he⟩ := Option.map_eq_some_iff.1 h
    simp only [Prod.mk.injEq] at he
    have := ih hs
    simp only [← he.2, List.length_cons]
    omega

/-- The text with the contents of its double-quoted literals replaced by spaces. -/
def blankChars (text : List Char) : List Char :=
  match text with
  | [] => []
  | c :: rest =>
    if c = '"' then
      match _h : scan '"' false rest with
      | some (body, after) =>
        '"' :: (List.replicate (body.length - 1) ' ' ++ '"' :: blankChars after)
      | none => c :: blankChars rest
    else c :: blankChars rest
termination_by text.length
decreasing_by
  · have := length_lt_of_scan _h
    simp only [List.length_cons]
    omega
  all_goals simp

/-- The text with the contents of its double-quoted literals replaced by spaces; every offset into
it stays valid. -/
def blank (text : String) : String :=
  String.ofList (blankChars text.toList)

end InterfaceGen.Source.Literal
