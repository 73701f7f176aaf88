import InterfaceGen.Text.Blank

/-!
# Wildcards

A type argument may be a wildcard. One with a bound stands for its bound, a bare one for `Object`.
After `strip` no question mark is left in the text.
-/

namespace InterfaceGen.Types.Wildcard

open InterfaceGen.Text

/-- The text behind a keyword and the blanks after it, of which there has to be one. -/
def afterKeyword? (keyword text : List Char) : Option (List Char) :=
  if keyword.isPrefixOf text then
    match text.drop keyword.length with
    | [] => none
    | c :: rest => if isBlank c then some (trimLeft rest) else none
  else none

/-- The bound that begins the text behind a question mark, without the keyword before it. -/
def afterBound? (text : List Char) : Option (List Char) :=
  (afterKeyword? "extends".toList (trimLeft text)).or
    (afterKeyword? "super".toList (trimLeft text))

theorem length_le_of_afterKeyword? {keyword text after : List Char}
    (h : afterKeyword? keyword text = some after) : after.length ≤ text.length := by
  unfold afterKeyword? at h
  split at h
  · split at h
    · simp at h
    · next c rest hd =>
      split at h
      · have h1 := length_trimLeft_le rest
        have h2 := congrArg List.length hd
        simp only [List.length_drop, List.length_cons] at h2
        simp only [Option.some.injEq] at h
        rw [← h]
        omega
      · simp at h
  · simp at h

theorem length_le_of_afterBound? {text after : List Char} (h : afterBound? text = some after) :
    after.length ≤ text.length := by
  have ht := length_trimLeft_le text
  rcases Option.or_eq_some_iff.1 h with h | ⟨_, h⟩
  · exact Nat.le_trans (length_le_of_afterKeyword? h) ht
  · exact Nat.le_trans (length_le_of_afterKeyword? h) ht

/-- The text without the question marks that have a bound, and without their keywords. -/
def dropBounds (text : List Char) : List Char :=
  match text with
  | [] => []
  | c :: rest =>
    if c = '?' then
      match _h : afterBound? rest with
      | some after => dropBounds after
      | none => c :: dropBounds rest
    else c :: dropBounds rest
termination_by text.length
decreasing_by
  · have := length_le_of_afterBound? _h
    simp only [List.length_cons]
    omega
  all_goals simp

/-- The text with each wildcard replaced by its bound, or by `Object` if it has none. -/
def stripChars (text : List Char) : List Char :=
  (dropBounds text).flatMap fun c => if c = '?' then "Object".toList else [c]

/-- The text with each wildcard replaced by its bound, or by `Object` if it has none. -/
def strip (text : String) : String :=
  String.ofList (stripChars text.toList)

/-- No question mark is left. -/
theorem not_mem_stripChars (text : List Char) : '?' ∉ stripChars text := by
  simp only [stripChars, List.mem_flatMap, not_exists, not_and]
  intro c _
  split
  · decide
  · next h => simpa using fun e => h e.symm

end InterfaceGen.Types.Wildcard
