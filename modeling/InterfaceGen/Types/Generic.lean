import InterfaceGen.Text.Split
import InterfaceGen.Text.Word

/-!
# The outer shape of a type text

A type text is an array (`T[]`), a generic type (`Name<Args>`) or something else. These readers
take off one such layer. What they return is shorter than the text, which is what bounds every walk
through a type.
-/

namespace InterfaceGen.Types

open InterfaceGen.Text

/-- The element type of an array type. -/
def arrayElement? (text : List Char) : Option (List Char) :=
  if ['[', ']'].isSuffixOf text then some text.dropLast.dropLast else none

/-- Counts angle brackets and cuts at the commas outside all of them. -/
def argumentStep (depth : Int) (c : Char) : Int × Mark :=
  if c = '<' then (depth + 1, .keep)
  else if c = '>' then (depth - 1, .keep)
  else if c = ',' ∧ depth = 0 then (depth, .cut)
  else (depth, .keep)

/-- The arguments in the text between the angle brackets of a generic type. -/
def splitArguments (text : List Char) : List (List Char) :=
  tidy (cutBy argumentStep 0 text)

/-- The name and the argument text of a generic type. -/
def generic? (text : List Char) : Option (List Char × List Char) :=
  let trimmed := trim text
  let container := trimmed.takeWhile isNameChar
  match trimLeft (trimmed.dropWhile isNameChar) with
  | '<' :: inner =>
    if container ≠ [] ∧ inner.getLast? = some '>' ∧ inner.dropLast ≠ [] then
      some (container, trim inner.dropLast)
    else none
  | _ => none

theorem length_lt_of_arrayElement? {text element : List Char}
    (h : arrayElement? text = some element) : element.length < text.length := by
  unfold arrayElement? at h
  split at h
  · next hs =>
    have := (List.isSuffixOf_iff_suffix.1 hs).length_le
    simp only [Option.some.injEq] at h
    simp only [List.length_cons, List.length_nil] at this
    simp only [← h, List.length_dropLast]
    omega
  · simp at h

theorem length_lt_of_generic? {text container arguments : List Char}
    (h : generic? text = some (container, arguments)) : arguments.length < text.length := by
  simp only [generic?] at h
  split at h
  · next inner hi =>
    split at h
    · simp only [Option.some.injEq, Prod.mk.injEq] at h
      have h1 := length_trim_le inner.dropLast
      have h2 := congrArg List.length hi
      have h3 := length_trimLeft_le ((trim text).dropWhile isNameChar)
      have h4 := (List.dropWhile_sublist isNameChar (l := trim text)).length_le
      have h5 := length_trim_le text
      simp only [List.length_dropLast, List.length_cons] at h1 h2
      rw [← h.2]
      omega
    · simp at h
  · simp at h

theorem length_le_of_mem_splitArguments {text argument : List Char}
    (h : argument ∈ splitArguments text) : argument.length ≤ text.length :=
  length_le_of_mem_tidy (fun _ hp => length_le_of_mem_cutBy hp) h

end InterfaceGen.Types
