import InterfaceGen.Proofs.Types.Shapes
import InterfaceGen.Source.FieldType

/-!
# The text of a type can be the type of a field

A declared type is accepted if its angle brackets are balanced and what stands outside them is one
name, perhaps of an array. Both hold of the canonical text of every type.
-/

namespace InterfaceGen.Types

open InterfaceGen.Text InterfaceGen.Source
open FieldType (outside? isArraySuffix isPlain)

/-- Within angle brackets a name is passed over. -/
theorem outside?_name {name : List Char} (h : ∀ c ∈ name, isNameChar c = true) (depth : Nat)
    (rest : List Char) : outside? (depth + 1) (name ++ rest) = outside? (depth + 1) rest := by
  induction name with
  | nil => rfl
  | cons c name ih =>
    have opens : c ≠ '<' := ne_of_isNameChar (h c (List.mem_cons_self ..)) rfl
    have closes : c ≠ '>' := ne_of_isNameChar (h c (List.mem_cons_self ..)) rfl
    rw [List.cons_append, outside?]
    · exact ih fun d hd => h d (List.mem_cons_of_mem _ hd)
    · exact opens
    · exact closes

/-- Outside them it is kept. -/
theorem outside?_outer_name {name : List Char} (h : ∀ c ∈ name, isNameChar c = true)
    (rest : List Char) : outside? 0 (name ++ rest) = (outside? 0 rest).map (name ++ ·) := by
  induction name with
  | nil => simp
  | cons c name ih =>
    have opens : c ≠ '<' := ne_of_isNameChar (h c (List.mem_cons_self ..)) rfl
    have closes : c ≠ '>' := ne_of_isNameChar (h c (List.mem_cons_self ..)) rfl
    rw [List.cons_append, outside?, ih fun d hd => h d (List.mem_cons_of_mem _ hd), Option.map_map]
    · rfl
    · exact opens
    · exact closes

mutual

/-- Within angle brackets a whole type is passed over, its own brackets included. -/
theorem JavaType.outside?_text (depth : Nat) (rest : List Char) :
    (t : JavaType) → outside? (depth + 1) (t.text ++ rest) = outside? (depth + 1) rest
  | .name n => outside?_name (fun _ => n.isNameChar_of_mem) depth rest
  | .array element => by
    rw [JavaType.text, List.append_assoc, JavaType.outside?_text depth _ element]
    rfl
  | .generic container arguments => by
    rw [JavaType.text, List.append_assoc, outside?_name fun _ => container.isNameChar_of_mem]
    show outside? (depth + 1 + 1) ((arguments.text ++ ['>']) ++ rest) = _
    rw [List.append_assoc, TypeArguments.outside?_text (depth + 1) _ arguments]
    rfl

theorem TypeArguments.outside?_text (depth : Nat) (rest : List Char) :
    (as : TypeArguments) → outside? (depth + 1) (as.text ++ rest) = outside? (depth + 1) rest
  | .last argument => TypeArgument.outside?_text depth rest argument
  | .cons argument more => by
    rw [TypeArguments.text, List.append_assoc, TypeArgument.outside?_text depth _ argument]
    exact TypeArguments.outside?_text depth rest more

theorem TypeArgument.outside?_text (depth : Nat) (rest : List Char) :
    (a : TypeArgument) → outside? (depth + 1) (a.text ++ rest) = outside? (depth + 1) rest
  | .exactly t => JavaType.outside?_text depth rest t
  | .wildcard => outside?_name (fun _ => Identifier.object.isNameChar_of_mem) depth rest
  | .bounded _ t => JavaType.outside?_text depth rest t

end

/-- One more pair of brackets makes a longer suffix. -/
theorem isArraySuffix_append {text : List Char} (h : isArraySuffix text = true) :
    isArraySuffix (text ++ ['[', ']']) = true := by
  fun_induction isArraySuffix text with
  | case1 => rfl
  | case2 rest ih => exact ih h
  | case3 => exact nomatch h

/-- No name goes on in a suffix. -/
theorem head?_arraySuffix {text : List Char} (h : isArraySuffix text = true) :
    ∀ c ∈ text.head?, isNameChar c = false := by
  intro c hc
  fun_cases isArraySuffix text with
  | case1 => exact nomatch hc
  | case2 rest =>
    cases hc
    decide
  | case3 =>
    rw [isArraySuffix] at h
    · exact nomatch h
    all_goals assumption

theorem notMem_arraySuffix {text : List Char} (h : isArraySuffix text = true) : '\n' ∉ text := by
  fun_induction isArraySuffix text with
  | case1 => exact List.not_mem_nil
  | case2 rest ih => simpa using ih h
  | case3 => exact nomatch h

/-- A suffix is a number of pairs of brackets. -/
theorem exists_replicate_of_isArraySuffix {text : List Char} (h : isArraySuffix text = true) :
    ∃ count, text = (List.replicate count ['[', ']']).flatten := by
  fun_induction isArraySuffix text with
  | case1 => exact ⟨0, rfl⟩
  | case2 rest ih =>
    obtain ⟨count, same⟩ := ih h
    refine ⟨count + 1, ?_⟩
    rw [List.replicate_succ, List.flatten_cons, ← same]
    rfl
  | case3 => exact nomatch h

/-- Outside the angle brackets of a type stand one name and bracket pairs. -/
theorem JavaType.exists_outer (t : JavaType) :
    ∃ (n : Identifier) (suffix : List Char), isArraySuffix suffix = true ∧
      ∀ rest, outside? 0 (t.text ++ rest) =
        (outside? 0 rest).map ((n.chars ++ suffix) ++ ·) := by
  cases t with
  | name n =>
    refine ⟨n, [], rfl, fun rest => ?_⟩
    rw [List.append_nil]
    exact outside?_outer_name (fun _ => n.isNameChar_of_mem) rest
  | generic container arguments =>
    refine ⟨container, [], rfl, fun rest => ?_⟩
    rw [List.append_nil, JavaType.text, List.append_assoc,
      outside?_outer_name fun _ => container.isNameChar_of_mem]
    congr 1
    show outside? 1 ((arguments.text ++ ['>']) ++ rest) = _
    rw [List.append_assoc, arguments.outside?_text]
    rfl
  | array element =>
    obtain ⟨n, suffix, brackets, outer⟩ := element.exists_outer
    refine ⟨n, suffix ++ ['[', ']'], isArraySuffix_append brackets, fun rest => ?_⟩
    have pair : outside? 0 (['[', ']'] ++ rest) = (outside? 0 rest).map (['[', ']'] ++ ·) := by
      simp [outside?, Option.map_map, Function.comp_def]
    rw [JavaType.text, List.append_assoc, outer, pair, Option.map_map]
    congr 1
    funext more
    simp

/-- The text of a type is one that a field may have. -/
theorem JavaType.isPlausible_toString (t : JavaType) : FieldType.isPlausible t.toString = true := by
  obtain ⟨n, suffix, brackets, outer⟩ := t.exists_outer
  have found : outside? 0 t.text = some (n.chars ++ suffix) := by
    have whole := outer []
    rw [List.append_nil] at whole
    rw [whole]
    simp [outside?]
  have unbroken : withoutFinalBreak (n.chars ++ suffix) = n.chars ++ suffix := by
    refine if_neg fun last => ?_
    rcases List.mem_append.1 (List.mem_of_getLast? last) with hc | hc
    · exact absurd (n.isNameChar_of_mem hc) (by decide)
    · exact notMem_arraySuffix brackets hc
  have start : (n.chars ++ suffix).head?.any isNameStart = true := by
    obtain ⟨c, rest, same, head, -⟩ := isHeadedBy_iff.1 n.wellFormed
    rw [same]
    exact head
  have behind : (n.chars ++ suffix).dropWhile isNameChar = suffix := by
    rw [dropWhile_of_name fun _ => n.isNameChar_of_mem]
    cases suffix with
    | nil => rfl
    | cons c suffix =>
      exact List.dropWhile_cons_of_neg (by simp [head?_arraySuffix brackets c rfl])
  have plain : isPlain (n.chars ++ suffix) = true := by
    simp only [isPlain, unbroken, start, behind, brackets, Bool.and_self]
  rw [FieldType.isPlausible, JavaType.toString, String.toList_ofList, found]
  exact plain

end InterfaceGen.Types
