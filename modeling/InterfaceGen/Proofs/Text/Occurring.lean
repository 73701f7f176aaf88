import InterfaceGen.Text.Infix

/-!
# Where a word occurs

A word does not reach over a character that it has not, so it occurs in a text of several parts only
within one of them, where such characters stand between them.
-/

namespace InterfaceGen.Text

variable {word text : List Char} {c : Char}

theorem occurs_eq_false_iff : occurs word text = false ↔ ¬ word <:+: text := by
  rw [← occurs_iff, Bool.not_eq_true]

/-- A word does not occur where one of its characters does not. -/
theorem occurs_of_notMem (hc : c ∈ word) (off : c ∉ text) : occurs word text = false :=
  occurs_eq_false_iff.2 fun h => off (h.subset hc)

/-- A word does not reach over a character that it does not have. -/
theorem isPrefix_append_cons_iff (off : c ∉ word) (rest : List Char) :
    word <+: text ++ c :: rest ↔ word <+: text := by
  refine ⟨fun h => ?_, fun h => h.trans (List.prefix_append _ _)⟩
  induction text generalizing word with
  | nil =>
    cases word with
    | nil => exact List.nil_prefix
    | cons d word => exact absurd ((List.cons_prefix_cons.1 h).1 ▸ List.mem_cons_self ..) off
  | cons d text ih =>
    cases word with
    | nil => exact List.nil_prefix
    | cons e word =>
      obtain ⟨same, h⟩ := List.cons_prefix_cons.1 h
      exact List.cons_prefix_cons.2 ⟨same, ih (fun hm => off (List.mem_cons_of_mem _ hm)) h⟩

/-- A word does not reach over a character that it has not. -/
theorem occurs_append_cons (off : c ∉ word) (nonempty : word ≠ []) (text rest : List Char) :
    occurs word (text ++ c :: rest) = (occurs word text || occurs word rest) := by
  rw [Bool.eq_iff_iff, Bool.or_eq_true, occurs_iff, occurs_iff, occurs_iff]
  induction text with
  | nil =>
    have start : ¬ word <+: c :: rest := by
      intro h
      rw [← List.nil_append (c :: rest), isPrefix_append_cons_iff off] at h
      exact nonempty (List.prefix_nil.1 h)
    rw [List.nil_append, List.infix_cons_iff, List.infix_nil]
    simp [start, nonempty]
  | cons d text ih =>
    rw [List.cons_append, List.infix_cons_iff, List.infix_cons_iff, ih, ← List.cons_append,
      isPrefix_append_cons_iff off, or_assoc]

/-- A character with which the word does not begin makes no difference in front. -/
theorem occurs_cons (other : word.head? ≠ some c) (nonempty : word ≠ []) (text : List Char) :
    occurs word (c :: text) = occurs word text := by
  rw [Bool.eq_iff_iff, occurs_iff, occurs_iff, List.infix_cons_iff]
  refine or_iff_right fun h => ?_
  obtain ⟨d, word, rfl⟩ := List.exists_cons_of_ne_nil nonempty
  exact other (congrArg some (List.cons_prefix_cons.1 h).1)

/-- One with which it does not end makes no difference behind. -/
theorem occurs_concat (other : word.getLast? ≠ some c) (nonempty : word ≠ []) (text : List Char) :
    occurs word (text ++ [c]) = occurs word text := by
  rw [Bool.eq_iff_iff, occurs_iff, occurs_iff, List.infix_concat_iff]
  refine or_iff_right fun h => other ?_
  obtain ⟨before, same⟩ := h
  have last := congrArg List.getLast? same
  rw [List.getLast?_append, List.getLast?_concat, List.getLast?_eq_some_getLast nonempty] at last
  rw [List.getLast?_eq_some_getLast nonempty]
  simpa using last

/-- Where a word does not occur, no longer one does. -/
theorem occurs_of_isPrefix {longer : List Char} (h : word <+: longer)
    (off : occurs word text = false) : occurs longer text = false :=
  occurs_eq_false_iff.2 fun there => occurs_eq_false_iff.1 off (h.isInfix.trans there)

end InterfaceGen.Text
