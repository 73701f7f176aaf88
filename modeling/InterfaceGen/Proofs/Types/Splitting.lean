import InterfaceGen.Proofs.Text.Trimming
import InterfaceGen.Types.Generic

/-!
# Texts that are not cut apart

An argument is cut at the commas outside all angle brackets, so it is no text but one whose own
commas all stand inside brackets. `KeptFrom n` says that of a text: from bracket depth `n` on, the
cutter passes it whole and is as deep behind it as before.
-/

namespace InterfaceGen.Types

open InterfaceGen.Text

/-- At this depth and every greater one the text is kept whole and leaves the depth as it was. -/
def KeptFrom (depth : Int) (text : List Char) : Prop :=
  ∀ d, depth ≤ d → ∀ rest,
    cutBy argumentStep d (text ++ rest) = text.foldr prepend (cutBy argumentStep d rest)

namespace KeptFrom

variable {depth : Int} {first second text : List Char}

theorem nil : KeptFrom depth [] :=
  fun _ _ _ => rfl

/-- Texts that are kept whole are kept so together. -/
theorem append (h1 : KeptFrom depth first) (h2 : KeptFrom depth second) :
    KeptFrom depth (first ++ second) := by
  intro d hd rest
  rw [List.append_assoc, h1 d hd, h2 d hd, List.foldr_append]

/-- What is kept whole at one depth is so at every greater one. -/
theorem mono {deeper : Int} (h : KeptFrom depth text) (le : depth ≤ deeper) :
    KeptFrom deeper text :=
  fun d hd => h d (Int.le_trans le hd)

/-- Text without brackets and commas. -/
theorem of_forall (h : ∀ c ∈ text, c ≠ '<' ∧ c ≠ '>' ∧ c ≠ ',') : KeptFrom depth text := by
  intro d hd rest
  induction text with
  | nil => rfl
  | cons c text ih =>
    obtain ⟨opening, closing, comma⟩ := h c (by simp)
    rw [List.cons_append, cutBy, argumentStep, if_neg opening, if_neg closing,
      if_neg fun both => comma both.1]
    exact congrArg (prepend c) (ih fun e he => h e (by simp [he]))

/-- A comma inside brackets. -/
theorem comma (h : 1 ≤ depth) : KeptFrom depth [','] := by
  intro d hd rest
  have inside : ¬ (',' = ',' ∧ d = 0) := by
    rintro ⟨-, zero⟩
    omega
  rw [List.cons_append, cutBy, argumentStep, if_neg (by decide), if_neg (by decide), if_neg inside]
  rfl

/-- Brackets around a text that is kept whole within them. -/
theorem brackets (h : KeptFrom (depth + 1) text) : KeptFrom depth ('<' :: (text ++ ['>'])) := by
  intro d hd rest
  have closed : cutBy argumentStep (d + 1) ('>' :: rest) =
      prepend '>' (cutBy argumentStep d rest) := by
    rw [cutBy, argumentStep, if_neg (by decide), if_pos rfl, Int.add_sub_cancel]
  have inner := h (d + 1) (by omega) ('>' :: rest)
  rw [closed] at inner
  rw [List.cons_append, cutBy, argumentStep, if_pos rfl]
  simp only [List.append_assoc, List.cons_append, List.nil_append, inner, List.foldr_cons,
    List.foldr_append, List.foldr_nil]

end KeptFrom

theorem foldr_prepend (text piece : List Char) (pieces : List (List Char)) :
    text.foldr prepend (piece :: pieces) = (text ++ piece) :: pieces := by
  induction text with
  | nil => rfl
  | cons c text ih => rw [List.foldr_cons, ih, prepend, List.cons_append]

/-- An argument as it stands in the text of a type. -/
structure IsArgument (text : List Char) : Prop where
  kept : KeptFrom 0 text
  trimmed : IsTrimmed text
  nonempty : text ≠ []

end InterfaceGen.Types
