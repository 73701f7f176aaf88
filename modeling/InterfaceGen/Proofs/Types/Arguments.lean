import InterfaceGen.Proofs.Types.Depth

/-!
# Arguments and the text between the brackets

Arguments are written in a row, with commas between them and any blanks around them, and splitting
reads them off it. It loses nothing of any other text either: whatever the brackets in it are, the
arguments stand in it in a row, and behind the row there is at most one comma more. Both together
are `splitArguments_laws`.
-/

namespace InterfaceGen.Types

open InterfaceGen.Text

variable {pieces : List (List Char)}

theorem isPadded_trim (piece : List Char) : IsPadded (trim piece) piece := by
  obtain ⟨before, after, blankBefore, blankAfter, -, same⟩ := exists_trim piece
  exact ⟨before, after, blankBefore, blankAfter, same⟩

theorem lists_trimmed (pieces : List (List Char)) :
    Lists ([','].intercalate pieces) (pieces.map trim) :=
  ⟨pieces,
    List.forall₂_map_left_iff.2 (List.forall₂_same.2 fun piece _ => isPadded_trim piece), rfl⟩

theorem intercalate_concat {pieces : List (List Char)} (filled : pieces ≠ []) (last : List Char) :
    [','].intercalate (pieces ++ [last]) = [','].intercalate pieces ++ ',' :: last := by
  induction pieces with
  | nil => exact absurd rfl filled
  | cons piece pieces ih =>
    cases pieces with
    | nil => simp [List.intercalate_cons_cons]
    | cons next pieces =>
      have later := ih (List.cons_ne_nil _ _)
      rw [List.cons_append] at later
      simp only [List.cons_append, List.intercalate_cons_cons, later, List.append_assoc]

/-- What trimming leaves nothing of is blank. -/
theorem isBlank_of_trim_eq_nil {text : List Char} (h : trim text = []) :
    ∀ c ∈ text, isBlank c = true := by
  obtain ⟨before, after, blankBefore, blankAfter, -, same⟩ := exists_trim text
  rw [h, List.nil_append] at same
  rw [same]
  exact List.forall_mem_append.2 ⟨blankBefore, blankAfter⟩

/-- Tidy pieces stand in the joined text in a row, and what is left out is behind a last comma. -/
theorem exists_lists_tidy (filled : pieces ≠ []) :
    ∃ row gap, Lists row (tidy pieces) ∧ (∀ c ∈ gap, isBlank c = true) ∧
      ([','].intercalate pieces = row ++ gap ∨ [','].intercalate pieces = row ++ ',' :: gap) := by
  unfold tidy
  dsimp only
  split
  · next empty =>
    obtain ⟨front, last, rfl⟩ := (List.eq_nil_or_concat' pieces).resolve_left filled
    rw [List.map_append, List.map_singleton, List.getLast?_concat, Option.some.injEq] at empty
    rw [List.map_append, List.map_singleton, List.dropLast_concat]
    refine ⟨[','].intercalate front, last, lists_trimmed front, isBlank_of_trim_eq_nil empty, ?_⟩
    by_cases single : front = []
    · subst single
      exact .inl (by simp)
    · exact .inr (intercalate_concat single last)
  · exact ⟨_, [], lists_trimmed pieces, List.forall_mem_nil _, .inl (List.append_nil _).symm⟩

/-- Splitting undoes writing in a row. Of any text it gives pieces that are written in it in a row,
behind which at most a comma and blanks stand; no piece has a comma outside its brackets, and all but
the last close what they open. -/
theorem splitArguments_laws :
    (∀ arguments text, AreArguments arguments →
        (∀ argument ∈ arguments, IsTrimmed argument ∧ argument ≠ []) → Lists text arguments →
        splitArguments text = arguments) ∧
      ∀ text, AreArguments (splitArguments text) ∧
        (∀ argument ∈ splitArguments text, IsTrimmed argument) ∧
        ∃ row gap, Lists row (splitArguments text) ∧ (∀ c ∈ gap, isBlank c = true) ∧
          (text = row ++ gap ∨ text = row ++ ',' :: gap) := by
  constructor
  · intro arguments text separate tidied listed
    exact listed.splitArguments_eq separate (fun argument member => (tidied argument member).1)
      fun argument member => (tidied argument member).2
  · intro text
    refine ⟨splitArguments_areArguments text, fun argument member => ?_, ?_⟩
    · obtain ⟨piece, -, rfl⟩ := mem_tidy member
      exact isTrimmed_trim piece
    · have rows := exists_lists_tidy (cutBy_ne_nil argumentStep 0 text)
      rwa [intercalate_cut] at rows

/-- The row of two arguments, of which the last leaves brackets open. -/
def openRow : List Char :=
  "\tMap<String, Integer> ,\n List<Item< ".toList

/-- Its two arguments come back, though the last closes nothing. -/
theorem splitArguments_openRow :
    let arguments := ["Map<String, Integer>".toList, "List<Item<".toList]
    AreArguments arguments ∧ (∀ argument ∈ arguments, IsTrimmed argument ∧ argument ≠ []) ∧
      Lists openRow arguments ∧ splitArguments openRow = arguments := by
  have separate : AreArguments ["Map<String, Integer>".toList, "List<Item<".toList] :=
    ⟨by decide, by decide⟩
  have tidied : ∀ argument ∈ ["Map<String, Integer>".toList, "List<Item<".toList],
      IsTrimmed argument ∧ argument ≠ [] := by
    refine List.forall_mem_cons.2 ⟨⟨⟨by decide, by decide⟩, by decide⟩, ?_⟩
    exact List.forall_mem_singleton.2 ⟨⟨by decide, by decide⟩, by decide⟩
  have listed : Lists openRow ["Map<String, Integer>".toList, "List<Item<".toList] := by
    refine ⟨["\tMap<String, Integer> ".toList, "\n List<Item< ".toList], ?_, by decide⟩
    exact .cons ⟨['\t'], [' '], by decide, by decide, by decide⟩
      (.cons ⟨['\n', ' '], [' '], by decide, by decide, by decide⟩ .nil)
  exact ⟨separate, tidied, listed, splitArguments_laws.1 _ _ separate tidied listed⟩

end InterfaceGen.Types
