import InterfaceGen.Text.Blank

/-!
# Cutting a text into pieces

`cutBy` walks a text with a state and decides at each character whether it belongs to the current
piece, separates it from the next one, or ends the text; there is always at least one piece.
`tidy` trims pieces and drops an empty last one, so that a trailing separator makes no piece.
-/

namespace InterfaceGen.Text

/-- What a character is to the piece that it stands in. -/
inductive Mark where
  | keep
  | cut
  | stop

/-- The pieces with a character put before the first of them. -/
def prepend (c : Char) : List (List Char) → List (List Char)
  | [] => [[c]]
  | piece :: pieces => (c :: piece) :: pieces

/-- The pieces of a text, where `step` marks each character and moves the state. -/
def cutBy {σ : Type} (step : σ → Char → σ × Mark) : σ → List Char → List (List Char)
  | _, [] => [[]]
  | state, c :: rest =>
    match step state c with
    | (next, .keep) => prepend c (cutBy step next rest)
    | (next, .cut) => [] :: cutBy step next rest
    | (_, .stop) => [[]]

/-- The pieces between the occurrences of a separator. -/
def cutAt (separator : Char) (text : List Char) : List (List Char) :=
  cutBy (fun (_ : Unit) c => ((), if c = separator then .cut else .keep)) () text

/-- The trimmed pieces, without the last one if it is empty. -/
def tidy (pieces : List (List Char)) : List (List Char) :=
  let trimmed := pieces.map trim
  if trimmed.getLast? = some [] then trimmed.dropLast else trimmed

theorem mem_prepend {c : Char} {pieces : List (List Char)} {piece : List Char}
    (h : piece ∈ prepend c pieces) :
    piece = [c] ∨ piece ∈ pieces ∨ ∃ p ∈ pieces, piece = c :: p := by
  cases pieces with
  | nil => simp_all [prepend]
  | cons p ps =>
    rcases List.mem_cons.1 h with rfl | h
    · exact .inr (.inr ⟨p, by simp, rfl⟩)
    · exact .inr (.inl (by simp [h]))

/-- A piece is no longer than the text. -/
theorem length_le_of_mem_cutBy {σ : Type} {step : σ → Char → σ × Mark} {state : σ}
    {text piece : List Char} (h : piece ∈ cutBy step state text) :
    piece.length ≤ text.length := by
  induction text generalizing state piece with
  | nil => simp_all [cutBy]
  | cons c rest ih =>
    rw [cutBy] at h
    split at h
    · rcases mem_prepend h with rfl | h | ⟨p, hp, rfl⟩
      · simp
      · have := ih h
        simp only [List.length_cons]
        omega
      · have := ih hp
        simp only [List.length_cons]
        omega
    · rcases List.mem_cons.1 h with rfl | h
      · simp
      · have := ih h
        simp only [List.length_cons]
        omega
    · simp_all

/-- Where a text holds the separator, each of its pieces is shorter than the text. -/
theorem length_lt_of_mem_cutAt {separator : Char} {text piece : List Char}
    (hs : separator ∈ text) (h : piece ∈ cutAt separator text) : piece.length < text.length := by
  induction text generalizing piece with
  | nil => simp at hs
  | cons c rest ih =>
    simp only [cutAt, cutBy] at h
    by_cases hc : c = separator
    · simp only [hc, if_true] at h
      rcases List.mem_cons.1 h with rfl | h
      · simp
      · have := length_le_of_mem_cutBy h
        simp only [List.length_cons]
        omega
    · simp only [hc, if_false] at h
      have hr : separator ∈ rest := by
        rcases List.mem_cons.1 hs with rfl | hr
        · exact absurd rfl hc
        · exact hr
      rcases mem_prepend h with rfl | h | ⟨p, hp, rfl⟩
      · have := List.length_pos_of_mem hr
        simp only [List.length_cons]
        simp only [List.length_nil]
        omega
      · have := ih hr h
        simp only [List.length_cons]
        omega
      · have := ih hr hp
        simp only [List.length_cons]
        omega

/-- Tidying makes no piece longer. -/
theorem length_le_of_mem_tidy {pieces : List (List Char)} {piece : List Char} {n : Nat}
    (hn : ∀ p ∈ pieces, p.length ≤ n) (h : piece ∈ tidy pieces) : piece.length ≤ n := by
  have hm : piece ∈ pieces.map trim := by
    simp only [tidy] at h
    split at h
    · exact (List.dropLast_sublist _).subset h
    · exact h
  obtain ⟨p, hp, rfl⟩ := List.mem_map.1 hm
  exact Nat.le_trans (length_trim_le p) (hn p hp)

end InterfaceGen.Text
