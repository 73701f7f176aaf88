import InterfaceGen.Proofs.Types.Shapes

/-!
# Pieces of a type text

Each reader of a layer returns a piece of its text that no name character is next to, and pieces of
pieces are pieces.
-/

namespace InterfaceGen.Types

open InterfaceGen.Text

/-- The text ends where no name goes on. -/
def EndsWord (text : List Char) : Prop :=
  ∀ c ∈ text.getLast?, isNameChar c = false

/-- The text begins where no name goes on. -/
def BeginsWord (text : List Char) : Prop :=
  ∀ c ∈ text.head?, isNameChar c = false

/-- The piece stands in the text without a name character next to it. -/
def IsPiece (piece text : List Char) : Prop :=
  ∃ before after, text = before ++ (piece ++ after) ∧ EndsWord before ∧ BeginsWord after

theorem EndsWord.nil : EndsWord [] :=
  fun _ hc => nomatch hc

theorem BeginsWord.nil : BeginsWord [] :=
  fun _ hc => nomatch hc

theorem isBlank_of_mem_takeWhile {text : List Char} {c : Char} (h : c ∈ text.takeWhile isBlank) :
    isBlank c = true :=
  List.all_eq_true.1 List.all_takeWhile c h

/-- Two texts that end so end so together. -/
theorem EndsWord.append {first second : List Char} (hf : EndsWord first) (hs : EndsWord second) :
    EndsWord (first ++ second) := by
  intro c hc
  rw [List.getLast?_append] at hc
  cases last : second.getLast? with
  | none =>
    rw [last] at hc
    exact hf c hc
  | some d =>
    rw [last] at hc
    cases hc
    exact hs _ last

/-- Two texts that begin so begin so together. -/
theorem BeginsWord.append {first second : List Char} (hf : BeginsWord first)
    (hs : BeginsWord second) : BeginsWord (first ++ second) := by
  cases first with
  | nil => exact hs
  | cons c first => exact hf

theorem EndsWord.of_forall {text : List Char} (h : ∀ c ∈ text, isNameChar c = false) :
    EndsWord text :=
  fun c hc => h c (List.mem_of_mem_getLast? hc)

theorem BeginsWord.of_forall {text : List Char} (h : ∀ c ∈ text, isNameChar c = false) :
    BeginsWord text :=
  fun c hc => h c (List.mem_of_mem_head? hc)

namespace IsPiece

theorem trans {first second third : List Char} (h1 : IsPiece first second)
    (h2 : IsPiece second third) : IsPiece first third := by
  obtain ⟨before, after, rfl, ends, begins⟩ := h1
  obtain ⟨front, back, rfl, ends', begins'⟩ := h2
  exact ⟨front ++ before, after ++ back, by simp, ends'.append ends, begins.append begins'⟩

theorem subset {piece text : List Char} (h : IsPiece piece text) : piece ⊆ text := by
  obtain ⟨before, after, rfl, -⟩ := h
  intro c hc
  simp [hc]

theorem trimLeft (text : List Char) : IsPiece (trimLeft text) text := by
  refine ⟨text.takeWhile isBlank, [], ?_, .of_forall fun c hc => ?_, .nil⟩
  · rw [List.append_nil, Text.trimLeft, List.takeWhile_append_dropWhile]
  · exact isNameChar_of_isBlank (isBlank_of_mem_takeWhile hc)

theorem trimRight (text : List Char) : IsPiece (trimRight text) text := by
  obtain ⟨before, after, same, -, -⟩ := IsPiece.trimLeft text.reverse
  refine ⟨[], (text.reverse.takeWhile isBlank).reverse, ?_, .nil,
    .of_forall fun c hc => ?_⟩
  · rw [List.nil_append, trimRight_eq, ← List.reverse_append, Text.trimLeft,
      List.takeWhile_append_dropWhile, List.reverse_reverse]
  · exact isNameChar_of_isBlank (isBlank_of_mem_takeWhile (List.mem_reverse.1 hc))

/-- What is left of a trimmed text is a piece of it. -/
theorem trim (text : List Char) : IsPiece (trim text) text :=
  (IsPiece.trimRight _).trans (.trimLeft text)

/-- The element of an array. -/
theorem arrayElement? {text element : List Char} (h : arrayElement? text = some element) :
    IsPiece element text := by
  refine ⟨[], ['[', ']'], ?_, .nil, .of_forall (by decide)⟩
  rw [List.nil_append, arrayElement?_eq_some.1 h]

/-- The name of a generic type and the text of its arguments. -/
theorem generic? {text container arguments : List Char}
    (h : generic? text = some (container, arguments)) :
    IsPiece container text ∧ IsPiece arguments text := by
  obtain ⟨gap, inner, same, -, -, blank, rfl⟩ := generic?_eq_some h
  have gapped : BeginsWord (gap ++ '<' :: (inner ++ ['>'])) := by
    refine .append (.of_forall fun c hc => isNameChar_of_isBlank (blank c hc)) fun c hc => ?_
    cases hc
    decide
  have bracket : EndsWord (container ++ (gap ++ ['<'])) := by
    rw [← List.append_assoc]
    intro c hc
    rw [List.getLast?_concat] at hc
    cases hc
    decide
  have named : IsPiece container (Text.trim text) := ⟨[], _, same, .nil, gapped⟩
  have inside : IsPiece inner (Text.trim text) := by
    refine ⟨_, ['>'], ?_, bracket, .of_forall (by decide)⟩
    rw [same]
    simp
  exact ⟨named.trans (.trim text), (IsPiece.trim inner).trans (inside.trans (.trim text))⟩

end IsPiece

/-! ## Pieces between separators -/

/-- A cutter that cuts at characters outside names and never stops. -/
structure CutsOutside {σ : Type} (step : σ → Char → σ × Mark) : Prop where
  cut : ∀ state c, (step state c).2 = .cut → isNameChar c = false
  stop : ∀ state c, (step state c).2 ≠ .stop

/-- The piece ends before the end of a name at most. -/
def IsFirst (piece text : List Char) : Prop :=
  ∃ after, text = piece ++ after ∧ BeginsWord after

/-- The piece follows a separator. -/
def IsLater (piece text : List Char) : Prop :=
  ∃ before c after, text = before ++ c :: (piece ++ after) ∧ isNameChar c = false ∧ BeginsWord after

theorem IsFirst.isPiece {piece text : List Char} (h : IsFirst piece text) : IsPiece piece text := by
  obtain ⟨after, rfl, begins⟩ := h
  exact ⟨[], after, rfl, .nil, begins⟩

/-- A later piece is a piece, as no name goes over a separator. -/
theorem IsLater.isPiece {piece text : List Char} (h : IsLater piece text) : IsPiece piece text := by
  obtain ⟨before, c, after, rfl, other, begins⟩ := h
  refine ⟨before ++ [c], after, by simp, ?_, begins⟩
  intro d hd
  rw [List.getLast?_concat] at hd
  cases hd
  exact other

/-- A cutter that leaves names alone returns a first piece and later ones. -/
theorem cutBy_pieces {σ : Type} {step : σ → Char → σ × Mark} (outside : CutsOutside step)
    (text : List Char) : ∀ state, ∃ first others, cutBy step state text = first :: others ∧
      IsFirst first text ∧ ∀ piece ∈ others, IsLater piece text := by
  induction text with
  | nil => exact fun _ => ⟨[], [], rfl, ⟨[], rfl, .nil⟩, List.forall_mem_nil _⟩
  | cons c text ih =>
    intro state
    rw [cutBy]
    cases marked : step state c with
    | mk next mark =>
      obtain ⟨first, others, same, ⟨after, rest, begins⟩, later⟩ := ih next
      have shifted : ∀ piece ∈ others, IsLater piece (c :: text) := by
        intro piece hp
        obtain ⟨before, d, after, rfl, other, begins⟩ := later piece hp
        exact ⟨c :: before, d, after, rfl, other, begins⟩
      -- A later piece begins behind a cut, and no name character is cut at.
      cases mark with
      | keep =>
        refine ⟨c :: first, others, by simp only [same, prepend], ⟨after, ?_, begins⟩, shifted⟩
        rw [List.cons_append, rest]
      | cut =>
        have other : isNameChar c = false := outside.cut state c (by rw [marked])
        refine ⟨[], first :: others, by simp only [same], ⟨c :: text, rfl, ?_⟩, ?_⟩
        · intro d hd
          cases hd
          exact other
        · intro piece hp
          rcases List.mem_cons.1 hp with rfl | hp
          · exact ⟨[], c, after, by rw [rest]; rfl, other, begins⟩
          · exact shifted piece hp
      | stop => exact absurd (by rw [marked]) (outside.stop state c)

/-- All that it returns are pieces. -/
theorem isPiece_of_mem_cutBy {σ : Type} {step : σ → Char → σ × Mark} (outside : CutsOutside step)
    {state : σ} {text piece : List Char} (h : piece ∈ cutBy step state text) :
    IsPiece piece text := by
  obtain ⟨first, others, same, head, tail⟩ := cutBy_pieces outside text state
  rw [same] at h
  rcases List.mem_cons.1 h with rfl | h
  · exact head.isPiece
  · exact (tail piece h).isPiece

/-- The cutter of arguments cuts at commas only. -/
theorem cutsOutside_argumentStep : CutsOutside argumentStep where
  cut depth c h := by
    unfold argumentStep at h
    split at h
    · exact nomatch h
    · split at h
      · exact nomatch h
      · split at h
        · next both =>
          rw [both.1]
          decide
        · exact nomatch h
  stop depth c := by
    unfold argumentStep
    split
    · exact nofun
    · split
      · exact nofun
      · split <;> exact nofun

/-- Arguments are pieces of their row. -/
theorem isPiece_of_mem_splitArguments {text argument : List Char}
    (h : argument ∈ splitArguments text) : IsPiece argument text := by
  have listed : argument ∈ (cutBy argumentStep 0 text).map trim := by
    simp only [splitArguments, tidy] at h
    split at h
    · exact List.dropLast_subset _ h
    · exact h
  obtain ⟨piece, hp, rfl⟩ := List.mem_map.1 listed
  exact (IsPiece.trim piece).trans (isPiece_of_mem_cutBy cutsOutside_argumentStep hp)

/-- So are the texts between separators that belong to no name. -/
theorem isPiece_of_mem_cutAt {separator : Char} (other : isNameChar separator = false)
    {text piece : List Char} (h : piece ∈ cutAt separator text) : IsPiece piece text := by
  refine isPiece_of_mem_cutBy ⟨fun _ c cut => ?_, fun _ c => ?_⟩ h
  · dsimp only at cut
    split at cut
    · next same =>
      rw [same]
      exact other
    · exact nomatch cut
  · dsimp only
    split <;> exact nofun

end InterfaceGen.Types
