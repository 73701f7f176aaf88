import InterfaceGen.Text.Split

/-!
# Cutting at a separator

The pieces that `cutAt` makes do not hold the separator, and joining pieces of this kind is what it
undoes. The other way round, joining undoes any cutting that takes away separators only:
`intercalate_cutBy`.
-/

namespace InterfaceGen.Text

variable {separator : Char}

theorem cutAt_cons (c : Char) (text : List Char) :
    cutAt separator (c :: text) =
      if c = separator then [] :: cutAt separator text else prepend c (cutAt separator text) := by
  by_cases same : c = separator
  · simp only [cutAt, cutBy, same, if_true]
  · simp only [cutAt, cutBy, if_neg same]

theorem cutAt_of_notMem {word : List Char} (h : separator ∉ word) :
    cutAt separator word = [word] := by
  induction word with
  | nil => rfl
  | cons c word ih =>
    have differ : c ≠ separator := fun same => h (by simp [same])
    rw [cutAt_cons, if_neg differ, ih fun hm => h (List.mem_cons_of_mem _ hm)]
    rfl

/-- A word in front of a separator is cut off. -/
theorem cutAt_append_cons {word : List Char} (h : separator ∉ word) (rest : List Char) :
    cutAt separator (word ++ separator :: rest) = word :: cutAt separator rest := by
  induction word with
  | nil => rw [List.nil_append, cutAt_cons, if_pos rfl]
  | cons c word ih =>
    have differ : c ≠ separator := fun same => h (by simp [same])
    rw [List.cons_append, cutAt_cons, if_neg differ, ih fun hm => h (List.mem_cons_of_mem _ hm)]
    rfl

/-- A text is cut at its first separator in one way only. -/
theorem eq_of_append_cons {word other rest rest' : List Char} (h : separator ∉ word)
    (h' : separator ∉ other) (same : word ++ separator :: rest = other ++ separator :: rest') :
    word = other ∧ rest = rest' := by
  have cut := congrArg (cutAt separator) same
  rw [cutAt_append_cons h, cutAt_append_cons h'] at cut
  obtain rfl : word = other := List.head_eq_of_cons_eq cut
  exact ⟨rfl, List.tail_eq_of_cons_eq (List.append_cancel_left same)⟩

theorem notMem_of_mem_cutAt {text piece : List Char} (h : piece ∈ cutAt separator text) :
    separator ∉ piece := by
  induction text generalizing piece with
  | nil =>
    rw [List.mem_singleton.1 h]
    exact List.not_mem_nil
  | cons c text ih =>
    rw [cutAt_cons] at h
    split at h
    · rcases List.mem_cons.1 h with rfl | h
      · exact List.not_mem_nil
      · exact ih h
    · next differ =>
      rcases mem_prepend h with rfl | h | ⟨p, hp, rfl⟩
      · exact fun hm => differ (List.mem_singleton.1 hm).symm
      · exact ih h
      · intro hm
        rcases List.mem_cons.1 hm with same | hm
        · exact differ same.symm
        · exact ih hp hm

/-- The pieces stand in the text. -/
theorem isInfix_of_mem_cutAt {text piece : List Char} (h : piece ∈ cutAt separator text) :
    piece <:+: text := by
  by_cases there : separator ∈ text
  · obtain ⟨word, rest, rfl, off⟩ := List.eq_append_cons_of_mem there
    rw [cutAt_append_cons off] at h
    rcases List.mem_cons.1 h with rfl | h
    · exact (List.prefix_append _ _).isInfix
    · have later := isInfix_of_mem_cutAt h
      exact later.trans ((List.suffix_cons _ _).trans (List.suffix_append _ _)).isInfix
  · rw [cutAt_of_notMem there, List.mem_singleton] at h
    exact h ▸ List.infix_rfl
termination_by text.length
decreasing_by
  subst_vars
  simp only [List.length_append, List.length_cons]
  omega

theorem mem_of_mem_cutAt {c : Char} {text piece : List Char}
    (hp : piece ∈ cutAt separator text) (hc : c ∈ piece) : c ∈ text :=
  (isInfix_of_mem_cutAt hp).subset hc

theorem cutBy_ne_nil {σ : Type} (step : σ → Char → σ × Mark) (state : σ) (text : List Char) :
    cutBy step state text ≠ [] := by
  cases text with
  | nil => exact List.cons_ne_nil _ _
  | cons c text =>
    rw [cutBy]
    split
    · next next _ => cases cutBy step next text <;> exact List.cons_ne_nil _ _
    · exact List.cons_ne_nil _ _
    · exact List.cons_ne_nil _ _

theorem cutAt_ne_nil (separator : Char) (text : List Char) : cutAt separator text ≠ [] :=
  cutBy_ne_nil _ _ text

/-- Joining the pieces gives the text back, whatever decides which separators are cut at. -/
theorem intercalate_cutBy {σ : Type} {step : σ → Char → σ × Mark}
    (only : ∀ state c, (step state c).2 = .cut → c = separator)
    (whole : ∀ state c, (step state c).2 ≠ .stop) (text : List Char) :
    ∀ state, [separator].intercalate (cutBy step state text) = text := by
  induction text with
  | nil => exact fun _ => rfl
  | cons c text ih =>
    intro state
    rw [cutBy]
    cases marked : step state c with
    | mk next mark =>
      have joined := ih next
      obtain ⟨piece, pieces, same⟩ := List.exists_cons_of_ne_nil (cutBy_ne_nil step next text)
      rw [same] at joined
      cases mark with
      | keep => cases pieces <;> simp_all [prepend, List.intercalate_cons_cons]
      | cut =>
        have here := only state c (by rw [marked])
        simp only [same, List.intercalate_cons_cons, joined, here, List.nil_append,
          List.singleton_append]
      | stop => exact absurd (by rw [marked]) (whole state c)

/-- The pieces with separators between them are the text. -/
theorem intercalate_cutAt (separator : Char) (text : List Char) :
    [separator].intercalate (cutAt separator text) = text := by
  refine intercalate_cutBy (fun _ c cut => ?_) (fun _ c => ?_) text ()
  · dsimp only at cut
    split at cut
    · next same => exact same
    · exact nomatch cut
  · dsimp only
    split <;> exact nofun

theorem mem_of_mem_intercalate {between : List Char} {pieces : List (List Char)} {c : Char}
    (h : c ∈ between.intercalate pieces) : c ∈ between ∨ ∃ piece ∈ pieces, c ∈ piece := by
  induction pieces with
  | nil => cases h
  | cons piece pieces ih =>
    cases pieces with
    | nil =>
      rw [List.intercalate_singleton] at h
      exact .inr ⟨piece, List.mem_cons_self .., h⟩
    | cons next pieces =>
      rw [List.intercalate_cons_cons, List.mem_append, List.mem_append] at h
      rcases h with (first | joint) | later
      · exact .inr ⟨piece, List.mem_cons_self .., first⟩
      · exact .inl joint
      · refine (ih later).imp_right ?_
        rintro ⟨other, member, there⟩
        exact ⟨other, List.mem_cons_of_mem _ member, there⟩

/-- Pieces without the separator are cut apart again. -/
theorem cutAt_intercalate {pieces : List (List Char)} (nonempty : pieces ≠ [])
    (h : ∀ piece ∈ pieces, separator ∉ piece) :
    cutAt separator ([separator].intercalate pieces) = pieces := by
  induction pieces with
  | nil => exact absurd rfl nonempty
  | cons piece pieces ih =>
    cases pieces with
    | nil => rw [List.intercalate_singleton, cutAt_of_notMem (h piece (by simp))]
    | cons next pieces =>
      rw [List.intercalate_cons_cons, List.append_assoc, List.singleton_append,
        cutAt_append_cons (h piece (by simp)),
        ih (List.cons_ne_nil _ _) fun p hp => h p (List.mem_cons_of_mem _ hp)]

end InterfaceGen.Text
