import InterfaceGen.Proofs.Text.Cutting
import InterfaceGen.Proofs.Types.Splitting
import InterfaceGen.Proofs.Types.Tightening

/-!
# What the readers of layers see

The texts of names, arrays and generic types as the readers of a type's outer layer take them
apart, and that each of them can stand as an argument in another.
-/

namespace InterfaceGen.Types

open InterfaceGen.Text

/-- A text is trimmed if it begins and ends with trimmed ones. -/
theorem isTrimmed_append {first middle last : List Char} (hf : IsTrimmed first)
    (nf : first ≠ []) (hl : IsTrimmed last) (nl : last ≠ []) :
    IsTrimmed (first ++ (middle ++ last)) where
  head := by
    obtain ⟨c, rest, rfl⟩ := List.exists_cons_of_ne_nil nf
    exact fun d hd => hf.head d hd
  last := by
    intro d hd
    rw [← List.append_assoc, List.getLast?_append] at hd
    cases hl' : last.getLast? with
    | none => exact absurd (List.getLast?_eq_none_iff.1 hl') nl
    | some e =>
      rw [hl'] at hd
      cases hd
      exact hl.last d hl'

/-- A generic type begins with a name and ends with a bracket. -/
theorem isTrimmed_generic {container : List Char} (name : ∀ c ∈ container, isNameChar c = true)
    (named : container ≠ []) (inside : List Char) :
    IsTrimmed (container ++ '<' :: (inside ++ ['>'])) := by
  have front := isTrimmed_of_forall fun c hc => isBlank_of_isNameChar (name c hc)
  rw [← List.cons_append]
  exact isTrimmed_append front named (isTrimmed_of_forall (by decide)) (by decide)

/-- The element of an array comes back. -/
theorem arrayElement?_append (element : List Char) :
    arrayElement? (element ++ ['[', ']']) = some element := by
  have suffix : ['[', ']'].isSuffixOf (element ++ ['[', ']']) = true :=
    List.isSuffixOf_iff_suffix.2 (List.suffix_append _ _)
  rw [arrayElement?, if_pos suffix]
  have twice : (element ++ ['[', ']']).dropLast.dropLast = element := by
    rw [show element ++ ['[', ']'] = (element ++ ['[']) ++ [']'] by simp, List.dropLast_concat,
      List.dropLast_concat]
  rw [twice]

/-- An array is its element and a pair of brackets. -/
theorem arrayElement?_eq_some {text element : List Char} :
    arrayElement? text = some element ↔ text = element ++ ['[', ']'] := by
  constructor
  · intro h
    unfold arrayElement? at h
    split at h
    · next suffix =>
      obtain ⟨front, rfl⟩ := List.isSuffixOf_iff_suffix.1 suffix
      have read := arrayElement?_append front
      rw [arrayElement?, if_pos suffix] at read
      rw [Option.some.inj (h.symm.trans read)]
    · exact nomatch h
  · rintro rfl
    exact arrayElement?_append element

/-- An array ends with a square bracket. -/
theorem arrayElement?_of_last {text : List Char} (h : ∀ c ∈ text.getLast?, c ≠ ']') :
    arrayElement? text = none := by
  have off : ¬ ['[', ']'].isSuffixOf text = true := by
    intro suffix
    obtain ⟨front, rfl⟩ := List.isSuffixOf_iff_suffix.1 suffix
    exact h ']' (by rw [List.getLast?_append]; rfl) rfl
  rw [arrayElement?, if_neg off]

/-- A generic type is no array. -/
theorem arrayElement?_generic (container inside : List Char) :
    arrayElement? (container ++ '<' :: (inside ++ ['>'])) = none := by
  refine arrayElement?_of_last fun c hc => ?_
  rw [List.getLast?_append, List.getLast?_cons, List.getLast?_concat] at hc
  cases hc
  decide

theorem dropWhile_of_name {name : List Char} (h : ∀ c ∈ name, isNameChar c = true)
    (rest : List Char) : (name ++ rest).dropWhile isNameChar = rest.dropWhile isNameChar :=
  List.dropWhile_append_of_pos h

/-- A generic type has a bracket behind its name. -/
theorem generic?_of_behind {text : List Char} (trimmed : IsTrimmed text)
    (h : ∀ c ∈ (trimLeft (text.dropWhile isNameChar)).head?, c ≠ '<') : generic? text = none := by
  simp only [generic?, trim_of_isTrimmed trimmed]
  split
  · next inner same =>
    rw [same] at h
    exact absurd rfl (h '<' rfl)
  · rfl

/-- A generic type ends with a bracket. -/
theorem generic?_of_last {text : List Char} (trimmed : IsTrimmed text)
    (h : ∀ c ∈ text.getLast?, c ≠ '>') : generic? text = none := by
  simp only [generic?, trim_of_isTrimmed trimmed]
  split
  · next inner same =>
    have suffix : inner <:+ text := by
      have drop := List.dropWhile_suffix isNameChar (l := text)
      have left := List.dropWhile_suffix isBlank (l := text.dropWhile isNameChar)
      rw [trimLeft] at same
      rw [same] at left
      exact (List.suffix_cons '<' inner).trans (left.trans drop)
    rw [if_neg]
    rintro ⟨-, last, -⟩
    obtain ⟨front, rfl⟩ := suffix
    exact h '>' (by rw [List.getLast?_append, last]; rfl) rfl
  · rfl

/-- How the text of a generic type is written, around what its readers return. -/
theorem generic?_eq_some {text container arguments : List Char}
    (h : generic? text = some (container, arguments)) :
    ∃ gap inner, trim text = container ++ (gap ++ '<' :: (inner ++ ['>'])) ∧ container ≠ [] ∧
      (∀ c ∈ container, isNameChar c = true) ∧ (∀ c ∈ gap, isBlank c = true) ∧
      arguments = trim inner := by
  have whole := List.takeWhile_append_dropWhile (p := isNameChar) (l := trim text)
  obtain ⟨gap, blank, behind, -⟩ := exists_gap ((trim text).dropWhile isNameChar)
  simp only [generic?] at h
  split at h
  · next inner found =>
    split at h
    · next shaped =>
      obtain ⟨named, last, -⟩ := shaped
      simp only [Option.some.injEq, Prod.mk.injEq] at h
      obtain ⟨rfl, rfl⟩ := h
      obtain ⟨front, rfl⟩ := List.getLast?_eq_some_iff.1 last
      refine ⟨gap, front, ?_, named, List.all_eq_true.1 List.all_takeWhile, blank, ?_⟩
      · rw [← found, ← behind, whole]
      · rw [List.dropLast_concat]
    · cases h
  · cases h

/-- Between the brackets of a generic type stands something. -/
theorem generic?_append {container : List Char} (name : ∀ c ∈ container, isNameChar c = true)
    (named : container ≠ []) (inside : List Char) :
    generic? (container ++ '<' :: (inside ++ ['>'])) =
      if inside ≠ [] then some (container, trim inside) else none := by
  have front : (container ++ '<' :: (inside ++ ['>'])).takeWhile isNameChar = container := by
    rw [List.takeWhile_append_of_pos name, List.takeWhile_cons_of_neg (by decide),
      List.append_nil]
  have behind : trimLeft ((container ++ '<' :: (inside ++ ['>'])).dropWhile isNameChar) =
      '<' :: (inside ++ ['>']) := by
    rw [dropWhile_of_name name, List.dropWhile_cons_of_neg (by decide)]
    exact trimLeft_of_head fun c hc => by cases hc; decide
  simp only [generic?, trim_of_isTrimmed (isTrimmed_generic name named inside), front, behind]
  rw [List.getLast?_concat, List.dropLast_concat]
  simp only [ne_eq, named, not_false_eq_true, true_and]

/-! ## Texts that can be arguments -/

theorem keptFrom_of_name {name : List Char} {depth : Int} (h : ∀ c ∈ name, isNameChar c = true) :
    KeptFrom depth name := by
  refine .of_forall fun c hc => ?_
  have other := fun d hd => ne_of_isNameChar (d := d) (h c hc) hd
  exact ⟨other '<' rfl, other '>' rfl, other ',' rfl⟩

/-- A row is kept whole inside brackets. -/
theorem KeptFrom.intercalate {texts : List (List Char)} (h : ∀ text ∈ texts, KeptFrom 0 text) :
    KeptFrom 1 ([',', ' '].intercalate texts) := by
  induction texts with
  | nil => exact .nil
  | cons text texts ih =>
    have first : KeptFrom 1 text := (h text (by simp)).mono (by decide)
    cases texts with
    | nil =>
      rw [List.intercalate_singleton]
      exact first
    | cons next texts =>
      have gap : KeptFrom 1 [',', ' '] :=
        (KeptFrom.comma (Int.le_refl 1)).append (.of_forall (by decide))
      rw [List.intercalate_cons_cons]
      exact (first.append gap).append (ih fun t ht => h t (by simp [ht]))

/-- A row of trimmed texts is trimmed. -/
theorem isTrimmed_intercalate {texts : List (List Char)} (nonempty : texts ≠ [])
    (h : ∀ text ∈ texts, IsTrimmed text ∧ text ≠ []) :
    IsTrimmed ([',', ' '].intercalate texts) ∧ [',', ' '].intercalate texts ≠ [] := by
  induction texts with
  | nil => exact absurd rfl nonempty
  | cons text texts ih =>
    have first := h text (by simp)
    cases texts with
    | nil =>
      rw [List.intercalate_singleton]
      exact first
    | cons next texts =>
      obtain ⟨trimmed, inside⟩ := ih (List.cons_ne_nil _ _) fun t ht => h t (by simp [ht])
      rw [List.intercalate_cons_cons, List.append_assoc]
      exact ⟨isTrimmed_append first.1 first.2 trimmed inside, by simp [first.2]⟩

/-- The name of a generic type and the row of its arguments come back. -/
theorem generic?_joined {container : List Char} {texts : List (List Char)}
    (name : ∀ c ∈ container, isNameChar c = true) (named : container ≠ []) (nonempty : texts ≠ [])
    (h : ∀ text ∈ texts, IsTrimmed text ∧ text ≠ []) :
    generic? (container ++ '<' :: ([',', ' '].intercalate texts ++ ['>'])) =
      some (container, [',', ' '].intercalate texts) := by
  obtain ⟨trimmed, filled⟩ := isTrimmed_intercalate nonempty h
  rw [generic?_append name named, if_pos filled, trim_of_isTrimmed trimmed]

namespace IsArgument

/-- A name can be an argument. -/
theorem name {text : List Char} (h : ∀ c ∈ text, isNameChar c = true) (nonempty : text ≠ []) :
    IsArgument text where
  kept := keptFrom_of_name h
  trimmed := isTrimmed_of_forall fun c hc => isBlank_of_isNameChar (h c hc)
  nonempty := nonempty

/-- An array of an argument can be one. -/
theorem array {element : List Char} (h : IsArgument element) :
    IsArgument (element ++ ['[', ']']) where
  kept := h.kept.append (.of_forall (by decide))
  trimmed := by
    have brackets : IsTrimmed ['[', ']'] := ⟨by decide, by decide⟩
    exact @isTrimmed_append element [] _ h.trimmed h.nonempty brackets (by decide)
  nonempty := by simp

theorem generic {container : List Char} {texts : List (List Char)}
    (name : ∀ c ∈ container, isNameChar c = true) (named : container ≠ [])
    (h : ∀ text ∈ texts, IsArgument text) :
    IsArgument (container ++ '<' :: ([',', ' '].intercalate texts ++ ['>'])) where
  kept := (keptFrom_of_name name).append
    (.brackets (.intercalate fun text ht => (h text ht).kept))
  trimmed := isTrimmed_generic name named _
  nonempty := by simp

end IsArgument

end InterfaceGen.Types
