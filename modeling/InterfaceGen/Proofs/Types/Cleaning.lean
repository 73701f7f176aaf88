import InterfaceGen.Proofs.Types.Qualifiers

/-!
# A cleaned spelling is the canonical text

The last pass over a declared type replaces wildcards. With the passes before it, every spelling of
a type is brought to the one canonical text of the type: `clean_of_spelling`.
-/

namespace InterfaceGen.Types

open InterfaceGen.Text InterfaceGen.Source
open Wildcard (stripChars dropBounds afterBound? afterKeyword?)

theorem stripChars_nil : stripChars [] = [] := by
  rw [stripChars, dropBounds, List.flatMap_nil]

/-- A word without a wildcard is kept. -/
theorem stripChars_append {word : List Char} (h : '?' ∉ word) (rest : List Char) :
    stripChars (word ++ rest) = word ++ stripChars rest := by
  induction word with
  | nil => rfl
  | cons c word ih =>
    have differ : c ≠ '?' := fun same => h (by simp [same])
    have tail := ih fun hm => h (List.mem_cons_of_mem _ hm)
    have step : dropBounds (c :: (word ++ rest)) = c :: dropBounds (word ++ rest) := by
      rw [dropBounds, if_neg differ]
    rw [List.cons_append, stripChars, step, List.flatMap_cons, if_neg differ]
    exact congrArg (c :: ·) tail

theorem stripChars_of_notMem {text : List Char} (h : '?' ∉ text) : stripChars text = text := by
  have whole := stripChars_append h []
  rwa [stripChars_nil, List.append_nil] at whole

/-- A wildcard without a bound stands for `Object`. -/
theorem stripChars_bare {rest : List Char} (h : afterBound? rest = none) :
    stripChars ('?' :: rest) = Identifier.object.chars ++ stripChars rest := by
  have step : dropBounds ('?' :: rest) = '?' :: dropBounds rest := by
    rw [dropBounds, if_pos rfl]
    split
    · next after found =>
      rw [h] at found
      cases found
    · rfl
  rw [stripChars, step, List.flatMap_cons, if_pos rfl]
  rfl

/-- A wildcard with a bound stands for its bound. -/
theorem stripChars_bound {rest after : List Char} (h : afterBound? rest = some after) :
    stripChars ('?' :: rest) = stripChars after := by
  have step : dropBounds ('?' :: rest) = dropBounds after := by
    rw [dropBounds, if_pos rfl]
    split
    · next after' found =>
      rw [h] at found
      cases found
      rfl
    · next found =>
      rw [h] at found
      cases found
  rw [stripChars, step]
  rfl

theorem afterKeyword?_append (keyword : List Char) {rest : List Char}
    (h : ∀ c ∈ rest.head?, isBlank c = false) :
    afterKeyword? keyword (keyword ++ ' ' :: rest) = some rest := by
  have here : keyword.isPrefixOf (keyword ++ ' ' :: rest) = true :=
    List.isPrefixOf_iff_prefix.2 (List.prefix_append keyword _)
  rw [afterKeyword?, if_pos here, List.drop_left]
  simp only [if_pos (show isBlank ' ' = true by decide), trimLeft_of_head h]

/-- A bound is found behind its question mark, with or without the space. -/
theorem afterBound?_bounded {gap rest : List Char} (bound : Bound) (slim : IsSlim gap)
    (h : ∀ c ∈ rest.head?, isBlank c = false) :
    afterBound? (gap ++ (bound.keyword ++ ' ' :: rest)) = some rest := by
  obtain ⟨c, more, same⟩ := List.exists_cons_of_ne_nil bound.keyword_ne_nil
  have solid : isBlank c = false :=
    isBlank_of_isNameChar (bound.isNameChar_of_mem (by rw [same]; simp))
  have trimmed : trimLeft (gap ++ (bound.keyword ++ ' ' :: rest)) = bound.keyword ++ ' ' :: rest := by
    rw [trimLeft_append slim.areBlank, trimLeft_of_head]
    intro d hd
    rw [same] at hd
    cases hd
    exact solid
  have found := afterKeyword?_append bound.keyword h
  rw [afterBound?, trimmed]
  cases bound with
  | upper => exact Option.or_eq_some_iff.2 (.inl found)
  | lower => exact Option.or_eq_some_iff.2 (.inr ⟨rfl, found⟩)

/-- No bound begins with a mark. -/
theorem afterBound?_of_isMark {rest : List Char}
    (h : ∀ c ∈ rest.head?, FieldType.isMark c = true) : afterBound? rest = none := by
  cases rest with
  | nil => rfl
  | cons c rest =>
    have mark := h c rfl
    have word : isNameChar c = false := (other_of_isMark mark).1
    have trimmed : trimLeft (c :: rest) = c :: rest :=
      trimLeft_of_head fun d hd => by cases hd; exact isBlank_of_isMark mark
    have none : ∀ keyword first more, keyword = first :: more → isNameChar first = true →
        afterKeyword? keyword (c :: rest) = none := by
      rintro - first more rfl name
      have differ : first ≠ c := ne_of_isNameChar name word
      simp [afterKeyword?, List.isPrefixOf, differ]
    rw [afterBound?, trimmed, none "extends".toList 'e' _ rfl rfl,
      none "super".toList 's' _ rfl rfl]
    rfl

/-- No row of tokens begins with a blank. -/
theorem Joined.head_solid {tokens : List Token} {text : List Char}
    (h : Joined (Token.Piece (· = []) spread) tokens text) :
    ∀ c ∈ text.head?, isBlank c = false := by
  intro d hd
  cases h with
  | nil => exact nomatch hd
  | cons h more =>
    cases h with
    | name n hp =>
      obtain rfl := hp
      obtain ⟨c, rest, same⟩ := List.exists_cons_of_ne_nil n.chars_ne_nil
      rw [same] at hd
      cases hd
      exact isBlank_of_isNameChar (n.isNameChar_of_mem (by rw [same]; simp))
    | wildcard | bounded =>
      cases hd
      decide
    | mark c known =>
      obtain ⟨tail, same⟩ := spread_eq_cons c
      rw [same] at hd
      cases hd
      exact isBlank_of_isMark known

/-- No wildcard is left in a canonical text. -/
theorem Token.wildcard_notMem_canonical : (t : Token) → '?' ∉ t.canonical
  | .name _ => fun hm => absurd (Identifier.isNameChar_of_mem _ hm) (by decide)
  | .wildcard => fun hm => absurd (Identifier.object.isNameChar_of_mem hm) (by decide)
  | .bounded _ => List.not_mem_nil
  | .mark c known => by
    rw [Token.canonical]
    split
    · decide
    · intro hm
      rw [← List.mem_singleton.1 hm] at known
      exact absurd known (by decide)

/-- Replacing the wildcards of a tight row leaves its canonical text. -/
theorem Joined.stripChars {tokens : List Token} {text : List Char}
    (h : Joined (Token.Piece (· = []) spread) tokens text)
    (chain : tokens.IsChain Token.Precedes) :
    stripChars text = tokens.flatMap Token.canonical := by
  induction h with
  | nil => exact stripChars_nil
  | @cons t text rest tokens h more ih =>
    obtain ⟨precedes, chain'⟩ := List.isChain_cons.1 chain
    rw [List.flatMap_cons, ← ih chain']
    cases h with
    | name n hp =>
      obtain rfl := hp
      exact stripChars_append (Token.name n).wildcard_notMem_canonical rest
    | wildcard => exact stripChars_bare (afterBound?_of_isMark (more.head_of_isMark precedes))
    | @bounded gap bound slim =>
      have found := afterBound?_bounded bound slim more.head_solid
      have parted : gap ++ (bound.keyword ++ [' ']) ++ rest =
          gap ++ (bound.keyword ++ ' ' :: rest) := by simp
      rw [List.cons_append, parted, stripChars_bound found]
      rfl
    | mark c known => exact stripChars_append (Token.mark c known).wildcard_notMem_canonical rest

/-- Every spelling of a type is cleaned to its canonical text. -/
theorem clean_of_spelling {t : JavaType} {text : List Char} (h : t.Spelling text) :
    FieldType.cleanChars text = t.text := by
  have row := t.isRow_tokens
  have tight := h.trim_collapse.tighten row.chain row.closed false
  have bare := @Joined.erasedFrom _ _ tight.spaceCommas row.chain none (.inl rfl) 0
  rw [FieldType.cleanChars, Pattern.erase_eq, FieldType.tighten, bare.stripChars row.chain,
    t.canonical_tokens]

/-- The canonical text is its own form without wildcards. -/
theorem JavaType.stripChars_text (t : JavaType) : stripChars t.text = t.text := by
  have free : '?' ∉ t.text := by
    rw [← t.canonical_tokens, List.mem_flatMap]
    rintro ⟨token, -, hm⟩
    exact token.wildcard_notMem_canonical hm
  exact stripChars_of_notMem free

end InterfaceGen.Types
