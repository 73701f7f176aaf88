import InterfaceGen.Proofs.Source.TypeReading
import Mathlib.Data.List.TakeWhile

/-!
# What the field patterns read

Each part of a field pattern reads the part of a declaration that it is for. The type of a field is
read as short as the rest allows; `Core.reads` shows that no shorter type is tried with success.
-/

namespace InterfaceGen.Source

open InterfaceGen.Text InterfaceGen.Text.Pattern InterfaceGen.Types
open FieldList (Part wordPair modifiers declaredType ending comma isTypeChar)

variable {ι : Type} {word rest : List Char}

/-! ## Modifiers -/

/-- One modifier with the blanks behind it. -/
def modifier : Pattern Part :=
  (.word "static" <|> .word "final" <|> .word "transient" <|> .word "volatile") ++ .spacing

theorem modifiers_eq : modifiers =
    .notFollowedBy (wordPair "static" "final" <|> wordPair "final" "static") ++ .many modifier :=
  rfl

/-- A word of letters where another word stands. -/
theorem rejects_other_word {text : String} {q : Pattern ι}
    (letters : text.toList.all isWordChar = true) (nonempty : text.toList ≠ [])
    (other : rest.takeWhile isWordChar ≠ text.toList) (leaves : LeavesWord q) :
    Rejects (.word text ++ q) rest :=
  .of_first_word (List.all_eq_true.1 letters) nonempty other leaves

/-- No modifier is read where another word stands. -/
theorem rejects_modifier (h : rest.takeWhile isWordChar ∉ modifierWords) :
    Rejects modifier rest := by
  simp only [modifierWords, fieldModifiers, List.mem_cons, List.not_mem_nil, or_false, not_or] at h
  obtain ⟨static, final, transient, volatile⟩ := h
  refine .either_seq ?_ (.either_seq ?_ (.either_seq ?_ ?_))
  · exact rejects_other_word (by decide) (by decide) static .spacing
  · exact rejects_other_word (by decide) (by decide) final .spacing
  · exact rejects_other_word (by decide) (by decide) transient .spacing
  · exact rejects_other_word (by decide) (by decide) volatile .spacing

/-- A modifier is read with the blanks behind it. -/
theorem reads_modifier {gap : List Char} (h : word ∈ fieldModifiers) (hg : AreBlank gap)
    (nonempty : gap ≠ []) (outside : ∀ c ∈ rest.head?, isBlank c = false) :
    Reads modifier (word ++ gap) rest [] := by
  refine .bare_seq ?_ (reads_spacing hg nonempty outside)
  simp only [fieldModifiers, List.mem_cons, List.not_mem_nil, or_false] at h
  rcases h with rfl | rfl | rfl
  · exact .either_right (rejects_word (c := 's') rfl (head?_ne (by decide) _))
      (.either_left (.exactly _))
  · exact .either_right (rejects_word (c := 's') rfl (head?_ne (by decide) _))
      (.either_right (rejects_word (c := 'f') rfl (head?_ne (by decide) _))
        (.either_left (.exactly _)))
  · exact .either_right (rejects_word (c := 's') rfl (head?_ne (by decide) _))
      (.either_right (rejects_word (c := 'f') rfl (head?_ne (by decide) _))
        (.either_right (rejects_word (c := 't') rfl (head?_ne (by decide) _)) (.exactly _)))

theorem isWordChar_of_mem_modifier (h : word ∈ fieldModifiers) :
    word ≠ [] ∧ ∀ c ∈ word, isWordChar c = true := by
  have table : ∀ word ∈ fieldModifiers, word ≠ [] ∧ ∀ c ∈ word, isWordChar c = true := by decide
  exact table word h

theorem Modifiers.head {text : List Char} (h : Modifiers text)
    (outside : ∀ c ∈ rest.head?, isBlank c = false) :
    ∀ c ∈ (text ++ rest).head?, isBlank c = false := by
  cases h with
  | nil => exact outside
  | @cons word gap more h =>
    obtain ⟨nonempty, letters⟩ := isWordChar_of_mem_modifier h
    obtain ⟨c, word, rfl⟩ := List.exists_cons_of_ne_nil nonempty
    exact head?_other (isBlank_of_isWordChar (letters c (List.mem_cons_self ..))) _

/-- Modifiers are repeated up to a word that is none. -/
theorem Modifiers.repeats {text : List Char} (h : Modifiers text)
    (other : rest.takeWhile isWordChar ∉ modifierWords)
    (outside : ∀ c ∈ rest.head?, isBlank c = false) : Repeats modifier rest text := by
  induction h with
  | nil => exact .nil (rejects_modifier other)
  | @cons word gap more h hg nonempty modifiers ih =>
    have item := Repeats.cons (by simp [nonempty])
      (reads_modifier h hg nonempty (modifiers.head outside)) ih
    simpa using item

theorem takeWhile_modifier {gap : List Char} (h : word ∈ fieldModifiers) (hg : AreBlank gap)
    (nonempty : gap ≠ []) (rest : List Char) :
    (word ++ (gap ++ rest)).takeWhile isWordChar = word := by
  rw [takeWhile_append_apart (beginsApart_blank hg nonempty rest)]
  exact List.takeWhile_eq_self_iff.2 (isWordChar_of_mem_modifier h).2

/-- No declaration is static. -/
theorem Modifiers.takeWhile_ne {text : List Char} (h : Modifiers text)
    (other : rest.takeWhile isWordChar ∉ modifierWords) :
    (text ++ rest).takeWhile isWordChar ≠ "static".toList := by
  cases h with
  | nil =>
    intro same
    rw [List.nil_append] at same
    exact other (by rw [same]; decide)
  | @cons word gap more h hg nonempty =>
    rw [List.append_assoc, List.append_assoc, takeWhile_modifier h hg nonempty]
    rintro rfl
    exact absurd h (by decide)

/-- No declaration is both static and final. -/
theorem Modifiers.rejects_wordPairs {text : List Char} (h : Modifiers text)
    (other : rest.takeWhile isWordChar ∉ modifierWords)
    (outside : ∀ c ∈ rest.head?, isBlank c = false) :
    Rejects (wordPair "static" "final" <|> wordPair "final" "static") (text ++ rest) := by
  refine .either ?_ ?_
  · exact ((rejects_other_word (by decide) (by decide) (h.takeWhile_ne other) .spacing).seq _).seq _
  · by_cases final : (text ++ rest).takeWhile isWordChar = "final".toList
    · cases h with
      | nil =>
        rw [List.nil_append] at final
        exact absurd (by rw [final]; decide) other
      | @cons word gap more h hg nonempty modifiers =>
        have off : Rejects (.word "static" ++ .wordEdge : Pattern Part) (more ++ rest) :=
          rejects_other_word (by decide) (by decide) (modifiers.takeWhile_ne other) .wordEdge
        have behind : Rejects (.spacing ++ (.word "static" ++ .wordEdge) : Pattern Part)
            (gap ++ (more ++ rest)) := by
          refine .someRun nonempty hg (modifiers.head outside) (fun c tail blank => ?_) off
          refine (rejects_word (c := 's') rfl (head?_ne ?_ _)).seq _
          rintro rfl
          exact absurd blank (by decide)
        rw [List.append_assoc, List.append_assoc] at final ⊢
        rw [takeWhile_modifier h hg nonempty] at final
        rw [final]
        exact .assoc (.assoc (.exactly_seq behind _))
    · exact ((rejects_other_word (by decide) (by decide) final .spacing).seq _).seq _

/-- Modifiers are read, unless they are those of a constant. -/
theorem Modifiers.reads {text : List Char} (h : Modifiers text)
    (other : rest.takeWhile isWordChar ∉ modifierWords)
    (outside : ∀ c ∈ rest.head?, isBlank c = false) : Reads modifiers text rest [] := by
  rw [modifiers_eq]
  exact @Reads.bare_seq _ _ _ [] _ _ _ (.notFollowedBy (h.rejects_wordPairs other outside))
    (.many (h.repeats other outside))

/-! ## Names and the end of a declaration -/

theorem rejects_comma (h : AreBlank word)
    (outside : ∀ c ∈ rest.head?, isBlank c = false ∧ c ≠ ',') : Rejects comma (word ++ rest) :=
  (rejects_blanks_word (c := ',') rfl (by decide) h outside).seq _

theorem FurtherNames.head {names : List FieldName} {text : List Char}
    (h : FurtherNames names text) (outside : ∀ c ∈ rest.head?, isNameChar c = false) :
    ∀ c ∈ (text ++ rest).head?, isNameChar c = false := by
  cases h with
  | nil => exact outside
  | @cons n names before behind more hb =>
    rw [List.append_assoc]
    exact forall_head?_append (fun c hc => isNameChar_of_isBlank (hb c hc))
      (head?_other (by decide) _)

/-- A comma is read with the blanks around it. -/
theorem reads_comma {before behind : List Char} (hb : AreBlank before) (hb' : AreBlank behind)
    (outside : ∀ c ∈ rest.head?, isBlank c = false) :
    Reads comma (before ++ ([','] ++ behind)) rest [] :=
  .assoc (.bare_seq (reads_blanks hb (head?_other (by decide) _))
    (.bare_seq (.exactly _) (reads_blanks hb' outside)))

/-- A name begins with no blank. -/
theorem FieldName.head (n : FieldName) (rest : List Char) :
    ∀ c ∈ (n.chars ++ rest).head?, isBlank c = false := by
  obtain ⟨c, more, same, -, -⟩ := isHeadedBy_iff.1 n.wellFormed
  have name := isNameChar_of_mem n c (by rw [same]; exact List.mem_cons_self ..)
  rw [same]
  exact head?_other (isBlank_of_isNameChar name) _

/-- Further names are repeated up to where no comma stands. -/
theorem FurtherNames.repeats {names : List FieldName} {text : List Char}
    (h : FurtherNames names text) (off : Rejects comma rest)
    (outside : ∀ c ∈ rest.head?, isNameChar c = false) : Repeats (comma ++ .name) rest text := by
  induction h with
  | nil => exact .nil (off.seq _)
  | @cons n names before behind more hb hb' further ih =>
    have item : Reads (comma ++ .name) ((before ++ ([','] ++ behind)) ++ n.chars) (more ++ rest)
        [] :=
      .bare_seq (reads_comma hb hb' (n.head _)) (reads_name n (further.head outside))
    have all := Repeats.cons (by simp) item ih
    simpa using all

/-- What ends a declaration behind its names and the blanks there. -/
def valuePattern : Pattern Part :=
  .optional (.word "=" ++ .run (· != ';'))

theorem reads_value {value : List Char} (closed : ';' ∉ value) (rest : List Char) :
    Reads valuePattern ('=' :: value) (';' :: rest) [] := by
  have inside : ∀ c ∈ value, (c != ';') = true := by
    intro c hc
    rw [bne_iff_ne]
    rintro rfl
    exact closed hc
  have run : Reads (.run (· != ';') : Pattern Part) value (';' :: rest) [] :=
    .run inside (head?_other (by decide) _)
  have whole : Reads (.word "=" ++ .run (· != ';') : Pattern Part) (['='] ++ value) (';' :: rest)
      [] :=
    .bare_seq (.exactly _) run
  exact .optional_some whole

theorem reads_noValue (rest : List Char) : Reads valuePattern [] (';' :: rest) [] :=
  .optional_none ((rejects_word (c := '=') rfl (head?_ne (by decide) _)).seq _)

/-- A value is read, or nothing, up to the semicolon. -/
theorem Initializer.reads {value : List Char} (h : Initializer value) (rest : List Char) :
    Reads valuePattern value (';' :: rest) [] := by
  cases h with
  | none => exact reads_noValue rest
  | value closed _ => exact reads_value closed rest

/-- What stands behind the names begins an initial value or ends the declaration. -/
theorem Initializer.head {value : List Char} (h : Initializer value) {property : Char → Prop}
    (opens : property '=') (ends : property ';') (rest : List Char) :
    ∀ c ∈ (value ++ ';' :: rest).head?, property c := by
  intro c hc
  cases h with
  | none =>
    cases hc
    exact ends
  | value =>
    cases hc
    exact opens

/-- The end of a declaration is read with its semicolon. -/
theorem reads_ending {value : List Char} (hw : AreBlank word) (hv : Initializer value) :
    Reads ending (word ++ (value ++ [';'])) rest [] := by
  have blanks : Reads (.blanks : Pattern Part) word ((value ++ [';']) ++ rest) [] := by
    rw [List.append_assoc]
    exact reads_blanks hw (hv.head (by decide) (by decide) rest)
  exact .assoc (.bare_seq blanks (.bare_seq (hv.reads rest) (.exactly _)))

/-! ## Whole declarations -/

/-- A declaration from the word `private` on. -/
def corePattern (names : Pattern Part) : Pattern Part :=
  .word "private" ++ (.spacing ++ (modifiers ++ (declaredType ++ behindType names)))

/-- A pattern reads the names of a declaration, whatever ends it. -/
def ReadsNames (names : Pattern Part) (first : FieldName) (others : List FieldName) : Prop :=
  ∀ further, FurtherNames others further → ∀ rest, Rejects comma rest →
    (∀ c ∈ rest.head?, isNameChar c = false) → Reads names (first.chars ++ further) rest []

/-- One name is read alone. -/
theorem readsNames_single (n : FieldName) : ReadsNames .name n [] := by
  intro further h rest _ outside
  cases h
  rw [List.append_nil]
  exact reads_name n outside

/-- A list of names is read in all, with the blanks and commas between them. -/
theorem readsNames_list (first : FieldName) (others : List FieldName) :
    ReadsNames (.name ++ .many (comma ++ .name)) first others :=
  fun _ h _ off outside =>
    .seq (reads_name first (h.head outside)) (.many (h.repeats off outside))

theorem within_name : (.name : Pattern Part).Within isListChar := by
  have name : ∀ c, isNameChar c = true → isListChar c = true := by
    intro c hc
    simp [isListChar, hc]
  exact ⟨fun c hc => name c (isNameChar_of_isNameStart hc), name⟩

theorem within_list : (.name ++ .many (comma ++ .name) : Pattern Part).Within isListChar := by
  have blank : ∀ c, isBlank c = true → isListChar c = true := by
    intro c hc
    simp [isListChar, hc]
  have separator : ∀ c ∈ ",".toList, isListChar c = true := by decide
  exact ⟨within_name, ⟨⟨blank, separator⟩, blank⟩, within_name⟩

/-- What stands behind the type is read, with the names. -/
theorem reads_behindType {first : FieldName} {others : List FieldName} {names : Pattern Part}
    {space further tail value : List Char} (reads : ReadsNames names first others)
    (hs : AreBlank space) (apart : space ≠ []) (hn : FurtherNames others further)
    (hb : AreBlank tail) (hv : Initializer value) (rest : List Char) :
    Reads (behindType names) (space ++ ((first.chars ++ further) ++ (tail ++ (value ++ [';']))))
      rest [(Part.names, first.chars ++ further)] := by
  have head : ∀ {property : Char → Prop}, property '=' → property ';' →
      ∀ c ∈ ((value ++ [';']) ++ rest).head?, property c := by
    intro property opens ends
    rw [List.append_assoc]
    exact hv.head opens ends rest
  have off : Rejects comma ((tail ++ (value ++ [';'])) ++ rest) := by
    rw [List.append_assoc]
    exact rejects_comma hb (head (by decide) (by decide))
  have outside : ∀ c ∈ ((tail ++ (value ++ [';'])) ++ rest).head?, isNameChar c = false := by
    rw [List.append_assoc]
    exact forall_head?_append (fun c hc => isNameChar_of_isBlank (hb c hc))
      (head (by decide) (by decide))
  have named : Reads (.capture Part.names names) (first.chars ++ further)
      ((tail ++ (value ++ [';'])) ++ rest) [(Part.names, first.chars ++ further)] :=
    .capture _ (reads further hn _ off outside)
  refine .bare_seq (reads_spacing hs apart ?_) (.seq_bare named (reads_ending hb hv))
  rw [List.append_assoc, List.append_assoc]
  exact first.head _

/-- A declaration is read from the word `private` to the semicolon, with its type and its names. -/
theorem Core.reads {type : JavaType} {first : FieldName} {others : List FieldName}
    {text : List Char} {names : Pattern Part} (h : Core type first others text)
    (reads : ReadsNames names first others) (within : names.Within isListChar) (rest : List Char) :
    ∃ spelled further, type.Spelling spelled ∧ FurtherNames others further ∧
      Reads (corePattern names) text rest
        [(.names, first.chars ++ further), (.type, spelled)] := by
  cases h with
  | @intro gap modifiers' spelled space further tail value hg apart hm ht word hs apart' hn hb hv =>
    have spelling : type.Spelling ([] ++ (spelled ++ [])) :=
      .intro (List.forall_mem_nil _) (List.forall_mem_nil _) ht
    rw [List.nil_append, List.append_nil] at spelling
    refine ⟨spelled, further, spelling, hn, ?_⟩
    -- The parts are put together from the last one on.
    have behind := reads_behindType reads hs apart' hn hb hv rest
    generalize same : space ++ ((first.chars ++ further) ++ (tail ++ (value ++ [';']))) = more
      at behind
    have parted : BeginsApart (more ++ rest) := by
      rw [← same, List.append_assoc]
      exact beginsApart_blank hs apart' _
    have solid : ∀ c ∈ ((spelled ++ more) ++ rest).head?, isBlank c = false := by
      obtain ⟨c, back, rfl, start⟩ := ht.isNameStart
      exact head?_other (isBlank_of_isNameChar (isNameChar_of_isNameStart start)) _
    have other : ((spelled ++ more) ++ rest).takeWhile isWordChar ∉ modifierWords := by
      rwa [List.append_assoc, takeWhile_append_apart parted]
    have modified : Reads (modifiers ++ (declaredType ++ behindType names))
        (modifiers' ++ (spelled ++ more)) rest
        [(.names, first.chars ++ further), (.type, spelled)] :=
      .bare_seq (hm.reads other solid) (reads_type ht within behind)
    have spaced : Reads (.spacing : Pattern Part) gap ((modifiers' ++ (spelled ++ more)) ++ rest)
        [] := by
      refine reads_spacing hg apart ?_
      rw [List.append_assoc]
      exact hm.head solid
    have whole : Reads (corePattern names)
        (privateWord ++ (gap ++ (modifiers' ++ (spelled ++ more)))) rest
        [(.names, first.chars ++ further), (.type, spelled)] :=
      .bare_seq (.exactly _) (.bare_seq spaced modified)
    rw [← same, List.append_assoc first.chars] at whole
    exact whole

end InterfaceGen.Source
