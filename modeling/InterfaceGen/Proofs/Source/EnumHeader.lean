import InterfaceGen.Proofs.Source.AnnotationReading
import InterfaceGen.Proofs.Source.EnumSpelling
import InterfaceGen.Proofs.Text.Scanning

/-!
# How the header of an enum is read

The header of a written enum is the first that is found in its text, with the name of the enum and
with its end behind that name: `exists_findAll`. Its modifiers stand where no word goes on, so the
pattern is read behind anything but a word, `ReadsApart`.
-/

namespace InterfaceGen.Source

open InterfaceGen.Text InterfaceGen.Text.Pattern InterfaceGen.Types

namespace Header

variable {ι : Type} {rest : List Char}

/-- What is read where no word goes on. -/
def ReadsApart (p : Pattern ι) (word rest : List Char) (kept : List (ι × List Char)) : Prop :=
  ∀ before offset captures next t, before.any isWordChar = false →
    next ⟨word.getLast?.or before, rest, offset + word.length, kept ++ captures⟩ = some t →
    p.follow next ⟨before, word ++ rest, offset, captures⟩ = some t

section ReadsApart

variable {p q : Pattern ι} {word more : List Char} {kept later : List (ι × List Char)}

/-- What is always read is read where no word goes on. -/
theorem ReadsApart.of_reads (h : Reads p word rest kept) : ReadsApart p word rest kept :=
  fun before offset captures next t _ => h before offset captures next t

/-- A pattern is read behind another whose text does not end in a word. -/
theorem ReadsApart.seq (first : ReadsApart p word (more ++ rest) kept) (ends : EndsApart word)
    (second : ReadsApart q more rest later) :
    ReadsApart (p ++ q) (word ++ more) rest (later ++ kept) := by
  intro before offset captures next t outside found
  rw [List.append_assoc, follow_seq]
  apply first _ _ _ _ _ outside
  apply second _ _ _ _ _ (Yields.outside ends outside)
  rw [getLast?_append_or, Nat.add_assoc, ← List.length_append, ← List.append_assoc]
  exact found

/-- A word edge is passed before a letter. -/
theorem ReadsApart.wordEdge_seq (letter : word.head?.any isWordChar = true)
    (h : Reads q word rest kept) : ReadsApart (.wordEdge ++ q) word rest kept := by
  intro before offset captures next t outside found
  have head : (word ++ rest).head?.any isWordChar = true := by
    cases word with
    | nil => cases letter
    | cons => exact letter
  have edge : (⟨before, word ++ rest, offset, captures⟩ : Cursor ι).atWordEdge = true := by
    rw [Cursor.atWordEdge, outside, head]
    rfl
  rw [follow_seq, follow_wordEdge, if_pos edge]
  exact h before offset captures next t found

theorem ReadsApart.optional (h : ReadsApart p word rest kept) :
    ReadsApart (.optional p) word rest kept := by
  intro before offset captures next t outside found
  rw [follow_optional, h before offset captures next t outside found, Option.some_or]

end ReadsApart

/-! ### Modifiers -/

/-- An optional word begins with a first letter of the words. -/
theorem OptionalWord.head {words : List String} {text : List Char} (h : OptionalWord words text)
    {property : Char → Prop} (first : ∀ word ∈ words, ∃ c, word.toList.head? = some c ∧ property c)
    (outside : ∀ c ∈ rest.head?, property c) : ∀ c ∈ (text ++ rest).head?, property c := by
  cases h with
  | none => exact outside
  | @some word gap h =>
    obtain ⟨c, head, holds⟩ := first word h
    obtain ⟨more, same⟩ := List.head?_eq_some_iff.1 head
    intro d hd
    rw [same] at hd
    cases hd
    exact holds

/-- An optional word does not run into what follows. -/
theorem OptionalWord.endsApart {words : List String} {text : List Char}
    (h : OptionalWord words text) : EndsApart text := by
  cases h with
  | none => exact .nil
  | some _ hg nonempty => exact (EndsApart.blank hg).append_left nonempty

/-- A modifier is read, or none where another word stands. -/
theorem readsApart_modifier {pattern : Pattern Part} {words : List String} {text : List Char}
    (h : OptionalWord words text)
    (reads : ∀ word ∈ words, word.toList.head?.any isWordChar = true ∧
      ∀ rest, Reads pattern word.toList rest [])
    (off : Rejects pattern rest) (solid : ∀ c ∈ rest.head?, isBlank c = false) :
    ReadsApart (modifier pattern) text rest [] := by
  cases h with
  | none => exact .of_reads (.optional_none (.assoc (.wordEdge_seq (off.seq _))))
  | @some word gap h hg nonempty =>
    obtain ⟨letter, read⟩ := reads word h
    have first : (word.toList ++ gap).head?.any isWordChar = true := by
      cases same : word.toList with
      | nil =>
        rw [same] at letter
        cases letter
      | cons =>
        rw [same] at letter
        exact letter
    have whole : Reads (pattern ++ .spacing) (word.toList ++ gap) rest [] :=
      .bare_seq (read _) (reads_spacing hg nonempty solid)
    exact .optional (.wordEdge_seq first whole)

/-- The words for access. -/
def accessWord : Pattern Part :=
  .word "public" <|> .word "private" <|> .word "protected"

/-- The words for binding. -/
def bindingWord : Pattern Part :=
  .word "abstract" <|> .word "static"

/-- The modifiers in front of a keyword. -/
def modifiers : Pattern Part :=
  modifier accessWord ++ (modifier bindingWord ++ modifier (.word "final"))

/-- Another word, of which the text does not begin with the whole. -/
theorem rejects_of_isPrefixOf {word : List Char} (h : word.isPrefixOf rest = false) :
    Rejects (.exactly word : Pattern ι) rest :=
  .of_not_begins fun begins => Bool.eq_false_iff.1 h (List.isPrefixOf_iff_prefix.2 begins)

theorem reads_accessWord {word : String} (h : word ∈ ["public", "private", "protected"])
    (rest : List Char) : Reads accessWord word.toList rest [] := by
  simp only [List.mem_cons, List.not_mem_nil, or_false] at h
  rcases h with rfl | rfl | rfl
  · exact .either_left (.exactly _)
  · exact .either_right (rejects_of_isPrefixOf rfl) (.either_left (.exactly _))
  · exact .either_right (rejects_of_isPrefixOf rfl)
      (.either_right (rejects_of_isPrefixOf rfl) (.exactly _))

theorem reads_bindingWord {word : String} (h : word ∈ ["abstract", "static"]) (rest : List Char) :
    Reads bindingWord word.toList rest [] := by
  simp only [List.mem_cons, List.not_mem_nil, or_false] at h
  rcases h with rfl | rfl
  · exact .either_left (.exactly _)
  · exact .either_right (rejects_of_isPrefixOf rfl) (.exactly _)

/-- The modifiers of an enum are read up to its keyword. -/
theorem readsApart_modifiers {text : List Char} (h : EnumModifiers text)
    (start : ∀ c ∈ rest.head?, c = 'e') : ReadsApart modifiers text rest [] := by
  cases h with
  | @intro access binding final ha hb hf =>
    -- The letters with which the word behind each modifier can begin.
    have behind : ∀ c ∈ (final ++ rest).head?, c = 'e' ∨ c = 'f' :=
      OptionalWord.head hf (by simp) fun c hc => .inl (start c hc)
    have behind' : ∀ c ∈ (binding ++ (final ++ rest)).head?,
        (c = 'e' ∨ c = 'f') ∨ c = 'a' ∨ c = 's' :=
      OptionalWord.head hb (by simp) fun c hc => .inl (behind c hc)
    have third : ReadsApart (modifier (.word "final")) final rest [] := by
      refine readsApart_modifier hf (fun word h => ?_) (rejects_word (c := 'f') rfl ?_) ?_
      · cases List.mem_singleton.1 h
        exact ⟨rfl, fun rest => .exactly _⟩
      · exact fun c hc => start c hc ▸ by decide
      · exact fun c hc => start c hc ▸ by decide
    have second : ReadsApart (modifier bindingWord) binding (final ++ rest) [] := by
      refine readsApart_modifier hb (fun word h => ⟨?_, reads_bindingWord h⟩)
        (.either (rejects_word (c := 'a') rfl ?_) (rejects_word (c := 's') rfl ?_)) ?_
      · revert word
        decide
      all_goals
        intro c hc
        rcases behind c hc with rfl | rfl <;> decide
    have first : ReadsApart (modifier accessWord) access (binding ++ final ++ rest) [] := by
      rw [List.append_assoc]
      refine readsApart_modifier ha (fun word h => ⟨?_, reads_accessWord h⟩)
        (.either (rejects_word (c := 'p') rfl ?_) (.either (rejects_word (c := 'p') rfl ?_)
          (rejects_word (c := 'p') rfl ?_))) ?_
      · revert word
        decide
      all_goals
        intro c hc
        rcases behind' c hc with (rfl | rfl) | rfl | rfl <;> decide
    exact first.seq (OptionalWord.endsApart ha) (second.seq (OptionalWord.endsApart hb) third)

theorem endsApart_modifiers {text : List Char} (h : EnumModifiers text) : EndsApart text := by
  cases h with
  | intro ha hb hf =>
    exact (OptionalWord.endsApart ha).append
      ((OptionalWord.endsApart hb).append (OptionalWord.endsApart hf))

/-- Type parameters, up to the first closing bracket. -/
def parametersPattern : Pattern Part :=
  .blanks ++ .word "<" ++ .fewest (· != '\x7b') ++ .word ">"

/-- The extended class, with the qualifiers of its name. -/
def extensionPattern : Pattern Part :=
  .spacing ++ .word "extends" ++ .spacing ++
    .capture .supertype (.one isNameStart ++ .run fun c => isNameChar c || c == '.')

/-- The header, from its keyword on. -/
def keywordPattern : Pattern Part :=
  .capture .kind (.word "class" <|> .word "enum") ++ (.spacing ++
    (.capture .name (.one Char.isUpper ++ .run isNameChar) ++
      (.optional parametersPattern ++ .optional extensionPattern)))

theorem follow_pattern (next : Cursor Part → Option (Cursor Part)) (s : Cursor Part) :
    pattern.follow next s = (modifiers ++ (.wordEdge ++ keywordPattern)).follow next s :=
  rfl

/-- No parameters are read where no angle bracket stands. -/
theorem rejects_parametersPattern (h : ∀ c ∈ (trimLeft rest).head?, c ≠ '<') :
    Rejects parametersPattern rest := by
  obtain ⟨gap, hg, same, solid⟩ := exists_gap rest
  have off : Rejects (.blanks ++ .word "<" : Pattern Part) (gap ++ trimLeft rest) :=
    rejects_blanks_word rfl (by decide) hg fun c hc => ⟨solid c hc, h c hc⟩
  rw [same]
  exact (off.seq _).seq _

/-- Another word than `extends` extends nothing. -/
theorem rejects_extensionPattern (h : ¬ "extends".toList <+: trimLeft rest) :
    Rejects extensionPattern rest := by
  obtain ⟨gap, hg, same, solid⟩ := exists_gap rest
  have word : Rejects (.word "extends" : Pattern Part) (trimLeft rest) := by
    refine rejects_of_isPrefixOf ?_
    rwa [← Bool.not_eq_true, List.isPrefixOf_iff_prefix]
  have off : Rejects (.spacing ++ .word "extends" : Pattern Part) (gap ++ trimLeft rest) := by
    by_cases none : gap = []
    · rw [none]
      exact (rejects_spacing solid).seq _
    · refine .someRun none hg solid (fun d more blank => ?_) word
      refine rejects_word (c := 'e') rfl (head?_ne ?_ more)
      rintro rfl
      exact absurd blank (by decide)
  rw [same]
  exact (off.seq _).seq _

/-- Behind a name stands the brace, or another word that extends nothing. -/
structure EndsHeader (rest : List Char) : Prop where
  apart : ∀ c ∈ rest.head?, isNameChar c = false
  exists_mark : ∃ gap c more, rest = gap ++ c :: more ∧ AreBlank gap ∧ isBlank c = false ∧ c ≠ '<' ∧
    c ≠ 'e'

/-- Neither parameters nor an extension are read where a header ends. -/
theorem EndsHeader.rejects (h : EndsHeader rest) :
    Rejects parametersPattern rest ∧ Rejects extensionPattern rest := by
  obtain ⟨-, gap, c, more, rfl, hg, solid, angle, letter⟩ := h
  have left : trimLeft (gap ++ c :: more) = c :: more := by
    rw [trimLeft_append hg, trimLeft_of_head (head?_other solid more)]
  constructor
  · apply rejects_parametersPattern
    rw [left]
    exact head?_ne angle more
  · apply rejects_extensionPattern
    rw [left]
    exact fun word => letter (List.cons_prefix_cons.1 word).1.symm

/-- The words that stand for the kind of a declaration. -/
def keywords : List (List Char) :=
  ["class".toList, "enum".toList]

theorem reads_kind {keyword : List Char} (h : keyword ∈ keywords) (rest : List Char) :
    Reads (.word "class" <|> .word "enum" : Pattern Part) keyword rest [] := by
  simp only [keywords, List.mem_cons, List.not_mem_nil, or_false] at h
  rcases h with rfl | rfl
  · exact .either_left (.exactly _)
  · exact .either_right (rejects_of_isPrefixOf rfl) (.exactly _)

section Reads

variable {keyword gap name tail : List Char} {kept : List (Part × List Char)} (hg : AreBlank gap)
  (nonempty : gap ≠ []) (hn : isHeadedBy Char.isUpper isNameChar name = true)

include hg nonempty hn

/-- A header is read with its keyword, its name, and what is read behind the name. -/
theorem reads_keywordPattern (hk : keyword ∈ keywords)
    (behind : Reads (.optional parametersPattern ++ .optional extensionPattern) tail rest kept)
    (ends : ∀ c ∈ (tail ++ rest).head?, isNameChar c = false) :
    Reads keywordPattern (keyword ++ (gap ++ (name ++ tail))) rest
      (kept ++ [(Part.name, name), (Part.kind, keyword)]) := by
  obtain ⟨d, later, rfl, start, further⟩ := isHeadedBy_iff.1 hn
  have solid : isBlank d = false :=
    isBlank_of_isNameChar (isNameChar_of_isNameStart (isNameStart_of_isUpper start))
  have spacing : Reads (.spacing : Pattern Part) gap (d :: later ++ tail ++ rest) [] :=
    reads_spacing hg nonempty (head?_other solid _)
  have word : Reads (.one Char.isUpper ++ .run isNameChar : Pattern Part) (d :: later)
      (tail ++ rest) [] := .seq (.one start) (.run further ends)
  have reads := Reads.seq (.capture Part.kind (reads_kind hk _))
    (.bare_seq spacing (.seq (.capture Part.name word) behind))
  rw [List.append_assoc] at reads
  exact reads

variable (ends : EndsHeader rest)

include ends

/-- The header of an enum is read, with its name and kind. -/
theorem readsApart_pattern {modifiers : List Char} (h : EnumModifiers modifiers) :
    ReadsApart pattern (modifiers ++ ("enum".toList ++ (gap ++ name))) rest
      [(Part.name, name), (Part.kind, "enum".toList)] := by
  have unread : Reads (.optional parametersPattern ++ .optional extensionPattern) [] rest [] :=
    .seq (.optional_none ends.rejects.1) (.optional_none ends.rejects.2)
  have reads := reads_keywordPattern hg nonempty hn (List.mem_cons_of_mem _ (List.mem_cons_self ..))
    unread ends.apart
  rw [List.append_nil] at reads
  have keyword : ReadsApart (.wordEdge ++ keywordPattern) ("enum".toList ++ (gap ++ name)) rest
      [(Part.name, name), (Part.kind, "enum".toList)] :=
    .wordEdge_seq rfl reads
  have start : ∀ c ∈ ("enum".toList ++ (gap ++ name) ++ rest).head?, c = 'e' := by
    rintro c ⟨⟩
    rfl
  intro before offset captures next t outside found
  rw [follow_pattern]
  exact (readsApart_modifiers h start).seq (endsApart_modifiers h) keyword _ _ _ _ _ outside found

end Reads

/-- The letters with which the words of a header begin. -/
def initials : List Char :=
  ['p', 'a', 's', 'f', 'c', 'e']

/-- No header is read where the first letter is that of no modifier and of no keyword. -/
theorem rejects_pattern (h : ∀ c ∈ rest.head?, c ∉ initials) : Rejects pattern rest := by
  have other : ∀ (word : String) (c : Char), word.toList.head? = some c → c ∈ initials →
      Rejects (.word word : Pattern Part) rest :=
    fun word c first letter => rejects_word first fun d hd same => h d hd (same ▸ letter)
  have unmodified : ∀ {words q : Pattern Part}, Rejects words rest → Rejects q rest →
      Rejects (modifier words ++ q) rest := fun hw hq =>
    .optional_seq (.assoc (.wordEdge_seq (hw.seq _))) hq
  have keyword : Rejects (.wordEdge ++ keywordPattern) rest :=
    .wordEdge_seq ((Rejects.capture (.either (other "class" 'c' rfl (by decide))
      (other "enum" 'e' rfl (by decide))) Part.kind).seq _)
  have whole := unmodified (.either (other "public" 'p' rfl (by decide))
      (.either (other "private" 'p' rfl (by decide)) (other "protected" 'p' rfl (by decide))))
    (unmodified (.either (other "abstract" 'a' rfl (by decide)) (other "static" 's' rfl (by decide)))
      (unmodified (other "final" 'f' rfl (by decide)) keyword))
  intro before offset captures next
  rw [follow_pattern]
  exact whole before offset captures next

/-- No header begins in a word without these letters. -/
theorem piecesFrom_quiet {word : List Char} (quiet : ∀ c ∈ word, c ∉ initials)
    (before : Option Char) (offset : Nat) :
    pattern.piecesFrom 0 before (word ++ rest) offset =
      word.map .plain ++
        pattern.piecesFrom 0 (word.getLast?.or before) rest (offset + word.length) := by
  refine piecesFrom_free before (fun front back same nonempty offset => ?_) offset
  obtain ⟨c, back, rfl⟩ := List.exists_cons_of_ne_nil nonempty
  refine rejects_pattern (fun d hd => ?_) _ _ _ _
  cases hd
  exact quiet c (by simp [same])

/-- The first header of a text that begins with an enum, behind blanks, is that of the enum. It is
the only one where no word of a header can begin behind it. -/
theorem exists_findAll {text : String} {before modifiers gap name : List Char}
    (hb : AreBlank before) (hm : EnumModifiers modifiers) (hg : AreBlank gap) (nonempty : gap ≠ [])
    (hn : isHeadedBy Char.isUpper isNameChar name = true) (ends : EndsHeader rest)
    (h : Literal.blankChars text.toList =
      before ++ ((modifiers ++ ("enum".toList ++ (gap ++ name))) ++ rest)) :
    ∃ others, findAll text = ⟨before.length,
      (before ++ (modifiers ++ ("enum".toList ++ (gap ++ name)))).length, .enumKind,
      String.ofList name, none⟩ :: others ∧ ((∀ c ∈ rest, c ∉ initials) → others = []) := by
  have some : modifiers ++ ("enum".toList ++ (gap ++ name)) ≠ [] := by simp
  have quiet : ∀ c ∈ before, c ∉ initials := by
    intro c hc letter
    have solid : ∀ d ∈ initials, isBlank d = false := by decide
    have blank : isBlank c = true := hb c hc
    rw [solid c letter] at blank
    cases blank
  have outside : (before.getLast?.or none).any isWordChar = false :=
    Yields.outside (EndsApart.blank hb) rfl
  have found := readsApart_pattern hg nonempty hn ends hm (before.getLast?.or none)
    (0 + before.length) [] Option.some _ outside rfl
  -- No header begins in the blanks, and the one behind them is found whole.
  have first := piecesFrom_occurrence some found rfl
  have cut := @piecesFrom_quiet ((modifiers ++ ("enum".toList ++ (gap ++ name))) ++ rest) before
    quiet none 0
  rw [first] at cut
  obtain ⟨others, occurrences, only⟩ := exists_occurrences ((congrArg pattern.pieces h).trans cut)
  refine ⟨others.map ofOccurrence, ?_, fun silent => ?_⟩
  · rw [findAll, occurrences, List.map_cons, ofOccurrence, Nat.zero_add, ← List.length_append]
    rfl
  · rw [only rest, List.map_nil]
    have last := fun before => @piecesFrom_quiet [] rest silent before
    simp only [List.append_nil] at last
    exact (last _ _).trans (List.append_nil _)

end Header

end InterfaceGen.Source
