import InterfaceGen.Proofs.Source.AnnotationReading

/-!
# How the type of a field is read

The pattern of a declared type is as short as what has to stand behind it allows, and it accepts
blanks and commas. A type that is written without blanks has none where a shorter one would end;
every other type ends with a bracket, which no list of names gets past. So the whole type is read:
`reads_type`.
-/

namespace InterfaceGen.Source

open InterfaceGen.Text InterfaceGen.Text.Pattern InterfaceGen.Types
open FieldList (Part declaredType ending isTypeChar)

variable {ι : Type} {word rest : List Char}

/-- Can the character stand between the type and the end of the names? -/
def isListChar (c : Char) : Bool :=
  isBlank c || isNameChar c || c == ','

/-- What has to stand behind the type of a field. -/
def behindType (names : Pattern Part) : Pattern Part :=
  .spacing ++ (.capture .names names ++ ending)

/-- The text up to the first character that fails a test. -/
theorem exists_first {test : Char → Bool} {text : List Char} (h : ∃ c ∈ text, test c = false) :
    ∃ front c more, text = front ++ c :: more ∧ (∀ d ∈ front, test d = true) ∧
      test c = false := by
  induction text with
  | nil => simp at h
  | cons c text ih =>
    by_cases pass : test c = true
    · have later : ∃ d ∈ text, test d = false := by simpa [pass] using h
      obtain ⟨front, d, more, rfl, inside, closed⟩ := ih later
      exact ⟨c :: front, d, more, rfl, List.forall_mem_cons.2 ⟨pass, inside⟩, closed⟩
    · exact ⟨[], c, text, rfl, List.forall_mem_nil _, Bool.eq_false_iff.2 pass⟩

/-- A list of names does not begin within a type, from where a bracket or a dot is still to come. -/
theorem rejects_behindType {names : Pattern Part} (within : names.Within isListChar)
    {back : List Char} (all : ∀ c ∈ back, isTypeChar c = true)
    (wall : ∃ c ∈ back, isListChar c = false) (rest : List Char) :
    Rejects (behindType names) (back ++ rest) := by
  -- The blanks and the names get no further than the first character that is of neither, and what
  -- has to stand behind them does not begin with it.
  obtain ⟨front, d, more, rfl, inside, closed⟩ := exists_first wall
  have other : d ≠ '=' ∧ d ≠ ';' := by
    have type := all d (by simp)
    constructor <;> rintro rfl <;> exact absurd type (by decide)
  intro before offset captures next
  have within' : (.spacing ++ (.capture Part.names names ++ .blanks) : Pattern Part).Within
      isListChar := by
    have blank : ∀ c, isBlank c = true → isListChar c = true := by
      intro c hc
      simp [isListChar, hc]
    exact ⟨⟨blank, blank⟩, within, blank⟩
  have stops : Stops isListChar (d :: (more ++ rest))
      ((.optional (.word "=" ++ .run (· != ';')) ++ .word ";" : Pattern Part).follow next) := by
    intro before word offset captures hw
    have first : ∀ e ∈ (word ++ d :: (more ++ rest)).head?, e ≠ '=' ∧ e ≠ ';' := by
      refine forall_head?_append (fun e he => ?_) fun e he => by cases he; exact other
      have list := hw e he
      constructor <;> rintro rfl <;> exact absurd list (by decide)
    refine Rejects.optional_seq ((rejects_word (c := '=') rfl ?_).seq _)
      (rejects_word (c := ';') rfl ?_) before offset captures next
    · exact fun e he => (first e he).1
    · exact fun e he => (first e he).2
  have none := within'.stops (fun e he => by cases he; exact closed) stops before front offset
    captures inside
  rw [List.append_assoc]
  exact none

/-- The type is as short as what has to stand behind it allows. -/
theorem reads_declaredType {q : Pattern Part} {c : Char} {back more : List Char}
    {kept : List (Part × List Char)} (start : isNameStart c = true)
    (inside : ∀ d ∈ back, isTypeChar d = true)
    (early : ∀ late, late ≠ [] → late <:+ back → Rejects q (late ++ (more ++ rest)))
    (later : Reads q more rest kept) :
    Reads (declaredType ++ q) ((c :: back) ++ more) rest (kept ++ [(Part.type, c :: back)]) := by
  intro before offset captures next t found
  rw [List.append_assoc, List.cons_append, follow_seq, declaredType, follow_capture, follow_seq,
    follow_one_cons, if_pos start]
  refine follow_fewest inside (fun late nonempty suffix _ _ => ?_) _ _ ?_
  · exact early late nonempty suffix _ _ _ _
  · have long : offset + 1 + back.length - offset = (c :: back).length := by
      rw [List.length_cons]
      omega
    have taken : (c :: (back ++ (more ++ rest))).take (offset + 1 + back.length - offset) =
        c :: back := by
      rw [long, ← List.cons_append, List.take_left]
    simp only [Cursor.keepSince, taken]
    apply later
    have last := getLast?_append_or (c :: back) more before
    have place : offset + 1 + back.length + more.length =
        offset + ((c :: back) ++ more).length := by
      rw [List.length_append, List.length_cons]
      omega
    rw [getLast?_cons_or] at last
    rw [last, place]
    simpa using found

end InterfaceGen.Source

/-! ## Written types -/

namespace InterfaceGen.Types

open InterfaceGen.Text InterfaceGen.Source
open FieldList (isTypeChar)

theorem isTypeChar_of_isNameChar {c : Char} (h : isNameChar c = true) : isTypeChar c = true := by
  simp [isTypeChar, h]

theorem isTypeChar_of_isBlank {c : Char} (h : isBlank c = true) : isTypeChar c = true := by
  simp [isTypeChar, h]

/-- A token is written with characters of types. -/
theorem isTypeChar_of_written {t : Token} {text : List Char} (h : t.Written AreBlank text) :
    ∀ c ∈ text, isTypeChar c = true := by
  intro c hc
  cases h with
  | name parts n =>
    rcases List.mem_append.1 hc with hc | hc
    · obtain ⟨part, -, hc⟩ := List.mem_flatMap.1 hc
      rcases List.mem_append.1 hc with hc | hc
      · exact isTypeChar_of_isNameChar (part.isNameChar_of_mem hc)
      · rw [List.mem_singleton.1 hc]
        decide
    · exact isTypeChar_of_isNameChar (n.isNameChar_of_mem hc)
  | wildcard =>
    rw [List.mem_singleton.1 hc]
    decide
  | bounded bound hg =>
    rcases List.mem_cons.1 hc with rfl | hc
    · decide
    · rcases List.mem_append.1 hc with hc | hc
      · exact isTypeChar_of_isBlank (hg c hc)
      · exact isTypeChar_of_isNameChar (bound.isNameChar_of_mem hc)
  | mark d known =>
    rw [List.mem_singleton.1 hc]
    simp only [FieldType.isMark, Bool.or_eq_true, beq_iff_eq] at known
    rcases known with (((rfl | rfl) | rfl) | rfl) | rfl <;> decide

theorem Spaced.isTypeChar {tokens : List Token} {text : List Char}
    (h : Spaced AreBlank tokens text) : ∀ c ∈ text, isTypeChar c = true := by
  induction h with
  | last h => exact isTypeChar_of_written h
  | @cons t text gap rest tokens h space more ih =>
    have blank : AreBlank gap := by
      cases t with
      | bounded => exact space.1
      | _ => exact space
    intro c hc
    rcases List.mem_append.1 hc with hc | hc
    · exact isTypeChar_of_written h c hc
    · rcases List.mem_append.1 hc with hc | hc
      · exact isTypeChar_of_isBlank (blank c hc)
      · exact ih c hc

/-- A type that ends with a mark is written with this mark at its end. -/
theorem Spaced.getLast?_mark {tokens : List Token} {text : List Char} {c : Char}
    {known : FieldType.isMark c = true} (h : Spaced AreBlank (tokens ++ [.mark c known]) text) :
    text.getLast? = some c := by
  generalize same : tokens ++ [Token.mark c known] = all at h
  induction h generalizing tokens with
  | @last t text h =>
    cases tokens with
    | nil =>
      cases same
      cases h
      rfl
    | cons first tokens => simp at same
  | @cons t text gap rest all h space more ih =>
    cases tokens with
    | nil =>
      cases same
      exact nomatch more
    | cons first tokens =>
      have last := ih (List.cons.inj same).2
      rw [List.getLast?_append, List.getLast?_append, last]
      rfl

/-- Every type begins with a name. -/
theorem JavaType.exists_tokens (t : JavaType) : ∃ n rest, t.tokens = .name n :: rest := by
  cases t with
  | name n => exact ⟨n, [], rfl⟩
  | array element =>
    obtain ⟨n, rest, same⟩ := element.exists_tokens
    exact ⟨n, rest ++ [.mark '[' rfl, .mark ']' rfl], by rw [JavaType.tokens, same]; rfl⟩
  | generic container arguments => exact ⟨container, _, rfl⟩

theorem Token.Written.isNameStart {n : Identifier} {text : List Char}
    (h : (Token.name n).Written AreBlank text) :
    ∃ c rest, text = c :: rest ∧ Text.isNameStart c = true := by
  cases h with
  | name parts =>
    cases parts with
    | nil =>
      obtain ⟨c, rest, same, head, -⟩ := isHeadedBy_iff.1 n.wellFormed
      exact ⟨c, rest, same, head⟩
    | cons part parts =>
      obtain ⟨c, rest, same, head, -⟩ := isHeadedBy_iff.1 part.wellFormed
      have start := isNameStart_of_isLower_or head
      exact ⟨c, _, by rw [packageText, List.flatMap_cons, same]; rfl, start⟩

/-- A type begins with a letter that can begin a name. -/
theorem Spaced.isNameStart {t : JavaType} {text : List Char} (h : Spaced AreBlank t.tokens text) :
    ∃ c rest, text = c :: rest ∧ Text.isNameStart c = true := by
  obtain ⟨n, rest, same⟩ := t.exists_tokens
  rw [same] at h
  cases h with
  | last h => exact h.isNameStart
  | cons h =>
    obtain ⟨c, rest, rfl, start⟩ := h.isNameStart
    exact ⟨c, _, rfl, start⟩

/-- A written type is without blanks, or ends with a bracket. -/
theorem Spaced.solid_or_last {t : JavaType} {text : List Char}
    (h : Spaced AreBlank t.tokens text) :
    (∀ c ∈ text, isBlank c = false) ∨ ∃ c, text.getLast? = some c ∧ isListChar c = false := by
  cases t with
  | name n =>
    left
    intro c hc
    cases h with
    | last h =>
      cases h
      exact (isSolid_of_mem_name hc).1
    | cons _ _ more => exact nomatch more
  | array element =>
    right
    rw [JavaType.tokens, show element.tokens ++ [Token.mark '[' rfl, Token.mark ']' rfl] =
      (element.tokens ++ [Token.mark '[' rfl]) ++ [Token.mark ']' rfl] by simp] at h
    exact ⟨']', h.getLast?_mark, by decide⟩
  | generic container arguments =>
    right
    rw [JavaType.tokens, ← List.cons_append, ← List.cons_append] at h
    exact ⟨'>', h.getLast?_mark, by decide⟩

end InterfaceGen.Types

namespace InterfaceGen.Source

open InterfaceGen.Text InterfaceGen.Text.Pattern InterfaceGen.Types
open FieldList (Part declaredType)

/-- Behind a part of a type, nothing of what has to stand behind the type is read. -/
theorem rejects_within_type {t : JavaType} {text late : List Char} {names : Pattern Part}
    (h : Spaced AreBlank t.tokens text) (within : names.Within isListChar) (nonempty : late ≠ [])
    (suffix : late <:+ text) (rest : List Char) : Rejects (behindType names) (late ++ rest) := by
  rcases h.solid_or_last with solid | ⟨c, last, outside⟩
  · obtain ⟨c, late, rfl⟩ := List.exists_cons_of_ne_nil nonempty
    have blank := solid c (suffix.subset (List.mem_cons_self ..))
    exact (rejects_spacing (head?_other blank _)).seq _
  · have here : late.getLast? = some c := by
      obtain ⟨front, rfl⟩ := suffix
      rw [List.getLast?_append, List.getLast?_eq_some_getLast nonempty] at last
      rw [List.getLast?_eq_some_getLast nonempty]
      exact last
    exact rejects_behindType within (fun d hd => h.isTypeChar d (suffix.subset hd))
      ⟨c, List.mem_of_getLast? here, outside⟩ rest

/-- The whole type is read, with what has to stand behind it. -/
theorem reads_type {t : JavaType} {text more : List Char} {names : Pattern Part}
    {kept : List (Part × List Char)} (h : Spaced AreBlank t.tokens text)
    (within : names.Within isListChar) {rest : List Char}
    (later : Reads (behindType names) more rest kept) :
    Reads (declaredType ++ behindType names) (text ++ more) rest
      (kept ++ [(Part.type, text)]) := by
  obtain ⟨c, back, rfl, start⟩ := h.isNameStart
  refine reads_declaredType start (fun d hd => h.isTypeChar d (List.mem_cons_of_mem _ hd))
    (fun late nonempty suffix => ?_) later
  exact rejects_within_type h within nonempty (suffix.trans (List.suffix_cons c back)) _

end InterfaceGen.Source
