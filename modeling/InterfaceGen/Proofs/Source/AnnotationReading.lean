import InterfaceGen.Proofs.Source.FieldSpelling
import InterfaceGen.Proofs.Text.Matches
import InterfaceGen.Proofs.Types.Tightening

/-!
# What the annotation patterns read

The annotation that names a field is read with its literal, and the other annotations behind it one
by one. Beside them stand the facts about words, blanks and names that the whole pattern of a field
needs.
-/

namespace InterfaceGen.Source

open InterfaceGen.Text InterfaceGen.Text.Pattern InterfaceGen.Types InterfaceGen.Source.Annotation
open FieldList (Part naming)

variable {ι : Type} {word rest : List Char}

theorem head?_ne {c d : Char} (h : c ≠ d) (rest : List Char) :
    ∀ e ∈ (c :: rest).head?, e ≠ d := by
  intro e he
  cases he
  exact h

theorem head?_other {test : Char → Bool} {c : Char} (h : test c = false) (rest : List Char) :
    ∀ d ∈ (c :: rest).head?, test d = false := by
  intro d hd
  cases hd
  exact h

/-- What a text begins with is the first character of the word, or of the rest if there is no
word. -/
theorem forall_head?_append {property : Char → Prop} (hw : ∀ c ∈ word, property c)
    (hr : ∀ c ∈ rest.head?, property c) : ∀ c ∈ (word ++ rest).head?, property c := by
  intro c hc
  cases word with
  | nil => exact hr c hc
  | cons d word =>
    cases hc
    exact hw c (List.mem_cons_self ..)

theorem notMem_of_forall {test : Char → Bool} {c : Char} (h : ∀ d ∈ word, test d = true)
    (other : test c = false) : c ∉ word := by
  intro hc
  rw [h c hc] at other
  exact Bool.noConfusion other

/-! ## Words, blanks and names -/

/-- A word whose first character does not stand here. -/
theorem rejects_word {text : String} {c : Char} (first : text.toList.head? = some c)
    (h : ∀ d ∈ rest.head?, d ≠ c) : Rejects (.word text : Pattern ι) rest := by
  obtain ⟨more, same⟩ := List.head?_eq_some_iff.1 first
  rw [Pattern.word, same]
  exact .exactly h more

/-- Blanks are read up to what is none. -/
theorem reads_blanks (h : AreBlank word) (outside : ∀ c ∈ rest.head?, isBlank c = false) :
    Reads (.blanks : Pattern ι) word rest [] :=
  .run h outside

theorem reads_spacing (h : AreBlank word) (nonempty : word ≠ [])
    (outside : ∀ c ∈ rest.head?, isBlank c = false) :
    Reads (.spacing : Pattern ι) word rest [] :=
  .someRun nonempty h outside

/-- A gap that is matched has only blanks, and at least one. -/
theorem areBlank_of_matches {gap : List Char} {kept : List (ι × List Char)}
    (h : (.spacing : Pattern ι).Matches gap kept) : AreBlank gap ∧ gap ≠ [] := by
  cases h with
  | seq first further =>
    cases first with
    | one blank =>
      cases further with
      | run blanks => exact ⟨List.forall_mem_cons.2 ⟨blank, blanks⟩, List.cons_ne_nil _ _⟩

/-- Blanks have to stand here. -/
theorem rejects_spacing (h : ∀ c ∈ rest.head?, isBlank c = false) :
    Rejects (.spacing : Pattern ι) rest :=
  (Rejects.one h).seq _

/-- A word behind blanks whose first character does not stand there. -/
theorem rejects_blanks_word {text : String} {c : Char} (first : text.toList.head? = some c)
    (mark : isBlank c = false) (h : AreBlank word)
    (outside : ∀ d ∈ rest.head?, isBlank d = false ∧ d ≠ c) :
    Rejects (.blanks ++ .word text : Pattern ι) (word ++ rest) := by
  refine .run h (fun d hd => (outside d hd).1) (fun d more blank => ?_)
    (rejects_word first fun d hd => (outside d hd).2)
  refine rejects_word first (head?_ne ?_ more)
  rintro rfl
  rw [blank] at mark
  exact Bool.noConfusion mark

theorem isNameChar_of_mem (n : FieldName) : ∀ c ∈ n.chars, isNameChar c = true := by
  refine forall_of_isHeadedBy n.wellFormed fun c small => ?_
  exact isNameChar_of_isNameStart (isNameStart_of_isLower small)

/-- A name is read up to what cannot stand in it. -/
theorem reads_name (n : FieldName) (outside : ∀ c ∈ rest.head?, isNameChar c = false) :
    Reads (.name : Pattern ι) n.chars rest [] := by
  obtain ⟨c, more, same, head, tail⟩ := isHeadedBy_iff.1 n.wellFormed
  rw [same]
  exact .seq (.one (isNameStart_of_isLower head)) (.run tail outside)

/-! ## Annotations -/

/-- The closing quote is no item of a literal. -/
theorem rejects_literalItem (rest : List Char) :
    Rejects (literalItem : Pattern ι) ('"' :: rest) :=
  .either ((rejects_word (c := '\\') rfl (head?_ne (by decide) rest)).seq _)
    (.one (head?_other (by decide) rest))

/-- The items of a literal are repeated up to its closing quote. -/
theorem IsLiteral.repeats {text : List Char} (h : IsLiteral text) (rest : List Char) :
    Repeats (literalItem : Pattern ι) ('"' :: rest) text := by
  induction h with
  | nil => exact .nil (rejects_literalItem rest)
  | @plain c more h _ ih =>
    have item : Reads (literalItem : Pattern ι) [c] (more ++ '"' :: rest) [] := by
      refine .either_right ((rejects_word (c := '\\') rfl ?_).seq _) (.one ?_)
      · exact head?_ne h.2.1 _
      · simp [h.1, h.2.1]
    exact Repeats.cons (List.cons_ne_nil _ _) item ih
  | @escaped c more h _ ih =>
    have item : Reads (literalItem : Pattern ι) (['\\'] ++ [c]) (more ++ '"' :: rest) [] :=
      .either_left (.seq (.exactly _) (.one (by simp [h])))
    exact Repeats.cons (List.cons_ne_nil _ _) item ih

/-- The rest of the arguments is read up to the first closing parenthesis. -/
theorem reads_argumentsEnd {arguments : List Char} (closed : ')' ∉ arguments) :
    Reads (argumentsEnd : Pattern ι) (arguments ++ [')']) rest [] := by
  refine .seq (.run (fun c hc => ?_) (head?_other (by decide) rest)) (.exactly _)
  rw [bne_iff_ne]
  rintro rfl
  exact closed hc

/-- The name of the argument is read, or nothing. -/
theorem ArgumentName.reads {name : List Char} (h : ArgumentName name) (rest : List Char) :
    Reads (.optional (.word "value" ++ .blanks ++ .word "=" ++ .blanks) : Pattern ι) name
      ('"' :: rest) [] := by
  cases h with
  | none =>
    refine .optional_none ((((rejects_word (c := 'v') rfl ?_).seq _).seq _).seq _)
    exact head?_ne (by decide) rest
  | @value before after hb ha =>
    have last : Reads (.word "=" ++ .blanks : Pattern ι) (['='] ++ after) ('"' :: rest) [] :=
      .bare_seq (.exactly _) (reads_blanks ha (head?_other (by decide) rest))
    have blanks : Reads (.blanks : Pattern ι) before ((['='] ++ after) ++ '"' :: rest) [] :=
      reads_blanks hb (head?_other (by decide) _)
    exact .optional_some (.assoc (.assoc (.bare_seq (.exactly _) (.bare_seq blanks last))))

theorem ArgumentName.head {name : List Char} (h : ArgumentName name)
    (outside : ∀ c ∈ rest.head?, isBlank c = false) :
    ∀ c ∈ (name ++ rest).head?, isBlank c = false := by
  cases h with
  | none => exact outside
  | value => exact head?_other (by decide) _

/-- A naming annotation is read with the literal that it holds. -/
theorem Naming.reads {literal text gap : List Char} (h : Naming literal text) (hg : AreBlank gap)
    (outside : ∀ c ∈ rest.head?, isBlank c = false) :
    Reads naming (text ++ gap) rest [(.literal, literal)] := by
  cases h with
  | @intro before behind name arguments body nonempty _ hb hb' hn closed _ =>
    have last : Reads (argumentsEnd ++ .blanks : Pattern Part) ((arguments ++ [')']) ++ gap) rest
        [] :=
      .bare_seq (reads_argumentsEnd closed) (reads_blanks hg outside)
    have inside : Reads (.capture Part.literal (literalItem ++ .many literalItem)) literal
        (['"'] ++ ((arguments ++ [')']) ++ gap) ++ rest) [(Part.literal, literal)] :=
      .capture Part.literal ((body.repeats _).reads_some nonempty)
    have quoted : Reads ( Annotation.literal Part.literal ++ (argumentsEnd ++ .blanks))
        (['"'] ++ (literal ++ (['"'] ++ ((arguments ++ [')']) ++ gap)))) rest
        [(Part.literal, literal)] :=
      .assoc (.assoc (.bare_seq (.exactly _) (.seq_bare inside (.bare_seq (.exactly _) last))))
    have named := Reads.bare_seq (hn.reads _) quoted
    have opened := Reads.bare_seq (.exactly ['(']) (.bare_seq (reads_blanks hb' (by
      rw [List.append_assoc]
      exact hn.head (head?_other (by decide) _))) named)
    have whole := Reads.bare_seq (.exactly "@JsonProperty".toList)
      (.bare_seq (reads_blanks hb (head?_other (by decide) _)) opened)
    have same : "@JsonProperty".toList ++ (before ++ '(' :: (behind ++ (name ++
        '"' :: (literal ++ '"' :: (arguments ++ [')']))))) ++ gap =
        "@JsonProperty".toList ++ (before ++ (['('] ++ (behind ++ (name ++
          (['"'] ++ (literal ++ (['"'] ++ ((arguments ++ [')']) ++ gap)))))))) := by simp
    rw [same]
    exact whole

/-- Annotations begin with their mark. -/
theorem Annotations.head {text : List Char} (h : Annotations text) {property : Char → Prop}
    (mark : property '@') (outside : ∀ c ∈ rest.head?, property c) :
    ∀ c ∈ (text ++ rest).head?, property c := by
  intro c hc
  cases h with
  | nil => exact outside c hc
  | bare | call =>
    cases hc
    exact mark

/-- What begins apart does so behind blanks. -/
theorem beginsApart_append {gap : List Char} (hg : AreBlank gap) (outside : BeginsApart rest) :
    BeginsApart (gap ++ rest) :=
  forall_head?_append (fun _ hc => isWordChar_of_isBlank (hg _ hc)) outside

theorem beginsApart_blank {gap : List Char} (hg : AreBlank gap) (apart : gap ≠ [])
    (rest : List Char) : BeginsApart (gap ++ rest) := by
  obtain ⟨c, gap, rfl⟩ := List.exists_cons_of_ne_nil apart
  exact head?_other (isWordChar_of_isBlank (hg c (List.mem_cons_self ..))) _

/-- The name of an annotation without arguments ends where it is written to end. -/
theorem Annotations.beginsApart {gap more : List Char} (h : Annotations more) (hg : AreBlank gap)
    (apart : gap ≠ [] ∨ more ≠ []) (rest : List Char) : BeginsApart (gap ++ (more ++ rest)) := by
  rcases apart with apart | apart
  · exact beginsApart_blank hg apart _
  · refine beginsApart_append hg ?_
    cases h with
    | nil => exact absurd rfl apart
    | bare | call => exact head?_other (by decide) _

/-- An annotation without arguments. -/
theorem annotation_reads_bare {name gap : List Char} (nonempty : name ≠ [])
    (letters : ∀ c ∈ name, isWordChar c = true) (hg : AreBlank gap)
    (apart : BeginsApart (gap ++ rest))
    (behind : ∀ c ∈ rest.head?, isBlank c = false ∧ c ≠ '(') :
    Reads ( annotation : Pattern ι) (['@'] ++ (name ++ gap)) rest [] := by
  have none : Reads (.optional (.blanks ++ .word "(" ++ argumentsEnd) : Pattern ι) []
      (gap ++ rest) [] :=
    .optional_none ((rejects_blanks_word (c := '(') rfl (by decide) hg behind).seq _)
  have blanks : Reads (.blanks : Pattern ι) gap rest [] :=
    reads_blanks hg fun c hc => (behind c hc).1
  have word : Reads (.someRun isWordChar : Pattern ι) name (([] ++ gap) ++ rest) [] :=
    .someRun nonempty letters apart
  exact .assoc (.assoc (.bare_seq (.exactly _) (.bare_seq word (.bare_seq none blanks))))

/-- An annotation with arguments in which no parenthesis is closed. -/
theorem annotation_reads_call {name gap arguments behind : List Char} (nonempty : name ≠ [])
    (letters : ∀ c ∈ name, isWordChar c = true) (hg : AreBlank gap) (closed : ')' ∉ arguments)
    (hb : AreBlank behind) (outside : ∀ c ∈ rest.head?, isBlank c = false) :
    Reads ( annotation : Pattern ι)
      (['@'] ++ (name ++ (gap ++ (['('] ++ (arguments ++ [')'])) ++ behind))) rest [] := by
  have arguments' : Reads (.optional (.blanks ++ .word "(" ++ argumentsEnd) : Pattern ι)
      (gap ++ (['('] ++ (arguments ++ [')']))) (behind ++ rest) [] :=
    .optional_some (.assoc (.bare_seq (reads_blanks hg (head?_other (by decide) _))
      (.bare_seq (.exactly _) (reads_argumentsEnd closed))))
  have word : Reads (.someRun isWordChar : Pattern ι) name
      ((gap ++ (['('] ++ (arguments ++ [')'])) ++ behind) ++ rest) [] := by
    refine .someRun nonempty letters ?_
    rw [List.append_assoc, List.append_assoc]
    exact beginsApart_append hg (head?_other (by decide) _)
  exact .assoc (.assoc (.bare_seq (.exactly _)
    (.bare_seq word (.bare_seq arguments' (reads_blanks hb outside)))))

/-- Annotations are repeated up to the modifier of the field. -/
theorem Annotations.repeats {text : List Char} (h : Annotations text)
    (start : rest.head? = some 'p') : Repeats ( annotation : Pattern ι) rest text := by
  have first : ∀ c ∈ rest.head?, isBlank c = false ∧ c ≠ '(' ∧ c ≠ '@' := by
    intro c hc
    rw [start] at hc
    cases hc
    decide
  induction h with
  | nil =>
    refine .nil ((((rejects_word (c := '@') rfl ?_).seq _).seq _).seq _)
    exact fun c hc => (first c hc).2.2
  | @bare name gap more h hg apart annotations ih =>
    have behind : ∀ c ∈ (more ++ rest).head?, isBlank c = false ∧ c ≠ '(' :=
      annotations.head (by decide) fun c hc => ⟨(first c hc).1, (first c hc).2.1⟩
    have whole : Reads ( annotation : Pattern ι) (['@'] ++ (name ++ gap)) (more ++ rest) [] :=
      annotation_reads_bare h.nonempty h.letters hg (annotations.beginsApart hg apart rest) behind
    have item := Repeats.cons (by simp) whole ih
    simpa using item
  | @call name gap arguments behind more h hg closed _ _ hb annotations ih =>
    have last : ∀ c ∈ (more ++ rest).head?, isBlank c = false :=
      annotations.head (by decide) fun c hc => (first c hc).1
    have whole := annotation_reads_call (ι := ι) h.nonempty h.letters hg closed hb last
    have item := Repeats.cons (by simp) whole ih
    simpa using item

end InterfaceGen.Source
