import InterfaceGen.Proofs.Source.AnnotationReading
import InterfaceGen.Proofs.Source.EnumSpelling
import InterfaceGen.Proofs.Text.Matches

/-!
# How the constants of an enum are read

The body of an enum is cut where its constants end, and each piece is read as the constant that it
declares: the annotations are passed over, and the name is read whole. The arguments are read at
least to the parenthesis that closes them, perhaps on to one in the body of the constant; the literal
that they begin with is the same.
-/

namespace InterfaceGen.Source

open InterfaceGen.Text InterfaceGen.Text.Pattern InterfaceGen.Types InterfaceGen.Source.Annotation

/-! ## Constants as groups -/

/-- Characters of a class without marks are idle. -/
theorem isIdle_of_test {test : Char → Bool}
    (other : ∀ d ∈ ['"', '\\', '(', ')', '\x7b', '\x7d', ',', ';'], test d = false) {c : Char}
    (h : test c = true) : isIdle c = true := by
  rw [isIdle, Bool.not_eq_true', List.contains_eq_mem, decide_eq_false_iff_not]
  intro mark
  rw [other c mark] at h
  cases h

theorem Grouped.blanks {gap : List Char} (h : AreBlank gap) : Grouped gap :=
  .of_idle fun c hc => isIdle_of_test (by decide) (h c hc)

theorem Grouped.letters {word : List Char} (h : ∀ c ∈ word, isWordChar c = true) : Grouped word :=
  .of_idle fun c hc => isIdle_of_test (by decide) (h c hc)

/-- Annotations are grouped: their brackets are closed, and no comma or semicolon stands outside of
them. -/
theorem ConstantAnnotations.grouped {text : List Char} (h : ConstantAnnotations text) :
    Grouped text := by
  induction h with
  | nil => exact .nil
  | bare _ letters hg _ _ ih =>
    exact .idle (by decide) ((Grouped.letters letters).append ((Grouped.blanks hg).append ih))
  | call _ letters hg _ balanced hb _ ih =>
    have behind := Grouped.parentheses balanced ((Grouped.blanks hb).append ih)
    exact .idle (by decide) ((Grouped.letters letters).append ((Grouped.blanks hg).append behind))

/-- The literal is read as the one that the arguments begin with. What stands behind a parenthesis
that is closed is not part of it. -/
def EnumBody.Leads (literal : Option (List Char)) (arguments : List Char) : Prop :=
  ∀ more, (∀ c ∈ more.head?, c = ')') →
    (EnumBody.leadingLiteral.matchStart (arguments ++ more)).bind (·.captured? .literal) = literal

/-- The arguments of a constant, or nothing, with the literal that is read of them. -/
inductive ReadArguments : Option (List Char) → List Char → Prop where
  | none : ReadArguments none []
  | some {literal : Option (List Char)} {gap arguments : List Char} (hg : AreBlank gap)
    (balanced : BalancesBrackets arguments) (leads : EnumBody.Leads literal arguments) :
    ReadArguments literal (gap ++ '(' :: (arguments ++ [')']))

/-- So are arguments. -/
theorem ReadArguments.grouped {literal : Option (List Char)} {text : List Char}
    (h : ReadArguments literal text) : Grouped text := by
  cases h with
  | none => exact .nil
  | some hg balanced _ => exact (Grouped.blanks hg).append (.parentheses balanced .nil)

/-- So is the body of a constant. -/
theorem ConstantBody.grouped {text : List Char} (h : ConstantBody text) : Grouped text := by
  cases h with
  | none => exact .nil
  | some hg balanced => exact (Grouped.blanks hg).append (.braces balanced .nil)

theorem isConstantChar_of_isConstantStart {c : Char} (h : isConstantStart c = true) :
    isConstantChar c = true := by
  rw [isConstantStart, Bool.or_eq_true] at h
  rcases h with h | h <;> simp [isConstantChar, h]

theorem isWordChar_of_isConstantChar {c : Char} (h : isConstantChar c = true) :
    isWordChar c = true := by
  apply isWordChar_of_isNameChar
  simp only [isConstantChar, Bool.or_eq_true] at h
  rcases h with (upper | digit) | line
  · exact isNameChar_of_isNameStart (isNameStart_of_isUpper upper)
  · simp [isNameChar, Char.isAlphanum, digit]
  · simp [isNameChar, line]

section Name

variable {name : List Char} (hn : isHeadedBy isConstantStart isConstantChar name = true)

include hn

theorem isConstantChar_of_name : ∀ c ∈ name, isConstantChar c = true :=
  forall_of_isHeadedBy hn fun _ => isConstantChar_of_isConstantStart

theorem letters_of_name : ∀ c ∈ name, isWordChar c = true := fun c hc =>
  isWordChar_of_isConstantChar (isConstantChar_of_name hn c hc)

end Name

/-! ## Annotations -/

/-- Annotations begin with their mark. -/
theorem ConstantAnnotations.head {text rest : List Char} (h : ConstantAnnotations text)
    {property : Char → Prop} (mark : property '@') (outside : ∀ c ∈ rest.head?, property c) :
    ∀ c ∈ (text ++ rest).head?, property c := by
  intro c hc
  cases h with
  | nil => exact outside c hc
  | bare | call =>
    cases hc
    exact mark

theorem annotation_rejects {ι : Type} {rest : List Char} (h : ∀ c ∈ rest.head?, c ≠ '@') :
    Rejects ( annotation : Pattern ι) rest :=
  (((rejects_word (c := '@') rfl h).seq _).seq _).seq _

/-- Annotations are repeated up to the name of the constant. -/
theorem ConstantAnnotations.repeats {ι : Type} {text rest : List Char} (h : ConstantAnnotations text)
    (start : ∀ c ∈ rest.head?, isBlank c = false ∧ c ≠ '(' ∧ c ≠ '@') :
    Repeats ( annotation : Pattern ι) rest text := by
  induction h with
  | nil => exact .nil (annotation_rejects fun c hc => (start c hc).2.2)
  | @bare name gap more nonempty letters hg apart annotations ih =>
    have behind : ∀ c ∈ (more ++ rest).head?, isBlank c = false ∧ c ≠ '(' :=
      annotations.head (by decide) fun c hc => ⟨(start c hc).1, (start c hc).2.1⟩
    have ends : BeginsApart (gap ++ (more ++ rest)) := by
      rcases apart with apart | apart
      · exact beginsApart_blank hg apart _
      · refine beginsApart_append hg ?_
        cases annotations with
        | nil => exact absurd rfl apart
        | bare | call => exact head?_other (by decide) _
    have item := Repeats.cons (by simp)
      (annotation_reads_bare (ι := ι) nonempty letters hg ends behind) ih
    simpa using item
  | @call name gap arguments behind more nonempty letters hg simple _ hb annotations ih =>
    have last : ∀ c ∈ (more ++ rest).head?, isBlank c = false :=
      annotations.head (by decide) fun c hc => (start c hc).1
    have item := Repeats.cons (by simp)
      (annotation_reads_call (ι := ι) nonempty letters hg simple.2 hb last) ih
    simpa using item

namespace EnumBody

theorem withoutAnnotations_append {text rest : List Char} (h : ConstantAnnotations text)
    (start : ∀ c ∈ rest.head?, isBlank c = false ∧ c ≠ '(' ∧ c ≠ '@') :
    withoutAnnotations (text ++ rest) = rest := by
  by_cases empty : text = []
  · subst empty
    have off : Rejects leadingAnnotations rest :=
      (annotation_rejects fun c hc => (start c hc).2.2).seq _
    rw [withoutAnnotations, List.nil_append, matchStart, matchAt, Cursor.start, off]
  · have found : leadingAnnotations.matchStart (text ++ rest) =
        some ⟨text.getLast?.or none, rest, 0 + text.length, [] ++ []⟩ :=
      (h.repeats start).reads_some empty none 0 [] some _ rfl
    rw [withoutAnnotations, found]

/-! ## The parts of a constant -/

/-- The name of a constant. -/
def namePattern : Pattern Part :=
  .capture .name (.one isConstantStart ++ .run isConstantChar)

/-- The arguments of a constant, between their parentheses. -/
def argumentsPattern : Pattern Part :=
  .word "(" ++ (.capture .arguments anyRun ++ .word ")")

/-- What has to stand behind the arguments of a constant. -/
def closingPattern : Pattern Part :=
  .blanks ++ (.optional (.word "\x7b" ++ (anyRun ++ .word "\x7d")) ++ .finish)

theorem follow_entry (next : Cursor Part → Option (Cursor Part)) (s : Cursor Part) :
    entry.follow next s =
      (namePattern ++ (.blanks ++ (.optional argumentsPattern ++ closingPattern))).follow next s :=
  rfl

/-- The name is read up to what cannot stand in it. -/
theorem reads_namePattern {name rest : List Char}
    (hn : isHeadedBy isConstantStart isConstantChar name = true) (apart : BeginsApart rest) :
    Reads namePattern name rest [(Part.name, name)] := by
  obtain ⟨c, more, rfl, start, further⟩ := isHeadedBy_iff.1 hn
  refine .capture Part.name (.seq (.one start) (.run further fun d hd => ?_))
  apply Bool.eq_false_iff.2
  intro inside
  have outside := apart d hd
  rw [isWordChar_of_isConstantChar inside] at outside
  cases outside

theorem silent_closingPattern : closingPattern.Silent :=
  ⟨trivial, ⟨trivial, trivial, trivial⟩, trivial⟩

theorem isSome_braces (body : List Char) (before : Option Char) (offset : Nat)
    (captures : List (Part × List Char)) :
    ((.optional (.word "\x7b" ++ (anyRun ++ .word "\x7d")) ++ .finish : Pattern Part).follow some
      ⟨before, '\x7b' :: (body ++ ['\x7d']), offset, captures⟩).isSome := by
  have last : ∀ before offset, ((.word "\x7d" ++ .finish : Pattern Part).follow some
      ⟨before, ['\x7d'], offset, captures⟩).isSome := by
    intro before offset
    have reads : Reads (.word "\x7d" ++ .finish : Pattern Part) (['\x7d'] ++ []) [] [] :=
      .seq (.exactly _) .finish
    exact Option.isSome_of_eq_some (reads before offset captures some _ rfl)
  obtain ⟨m, -, -, found, same⟩ := @exists_follow_run Part (fun _ => true) _ captures body ['\x7d']
    (fun _ _ => rfl) (some '\x7b') (offset + 1) (last _ _)
  have opened := follow_mark '\x7b' ((anyRun ++ .word "\x7d").follow (finish.follow some)) before
    (body ++ ['\x7d']) offset captures
  exact isSome_follow_optional (.inl ((congrArg Option.isSome (opened.trans same)).trans found))

/-- The body of a constant, or nothing, ends it. -/
theorem isSome_closing {body : List Char} (h : ConstantBody body) (before : Option Char)
    (offset : Nat) (captures : List (Part × List Char)) :
    (closingPattern.follow some ⟨before, body, offset, captures⟩).isSome := by
  cases h with
  | none =>
    have empty : Reads (.blanks : Pattern Part) [] ([] ++ []) [] :=
      reads_blanks (List.forall_mem_nil _) (by simp)
    have unbraced : Reads (.optional (.word "\x7b" ++ (anyRun ++ .word "\x7d")) : Pattern Part) []
        ([] ++ []) [] := .optional_none ((rejects_word (c := '\x7b') rfl (by simp)).seq _)
    have reads : Reads closingPattern ([] ++ ([] ++ [])) [] [] := .seq empty (.seq unbraced .finish)
    exact Option.isSome_of_eq_some (reads before offset captures some _ rfl)
  | @some gap body hg =>
    have blanks : Reads (.blanks : Pattern Part) gap ('\x7b' :: (body ++ ['\x7d'])) [] :=
      reads_blanks hg (head?_other (by decide) _)
    obtain ⟨t, found⟩ := Option.isSome_iff_exists.1
      (isSome_braces body (gap.getLast?.or before) (offset + gap.length) captures)
    exact Option.isSome_of_eq_some (blanks before offset captures _ t found)

/-- The arguments that are read are those that are written, perhaps with more behind the parenthesis
that closes them. -/
theorem exists_arguments {arguments body : List Char} (hb : ConstantBody body)
    (before : Option Char) (offset : Nat) (captures : List (Part × List Char)) :
    ∃ t more, (.optional argumentsPattern ++ closingPattern).follow some
        ⟨before, '(' :: (arguments ++ ')' :: body), offset, captures⟩ = some t ∧
      t.captures = (Part.arguments, arguments ++ more) :: captures ∧
      ∀ c ∈ more.head?, c = ')' := by
  let behind := (.word ")" ++ closingPattern).follow some
  have closed : ∀ before offset captures,
      (behind ⟨before, ')' :: body, offset, captures⟩).isSome := by
    intro before offset captures
    have here := follow_mark ')' (closingPattern.follow some) before body offset captures
    have found := isSome_closing hb (some ')') (offset + 1) captures
    rw [← here] at found
    exact found
  -- The run of arguments ends where `behind` matches, at their end or further on.
  let inside : Cursor Part := ⟨some '(', arguments ++ ')' :: body, offset + 1, captures⟩
  obtain ⟨m, more, passes, found, same⟩ := @exists_follow_run Part (fun _ => true)
    (fun t => behind (inside.keepSince .arguments t)) captures arguments (')' :: body)
    (fun _ _ => rfl) (some '(') (offset + 1) (closed _ _ _)
  obtain ⟨t, ht⟩ := Option.isSome_iff_exists.1 found
  have argued : argumentsPattern.follow (closingPattern.follow some)
      ⟨before, '(' :: (arguments ++ ')' :: body), offset, captures⟩ = some t :=
    (follow_mark '(' _ before _ offset captures).trans (same.trans ht)
  refine ⟨t, more, ?_, ?_, fun c hc => ?_⟩
  · rw [follow_seq, follow_optional, argued, Option.some_or]
  · have silent : (.word ")" ++ closingPattern : Pattern Part).Silent :=
      ⟨trivial, silent_closingPattern⟩
    rw [captures_of_silent silent ht]
    exact (passes.keepSince Part.arguments).captures
  · have rest : ')' :: body = more ++ m.rest := by
      have whole := passes.rest
      rw [List.append_assoc] at whole
      exact List.append_cancel_left whole
    obtain ⟨d, more, rfl⟩ := List.head?_eq_some_iff.1 hc
    exact (List.cons.inj rest).1.symm

/-! ## The constant of a piece -/

/-- The literal that arguments begin with is the leading one. -/
theorem leads_of_leadingLiteral {literal : Option (List Char)} {arguments : List Char}
    (h : LeadingLiteral literal arguments) : Leads literal arguments := by
  intro more closed
  cases h with
  | @none gap rest hg other =>
    have outside : ∀ c ∈ (rest ++ more).head?, isBlank c = false ∧ c ≠ '"' := by
      intro c hc
      cases rest with
      | nil =>
        rw [closed c hc]
        decide
      | cons d rest => exact other c hc
    have off : Rejects leadingLiteral (gap ++ (rest ++ more)) := by
      refine .run hg (fun c hc => (outside c hc).1) (fun c more blank => ?_) ?_
      · refine ((rejects_word (c := '"') rfl (head?_ne ?_ more)).seq _).seq _
        rintro rfl
        exact absurd blank (by decide)
      · exact ((rejects_word (c := '"') rfl fun c hc => (outside c hc).2).seq _).seq _
    rw [List.append_assoc, matchStart, matchAt, Cursor.start, off]
    rfl
  | @some gap body rest hg hb nonempty =>
    have inside : Reads (.capture Part.literal (literalItem ++ .many literalItem)) body
        (['"'] ++ (rest ++ more)) [(Part.literal, body)] :=
      .capture Part.literal ((hb.repeats _).reads_some nonempty)
    have quoted : Reads ( Annotation.literal Part.literal) (['"'] ++ (body ++ ['"'])) (rest ++ more)
        [(Part.literal, body)] :=
      .assoc (.bare_seq (.exactly _) (.seq_bare inside (.exactly _)))
    have reads : Reads leadingLiteral (gap ++ (['"'] ++ (body ++ ['"']))) (rest ++ more)
        [(Part.literal, body)] :=
      .bare_seq (reads_blanks hg (head?_other (by decide) _)) quoted
    have found := reads none 0 [] some _ rfl
    have same : gap ++ '"' :: (body ++ '"' :: rest) ++ more =
        gap ++ (['"'] ++ (body ++ ['"'])) ++ (rest ++ more) := by simp
    rw [same, matchStart, matchAt, Cursor.start, found]
    rfl

/-- A body does not go on as a name. -/
theorem beginsApart_body {body : List Char} (h : ConstantBody body) : BeginsApart body := by
  cases h with
  | none => exact .nil
  | some hg => exact beginsApart_append hg (head?_other (by decide) _)

theorem beginsApart_arguments {literal : Option (List Char)} {arguments body : List Char}
    (h : ReadArguments literal arguments) (hb : ConstantBody body) :
    BeginsApart (arguments ++ body) := by
  cases h with
  | none => exact beginsApart_body hb
  | some hg =>
    rw [List.append_assoc]
    exact beginsApart_append hg (head?_other (by decide) _)

/-- Where no parenthesis opens, no arguments are captured. -/
theorem exists_unargued {body : List Char} (h : ConstantBody body)
    (other : ∀ c ∈ body.head?, c ≠ '(') (before : Option Char) (offset : Nat)
    (captures : List (Part × List Char)) :
    ∃ t, (.optional argumentsPattern ++ closingPattern).follow some
        ⟨before, body, offset, captures⟩ = some t ∧ t.captures = captures := by
  have off : Rejects argumentsPattern body := (rejects_word (c := '(') rfl other).seq _
  obtain ⟨t, found⟩ := Option.isSome_iff_exists.1 (isSome_closing h before offset captures)
  refine ⟨t, ?_, captures_of_silent silent_closingPattern found⟩
  rw [follow_seq, follow_optional, off, Option.none_or]
  exact found

/-- Behind the name, arguments are read if there are any, and they begin with the literal. -/
theorem exists_behindName {arguments body : List Char} {literal : Option (List Char)}
    (hargs : ReadArguments literal arguments) (hb : ConstantBody body) (before : Option Char)
    (offset : Nat) (captures : List (Part × List Char)) :
    ∃ t, ∃ given : Option (List Char),
      (.blanks ++ (.optional argumentsPattern ++ closingPattern)).follow some
        ⟨before, arguments ++ body, offset, captures⟩ = some t ∧
      t.captures = (given.map (Part.arguments, ·)).toList ++ captures ∧
      (leadingLiteral.matchStart (given.getD [])).bind (·.captured? .literal) = literal := by
  cases hargs with
  | none =>
    have unnamed : (leadingLiteral.matchStart []).bind (·.captured? .literal) = none :=
      leads_of_leadingLiteral (@LeadingLiteral.none [] [] (List.forall_mem_nil _) (by simp)) [] (by simp)
    cases hb with
    | none =>
      obtain ⟨t, found, kept⟩ := exists_unargued .none (by simp) before offset captures
      have blanks : Reads (.blanks : Pattern Part) [] [] [] :=
        reads_blanks (List.forall_mem_nil _) (by simp)
      exact ⟨t, none, blanks before offset captures _ t found, kept, unnamed⟩
    | @some gap body hg balanced =>
      have braces : ConstantBody ('\x7b' :: (body ++ ['\x7d'])) :=
        @ConstantBody.some [] body (List.forall_mem_nil _) balanced
      obtain ⟨t, found, kept⟩ := exists_unargued braces (head?_ne (by decide) _)
        (gap.getLast?.or before) (offset + gap.length) captures
      have blanks : Reads (.blanks : Pattern Part) gap ('\x7b' :: (body ++ ['\x7d'])) [] :=
        reads_blanks hg (head?_other (by decide) _)
      exact ⟨t, none, blanks before offset captures _ t found, kept, unnamed⟩
  | @some _ gap arguments hg _ leads =>
    obtain ⟨t, more, found, kept, closed⟩ := @exists_arguments arguments body hb
      (gap.getLast?.or before) (offset + gap.length) captures
    have blanks : Reads (.blanks : Pattern Part) gap ('(' :: (arguments ++ ')' :: body)) [] :=
      reads_blanks hg (head?_other (by decide) _)
    have same : gap ++ '(' :: (arguments ++ [')']) ++ body =
        gap ++ '(' :: (arguments ++ ')' :: body) := by simp
    rw [same]
    exact ⟨t, some (arguments ++ more), blanks before offset captures _ t found, kept,
      leads more closed⟩

/-- A constant is read with its name and the literal that its arguments begin with. -/
theorem exists_entry {name arguments body : List Char} {literal : Option (List Char)}
    (hn : isHeadedBy isConstantStart isConstantChar name = true)
    (hargs : ReadArguments literal arguments) (hb : ConstantBody body) :
    ∃ t, entry.matchStart (name ++ (arguments ++ body)) = some t ∧
      t.captured? .name = some name ∧
      (leadingLiteral.matchStart ((t.captured? .arguments).getD [])).bind
        (·.captured? .literal) = literal := by
  obtain ⟨t, given, found, kept, same⟩ := exists_behindName hargs hb (name.getLast?.or none)
    (0 + name.length) [(Part.name, name)]
  have named := reads_namePattern hn (beginsApart_arguments hargs hb)
  refine ⟨t, ?_, ?_, ?_⟩
  · rw [matchStart, matchAt, follow_entry]
    exact named none 0 [] _ t found
  · rw [Cursor.captured?, kept]
    cases given <;> rfl
  · rw [← same, Cursor.captured?, kept]
    cases given <;> rfl

end EnumBody

theorem head_of_name {name : List Char} (hn : isHeadedBy isConstantStart isConstantChar name = true)
    (rest : List Char) : ∀ c ∈ (name ++ rest).head?, isWordChar c = true := by
  obtain ⟨c, more, rfl, -, -⟩ := isHeadedBy_iff.1 hn
  intro d hd
  cases hd
  exact letters_of_name hn c (List.mem_cons_self ..)

/-- A constant without its annotations is trimmed. -/
theorem isTrimmed_of_name {name arguments body : List Char} {literal : Option (List Char)}
    (hn : isHeadedBy isConstantStart isConstantChar name = true)
    (hargs : ReadArguments literal arguments) (hb : ConstantBody body) :
    IsTrimmed (name ++ (arguments ++ body)) := by
  refine ⟨fun c hc => isBlank_of_isWordChar (head_of_name hn _ c hc), ?_⟩
  have named : EndsSolid name := fun c hc =>
    isBlank_of_isWordChar (letters_of_name hn c (List.mem_of_getLast? hc))
  have argued : EndsSolid arguments := by
    cases hargs with
    | none => exact fun c hc => by cases hc
    | @some _ gap arguments =>
      have ends := EndsSolid.concat (c := ')') (by decide) (gap ++ '(' :: arguments)
      simpa using ends
  have closed : EndsSolid body := by
    cases hb with
    | none => exact fun c hc => by cases hc
    | @some gap body =>
      have ends := EndsSolid.concat (c := '\x7d') (by decide) (gap ++ '\x7b' :: body)
      simpa using ends
  exact named.append (argued.append closed)

namespace EnumBody

/-- One entry of a list of constants, and the constant that is read of it. -/
structure IsPiece (c : Constant) (text : List Char) : Prop where
  grouped : Grouped text
  trimmed : IsTrimmed text
  nonempty : text ≠ []
  read : constant? text = some c

/-- A constant is read with its name and with the literal that is read of its arguments. -/
theorem isPiece_of_parts {annotations name arguments body : List Char}
    {literal : Option (List Char)} (ha : ConstantAnnotations annotations)
    (hn : isHeadedBy isConstantStart isConstantChar name = true)
    (hargs : ReadArguments literal arguments) (hb : ConstantBody body) :
    IsPiece ⟨String.ofList name, String.ofList (literal.getD (name.map Char.toLower))⟩
      (annotations ++ (name ++ (arguments ++ body))) := by
  have start : ∀ c ∈ (name ++ (arguments ++ body)).head?, isBlank c = false ∧ c ≠ '(' ∧ c ≠ '@' := by
    intro c hc
    have word := head_of_name hn _ c hc
    refine ⟨isBlank_of_isWordChar word, ?_, ?_⟩
    · rintro rfl
      exact absurd word (by decide)
    · rintro rfl
      exact absurd word (by decide)
  have trimmed := isTrimmed_of_name hn hargs hb
  have some : name ++ (arguments ++ body) ≠ [] := by
    obtain ⟨c, more, rfl, -, -⟩ := isHeadedBy_iff.1 hn
    exact List.cons_ne_nil _ _
  refine ⟨?_, ⟨ha.head (by decide) trimmed.1, fun c hc => trimmed.2 c ?_⟩, ?_, ?_⟩
  · exact ha.grouped.append ((Grouped.letters (letters_of_name hn)).append
      (hargs.grouped.append hb.grouped))
  · rwa [List.getLast?_append, List.getLast?_eq_some_getLast some, Option.some_or,
      ← List.getLast?_eq_some_getLast some] at hc
  · exact List.append_ne_nil_of_right_ne_nil _ some
  · obtain ⟨t, found, named, leading⟩ := exists_entry hn hargs hb
    rw [constant?, withoutAnnotations_append ha start, trim_of_isTrimmed trimmed, found,
      Option.map_some]
    simp only [named, leading, Option.getD_some]

end EnumBody

/-- Arguments are read with the literal that they begin with. -/
theorem ConstantArguments.read {literal : Option (List Char)} {text : List Char}
    (h : ConstantArguments literal text) : ReadArguments literal text := by
  cases h with
  | none => exact .none
  | some hg balanced leading => exact .some hg balanced (EnumBody.leads_of_leadingLiteral leading)

/-- A constant as it is written is a piece of the body. -/
theorem ConstantText.isPiece {c : Constant} {text : List Char} (h : ConstantText c text) :
    EnumBody.IsPiece c text := by
  cases h with
  | intro ha hn hargs hb => exact EnumBody.isPiece_of_parts ha hn hargs.read hb

/-- The constants of a written list are the pieces of it. -/
theorem Listed.pieces {cs : List Constant} {list : List Char} (h : Listed ConstantText cs list) :
    Listed EnumBody.IsPiece cs list := by
  have whole := h.map (f := id) fun _ _ => ConstantText.isPiece
  rwa [List.map_id] at whole

/-! ## The pieces of a body -/

namespace EnumBody

theorem constant?_nil : constant? [] = none := by
  rfl

/-- An empty last piece, which is dropped, is no constant. -/
theorem filterMap_tidy (pieces : List (List Char)) :
    (tidy pieces).filterMap constant? = (pieces.map trim).filterMap constant? := by
  rw [tidy]
  split
  · next last =>
    obtain ⟨front, same⟩ := List.getLast?_eq_some_iff.1 last
    rw [same, List.dropLast_concat, List.filterMap_append, List.filterMap_cons, constant?_nil,
      List.filterMap_nil, List.append_nil]
  · rfl

/-- A grouped piece is cut off at the comma behind it. -/
theorem cutBy_comma {piece : List Char} (h : Grouped piece) (rest : List Char) :
    cutBy (splitStep true) (.at 0) (piece ++ ',' :: rest) =
      piece :: cutBy (splitStep true) (.at 0) rest := by
  have comma : splitStep true (.at 0) ',' = (.at 0, .cut) := by simp [splitStep, SplitState.at]
  rw [Keeps.of_grouped h, cutBy, comma, foldr_prepend, List.append_nil]

/-- The pieces end with the text or at the first semicolon. -/
theorem cutBy_members {piece members : List Char} (h : Grouped piece) (hm : EnumMembers members) :
    cutBy (splitStep true) (.at 0) (piece ++ members) = [piece] := by
  have ended : cutBy (splitStep true) (.at 0) members = [[]] := by
    cases hm with
    | none => rfl
    | some =>
      have semicolon : splitStep true (.at 0) ';' = (.at 0, .stop) := by simp [splitStep, SplitState.at]
      rw [cutBy, semicolon]
  rw [Keeps.of_grouped h, ended, foldr_prepend, List.append_nil]

theorem grouped_piece {c : Constant} {before text after : List Char} (hb : AreBlank before)
    (h : IsPiece c text) (ha : AreBlank after) : Grouped (before ++ (text ++ after)) :=
  (Grouped.blanks hb).append (h.grouped.append (.blanks ha))

/-- The pieces of a list with members behind it are its constants, each read as it is written. -/
theorem filterMap_pieces {cs : List Constant} {list members : List Char} (h : Listed IsPiece cs list)
    (hm : EnumMembers members) :
    ((cutBy (splitStep true) (.at 0) (list ++ members)).map trim).filterMap constant? = cs := by
  have blank : ∀ {gap}, AreBlank gap → constant? (trim gap) = none := fun hg => by
    rw [trim_blanks hg, constant?_nil]
  have piece : ∀ {c before text after}, AreBlank before → IsPiece c text → AreBlank after →
      constant? (trim (before ++ (text ++ after))) = some c := fun hb h ha => by
    rw [trim_surrounded hb ha h.trimmed h.nonempty, h.read]
  induction h with
  | none hg => simp [cutBy_members (.blanks hg) hm, blank hg]
  | comma hg hg' =>
    rw [List.append_assoc, List.cons_append, cutBy_comma (.blanks hg),
      cutBy_members (.blanks hg') hm]
    simp [blank hg, blank hg']
  | last hb h ha =>
    rw [cutBy_members (grouped_piece hb h ha) hm, List.map_singleton, List.filterMap_cons,
      piece hb h ha, List.filterMap_nil]
  | @cons c cs before text after rest hb h ha _ ih =>
    have same : before ++ (text ++ (after ++ ',' :: rest)) ++ members =
        before ++ (text ++ after) ++ ',' :: (rest ++ members) := by simp
    rw [same, cutBy_comma (grouped_piece hb h ha), List.map_cons, List.filterMap_cons,
      piece hb h ha, ih]

/-- The constants of a body are those that are written in it. -/
theorem constants_list {cs : List Constant} {list members : List Char} (h : Listed IsPiece cs list)
    (hm : EnumMembers members) : constants (String.ofList (list ++ members)) = cs := by
  rw [constants, split, String.toList_ofList, filterMap_tidy]
  exact filterMap_pieces h hm

end EnumBody

end InterfaceGen.Source
