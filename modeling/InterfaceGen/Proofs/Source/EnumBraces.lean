import InterfaceGen.Proofs.Source.Lexemes

/-!
# The brace that closes an enum

The body of an enum is looked for in the text with its string literals blanked; character literals
stay as they are. So a brace between single quotes counts, and the body is found exactly where the
braces are balanced with those in character literals.
-/

namespace InterfaceGen.Source

open InterfaceGen.Text

/-! ## Blanked lexemes -/

namespace Lexeme

variable {row : List Lexeme}

/-- A character literal stays as it is. -/
theorem blanked_character {text : List Char} (h : IsCharacterLiteral text) :
    (literal text).blanked = text ∧ (literal text).character = text := by
  obtain ⟨body, -, rfl⟩ := h
  simp [blanked, character]

/-- A row is blanked lexeme by lexeme, where no quote stands outside of string literals. -/
theorem blankChars_write (coded : ∀ lexeme ∈ row, lexeme.OfSource)
    (quotes : '"' ∉ row.flatMap character) (rest : List Char) :
    Literal.blankChars (write row ++ rest) = row.flatMap blanked ++ Literal.blankChars rest := by
  induction row with
  | nil => rfl
  | cons lexeme row ih =>
    obtain ⟨here, later⟩ := List.forall_mem_cons.1 coded
    rw [List.flatMap_cons, List.mem_append, not_or] at quotes
    have behind := ih later quotes.2
    rw [List.flatMap_cons]
    cases lexeme with
    | literal text =>
      rcases here with ⟨body, h, rfl⟩ | single
      · rw [write_literal, blanked_string]
        simp only [List.cons_append, List.append_assoc, List.nil_append]
        rw [Literal.blankChars_literal h, behind]
      · obtain ⟨same, inside⟩ := blanked_character single
        rw [inside] at quotes
        rw [write_literal, same, List.append_assoc, Literal.blankChars_append quotes.1, behind,
          List.append_assoc]
    | other c =>
      rw [write_other, List.cons_append, Literal.blankChars_cons here.1, behind]
      rfl

theorem length_blanked {lexeme : Lexeme} (coded : lexeme.OfSource) :
    lexeme.blanked.length = lexeme.written.length := by
  cases lexeme with
  | literal text =>
    rcases coded with ⟨body, -, rfl⟩ | single
    · simp [blanked_string, written]
    · rw [(blanked_character single).1, written]
  | other c => rfl

/-- Blanking keeps the length of a row. -/
theorem length_flatMap_blanked (coded : ∀ lexeme ∈ row, lexeme.OfSource) :
    (row.flatMap blanked).length = (write row).length := by
  rw [write, List.length_flatMap, List.length_flatMap]
  exact congrArg List.sum (List.map_congr_left fun lexeme inside => length_blanked (coded _ inside))

/-- What is left of a lexeme stands in a character literal or outside of literals, but for the
quotes of a string literal and the spaces between them. -/
theorem mem_blanked {c : Char} {lexeme : Lexeme} (coded : lexeme.OfSource)
    (inside : c ∈ lexeme.blanked) :
    c ∈ lexeme.character ∨ c ∈ lexeme.outside ∨ c = '"' ∨ c = ' ' := by
  cases lexeme with
  | literal text =>
    rcases coded with ⟨body, -, rfl⟩ | single
    · rw [blanked_string] at inside
      simp at inside
      tauto
    · obtain ⟨same, character⟩ := blanked_character single
      rw [same] at inside
      rw [character]
      exact .inl inside
  | other d => exact .inr (.inl inside)

/-- A mark that stands neither in character literals nor outside of literals is not in the blanked
row. -/
theorem notMem_flatMap_blanked {c : Char} (mark : c ≠ '"' ∧ c ≠ ' ')
    (coded : ∀ lexeme ∈ row, lexeme.OfSource) (character : c ∉ row.flatMap character)
    (plain : c ∉ row.flatMap outside) : c ∉ row.flatMap blanked := by
  simp only [List.mem_flatMap, not_exists, not_and] at character plain ⊢
  intro lexeme member inside
  rcases mem_blanked (coded lexeme member) inside with there | there | quote | space
  · exact character lexeme member there
  · exact plain lexeme member there
  · exact mark.1 quote
  · exact mark.2 space

/-- Without braces in character literals the braces are those outside of literals. -/
theorem openBehind_blanked {opening closing : Char} (first : opening ≠ '"' ∧ opening ≠ ' ')
    (last : closing ≠ '"' ∧ closing ≠ ' ') (coded : ∀ lexeme ∈ row, lexeme.OfSource)
    (opened : opening ∉ row.flatMap character) (closed : closing ∉ row.flatMap character)
    (depth : Nat) :
    openBehind opening closing depth (row.flatMap blanked) =
      openBehind opening closing depth (row.flatMap outside) := by
  induction row generalizing depth with
  | nil => rfl
  | cons lexeme row ih =>
    obtain ⟨here, later⟩ := List.forall_mem_cons.1 coded
    rw [List.flatMap_cons, List.mem_append, not_or] at opened closed
    have behind := ih later opened.2 closed.2
    cases lexeme with
    | literal text =>
      have alone : ∀ {c}, c ≠ '"' ∧ c ≠ ' ' → c ∉ (literal text).character →
          c ∉ (literal text).blanked := by
        intro c mark apart inside
        rcases mem_blanked here inside with there | there | quote | space
        · exact apart there
        · exact absurd there List.not_mem_nil
        · exact mark.1 quote
        · exact mark.2 space
      rw [List.flatMap_cons, openBehind_append (alone first opened.1) (alone last closed.1), behind]
      rfl
    | other c =>
      simp only [List.flatMap_cons, blanked, outside, List.singleton_append, openBehind, behind]

end Lexeme

namespace EnumBody

open Lexeme

/-! ## The search stops at the first brace that closes more than was opened -/

/-- The search goes over a text that leaves some braces open. -/
theorem closingOffset?_of_openBehind {depth depth' : Nat} {text : List Char}
    (h : openBehind '\x7b' '\x7d' depth text = some depth') (rest : List Char) :
    closingOffset? depth (text ++ rest) = (closingOffset? depth' rest).map (· + text.length) := by
  induction text generalizing depth with
  | nil =>
    cases h
    simp
  | cons c text ih =>
    by_cases opens : c = '\x7b'
    · subst opens
      rw [openBehind_opening] at h
      simp [closingOffset?, ih h, Function.comp_def, Nat.add_assoc]
    by_cases closes : c = '\x7d'
    · subst closes
      obtain ⟨less, rfl, later⟩ := openBehind_closing (by decide) h
      simp [closingOffset?, ih later, Function.comp_def, Nat.add_assoc]
    · rw [openBehind_other ⟨opens, closes⟩] at h
      simp [closingOffset?_other ⟨opens, closes⟩, ih h, Function.comp_def, Nat.add_assoc]

/-- The search finds the first brace that closes more than was opened. -/
theorem closingOffset?_eq_some_iff {depth length : Nat} {text : List Char} :
    closingOffset? depth text = some length ↔ ∃ inner after,
      text = inner ++ '\x7d' :: after ∧ inner.length = length ∧
        openBehind '\x7b' '\x7d' depth inner = some 0 := by
  constructor
  · intro h
    induction text generalizing depth length with
    | nil => cases h
    | cons c text ih =>
      -- Whatever the character is, the search goes on at some depth behind it.
      have step : ∀ {depth'},
          (∀ inner, openBehind '\x7b' '\x7d' depth (c :: inner) =
            openBehind '\x7b' '\x7d' depth' inner) →
          (closingOffset? depth' text).map (· + 1) = some length → ∃ inner after,
            c :: text = inner ++ '\x7d' :: after ∧ inner.length = length ∧
              openBehind '\x7b' '\x7d' depth inner = some 0 := by
        intro depth' same h
        obtain ⟨less, found, rfl⟩ := Option.map_eq_some_iff.1 h
        obtain ⟨inner, after, rfl, rfl, balanced⟩ := ih found
        exact ⟨c :: inner, after, rfl, rfl, (same inner).trans balanced⟩
      by_cases opens : c = '\x7b'
      · subst opens
        exact step (fun _ => openBehind_opening) h
      by_cases closes : c = '\x7d'
      · subst closes
        cases depth with
        | zero =>
          cases h
          exact ⟨[], text, rfl, rfl, rfl⟩
        | succ less => exact step (fun _ => rfl) h
      · rw [closingOffset?_other ⟨opens, closes⟩] at h
        exact step (fun _ => openBehind_other ⟨opens, closes⟩) h
  · rintro ⟨inner, after, rfl, rfl, balanced⟩
    rw [closingOffset?_of_openBehind balanced, closingOffset?, Option.map_some, Nat.zero_add]

/-- The search ends behind a text exactly if its braces balance. -/
theorem closingOffset?_eq_length_iff {text rest : List Char} :
    closingOffset? 0 (text ++ '\x7d' :: rest) = some text.length ↔
      openBehind '\x7b' '\x7d' 0 text = some 0 := by
  rw [closingOffset?_eq_some_iff]
  constructor
  · rintro ⟨inner, after, same, long, balanced⟩
    rwa [(List.append_inj same long.symm).1]
  · exact fun balanced => ⟨text, rest, rfl, rfl, balanced⟩

/-- In a text whose braces are balanced outside of literals, the body of the enum is found where no
character literal in it holds a brace. With such braces it is found exactly where they are balanced
together with the others. No character literal up to the end of the body may hold a double quote,
and none between the header and the body an opening brace. -/
theorem find?_write {text : String} {front clause body : List Lexeme} {behind : List Char}
    (same : text.toList =
      write front ++ (write clause ++ '\x7b' :: (write body ++ '\x7d' :: behind)))
    (coded : ∀ lexeme ∈ front ++ clause ++ body, lexeme.OfSource)
    (opens : '\x7b' ∉ clause.flatMap outside)
    (balanced : openBehind '\x7b' '\x7d' 0 (body.flatMap outside) = some 0)
    (quotes : '"' ∉ (front ++ clause ++ body).flatMap character)
    (braces : '\x7b' ∉ clause.flatMap character) :
    ('\x7b' ∉ body.flatMap character ∧ '\x7d' ∉ body.flatMap character →
        find? text (write front).length = some (String.ofList (write body))) ∧
      (find? text (write front).length = some (String.ofList (write body)) ↔
        openBehind '\x7b' '\x7d' 0 (body.flatMap blanked) = some 0) := by
  simp only [List.forall_mem_append] at coded
  simp only [List.flatMap_append, List.mem_append, not_or] at quotes
  obtain ⟨⟨codedFront, codedClause⟩, codedBody⟩ := coded
  have blank : Literal.blankChars text.toList = front.flatMap blanked ++ (clause.flatMap blanked ++
      '\x7b' :: (body.flatMap blanked ++ '\x7d' :: Literal.blankChars behind)) := by
    rw [same, blankChars_write codedFront quotes.1.1, blankChars_write codedClause quotes.1.2,
      Literal.blankChars_cons (by decide), blankChars_write codedBody quotes.2,
      Literal.blankChars_cons (by decide)]
  have found := find?_at same blank (length_flatMap_blanked codedFront)
    (length_flatMap_blanked codedClause) (notMem_flatMap_blanked (by decide) codedClause braces opens)
  -- The body is cut from the text, so its length tells where the closing brace was found.
  have exact : find? text (write front).length = some (String.ofList (write body)) ↔
      openBehind '\x7b' '\x7d' 0 (body.flatMap blanked) = some 0 := by
    rw [found, ← @closingOffset?_eq_length_iff _ (Literal.blankChars behind),
      length_flatMap_blanked codedBody]
    constructor
    · intro taken
      obtain ⟨offset, closing, cut⟩ := Option.map_eq_some_iff.1 taken
      have whole := congrArg List.length (String.ofList_injective cut)
      simp only [List.length_take, List.length_append, List.length_cons] at whole
      rw [closing]
      congr 1
      omega
    · intro closing
      simp [closing]
  refine ⟨fun ⟨opened, closed⟩ => exact.2 ?_, exact⟩
  rw [openBehind_blanked (by decide) (by decide) codedBody opened closed, balanced]

/-- The header of an enum with a brace in the literal of an annotation. -/
def signFront : List Lexeme :=
  plain "@Tag(" ++ .literal "\"\x7b\"".toList :: plain ") enum Sign"

/-- A body with a brace in a string literal, a quote in a character literal, and a nested body. -/
def signBody : List Lexeme :=
  plain " OPEN(" ++ .literal "\"\x7d\"".toList :: plain ", " ++
    .literal "'\\''".toList :: plain ") \x7b \x7d, PLAIN "

/-- The header and the body in a text, with a quote in a character literal behind them. -/
def signText : String :=
  "@Tag(\"\x7b\") enum Sign implements Code \x7b OPEN(\"\x7d\", '\\'') \x7b \x7d, PLAIN \x7d '\"'"

/-- The lexemes are those of a source. -/
theorem ofSource_sign : ∀ lexeme ∈ signFront ++ plain " implements Code " ++ signBody,
    lexeme.OfSource := by
  have opening : (Lexeme.literal "\"\x7b\"".toList).OfSource :=
    .inl ⟨['\x7b'], .plain (by decide) .nil, by decide⟩
  have closing : (Lexeme.literal "\"\x7d\"".toList).OfSource :=
    .inl ⟨['\x7d'], .plain (by decide) .nil, by decide⟩
  have quote : (Lexeme.literal "'\\''".toList).OfSource :=
    .inr ⟨['\\', '\''], .escaped (by decide) .nil, by decide⟩
  simp only [List.forall_mem_append, List.forall_mem_cons, signFront, signBody]
  exact ⟨⟨⟨ofSource_plain (by decide), opening, ofSource_plain (by decide)⟩,
    ofSource_plain (by decide)⟩, ⟨ofSource_plain (by decide), closing, ofSource_plain (by decide)⟩,
    quote, ofSource_plain (by decide)⟩

/-- The body is found, whatever the literals around it and in it hold. -/
theorem find?_write_sign :
    (∀ lexeme ∈ signFront ++ plain " implements Code " ++ signBody, lexeme.OfSource) ∧
      find? signText 19 = some " OPEN(\"\x7d\", '\\'') \x7b \x7d, PLAIN " := by
  have found := (@find?_write signText _ _ _ " '\"'".toList (by decide) ofSource_sign (by decide)
    (by decide) (by decide) (by decide)).1 (by decide)
  have offset : ((write signFront).length : Int) = 19 := by decide
  rw [offset] at found
  exact ⟨ofSource_sign, found.trans (by decide)⟩

/-- A body with a brace between single quotes. -/
def openBody : List Lexeme :=
  plain " OPEN(" ++ .literal "'\x7b'".toList :: plain "), PLAIN "

/-- A brace between single quotes counts: the body, balanced outside of literals, is not found. -/
theorem find?_openBody :
    (∀ lexeme ∈ openBody, lexeme.OfSource) ∧
      openBehind '\x7b' '\x7d' 0 (openBody.flatMap outside) = some 0 ∧
      "enum Sign \x7b OPEN('\x7b'), PLAIN \x7d".toList =
        "enum Sign".toList ++ (" ".toList ++ '\x7b' :: (write openBody ++ ['\x7d'])) ∧
      find? "enum Sign \x7b OPEN('\x7b'), PLAIN \x7d" 9 = none := by
  have mark : (Lexeme.literal "'\x7b'".toList).OfSource :=
    .inr ⟨['\x7b'], .plain (by decide) .nil, by decide⟩
  have coded : ∀ lexeme ∈ openBody, lexeme.OfSource := by
    simp only [List.forall_mem_append, List.forall_mem_cons, openBody]
    exact ⟨ofSource_plain (by decide), mark, ofSource_plain (by decide)⟩
  have same : "enum Sign \x7b OPEN('\x7b'), PLAIN \x7d".toList =
      "enum Sign".toList ++ (" ".toList ++ '\x7b' :: (write openBody ++ ['\x7d'])) := by
    decide
  have unquoted : '"' ∉ "enum Sign \x7b OPEN('\x7b'), PLAIN \x7d".toList := by decide
  have blank := (Literal.blankChars_of_notMem unquoted).trans same
  have found := find?_at same blank rfl rfl (by decide)
  exact ⟨coded, by decide, same, found.trans (by decide)⟩

end EnumBody

end InterfaceGen.Source
