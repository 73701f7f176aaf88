import InterfaceGen.Proofs.Source.Lexemes

/-!
# The pieces of an enum body

`pieces` cuts a row of lexemes at the commas outside literals, parentheses and braces. The splitter
does the same with the lexemes that it reads, `lookBack`: for it a quote is none where the character
before is a backslash, also where that backslash is itself escaped. It reads a text as it is meant
exactly where the literals are straight, `AreStraight`.
-/

namespace InterfaceGen.Source.EnumBody

open InterfaceGen.Text Lexeme

/-- The pieces of a row of lexemes, untrimmed, with so many brackets open before it. -/
def cutRow (stopAtSemicolon : Bool) : Int → List Lexeme → List (List Char)
  | _, [] => [[]]
  | depth, .literal text :: row => text.foldr prepend (cutRow stopAtSemicolon depth row)
  | depth, .other c :: row =>
    if c = '(' ∨ c = '\x7b' then prepend c (cutRow stopAtSemicolon (depth + 1) row)
    else if c = ')' ∨ c = '\x7d' then prepend c (cutRow stopAtSemicolon (depth - 1) row)
    else if c = ';' ∧ depth = 0 ∧ stopAtSemicolon then [[]]
    else if c = ',' ∧ depth = 0 then [] :: cutRow stopAtSemicolon depth row
    else prepend c (cutRow stopAtSemicolon depth row)

/-- The trimmed pieces of a row of lexemes, without the last one if it is empty: cut at the commas
outside literals and brackets and, if asked for, ended by the first such semicolon. -/
def pieces (stopAtSemicolon : Bool) (row : List Lexeme) : List (List Char) :=
  tidy (cutRow stopAtSemicolon 0 row)

/-- The rest of the literal that the text begins in, if it does, and the lexemes behind it, for a
reader to whom a quote is none behind a backslash. -/
def lookBackFrom : (inLiteral escaped : Bool) → List Char → List Char × List Lexeme
  | _, _, [] => ([], [])
  | inLiteral, escaped, c :: rest =>
    if c = '"' ∧ escaped = false then
      let (inside, row) := lookBackFrom (!inLiteral) false rest
      if inLiteral then ([c], row) else ([], .literal (c :: inside) :: row)
    else
      let (inside, row) := lookBackFrom inLiteral (c == '\\') rest
      if inLiteral then (c :: inside, row) else ([], .other c :: row)

/-- The lexemes of a text for a reader to whom a quote is none behind a backslash. A literal that is
not closed is the rest of the text. -/
def lookBack (text : List Char) : List Lexeme :=
  (lookBackFrom false false text).2

/-- No literal stands behind a backslash, and none that anything follows ends with an escaped
backslash. -/
def AreStraight (row : List Lexeme) : Prop :=
  ∀ front text back, row = front ++ .literal text :: back →
    front.getLast? ≠ some (.other '\\') ∧ (back ≠ [] → ¬ ['\\', '"'] <:+ text)

section LookBack

variable {c : Char} {rest : List Char} {escaped : Bool}

/-- A quote opens a literal. -/
theorem lookBackFrom_opening :
    lookBackFrom false false ('"' :: rest) =
      ([], .literal ('"' :: (lookBackFrom true false rest).1) :: (lookBackFrom true false rest).2) := by
  simp [lookBackFrom]

/-- The next one closes it. -/
theorem lookBackFrom_closing :
    lookBackFrom true false ('"' :: rest) = (['"'], (lookBackFrom false false rest).2) := by
  simp [lookBackFrom]

/-- Outside of literals any other character stands for itself. -/
theorem lookBackFrom_outside (h : ¬ (c = '"' ∧ escaped = false)) :
    lookBackFrom false escaped (c :: rest) =
      ([], .other c :: (lookBackFrom false (c == '\\') rest).2) := by
  simp [lookBackFrom, h]

/-- Within a literal any other character is part of it. -/
theorem lookBackFrom_inside (h : ¬ (c = '"' ∧ escaped = false)) :
    lookBackFrom true escaped (c :: rest) =
      (c :: (lookBackFrom true (c == '\\') rest).1, (lookBackFrom true (c == '\\') rest).2) := by
  simp [lookBackFrom, h]

end LookBack

/-! ## The splitter cuts the lexemes that it reads -/

/-- From any state the splitter cuts what the reader reads. -/
theorem cutBy_splitStep (stopAtSemicolon : Bool) (text : List Char) (depth : Int)
    (escaped : Bool) :
    cutBy (splitStep stopAtSemicolon) ⟨depth, false, escaped⟩ text =
        cutRow stopAtSemicolon depth (lookBackFrom false escaped text).2 ∧
      cutBy (splitStep stopAtSemicolon) ⟨depth, true, escaped⟩ text =
        (lookBackFrom true escaped text).1.foldr prepend
          (cutRow stopAtSemicolon depth (lookBackFrom true escaped text).2) := by
  induction text generalizing depth escaped with
  | nil => simp [cutBy, lookBackFrom, cutRow]
  | cons c rest ih =>
    by_cases quote : c = '"' ∧ escaped = false
    · obtain ⟨rfl, rfl⟩ := quote
      rw [lookBackFrom_opening, lookBackFrom_closing]
      constructor
      · simp [cutBy, splitStep, cutRow, (ih depth false).2]
      · simp [cutBy, splitStep, (ih depth false).1]
    · rw [lookBackFrom_outside quote, lookBackFrom_inside quote]
      constructor
      · simp only [cutBy, splitStep, cutRow, Bool.not_eq_true', if_neg quote, Bool.false_eq_true,
          if_false]
        split_ifs <;> simp [(ih _ (c == '\\')).1]
      · simp [cutBy, splitStep, quote, (ih depth (c == '\\')).2]

/-- Splitting cuts the pieces out of what the look-back reads. -/
theorem split_eq_pieces (text : List Char) (stopAtSemicolon : Bool) :
    split text stopAtSemicolon = pieces stopAtSemicolon (lookBack text) := by
  rw [split, pieces, lookBack, (cutBy_splitStep stopAtSemicolon text 0 false).1]

/-! ## Where the lexemes are read as they are meant -/

/-- Literals are straight if the first lexeme is, as far as what follows it goes, and the others
are. -/
theorem areStraight_cons {lexeme : Lexeme} {row : List Lexeme} :
    AreStraight (lexeme :: row) ↔
      (∀ text, lexeme = .literal text → row ≠ [] → ¬ ['\\', '"'] <:+ text) ∧
        (lexeme = .other '\\' → ∀ text, row.head? ≠ some (.literal text)) ∧ AreStraight row := by
  constructor
  · intro h
    refine ⟨?_, ?_, ?_⟩
    · rintro text rfl
      exact (h [] text row rfl).2
    · rintro rfl text begins
      obtain ⟨back, rfl⟩ := List.head?_eq_some_iff.1 begins
      exact (h [.other '\\'] text back rfl).1 rfl
    · rintro front text back rfl
      obtain ⟨apart, closed⟩ := h (lexeme :: front) text back rfl
      refine ⟨fun last => apart ?_, closed⟩
      simp [List.getLast?_cons, last]
  · rintro ⟨closed, apart, more⟩ front text back same
    cases front with
    | nil =>
      obtain ⟨rfl, rfl⟩ := List.cons.inj same
      exact ⟨by simp, closed text rfl⟩
    | cons first front =>
      obtain ⟨rfl, rfl⟩ := List.cons.inj same
      obtain ⟨apart', closed'⟩ := more front text back rfl
      refine ⟨fun last => ?_, closed'⟩
      cases front with
      | nil => exact apart (by simpa using last) text rfl
      | cons second front => exact apart' (by simpa using last)

/-- A literal is read to its end, unless it ends with an escaped backslash; the last one of a text
is so in any case. -/
theorem lookBackFrom_literal {body rest : List Char} {escaped : Bool} (h : IsLiteral body)
    (closed : rest ≠ [] → body.getLast? ≠ some '\\' ∧ (body = [] → escaped = false)) :
    lookBackFrom true escaped (body ++ '"' :: rest) =
      (body ++ ['"'], (lookBackFrom false false rest).2) := by
  induction h generalizing escaped with
  | nil =>
    cases escaped with
    | false => exact lookBackFrom_closing
    | true =>
      have last : rest = [] := by
        by_contra more
        exact absurd ((closed more).2 rfl) (by decide)
      subst last
      simp [lookBackFrom]
  | @plain c body h _ ih =>
    have later := @ih false fun more =>
      ⟨fun last => (closed more).1 (by simp [List.getLast?_cons, last]), fun _ => rfl⟩
    have plain : (c == '\\') = false := beq_false_of_ne h.2.1
    rw [List.cons_append, lookBackFrom_inside (fun quote => h.1 quote.1), plain, later]
    rfl
  | @escaped c body h _ ih =>
    have later := @ih (c == '\\') fun more => by
      obtain ⟨last, -⟩ := closed more
      refine ⟨fun last' => last (by simp [List.getLast?_cons, last']), ?_⟩
      rintro rfl
      simpa using last
    rw [List.cons_append, List.cons_append, lookBackFrom_inside (by simp), beq_self_eq_true,
      lookBackFrom_inside (by simp), later]
    rfl

/-- A straight row is read back as it is. -/
theorem lookBackFrom_write {row : List Lexeme} (coded : ∀ lexeme ∈ row, lexeme.OfStrings)
    (straight : AreStraight row) {escaped : Bool}
    (apart : escaped = true → ∀ text, row.head? ≠ some (.literal text)) :
    lookBackFrom false escaped (write row) = ([], row) := by
  induction row generalizing escaped with
  | nil => rfl
  | cons lexeme row ih =>
    obtain ⟨here, later⟩ := List.forall_mem_cons.1 coded
    obtain ⟨closed, behind, straight'⟩ := areStraight_cons.1 straight
    cases lexeme with
    | literal text =>
      obtain ⟨body, h, rfl⟩ := here
      have fresh : escaped = false := by
        by_contra off
        exact apart (by simpa using off) _ rfl
      have ends : write row ≠ [] → body.getLast? ≠ some '\\' ∧ (body = [] → false = false) := by
        refine fun more => ⟨fun last => ?_, fun _ => rfl⟩
        obtain ⟨front, rfl⟩ := List.getLast?_eq_some_iff.1 last
        refine closed _ rfl (fun none => more (by simp [none])) ⟨'"' :: front, ?_⟩
        simp
      rw [write_literal, fresh, List.cons_append, List.append_assoc, List.singleton_append,
        lookBackFrom_opening, lookBackFrom_literal h ends,
        ih later straight' (fun off => by cases off)]
    | other c =>
      rw [write_other, lookBackFrom_outside (fun quote => here quote.1),
        ih later straight' (fun backslash => behind (by rw [beq_iff_eq.1 backslash]))]

/-- What is read is straight: a quote that is read as one has no backslash before it. -/
theorem areStraight_lookBackFrom (text : List Char) (inLiteral escaped : Bool) :
    AreStraight (lookBackFrom inLiteral escaped text).2 ∧
      (inLiteral = false → escaped = true →
        ∀ literal, (lookBackFrom inLiteral escaped text).2.head? ≠ some (.literal literal)) ∧
      (inLiteral = true → (lookBackFrom inLiteral escaped text).2 ≠ [] →
        (lookBackFrom inLiteral escaped text).1 ≠ [] ∧
        (escaped = true → (lookBackFrom inLiteral escaped text).1 ≠ ['"']) ∧
        ¬ ['\\', '"'] <:+ (lookBackFrom inLiteral escaped text).1) := by
  -- The other two parts are what a step needs of the rest: no literal begins behind a backslash,
  -- and a literal that is open ends there with a quote that no backslash stands before.
  induction text generalizing inLiteral escaped with
  | nil => simp [lookBackFrom, AreStraight]
  | cons c rest ih =>
    by_cases quote : c = '"' ∧ escaped = false
    · obtain ⟨rfl, rfl⟩ := quote
      cases inLiteral with
      | false =>
        obtain ⟨straight, -, closed⟩ := ih true false
        rw [lookBackFrom_opening]
        refine ⟨areStraight_cons.2 ⟨?_, by simp, straight⟩, by simp, by simp⟩
        rintro _ ⟨⟩ more
        rw [List.suffix_cons_iff]
        simpa using (closed rfl more).2.2
      | true =>
        rw [lookBackFrom_closing]
        exact ⟨(ih false false).1, by simp, by simp [List.suffix_cons_iff]⟩
    · cases inLiteral with
      | false =>
        obtain ⟨straight, apart, -⟩ := ih false (c == '\\')
        rw [lookBackFrom_outside quote]
        refine ⟨areStraight_cons.2 ⟨by simp, ?_, straight⟩, by simp, by simp⟩
        rintro ⟨⟩
        exact apart rfl rfl
      | true =>
        obtain ⟨straight, -, closed⟩ := ih true (c == '\\')
        rw [lookBackFrom_inside quote]
        refine ⟨straight, by simp, fun _ more => ?_⟩
        obtain ⟨begun, apart, inner⟩ := closed rfl more
        refine ⟨by simp, by simp [begun], ?_⟩
        rw [List.suffix_cons_iff, not_or]
        refine ⟨fun whole => ?_, inner⟩
        obtain ⟨rfl, last⟩ := List.cons.inj whole
        exact apart rfl last.symm

/-- The splitter reads string literals up to the first quote that no backslash stands before, and
cuts what it so reads at the commas outside literals and brackets, whatever the text is. It reads a
row of lexemes as it is meant exactly where no literal stands behind a backslash and none, unless it
is the last lexeme, ends with an escaped backslash; there its pieces are those of the row. -/
theorem split_write {row : List Lexeme} (coded : ∀ lexeme ∈ row, lexeme.OfStrings)
    (stopAtSemicolon : Bool) :
    (AreStraight row → split (write row) stopAtSemicolon = pieces stopAtSemicolon row) ∧
      (AreStraight row ↔ lookBack (write row) = row) ∧
      split (write row) stopAtSemicolon = pieces stopAtSemicolon (lookBack (write row)) := by
  have read : AreStraight row → lookBack (write row) = row := fun straight => by
    rw [lookBack, lookBackFrom_write coded straight (fun off => by cases off)]
  refine ⟨fun straight => ?_, ⟨read, fun same => ?_⟩, split_eq_pieces _ _⟩
  · rw [split_eq_pieces, read straight]
  · rw [← same]
    exact (areStraight_lookBackFrom (write row) false false).1

/-- A constant whose literal holds an escaped quote, brackets and separators, and what follows. -/
def markedRow : List Lexeme :=
  [.other 'A', .other '(', .literal "\"\\\"),;\"".toList, .other ')', .other ',', .other ' ',
    .other 'B', .other ';', .other 'C']

/-- The lexemes are those of strings. -/
theorem ofStrings_markedRow : ∀ lexeme ∈ markedRow, lexeme.OfStrings := by
  have literal : IsStringLiteral "\"\\\"),;\"".toList := by
    refine ⟨"\\\"),;".toList, .escaped (by decide) ?_, by decide⟩
    repeat refine .plain (by decide) ?_
    exact .nil
  simp only [markedRow, List.forall_mem_cons]
  simpa [OfStrings] using literal

/-- The row is split between its constants, at no mark within a literal. -/
theorem split_write_markedRow :
    (∀ lexeme ∈ markedRow, lexeme.OfStrings) ∧
      split (write markedRow) true = ["A(\"\\\"),;\")".toList, "B".toList] := by
  obtain ⟨same, straight, -⟩ := split_write ofStrings_markedRow true
  refine ⟨ofStrings_markedRow, (same (straight.2 (by decide))).trans (by decide)⟩

/-- A literal that ends with an escaped backslash, between two constants. -/
def backslashRow : List Lexeme :=
  [.other 'A', .other '(', .literal "\"\\\\\"".toList, .other ')', .other ',', .other ' ',
    .other 'B']

/-- Behind a literal that ends with an escaped backslash nothing is cut: the two constants are one
piece. -/
theorem split_backslashRow :
    (∀ lexeme ∈ backslashRow, lexeme.OfStrings) ∧
      pieces true backslashRow = ["A(\"\\\\\")".toList, "B".toList] ∧
      split (write backslashRow) true = ["A(\"\\\\\"), B".toList] := by
  have literal : IsStringLiteral "\"\\\\\"".toList :=
    ⟨"\\\\".toList, .escaped (by decide) .nil, by decide⟩
  refine ⟨?_, by decide, by decide⟩
  simp only [backslashRow, List.forall_mem_cons]
  simpa [OfStrings] using literal

end InterfaceGen.Source.EnumBody
