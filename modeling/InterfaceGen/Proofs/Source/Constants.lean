import InterfaceGen.Proofs.Source.AnnotationReading
import InterfaceGen.Proofs.Source.Lexemes
import InterfaceGen.Proofs.Text.Scanning
import InterfaceGen.Source.Constant

/-!
# Constants that are removed

A class text is a row of lexemes with constants between them. Constants are removed whole, and
nothing else is, where no literal holds a semicolon or the words that a constant begins with; each
literal that does is torn apart in some class text, `strip_exact`.
-/

namespace InterfaceGen.Source.Constant

open InterfaceGen.Text InterfaceGen.Text.Pattern InterfaceGen.Types

/-- The modifiers of a constant, in either order. -/
inductive Binding : List Char → Prop where
  | staticFinal {gap : List Char} (hg : AreBlank gap) (nonempty : gap ≠ []) :
    Binding ("static".toList ++ (gap ++ "final".toList))
  | finalStatic {gap : List Char} (hg : AreBlank gap) (nonempty : gap ≠ []) :
    Binding ("final".toList ++ (gap ++ "static".toList))

/-- The words that a constant begins with, and the blanks behind them. -/
inductive Opening : List Char → Prop where
  | intro {gap words behind : List Char} (hg : AreBlank gap) (nonempty : gap ≠ [])
    (hw : Binding words) (hb : AreBlank behind) (nonempty' : behind ≠ []) :
    Opening (privateWord ++ (gap ++ (words ++ behind)))

/-- The text begins with these words. -/
def Opens (text : List Char) : Prop :=
  ∃ opening, Opening opening ∧ opening <+: text

/-- These words stand somewhere in the text. -/
def HoldsOpening (text : List Char) : Prop :=
  ∃ opening, Opening opening ∧ opening <:+: text

/-- What stands behind the opening of a constant, before the semicolon: its type, its name and its
value, with any literals. -/
structure IsDeclared (row : List Lexeme) : Prop where
  coded : ∀ lexeme ∈ row, lexeme.OfSource
  closed : ';' ∉ row.flatMap Lexeme.outside
  head : ∃ c rest, row = .other c :: rest ∧ isBlank c = false

/-- A part of a class text. -/
inductive Part where
  | lexeme (lexeme : Lexeme)
  | constant (opening : List Char) (row : List Lexeme)

namespace Part

/-- How the part is written. -/
def written : Part → List Char
  | lexeme l => l.written
  | constant opening row => opening ++ (Lexeme.write row ++ [';'])

/-- What is left of a part when constants are removed. -/
def kept : Part → List Char
  | lexeme l => l.written
  | constant _ _ => []

/-- The lexemes of a part, but for the opening of a constant. -/
def lexemes : Part → List Lexeme
  | lexeme l => [l]
  | constant _ row => row

end Part

/-- How the parts are written. -/
def write (parts : List Part) : List Char :=
  parts.flatMap Part.written

/-- What is left of the parts when constants are removed. -/
def kept (parts : List Part) : List Char :=
  parts.flatMap Part.kept

/-- The parts of a class text. Outside of literals, a constant stands wherever its words do. -/
inductive IsClassText : List Part → Prop where
  | nil : IsClassText []
  | literal {text : List Char} {parts : List Part} (h : (Lexeme.literal text).OfSource)
    (more : IsClassText parts) : IsClassText (.lexeme (.literal text) :: parts)
  | other {c : Char} {parts : List Part} (h : (Lexeme.other c).OfSource)
    (apart : ¬ Opens (c :: write parts)) (more : IsClassText parts) :
    IsClassText (.lexeme (.other c) :: parts)
  | constant {opening : List Char} {row : List Lexeme} {parts : List Part} (ho : Opening opening)
    (hr : IsDeclared row) (more : IsClassText parts) : IsClassText (.constant opening row :: parts)

/-! ## What the pattern reads -/

/-- The pattern of the modifiers of a constant. -/
def bindingPattern : Pattern Empty :=
  .word "static" ++ .spacing ++ .word "final" <|> .word "final" ++ .spacing ++ .word "static"

/-- The pattern of the words that a constant begins with. -/
def openingPattern : Pattern Empty :=
  .word "private" ++ (.spacing ++ (bindingPattern ++ .spacing))

theorem follow_pattern (next : Cursor Empty → Option (Cursor Empty)) (s : Cursor Empty) :
    pattern.follow next s =
      (openingPattern ++ (.someRun (· != ';') ++ .word ";")).follow next s :=
  rfl

section Reads

variable {words opening declared rest : List Char}

theorem Binding.head (h : Binding words) : ∀ c ∈ (words ++ rest).head?, isBlank c = false := by
  cases h <;> exact head?_other (by decide) _

/-- The words of a constant are read, in both orders. -/
theorem Binding.reads (h : Binding words) : Reads bindingPattern words rest [] := by
  cases h with
  | @staticFinal gap hg nonempty =>
    have spaced : Reads (.spacing : Pattern Empty) gap ("final".toList ++ rest) [] :=
      reads_spacing hg nonempty (head?_other (by decide) _)
    exact .either_left (.assoc (.seq (.exactly _) (.seq spaced (.exactly _))))
  | @finalStatic gap hg nonempty =>
    have spaced : Reads (.spacing : Pattern Empty) gap ("static".toList ++ rest) [] :=
      reads_spacing hg nonempty (head?_other (by decide) _)
    refine .either_right ?_ (.assoc (.seq (.exactly _) (.seq spaced (.exactly _))))
    exact ((rejects_word (c := 's') rfl (head?_ne (by decide) _)).seq _).seq _

/-- The opening of a constant is read up to its type. -/
theorem Opening.reads (h : Opening opening) (solid : ∀ c ∈ rest.head?, isBlank c = false) :
    Reads openingPattern opening rest [] := by
  cases h with
  | @intro gap words behind hg nonempty hw hb nonempty' =>
    have binding : Reads (bindingPattern ++ .spacing) (words ++ behind) rest [] :=
      .seq hw.reads (reads_spacing hb nonempty' solid)
    have spaced : Reads (.spacing : Pattern Empty) gap (words ++ behind ++ rest) [] :=
      reads_spacing hg nonempty (by rw [List.append_assoc]; exact hw.head)
    exact .seq (.exactly privateWord) (.seq spaced binding)

/-- A constant is read through its semicolon. -/
theorem reads_constant (h : Opening opening) (nonempty : declared ≠ []) (closed : ';' ∉ declared)
    (solid : ∀ c ∈ declared.head?, isBlank c = false) :
    Reads pattern (opening ++ (declared ++ [';'])) rest [] := by
  obtain ⟨c, more, rfl⟩ := List.exists_cons_of_ne_nil nonempty
  have inside : ∀ d ∈ c :: more, (d != ';') = true := by
    intro d hd
    rw [bne_iff_ne]
    rintro rfl
    exact closed hd
  have body : Reads (.someRun (· != ';') : Pattern Empty) (c :: more) ([';'] ++ rest) [] :=
    .someRun nonempty inside (head?_other (by decide) _)
  have opened : Reads openingPattern opening (c :: more ++ [';'] ++ rest) [] :=
    h.reads (head?_other (solid c rfl) _)
  intro before offset captures next t found
  rw [follow_pattern]
  exact (opened.seq (body.seq (.exactly _))) before offset captures next t found

/-- What is read as these words is written in one of these ways. -/
theorem binding_of_matches {kept : List (Empty × List Char)}
    (h : bindingPattern.Matches words kept) : Binding words := by
  cases h with
  | left h | right h =>
    cases h with
    | seq h last =>
      cases h with
      | seq first spaced =>
        cases first
        cases last
        obtain ⟨blank, nonempty⟩ := areBlank_of_matches spaced
        rw [List.append_assoc]
        first
        | exact .staticFinal blank nonempty
        | exact .finalStatic blank nonempty

/-- What is read as an opening is one. -/
theorem opening_of_matches {kept : List (Empty × List Char)}
    (h : openingPattern.Matches opening kept) : Opening opening := by
  cases h with
  | seq first h =>
    cases first
    cases h with
    | seq spaced h =>
      cases h with
      | seq binding behind =>
        obtain ⟨blank, nonempty⟩ := areBlank_of_matches spaced
        obtain ⟨blank', nonempty'⟩ := areBlank_of_matches behind
        exact .intro blank nonempty (binding_of_matches binding) blank' nonempty'

/-- What the pattern matches begins with the words of a constant. -/
theorem rejects_of_not_opens (h : ¬ Opens rest) : Rejects pattern rest := by
  intro before offset captures next
  rw [follow_pattern]
  refine Option.eq_none_iff_forall_ne_some.2 fun t found => h ?_
  obtain ⟨word, kept, m, passes, matched, -⟩ := exists_matches_of_follow _ _ _ _ found
  have same : rest = word ++ m.rest := passes.rest
  cases matched with
  | @seq _ _ opening declared _ _ first _ =>
    rw [List.append_assoc] at same
    exact ⟨opening, opening_of_matches first, declared ++ m.rest, same.symm⟩

end Reads

/-! ## Openings in literals -/

/-- An opening has only letters of its words, and blanks. -/
theorem Opening.notMem {opening : List Char} (h : Opening opening) {c : Char}
    (other : c ∉ privateWord ++ ("static".toList ++ "final".toList)) (solid : isBlank c = false) :
    c ∉ opening := by
  have free : ∀ {gap : List Char}, AreBlank gap → c ∉ gap := fun hg => notMem_of_forall hg solid
  rw [List.mem_append, List.mem_append, not_or, not_or] at other
  obtain ⟨first, second, third⟩ := other
  cases h with
  | intro hg _ hw hb _ =>
    cases hw with
    | staticFinal hg' | finalStatic hg' =>
      simp only [List.mem_append, first, second, third, free hg, free hg', free hb, or_self,
        not_false_eq_true]

/-- The last character of a literal is a quote. -/
theorem exists_quote {text : List Char} (h : (Lexeme.literal text).OfSource) :
    ∃ inside quote, text = inside ++ [quote] ∧ (quote = '"' ∨ quote = '\'') := by
  rcases h with ⟨body, -, rfl⟩ | ⟨body, -, rfl⟩
  · exact ⟨'"' :: body, '"', rfl, .inl rfl⟩
  · exact ⟨'\'' :: body, '\'', rfl, .inr rfl⟩

theorem Opening.unquoted {opening : List Char} {quote : Char} (h : Opening opening)
    (kind : quote = '"' ∨ quote = '\'') : quote ∉ opening := by
  rcases kind with rfl | rfl <;> exact h.notMem (by decide) (by decide)

/-- No opening goes on behind a literal. -/
theorem holdsOpening_of_opens {text back rest : List Char} (h : (Lexeme.literal text).OfSource)
    (nonempty : back ≠ []) (suffix : back <:+ text) (opens : Opens (back ++ rest)) :
    HoldsOpening text := by
  obtain ⟨inside, quote, rfl, kind⟩ := exists_quote h
  obtain ⟨opening, ho, more, same⟩ := opens
  have unquoted := ho.unquoted kind
  obtain ⟨front, whole⟩ := suffix
  obtain ⟨body, rfl⟩ : ∃ body, back = body ++ [quote] := by
    have last := List.dropLast_append_getLast nonempty
    have ends := congrArg List.getLast? whole
    rw [List.getLast?_concat, List.getLast?_append, List.getLast?_eq_some_getLast nonempty,
      Option.some_or, Option.some.injEq] at ends
    rw [ends] at last
    exact ⟨_, last.symm⟩
  rw [List.append_assoc, List.append_eq_append_iff] at same
  have within : opening <+: body := by
    rcases same with ⟨more, rfl, -⟩ | ⟨beyond, rfl, rest⟩
    · exact List.prefix_append _ _
    · cases beyond with
      | nil => simp
      | cons c beyond =>
        rw [← (List.cons.inj rest).1] at unquoted
        simp at unquoted
  exact ⟨opening, ho, (within.trans (List.prefix_append _ _)).isInfix.trans
    (whole ▸ (List.suffix_append front _).isInfix)⟩

/-- What a part has to look like to be stripped as it is meant. -/
def Part.IsSound : Part → Prop
  | lexeme (.literal text) => ¬ HoldsOpening text
  | lexeme (.other _) => True
  | constant _ row => ∀ text, .literal text ∈ row → ';' ∉ text

/-- No semicolon stands in the declaration of a constant, if none stands in a literal of it. -/
theorem IsDeclared.notMem_write {row : List Lexeme} (h : IsDeclared row)
    (sound : ∀ text, .literal text ∈ row → ';' ∉ text) : ';' ∉ Lexeme.write row := by
  intro inside
  obtain ⟨lexeme, member, inside⟩ := List.mem_flatMap.1 inside
  cases lexeme with
  | literal text => exact sound text member inside
  | other c => exact h.closed (List.mem_flatMap.2 ⟨_, member, inside⟩)

/-- In a sound class text the constants are removed, and all else is kept. -/
theorem erasedFrom_write {parts : List Part} (h : IsClassText parts)
    (sound : ∀ part ∈ parts, part.IsSound) (before : Option Char) (offset : Nat) :
    pattern.erasedFrom before (write parts) offset = kept parts := by
  induction h generalizing before offset with
  | nil => rfl
  | @literal text parts h _ ih =>
    obtain ⟨here, later⟩ := List.forall_mem_cons.1 sound
    have kept' := @erasedFrom_kept _ pattern text (write parts) (fun back nonempty suffix _ _ =>
      rejects_of_not_opens (fun opens => here (holdsOpening_of_opens h nonempty suffix opens)) _ _ _
        _) before offset
    exact kept'.trans (congrArg (text ++ ·) (ih later _ _))
  | @other c parts _ apart _ ih =>
    have kept' := @erasedFrom_kept _ pattern [c] (write parts) (fun back nonempty suffix _ _ => by
      rcases List.suffix_cons_iff.1 suffix with rfl | none
      · exact rejects_of_not_opens apart _ _ _ _
      · exact absurd (List.suffix_nil.1 none) nonempty) before offset
    exact kept'.trans (congrArg (c :: ·) (ih (List.forall_mem_cons.1 sound).2 _ _))
  | @constant opening row parts ho hr _ ih =>
    obtain ⟨here, later⟩ := List.forall_mem_cons.1 sound
    obtain ⟨c, rest, same, solid⟩ := hr.head
    have read := @reads_constant opening (Lexeme.write row) (write parts) ho (by simp [same])
      (hr.notMem_write here) (by rw [same]; exact head?_other solid _)
    have dropped := @erasedFrom_append _ pattern (opening ++ (Lexeme.write row ++ [';']))
      (write parts) before offset _ (by simp) (read before offset [] some _ rfl) rfl
    exact dropped.trans (ih later _ _)

/-- Constants are removed whole, and nothing else is, where no literal in a constant holds a
semicolon and no other literal the words that a constant begins with. -/
theorem strip_of_sound {parts : List Part} (h : IsClassText parts)
    (sound : ∀ part ∈ parts, part.IsSound) :
    strip (String.ofList (write parts)) = String.ofList (kept parts) := by
  rw [strip, String.toList_ofList, erase_eq, erasedFrom_write h sound]

/-! ## Literals that are torn apart -/

/-- The literals of a class text are literals of a source. -/
theorem IsClassText.coded {parts : List Part} (h : IsClassText parts) :
    ∀ text, .literal text ∈ parts.flatMap Part.lexemes → (Lexeme.literal text).OfSource := by
  induction h with
  | nil => exact fun _ inside => nomatch inside
  | literal h _ ih =>
    intro text inside
    rcases List.mem_append.1 inside with here | later
    · cases List.mem_singleton.1 here
      exact h
    · exact ih text later
  | other _ _ _ ih =>
    intro text inside
    rcases List.mem_append.1 inside with here | later
    · cases List.mem_singleton.1 here
    · exact ih text later
  | constant _ hr _ ih =>
    intro text inside
    rcases List.mem_append.1 inside with here | later
    · exact hr.coded _ here
    · exact ih text later

/-- Characters outside of literals with which no constant begins. -/
theorem IsClassText.run {run : String} {parts : List Part}
    (h : ∀ c ∈ run.toList, c ≠ 'p' ∧ c ≠ '"' ∧ c ≠ '\'') (more : IsClassText parts) :
    IsClassText ((Lexeme.plain run).map .lexeme ++ parts) := by
  rw [Lexeme.plain]
  generalize run.toList = chars at h
  induction chars with
  | nil => exact more
  | cons c chars ih =>
    obtain ⟨⟨letter, unquoted⟩, later⟩ := List.forall_mem_cons.1 h
    refine .other unquoted ?_ (ih later)
    rintro ⟨opening, ⟨-⟩, rest, same⟩
    exact letter (List.cons.inj same).1.symm

theorem Opening.nonempty {opening : List Char} (h : Opening opening) : opening ≠ [] := by
  cases h
  exact List.append_ne_nil_of_left_ne_nil (by decide) _

theorem Opening.append_blanks {opening gap : List Char} (h : Opening opening) (hg : AreBlank gap) :
    Opening (opening ++ gap) := by
  cases h with
  | @intro gap' words behind hg' nonempty hw hb nonempty' =>
    have longer := @Opening.intro gap' words (behind ++ gap) hg' nonempty hw
      (List.forall_mem_append.2 ⟨hb, hg⟩) (List.append_ne_nil_of_left_ne_nil nonempty' _)
    simpa using longer

/-- An opening in a literal, with all blanks behind it, and what stands there up to the quote. -/
theorem HoldsOpening.exists_split {text : List Char} (h : HoldsOpening text)
    (coded : (Lexeme.literal text).OfSource) :
    ∃ front opening rest, text = front ++ (opening ++ rest) ∧ Opening opening ∧ rest ≠ [] ∧
      ∀ c ∈ rest.head?, isBlank c = false := by
  obtain ⟨inside, quote, rfl, kind⟩ := exists_quote coded
  have solid : isBlank quote = false := by
    rcases kind with rfl | rfl <;> decide
  obtain ⟨opening, ho, infix'⟩ := h
  obtain ⟨front, back, rfl⟩ : opening <:+: inside := by
    refine (List.infix_concat_iff.1 infix').resolve_left fun suffix => ?_
    rcases List.suffix_concat_iff.1 suffix with none | ⟨within, rfl, -⟩
    · exact ho.nonempty none
    · exact ho.unquoted kind (by simp)
  obtain ⟨gap, hg, same, head⟩ := exists_gap (back ++ [quote])
  refine ⟨front, opening ++ gap, trimLeft (back ++ [quote]), ?_, ho.append_blanks hg, ?_, head⟩
  · rw [List.append_assoc opening, ← same]
    simp
  · intro none
    rw [none, List.append_nil] at same
    have blank : isBlank quote = true := hg quote (by simp [← same])
    rw [solid] at blank
    cases blank

section Torn

variable {text : List Char}

/-- A constant whose value is the literal. -/
def constantOf (text : List Char) : List Part :=
  [.constant "private static final ".toList (Lexeme.plain "String A = " ++ [.literal text])]

/-- A field whose value is the literal, as far from the beginning of its text as the value of that
constant. -/
def fieldOf (text : List Char) : List Part :=
  (Lexeme.plain "                     String A = ").map .lexeme ++
    [.lexeme (.literal text), .lexeme (.other ';')]

/-- The three words with spaces between them are an opening. -/
theorem opening_words : Opening "private static final ".toList := by
  have space : AreBlank [' '] := by simp [AreBlank, isBlank]
  exact @Opening.intro [' '] _ [' '] space (by decide) (.staticFinal space (by decide)) space
    (by decide)

/-- The constant is a class text by itself. -/
theorem isClassText_constantOf (coded : (Lexeme.literal text).OfSource) :
    IsClassText (constantOf text) := by
  refine .constant opening_words ⟨?_, by simp [Lexeme.plain, Lexeme.outside], ?_⟩ .nil
  · exact List.forall_mem_append.2 ⟨Lexeme.ofSource_plain (by decide), by simpa using coded⟩
  · exact ⟨'S', _, rfl, by decide⟩

theorem isClassText_fieldOf (coded : (Lexeme.literal text).OfSource) :
    IsClassText (fieldOf text) := by
  refine IsClassText.run (by decide) (.literal coded (.other (by simp [Lexeme.OfSource]) ?_ .nil))
  rintro ⟨opening, ⟨-⟩, rest, same⟩
  exact absurd (List.cons.inj same).1 (by decide)

theorem write_constantOf :
    write (constantOf text) =
      "private static final ".toList ++ ("String A = ".toList ++ (text ++ [';'])) := by
  simp [write, constantOf, Part.written, Lexeme.plain, Lexeme.write, Lexeme.written]

theorem write_fieldOf :
    write (fieldOf text) = "                     String A = ".toList ++ (text ++ [';']) := by
  simp [write, fieldOf, Part.written, Lexeme.plain, Lexeme.written]

theorem kept_fieldOf : kept (fieldOf text) = write (fieldOf text) := by
  simp [kept, write, fieldOf, Part.written, Part.kept, List.flatMap_map]

theorem literal_mem_constantOf {other : List Char} :
    .literal other ∈ (constantOf text).flatMap Part.lexemes ↔ other = text := by
  simp [constantOf, Part.lexemes, Lexeme.plain]

theorem literal_mem_fieldOf {other : List Char} :
    .literal other ∈ (fieldOf text).flatMap Part.lexemes ↔ other = text := by
  simp [fieldOf, Part.lexemes, Lexeme.plain]

/-- Behind the semicolon that ends the constant too early, at least the one that should have is
left. -/
theorem notMem_of_strips (constant : pattern.erasedFrom none (write (constantOf text)) 0 = [])
    (field : pattern.erasedFrom none (write (fieldOf text)) 0 = write (fieldOf text)) :
    ';' ∉ text := by
  intro inside
  obtain ⟨front, back, rfl, closed⟩ := List.eq_append_cons_of_mem inside
  let declared := "String A = ".toList ++ front
  let word := "private static final ".toList ++ (declared ++ [';'])
  let word' := "                     ".toList ++ (declared ++ [';'])
  have open' : ';' ∉ declared := by simp [declared, closed]
  have read := @reads_constant _ declared (back ++ [';']) opening_words (by simp [declared]) open'
    (head?_other (by decide) _)
  have dropped := @erasedFrom_append _ pattern word (back ++ [';']) none 0 _ (by simp [word])
    (read none 0 [] some _ rfl) rfl
  have same : write (constantOf (front ++ ';' :: back)) = word ++ (back ++ [';']) := by
    simp [write_constantOf, word, declared]
  have same' : write (fieldOf (front ++ ';' :: back)) = word' ++ (back ++ [';']) := by
    simp [write_fieldOf, word', declared]
  rw [same'] at field
  have left := erasedFrom_of_append field
  have last : word'.getLast?.or none = word.getLast?.or none := by simp [word, word']
  have long : word'.length = word.length := by simp [word, word']
  rw [last, long, ← dropped, ← same, constant] at left
  simp at left

/-- Where the words that a constant begins with stand in the literal, a constant is read from there
through the semicolon behind the literal. -/
theorem not_holdsOpening_of_strips (coded : (Lexeme.literal text).OfSource) (closed : ';' ∉ text)
    (field : pattern.erasedFrom none (write (fieldOf text)) 0 = write (fieldOf text)) :
    ¬ HoldsOpening text := by
  intro holds
  obtain ⟨front, opening, rest, rfl, ho, nonempty, solid⟩ := holds.exists_split coded
  have open' : ';' ∉ rest := fun inside => closed (by simp [inside])
  have same : write (fieldOf (front ++ (opening ++ rest))) =
      "                     String A = ".toList ++ front ++ (opening ++ (rest ++ [';'])) := by
    simp [write_fieldOf]
  rw [same] at field
  have left := erasedFrom_of_append field
  have read := @reads_constant opening rest [] ho nonempty open' solid
  have dropped := fun before offset => @erasedFrom_append _ pattern (opening ++ (rest ++ [';'])) []
    before offset _ (by simp) (read before offset [] some _ rfl) rfl
  rw [List.append_nil] at dropped
  have none := (dropped _ _).symm.trans left
  exact List.append_ne_nil_of_left_ne_nil ho.nonempty _ none.symm

end Torn

/-- Stripping leaves what the pattern of constants does not erase. -/
theorem strip_ofList {text left : List Char} :
    strip (String.ofList text) = String.ofList left ↔ pattern.erasedFrom none text 0 = left := by
  rw [strip, String.toList_ofList, erase_eq, String.ofList_inj]

/-- Exactly where no literal holds a semicolon or the words that a constant begins with, all class
texts with these literals lose their constants and nothing else. -/
theorem strip_exact (admitted : List Char → Prop) :
    (∀ parts, IsClassText parts →
        (∀ text, .literal text ∈ parts.flatMap Part.lexemes → admitted text) →
        strip (String.ofList (write parts)) = String.ofList (kept parts)) ↔
      ∀ text, (Lexeme.literal text).OfSource → admitted text →
        ';' ∉ text ∧ ¬ HoldsOpening text := by
  constructor
  · intro strips text coded ha
    have constant := strips _ (isClassText_constantOf coded) fun other member => by
      rw [literal_mem_constantOf.1 member]
      exact ha
    have field := strips _ (isClassText_fieldOf coded) fun other member => by
      rw [literal_mem_fieldOf.1 member]
      exact ha
    rw [strip_ofList] at constant field
    rw [kept_fieldOf] at field
    have closed := notMem_of_strips constant field
    exact ⟨closed, not_holdsOpening_of_strips coded closed field⟩
  · intro sound parts h literals
    have each : ∀ part ∈ parts, ∀ text, .literal text ∈ part.lexemes →
        ';' ∉ text ∧ ¬ HoldsOpening text := fun part member text inside =>
      have there := List.mem_flatMap.2 ⟨part, member, inside⟩
      sound text (h.coded text there) (literals text there)
    refine strip_of_sound h fun part member => ?_
    match part with
    | .lexeme (.literal text) => exact (each _ member text (List.mem_singleton_self _)).2
    | .lexeme (.other _) => trivial
    | .constant _ row => exact fun text inside => (each _ member text inside).1

/-- The declaration of the constant, behind its opening. -/
def separatorRow : List Lexeme :=
  Lexeme.plain "String SEP = " ++ [.literal "\";\"".toList]

/-- A constant that is a semicolon, and a field behind it. -/
def separatorParts : List Part :=
  (Lexeme.plain "class A \x7b ").map .lexeme ++
    .constant "private static final ".toList separatorRow ::
      ((Lexeme.plain " String name; \x7d").map .lexeme ++ [])

theorem isClassText_separator : IsClassText separatorParts := by
  have coded : (Lexeme.literal "\";\"".toList).OfSource :=
    .inl ⟨[';'], .plain (by decide) .nil, rfl⟩
  have declared : IsDeclared separatorRow := by
    refine ⟨List.forall_mem_append.2 ⟨Lexeme.ofSource_plain (by decide), ?_⟩, by decide, ?_⟩
    · simpa using coded
    · exact ⟨'S', _, rfl, by decide⟩
  exact .run (by decide) (.constant opening_words declared (.run (by decide) .nil))

/-- The constant is removed through the semicolon in its literal only. -/
theorem strip_separator :
    IsClassText separatorParts ∧
      strip (String.ofList (write separatorParts)) = "class A \x7b \"; String name; \x7d" ∧
      strip (String.ofList (write separatorParts)) ≠ String.ofList (kept separatorParts) :=
  ⟨isClassText_separator, by decide +kernel, by decide +kernel⟩

end InterfaceGen.Source.Constant
