import InterfaceGen.Proofs.Source.FieldWalls
import InterfaceGen.Proofs.Source.Lexemes

/-!
# Fields and the contents of literals

Fields are searched for in a text with its string literals as they are. The search goes through the
text as through the text with blanked literals, as long as no literal holds a semicolon and in none
a declaration begins, `keptFrom_blanked`.
-/

namespace InterfaceGen.Source

open InterfaceGen.Text InterfaceGen.Text.Pattern InterfaceGen.Types
open FieldList (Part Found plainField)
open Lexeme (write)

/-! ## Literals in which nothing begins -/

/-- In a literal with this body no declaration begins, when a semicolon follows. -/
def BeginsNoField (body : List Char) : Prop :=
  plainField.occurrences ('"' :: (body ++ ['"', ';'])) = []

/-- Whether a declaration begins before a quote has to do with no more of what is behind it than
whether there is a semicolon. -/
theorem matchAt_eq_none_iff {before : Option Char} {rest rest' : List Char}
    (same : ';' ∈ rest ↔ ';' ∈ rest') (word : List Char) (offset offset' : Nat) :
    plainField.matchAt ⟨before, word ++ '"' :: rest, offset, []⟩ = none ↔
      plainField.matchAt ⟨before, word ++ '"' :: rest', offset', []⟩ = none := by
  have both := isSome_eq_of_rel (rel_matchAt same before word offset offset')
  rw [← Option.not_isSome_iff_eq_none, ← Option.not_isSome_iff_eq_none, both]

/-- Without a semicolon ahead no declaration begins. -/
theorem matchAt_eq_none_of_notMem {s : Cursor Part} (start : s.captures = [])
    (h : ';' ∉ s.rest) : plainField.matchAt s = none := by
  apply Option.eq_none_iff_forall_ne_some.2
  intro t found
  obtain ⟨front, word, passes, -⟩ := exists_front found start
  rw [passes.rest] at h
  simp at h

/-- No declaration begins at a quote, so only the places before it count. -/
theorem matchAt_before_quote {before : Option Char} {body rest more : List Char} (mark : 'p' ∉ rest)
    (inside : ∀ front back, body = front ++ back → back ≠ [] → ∀ offset, plainField.matchAt
      ⟨front.getLast?.or before, back ++ '"' :: (rest ++ more), offset, []⟩ = none)
    {front back : List Char} (same : body ++ '"' :: rest = front ++ back) (nonempty : back ≠ [])
    (offset : Nat) :
    plainField.matchAt ⟨front.getLast?.or before, back ++ more, offset, []⟩ = none := by
  have rejects : ∀ {text : List Char}, text ≠ [] → text <:+ '"' :: rest →
      Rejects plainField (text ++ more) := by
    intro text some suffix
    obtain ⟨c, text, rfl⟩ := List.exists_cons_of_ne_nil some
    refine rejects_plainField (head?_ne ?_ _)
    rintro rfl
    exact mark ((List.mem_cons.1 (suffix.subset (List.mem_cons_self ..))).resolve_left (by decide))
  rcases List.append_eq_append_iff.1 same with ⟨gone, rfl, behind⟩ | ⟨begun, rfl, rfl⟩
  · exact rejects nonempty ⟨gone, behind.symm⟩ _ _ _ _
  · cases begun with
    | nil => exact rejects (List.cons_ne_nil _ _) (List.suffix_refl _) _ _ _ _
    | cons d begun =>
      have text : (d :: begun ++ '"' :: rest) ++ more = d :: begun ++ '"' :: (rest ++ more) := by
        simp
      rw [text]
      exact inside front (d :: begun) rfl (List.cons_ne_nil _ _) offset

/-- Where no declaration begins in the contents of a literal, none begins in the literal or in a
text behind it without the first letter of the modifier. -/
theorem matchAt_quoted {body rest more : List Char} (mark : 'p' ∉ rest)
    (inside : ∀ front back, body = front ++ back → back ≠ [] → ∀ offset, plainField.matchAt
      ⟨front.getLast?.or (some '"'), back ++ '"' :: (rest ++ more), offset, []⟩ = none)
    {front back : List Char} (same : '"' :: (body ++ '"' :: rest) = front ++ back)
    (nonempty : back ≠ []) (before : Option Char) (offset : Nat) :
    plainField.matchAt ⟨front.getLast?.or before, back ++ more, offset, []⟩ = none := by
  cases front with
  | nil =>
    cases same
    exact rejects_plainField (head?_ne (by decide) _) _ _ _ _
  | cons c front =>
    obtain ⟨rfl, parts⟩ := List.cons.inj same
    rw [getLast?_cons_or]
    exact matchAt_before_quote mark inside parts nonempty offset

/-- A literal begins no field exactly if none begins in its contents with the quote and a semicolon
behind them. -/
theorem beginsNoField_iff {body : List Char} :
    BeginsNoField body ↔ ∀ front back, body = front ++ back → back ≠ [] → ∀ offset,
      plainField.matchAt ⟨front.getLast?.or (some '"'), back ++ '"' :: [';'], offset, []⟩ =
        none := by
  have search : BeginsNoField body ↔
      plainField.keptFrom none ('"' :: (body ++ ['"', ';'])) 0 = [] := by
    rw [← map_captures_occurrences, List.map_eq_nil_iff]
    rfl
  rw [search, keptFrom_eq_nil_iff moves_of_matchAt]
  constructor
  · intro nowhere front back same nonempty offset
    have there := nowhere ('"' :: front) (back ++ ['"', ';']) (by simp [same]) (by simp)
    rw [getLast?_cons_or] at there
    exact (matchAt_eq_none_iff Iff.rfl back _ _).1 there
  · intro inside front back same nonempty
    have nowhere : ∀ offset,
        plainField.matchAt ⟨front.getLast?.or none, back ++ [], offset, []⟩ = none :=
      matchAt_quoted (by decide) inside same nonempty none
    simpa using nowhere _

/-- Nothing begins in a literal, whatever stands behind it. -/
theorem matchAt_literal {body : List Char} (none : BeginsNoField body) (closed : ';' ∉ body)
    {front back rest : List Char} (same : '"' :: (body ++ ['"']) = front ++ back)
    (nonempty : back ≠ []) (before : Option Char) (offset : Nat) :
    plainField.matchAt ⟨front.getLast?.or before, back ++ rest, offset, []⟩ = .none := by
  refine matchAt_quoted List.not_mem_nil (fun front back same nonempty offset => ?_) same nonempty
    before offset
  by_cases ends : ';' ∈ rest
  · have both : ';' ∈ [';'] ↔ ';' ∈ rest := iff_of_true (List.mem_singleton_self _) ends
    exact (matchAt_eq_none_iff both back offset offset).1
      (beginsNoField_iff.1 none front back same nonempty offset)
  · refine matchAt_eq_none_of_notMem rfl fun inside => ?_
    rw [same] at closed
    simp only [List.mem_append, not_or, List.mem_cons] at closed inside
    rcases inside with inside | inside | inside
    · exact closed.2 inside
    · exact absurd inside (by decide)
    · simp at inside
      exact ends inside

/-! ## The search with the literals and without -/

/-- The literal with this body. -/
def Lexeme.quoted (body : List Char) : Lexeme :=
  .literal ('"' :: (body ++ ['"']))

/-- The literals of a row keep the search for fields as it is. -/
def IsHarmless (row : List Lexeme) : Prop :=
  ∀ body, .quoted body ∈ row → ';' ∉ body ∧ BeginsNoField body

theorem IsHarmless.of_append {first second : List Lexeme} (h : IsHarmless (first ++ second)) :
    IsHarmless first ∧ IsHarmless second :=
  ⟨fun body member => h body (List.mem_append_left _ member),
    fun body member => h body (List.mem_append_right _ member)⟩

section Rows

variable {row : List Lexeme}

/-- A row is blanked lexeme by lexeme. -/
theorem blankChars_strings (coded : ∀ lexeme ∈ row, lexeme.OfStrings) :
    Literal.blankChars (write row) = row.flatMap Lexeme.blanked := by
  induction row with
  | nil => rw [write, List.flatMap_nil, Literal.blankChars, List.flatMap_nil]
  | cons lexeme row ih =>
    obtain ⟨here, later⟩ := List.forall_mem_cons.1 coded
    rw [List.flatMap_cons]
    cases lexeme with
    | literal text =>
      obtain ⟨body, h, rfl⟩ := here
      rw [Lexeme.write_literal, Lexeme.blanked_string]
      simp only [List.cons_append, List.append_assoc, List.nil_append]
      rw [Literal.blankChars_literal h, ih later]
    | other c =>
      rw [Lexeme.write_other, Literal.blankChars_cons here, ih later]
      rfl

/-- Blanking keeps the length of a row. -/
theorem length_blanked_strings (coded : ∀ lexeme ∈ row, lexeme.OfStrings) :
    (row.flatMap Lexeme.blanked).length = (write row).length := by
  rw [write, List.length_flatMap, List.length_flatMap]
  refine congrArg List.sum (List.map_congr_left fun lexeme member => ?_)
  have coded := coded lexeme member
  cases lexeme with
  | literal text =>
    obtain ⟨body, -, rfl⟩ := coded
    simp [Lexeme.blanked_string, Lexeme.written]
  | other c => rfl

/-- A semicolon stands outside of the literals. -/
theorem semicolon_mem (coded : ∀ lexeme ∈ row, lexeme.OfStrings) (harmless : IsHarmless row) :
    (';' ∈ write row ↔ .other ';' ∈ row) ∧
      (';' ∈ row.flatMap Lexeme.blanked ↔ .other ';' ∈ row) := by
  have outside : ∀ lexeme ∈ row, (';' ∈ lexeme.written ↔ lexeme = .other ';') ∧
      (';' ∈ lexeme.blanked ↔ lexeme = .other ';') := by
    intro lexeme member
    have coded := coded lexeme member
    cases lexeme with
    | literal text =>
      obtain ⟨body, -, rfl⟩ := coded
      have closed := (harmless body member).1
      rw [Lexeme.blanked_string]
      simp [Lexeme.written, closed]
    | other c => simp [Lexeme.written, Lexeme.blanked, eq_comm]
  rw [write, List.mem_flatMap, List.mem_flatMap]
  constructor
  · constructor
    · rintro ⟨lexeme, member, inside⟩
      rwa [← (outside lexeme member).1.1 inside]
    · intro member
      exact ⟨_, member, (outside _ member).1.2 rfl⟩
  · constructor
    · rintro ⟨lexeme, member, inside⟩
      rwa [← (outside lexeme member).2.1 inside]
    · intro member
      exact ⟨_, member, (outside _ member).2.2 rfl⟩

/-- A row begins with characters outside of literals, up to the first literal. -/
theorem exists_run (coded : ∀ lexeme ∈ row, lexeme.OfStrings) :
    ∃ run : List Char, row = run.map .other ∨
      ∃ body rest, row = run.map .other ++ .quoted body :: rest := by
  induction row with
  | nil => exact ⟨[], .inl rfl⟩
  | cons lexeme row ih =>
    obtain ⟨here, later⟩ := List.forall_mem_cons.1 coded
    cases lexeme with
    | literal text =>
      obtain ⟨body, -, rfl⟩ := here
      exact ⟨[], .inr ⟨body, row, rfl⟩⟩
    | other c =>
      obtain ⟨run, rfl | ⟨body, rest, rfl⟩⟩ := ih later
      · exact ⟨c :: run, .inl rfl⟩
      · exact ⟨c :: run, .inr ⟨body, rest, rfl⟩⟩

theorem write_run (run : List Char) :
    write (run.map .other) = run ∧ (run.map Lexeme.other).flatMap Lexeme.blanked = run := by
  induction run with
  | nil => exact ⟨rfl, rfl⟩
  | cons c run ih => exact ⟨congrArg (c :: ·) ih.1, congrArg (c :: ·) ih.2⟩

/-- The same begins here in both texts. -/
theorem rel_row (coded : ∀ lexeme ∈ row, lexeme.OfStrings) (harmless : IsHarmless row)
    (before : Option Char) (offset : Nat) :
    Option.Rel (fun t t' => t.captures = t'.captures)
      (plainField.matchAt ⟨before, write row, offset, []⟩)
      (plainField.matchAt ⟨before, row.flatMap Lexeme.blanked, offset, []⟩) := by
  obtain ⟨run, rfl | ⟨body, rest, rfl⟩⟩ := exists_run coded
  · rw [(write_run run).1, (write_run run).2]
    cases plainField.matchAt ⟨before, run, offset, []⟩ with
    | none => exact .none
    | some t => exact .some rfl
  · have literal := List.forall_mem_append.1 coded
    have behind := (List.forall_mem_cons.1 literal.2).2
    have harmless' : IsHarmless rest := fun body' member =>
      harmless body' (List.mem_append_right _ (List.mem_cons_of_mem _ member))
    have closed : ';' ∉ body := (harmless body (by simp)).1
    obtain ⟨plain, blank⟩ := semicolon_mem behind harmless'
    have same : ';' ∈ body ++ '"' :: write rest ↔
        ';' ∈ List.replicate body.length ' ' ++ '"' :: rest.flatMap Lexeme.blanked := by
      simp [closed, plain, blank]
    have related := rel_matchAt same before run offset offset
    rw [Lexeme.write_append, List.flatMap_append, List.flatMap_cons, (write_run run).1,
      (write_run run).2, Lexeme.quoted, Lexeme.blanked_string, Lexeme.write_literal]
    simpa using related

/-- A literal in which no field begins and no semicolon stands may be blanked before the search. -/
theorem keptFrom_literal {body rest rest' : List Char} (none : BeginsNoField body)
    (closed : ';' ∉ body) (before : Option Char) (offset : Nat)
    (later : ∀ offset, plainField.keptFrom (some '"') rest offset =
      plainField.keptFrom (some '"') rest' offset) :
    plainField.keptFrom before ('"' :: (body ++ ['"']) ++ rest) offset =
      plainField.keptFrom before ('"' :: (List.replicate body.length ' ' ++ ['"']) ++ rest')
        offset := by
  have blank : 'p' ∉ '"' :: (List.replicate body.length ' ' ++ ['"']) := by simp
  rw [keptFrom_free fun _ _ same nonempty => matchAt_literal none closed same nonempty before,
    keptFrom_of_notMem blank]
  have last : ∀ inside : List Char, ('"' :: (inside ++ ['"'])).getLast?.or before = some '"' := by
    intro inside
    rw [← List.cons_append, List.getLast?_concat, Option.some_or]
  rw [last, last, later]
  simp

/-- Declarations that are found at the beginning of both texts end at the first semicolon outside of
the literals, and the search goes on behind it. -/
theorem exists_keptFrom_behind (coded : ∀ lexeme ∈ row, lexeme.OfStrings) (harmless : IsHarmless row)
    {before : Option Char} {offset : Nat} {t t' : Cursor Part}
    (first : plainField.matchAt ⟨before, write row, offset, []⟩ = some t)
    (second : plainField.matchAt ⟨before, row.flatMap Lexeme.blanked, offset, []⟩ = some t') :
    ∃ front back, row = front ++ .other ';' :: back ∧ IsHarmless back ∧
      plainField.keptFrom before (write row) offset =
        t.captures :: plainField.keptFrom (some ';') (write back)
          (offset + ((write front).length + 1)) ∧
      plainField.keptFrom before (row.flatMap Lexeme.blanked) offset =
        t'.captures :: plainField.keptFrom (some ';') (back.flatMap Lexeme.blanked)
          (offset + ((write front).length + 1)) := by
  have ends : ';' ∈ write row := by
    by_contra closed
    rw [matchAt_eq_none_of_notMem rfl closed] at first
    cases first
  rw [(semicolon_mem coded harmless).1] at ends
  obtain ⟨front, back, rfl, unlike⟩ := List.eq_append_cons_of_mem ends
  obtain ⟨harmless', behind⟩ := harmless.of_append
  have coded' := (List.forall_mem_append.1 coded).1
  obtain ⟨plain, blank⟩ := semicolon_mem coded' harmless'
  rw [Lexeme.write_append, Lexeme.write_other] at first ⊢
  rw [List.flatMap_append, List.flatMap_cons] at second ⊢
  have found := @keptFrom_of_matchAt _ (front.flatMap Lexeme.blanked)
    (back.flatMap Lexeme.blanked) _ _ second (mt blank.1 unlike)
  rw [length_blanked_strings coded'] at found
  exact ⟨front, back, rfl, fun body member => behind body (List.mem_cons_of_mem _ member),
    keptFrom_of_matchAt first (mt plain.1 unlike), found⟩

/-- The search goes the same way through both texts: it passes over each literal, and behind a
declaration it goes on at the same place. -/
theorem keptFrom_blanked (coded : ∀ lexeme ∈ row, lexeme.OfStrings) (harmless : IsHarmless row)
    (before : Option Char) (offset : Nat) :
    plainField.keptFrom before (write row) offset =
      plainField.keptFrom before (row.flatMap Lexeme.blanked) offset := by
  induction size : row.length using Nat.strong_induction_on generalizing row before offset with
  | _ size ih =>
    subst size
    cases row with
    | nil => rfl
    | cons lexeme row =>
      have later := (List.forall_mem_cons.1 coded).2
      have harmless' : IsHarmless row := fun body member =>
        harmless body (List.mem_cons_of_mem _ member)
      have next := fun before offset => ih _ (Nat.lt_succ_self _) later harmless' before offset rfl
      cases lexeme with
      | literal text =>
        obtain ⟨body, -, rfl⟩ := coded _ (List.mem_cons_self ..)
        obtain ⟨closed, none⟩ := harmless body (List.mem_cons_self ..)
        rw [List.flatMap_cons, Lexeme.blanked_string]
        exact keptFrom_literal none closed before offset (next _)
      | other c =>
        -- A declaration begins in both texts or in neither.
        rcases cases_of_rel (rel_row coded harmless before offset) with
          ⟨first, second⟩ | ⟨t, t', first, second, same⟩
        · exact (keptFrom_cons first).trans ((next _ _).trans (keptFrom_cons second).symm)
        · obtain ⟨front, back, parts, rest, kept, kept'⟩ :=
            exists_keptFrom_behind coded harmless first second
          have short : back.length < (Lexeme.other c :: row).length := by
            rw [parts, List.length_append, List.length_cons]
            omega
          have coded' : ∀ lexeme ∈ back, lexeme.OfStrings := fun lexeme member =>
            coded lexeme (parts ▸ List.mem_append_right _ (List.mem_cons_of_mem _ member))
          rw [kept, kept', ← same, ih _ short coded' rest _ _ rfl]

/-- A word without quotes and spaces occurs with the literals if it does without. -/
theorem occurs_blanked {word : List Char} (nonempty : word ≠ []) (quote : '"' ∉ word)
    (space : ' ' ∉ word) (coded : ∀ lexeme ∈ row, lexeme.OfStrings)
    (h : occurs word (write row) = false) : occurs word (row.flatMap Lexeme.blanked) = false := by
  induction size : row.length using Nat.strong_induction_on generalizing row with
  | _ size ih =>
    subst size
    obtain ⟨run, rfl | ⟨body, rest, rfl⟩⟩ := exists_run coded
    · rw [(write_run run).1] at h
      rwa [(write_run run).2]
    · have behind := (List.forall_mem_cons.1 (List.forall_mem_append.1 coded).2).2
      obtain ⟨c, member⟩ := List.exists_mem_of_ne_nil word nonempty
      have spaces : occurs word (List.replicate body.length ' ') = false := by
        refine occurs_of_notMem member fun inside => space ?_
        rwa [← List.eq_of_mem_replicate inside]
      rw [Lexeme.write_append, (write_run run).1, Lexeme.quoted, Lexeme.write_literal,
        List.cons_append, List.append_assoc, List.singleton_append,
        occurs_append_cons quote nonempty, occurs_append_cons quote nonempty,
        Bool.or_eq_false_iff, Bool.or_eq_false_iff] at h
      obtain ⟨front, -, back⟩ := h
      rw [List.flatMap_append, (write_run run).2, List.flatMap_cons, Lexeme.quoted,
        Lexeme.blanked_string, List.cons_append, List.append_assoc, List.singleton_append,
        occurs_append_cons quote nonempty, occurs_append_cons quote nonempty, front, spaces,
        ih rest.length (by simp; omega) behind back rfl]
      rfl

end Rows

/-- A text has the fields that it has with blanked literals, if no literal holds a semicolon and in
none a declaration begins. -/
theorem FieldList.ofText_blank {row : List Lexeme} (types : TypeSystem)
    (coded : ∀ lexeme ∈ row, lexeme.OfStrings) (harmless : IsHarmless row)
    (unnamed : occurs namingWord (write row) = false) :
    ofText (String.ofList (write row)) types =
      ofText (Literal.blank (String.ofList (write row))) types := by
  have blank : occurs namingWord (row.flatMap Lexeme.blanked) = false :=
    occurs_blanked (by decide) (by decide) (by decide) coded unnamed
  rw [Literal.blank, String.toList_ofList, blankChars_strings coded,
    ofText_unannotated types unnamed, ofText_unannotated types blank,
    keptFrom_blanked coded harmless]

end InterfaceGen.Source
