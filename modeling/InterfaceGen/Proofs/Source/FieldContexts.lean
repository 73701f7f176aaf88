import InterfaceGen.Proofs.Source.FieldLiterals

/-!
# Literals that are read as fields

A literal that holds a semicolon, or in which a declaration begins, decides in some class which
fields are found: behind an annotation with it a field is lost, or in its value a field of another
class is found. So exactly the other literals never matter, `FieldList.ofText_blank_exact`.
-/

namespace InterfaceGen.Source

open InterfaceGen.Text InterfaceGen.Text.Pattern InterfaceGen.Types
open FieldList (Part Found plainField fieldsOf)
open Lexeme (write)

/-! ## Searching from a place on -/

/-- The back of a text that has no separator stands behind the first one. -/
theorem exists_behind {front back first rest : List Char}
    (same : front ++ back = first ++ ';' :: rest) (closed : ';' ∉ back) :
    ∃ more, front = first ++ ';' :: more ∧ rest = more ++ back := by
  rcases List.append_eq_append_iff.1 same with ⟨gone, rfl, rfl⟩ | ⟨begun, rfl, behind⟩
  · simp at closed
  · cases begun with
    | nil =>
      rw [List.nil_append] at behind
      simp [← behind] at closed
    | cons c begun =>
      obtain ⟨rfl, rfl⟩ := List.cons.inj behind
      exact ⟨begun, rfl, rfl⟩

/-- A declaration begins in the text and ends behind it only. What is captured up to its end stands
in the text. -/
theorem length_le_of_swallowed {behind last : List Char} (closed : ';' ∉ behind)
    (quiet : ∀ before offset, plainField.keptFrom before last offset = [])
    {text front back : List Char} (parts : text = front ++ back) (open' : ';' ∉ back)
    {before : Option Char}
    (found : (plainField.matchAt ⟨front.getLast?.or before,
      back ++ '"' :: (behind ++ ';' :: last), 0, []⟩).isSome) (offset : Nat) :
    ∀ kept ∈ plainField.keptFrom before (text ++ '"' :: (behind ++ ';' :: last)) offset,
      ∀ e ∈ kept, e.2.length ≤ text.length := by
  induction size : text.length using Nat.strong_induction_on
    generalizing text front before offset with
  | _ size ih =>
    subst size
    cases here : plainField.matchAt
        ⟨before, text ++ '"' :: (behind ++ ';' :: last), offset, []⟩ with
    | none =>
      cases front with
      | nil =>
        cases parts
        have none := (matchAt_eq_none_iff Iff.rfl back offset 0).1 here
        rw [List.getLast?_nil, Option.none_or, none] at found
        cases found
      | cons c front =>
        subst parts
        rw [getLast?_cons_or] at found
        rw [List.cons_append, List.cons_append] at here ⊢
        rw [keptFrom_cons here]
        intro kept member e inside
        exact Nat.le_succ_of_le (ih _ (Nat.lt_succ_self _) rfl found _ rfl kept member e inside)
    | some t =>
      by_cases ends : ';' ∈ text
      -- It ends in the text, and the search goes on there behind it.
      · obtain ⟨first, rest, split, closed'⟩ := List.eq_append_cons_of_mem ends
        obtain ⟨more, rfl, rfl⟩ := exists_behind (parts.symm.trans split) open'
        have whole : text ++ '"' :: (behind ++ ';' :: last) =
            first ++ ';' :: (more ++ back ++ '"' :: (behind ++ ';' :: last)) := by simp [split]
        have short : (more ++ back).length < text.length := by
          rw [split]
          simp
          omega
        have part : first.length ≤ text.length := by
          rw [split]
          simp
        rw [← getLast?_append_or, getLast?_cons_or] at found
        rw [whole] at here ⊢
        obtain ⟨-, inside, within, -, captures⟩ := facts_of_matchAt here closed'
        rw [keptFrom_of_matchAt here closed']
        intro kept member e there
        rcases List.mem_cons.1 member with rfl | later
        · exact (captures e there).length_le.trans (within.length_le.trans part)
        · exact (ih _ short rfl found _ rfl kept later e there).trans short.le
      -- It ends behind the quote, and what it captures does not reach there.
      · have whole : text ++ '"' :: (behind ++ ';' :: last) =
            (text ++ '"' :: behind) ++ ';' :: last := by simp
        have closed' : ';' ∉ text ++ '"' :: behind := by simp [ends, closed]
        rw [whole] at here ⊢
        obtain ⟨-, inside, within, unquoted, captures⟩ := facts_of_matchAt here closed'
        rw [keptFrom_of_matchAt here closed', quiet]
        intro kept member e there
        rw [List.mem_singleton.1 member] at there
        have first := (isPrefix_append_cons_iff unquoted behind).1 within
        exact (captures e there).length_le.trans first.length_le

/-- The search through a text goes on behind each semicolon. -/
theorem keptFrom_behind (text rest : List Char) (before : Option Char) (offset : Nat) :
    ∃ first, plainField.keptFrom before (text ++ ';' :: rest) offset =
      first ++ plainField.keptFrom (some ';') rest (offset + (text.length + 1)) := by
  induction size : text.length using Nat.strong_induction_on generalizing text before offset with
  | _ size ih =>
    subst size
    cases here : plainField.matchAt ⟨before, text ++ ';' :: rest, offset, []⟩ with
    | none =>
      cases text with
      | nil => exact ⟨[], keptFrom_cons here⟩
      | cons c text =>
        rw [List.cons_append] at here ⊢
        obtain ⟨first, same⟩ := ih _ (Nat.lt_succ_self _) text (some c) (offset + 1) rfl
        refine ⟨first, ?_⟩
        rw [keptFrom_cons here, same, List.length_cons]
        congr 2
        omega
    | some t =>
      by_cases ends : ';' ∈ text
      -- The declaration ends in the text, and the search goes on there.
      · obtain ⟨word, more, rfl, closed⟩ := List.eq_append_cons_of_mem ends
        rw [List.append_assoc, List.cons_append] at here ⊢
        have short : more.length < (word ++ ';' :: more).length := by
          simp
          omega
        obtain ⟨first, same⟩ := ih _ short more (some ';') (offset + (word.length + 1)) rfl
        refine ⟨t.captures :: first, ?_⟩
        rw [keptFrom_of_matchAt here closed, same, List.length_append, List.length_cons,
          List.cons_append]
        congr 3
        omega
      · exact ⟨[t.captures], keptFrom_of_matchAt here ends⟩

/-! ## Names of fields -/

namespace FieldList

/-- A field of this name is found in the text. -/
def Declares (types : TypeSystem) (text : List Char) (name : String) : Prop :=
  ∃ f ∈ fieldsOf types (plainField.keptFrom none text 0), f.sourceName = name

/-- The first field of each name is kept. -/
theorem exists_of_eraseDupsBy {fields : List Field} {name : String} :
    (∃ f ∈ fields.eraseDupsBy isSameName, f.sourceName = name) ↔
      ∃ f ∈ fields, f.sourceName = name := by
  induction size : fields.length using Nat.strong_induction_on generalizing fields with
  | _ size ih =>
    subst size
    cases fields with
    | nil => exact Iff.rfl
    | cons f fields =>
      have short := List.length_filter_le (fun g => decide (isSameName g f = false)) fields
      have later := @ih _ (Nat.lt_succ_of_le short) _ rfl
      rw [List.eraseDupsBy_cons]
      simp only [List.mem_cons, exists_eq_or_imp]
      refine or_congr_right' fun other => later.trans ?_
      refine exists_congr fun g => and_congr_left fun same => ?_
      have kept : isSameName g f = false := beq_false_of_ne fun named => other (named.trans same)
      simp [kept]

/-- Without naming annotations, the fields of a text are those that the plain pattern finds. -/
theorem declares_iff {types : TypeSystem} {text : List Char} {name : String}
    (h : occurs namingWord text = false) :
    Declares types text name ↔
      ∃ f ∈ ofText (String.ofList text) types, f.sourceName = name := by
  rw [ofText_unannotated types h, exists_of_eraseDupsBy]
  rfl

/-- No name is longer than what was captured. -/
theorem length_le_of_declares {types : TypeSystem} {text : List Char} {name : String} {most : Nat}
    (h : Declares types text name)
    (short : ∀ kept ∈ plainField.keptFrom none text 0, ∀ e ∈ kept, e.2.length ≤ most) :
    name.toList.length ≤ most := by
  obtain ⟨f, hf, rfl⟩ := h
  obtain ⟨found, hfound, read⟩ := List.mem_filterMap.1 hf
  obtain ⟨kept, hkept, hfound⟩ := List.mem_flatMap.1 hfound
  obtain ⟨part, hpart, rfl⟩ := List.mem_map.1 hfound
  have named : f.sourceName.toList = part := by
    rw [Found.field?] at read
    split at read
    · cases read
      exact String.toList_ofList
    · cases read
  rw [named]
  refine (length_le_of_mem_cut hpart).trans ?_
  cases captured : kept.lookup Part.names with
  | none => exact Nat.zero_le _
  | some names =>
    obtain ⟨before, after, rfl, -⟩ := List.lookup_eq_some_iff.1 captured
    exact short _ hkept (Part.names, names) (by simp)

end FieldList

/-- A text without the first letter of the word is quiet. -/
theorem Quiet.of_notMem {text : List Char} (h : 'p' ∉ text) : Quiet text := by
  rintro ⟨front, back, rfl, -, -⟩
  have first : 'p' ∈ privateWord := by decide
  exact h (List.mem_append_right _ (List.mem_append_left _ first))

/-- A single declaration between texts that hold none. -/
theorem exists_kept_single {type : JavaType} {n : FieldName} {front core back : List Char}
    (quiet : 'p' ∉ front) (ends : EndsApart front) (h : Core type n [] core) (quiet' : 'p' ∉ back)
    (ends' : EndsApart back) :
    ∃ kept, KeptPlain ⟨none, type, n, []⟩ kept ∧
      Yields plainField (front ++ (core ++ back)) [kept] := by
  have last := yields_plain_quiet (.nil plainField) (.of_notMem quiet') ends'
  obtain ⟨kept, one, yields⟩ := (FieldDeclaration.Written.plain .nil h).yields_plain last
  rw [List.nil_append, List.append_nil] at yields
  exact ⟨kept, one, yields_plain_quiet yields (.of_notMem quiet) ends⟩

namespace FieldList

/-- A declaration of one name that is kept is a field of this name, unless it is the version
marker. -/
theorem exists_of_keptPlain {types : TypeSystem} {type : JavaType} {n : FieldName}
    {kept : List (Part × List Char)} (h : KeptPlain ⟨none, type, n, []⟩ kept) {name : String} :
    (∃ f ∈ fieldsOf types [kept], f.sourceName = name) ↔
      name = n.toString ∧ name ≠ versionMarker := by
  have single : fieldsOf types [kept] =
      ((FieldDeclaration.mk none type n []).unnamed.fields types).filter isUnmarked := by
    rw [fieldsOf, List.flatMap_singleton]
    exact FieldDeclaration.filterMap_plain types h
  rw [single]
  constructor
  · rintro ⟨f, hf, rfl⟩
    obtain ⟨hf, unmarked⟩ := List.mem_filter.1 hf
    rw [isUnmarked, decide_eq_true_iff] at unmarked
    obtain rfl := List.mem_singleton.1 hf
    exact ⟨rfl, unmarked⟩
  · rintro ⟨rfl, unmarked⟩
    exact ⟨_, List.mem_filter.2 ⟨List.mem_singleton_self _, decide_eq_true unmarked⟩, rfl⟩

end FieldList

/-! ## Two contexts -/

/-- The fields of a text are those of the text with blanked literals, whatever the text is, if only
its literals are admitted and it names no properties. -/
def Unaffected (types : TypeSystem) (admitted : List Char → Prop) : Prop :=
  ∀ row : List Lexeme, (∀ lexeme ∈ row, lexeme.OfStrings) →
    occurs namingWord (write row) = false → (∀ body, .quoted body ∈ row → admitted body) →
    FieldList.ofText (String.ofList (write row)) types =
      FieldList.ofText (Literal.blank (String.ofList (write row))) types

/-- The literal with this body between two texts. -/
def around (front back body : List Char) : List Char :=
  front ++ '"' :: (body ++ '"' :: back)

/-- Where literals do not matter, a text declares the same with the contents of a literal and
without. -/
theorem Unaffected.declares_around {types : TypeSystem} {admitted : List Char → Prop}
    (h : Unaffected types admitted) {front back body : List Char}
    (plain : '"' ∉ front ∧ '"' ∉ back)
    (unnamed : occurs namingWord front = false ∧ occurs namingWord back = false)
    (hb : IsLiteral body) (unnamed' : occurs namingWord body = false) (ha : admitted body)
    {name : String} :
    FieldList.Declares types (around front back body) name ↔
      FieldList.Declares types (around front back (List.replicate body.length ' ')) name := by
  let row := front.map Lexeme.other ++ .quoted body :: back.map Lexeme.other
  have written : write row = around front back body := by
    simp [row, around, Lexeme.quoted, (write_run front).1, (write_run back).1]
  have coded : ∀ lexeme ∈ row, lexeme.OfStrings :=
    List.forall_mem_append.2 ⟨Lexeme.ofStrings_others plain.1,
      List.forall_mem_cons.2 ⟨⟨body, hb, rfl⟩, Lexeme.ofStrings_others plain.2⟩⟩
  have blanked : row.flatMap Lexeme.blanked =
      around front back (List.replicate body.length ' ') := by
    simp [row, around, Lexeme.quoted, Lexeme.blanked_string, (write_run front).2,
      (write_run back).2]
  have none : occurs namingWord (write row) = false := by
    rw [written, around, occurs_append_cons (by decide) (by decide),
      occurs_append_cons (by decide) (by decide), unnamed.1, unnamed.2, unnamed']
    rfl
  have none' : occurs namingWord (row.flatMap Lexeme.blanked) = false :=
    occurs_blanked (by decide) (by decide) (by decide) coded none
  have same := h row coded none fun other member => by
    simp [row, Lexeme.quoted] at member
    rwa [member]
  rw [Literal.blank, String.toList_ofList, blankChars_strings coded] at same
  rw [← written, ← blanked, FieldList.declares_iff none, FieldList.declares_iff none', same]

/-- A name longer than the number. -/
def longName (n : Nat) : FieldName where
  chars := List.replicate (n + 1) 'q'
  wellFormed := by
    have further : (List.replicate n 'q').all isNameChar = true :=
      List.all_eq_true.2 fun c inside => by
        rw [List.eq_of_mem_replicate inside]
        decide
    rw [List.replicate_succ, isFieldName, isHeadedBy, further]
    decide

/-- A field of this name, behind nothing. -/
def declaredLong (n : FieldName) : List Char :=
  "private long ".toList ++ (n.chars ++ [';'])

/-- It is a declaration of this name alone. -/
theorem core_declaredLong (n : FieldName) : Core long n [] (declaredLong n) := by
  have space : AreBlank [' '] := List.forall_mem_singleton.2 (by decide)
  have none : AreBlank [] := List.forall_mem_nil _
  have spelled : Spaced AreBlank long.tokens "long".toList := .last (.name [] _)
  exact .intro space (by decide) .nil spelled (by decide) space (by decide) .nil none .none

/-- A field behind an annotation with a literal. -/
def tagFront : List Char := "class A \x7b @Tag(".toList

/-- The end of the annotation, and the field. -/
def tagBack (n : FieldName) : List Char :=
  ") ".toList ++ (declaredLong n ++ " \x7d".toList)

/-- A field of a class within the value of another one. -/
def valueFront : List Char :=
  "class A \x7b ".toList ++ ("private Object o =".toList ++ [' '])

/-- The end of the value, with the field in the body of an anonymous class. -/
def valueBack (n : FieldName) : List Char :=
  " + new Object() \x7b ".toList ++ (declaredLong n ++ " \x7d; \x7d".toList)

theorem endsApart_close : EndsApart " \x7d".toList ∧ EndsApart " \x7d; \x7d".toList :=
  ⟨EndsApart.concat (c := '\x7d') (by decide) [' '],
    EndsApart.concat (c := '\x7d') (by decide) [' ', '\x7d', ';', ' ']⟩

/-- Behind an annotation with a blanked literal a field is found. -/
theorem declares_tag (types : TypeSystem) {n : FieldName}
    (unmarked : n.toString ≠ FieldList.versionMarker) (k : Nat) :
    FieldList.Declares types (around tagFront (tagBack n) (List.replicate k ' ')) n.toString := by
  let literal := '"' :: (List.replicate k ' ' ++ ['"'])
  have blank : 'p' ∉ literal := by simp [literal]
  have quiet : 'p' ∉ tagFront ++ literal ++ ") ".toList :=
    List.not_mem_append (List.not_mem_append (by decide) blank) (by decide)
  have ends : EndsApart ") ".toList := EndsApart.concat (c := ' ') (by decide) [')']
  have ends' : EndsApart (tagFront ++ literal ++ ") ".toList) := ends.append_left (by decide)
  obtain ⟨kept, one, yields⟩ :=
    exists_kept_single quiet ends' (core_declaredLong n) (by decide) endsApart_close.1
  have text : around tagFront (tagBack n) (List.replicate k ' ') =
      tagFront ++ literal ++ ") ".toList ++ (declaredLong n ++ " \x7d".toList) := by
    have regrouped : ∀ a b c d : List Char, around a (b ++ (c ++ d)) (List.replicate k ' ') =
        a ++ literal ++ b ++ (c ++ d) := by
      simp [around, literal]
    exact regrouped _ _ _ _
  rw [FieldList.Declares, text, yields none 0 rfl]
  exact (FieldList.exists_of_keptPlain one).2 ⟨rfl, unmarked⟩

/-- The type `Object`. -/
def objectType : JavaType :=
  .name .object

/-- What stands behind the sign of equality, up to the next semicolon. -/
def valueText (literal : List Char) (n : FieldName) : List Char :=
  ' ' :: (literal ++ (" + new Object() \x7b ".toList ++ ("private long ".toList ++ n.chars)))

/-- Up to the semicolon of the inner field, all is one declaration with a value. -/
theorem core_value {literal : List Char} (plain : ';' ∉ literal ∧ '@' ∉ literal) (n : FieldName) :
    Core objectType ⟨['o'], by decide⟩ []
      ("private Object o =".toList ++ (valueText literal n ++ [';'])) := by
  have space : AreBlank [' '] := List.forall_mem_singleton.2 (by decide)
  have spelled : Spaced AreBlank objectType.tokens "Object".toList := .last (.name [] _)
  have named : ';' ∉ n.chars ∧ '@' ∉ n.chars :=
    ⟨notMem_of_forall (isNameChar_of_mem n) (by decide),
      notMem_of_forall (isNameChar_of_mem n) (by decide)⟩
  have value : Initializer ('=' :: valueText literal n) := by
    refine .value ?_ ?_
    · simp [valueText, plain.1, named.1]
    · simp [valueText, plain.2, named.2]
  exact .intro space (by decide) .nil spelled (by decide) space (by decide) .nil space value

/-- In the value of a field with a blanked literal no other is found. -/
theorem declares_value {types : TypeSystem} {n : FieldName} {k : Nat} {name : String}
    (h : FieldList.Declares types (around valueFront (valueBack n) (List.replicate k ' ')) name) :
    name = "o" := by
  let literal := '"' :: (List.replicate k ' ' ++ ['"'])
  have plain : ';' ∉ literal ∧ '@' ∉ literal := by simp [literal]
  have ends : EndsApart "class A \x7b ".toList :=
    EndsApart.concat (c := ' ') (by decide) "class A \x7b".toList
  have quiet : 'p' ∉ "class A \x7b ".toList := by decide
  obtain ⟨kept, one, yields⟩ :=
    exists_kept_single quiet ends (core_value plain n) (by decide) endsApart_close.2
  have text : around valueFront (valueBack n) (List.replicate k ' ') =
      "class A \x7b ".toList ++ ("private Object o =".toList ++ (valueText literal n ++ [';']) ++
        " \x7d; \x7d".toList) := by
    have regrouped : ∀ a b c d e : List Char, around (a ++ (b ++ [' ']))
        (c ++ ((d ++ (n.chars ++ [';'])) ++ e)) (List.replicate k ' ') =
          a ++ (b ++ (' ' :: (literal ++ (c ++ (d ++ n.chars))) ++ [';']) ++ e) := by
      simp [around, literal]
    exact regrouped _ _ _ _ _
  rw [FieldList.Declares, text, yields none 0 rfl] at h
  exact ((FieldList.exists_of_keptPlain one).1 h).1

/-- Behind an annotation with a literal in which a declaration begins a field is lost. -/
theorem length_le_of_declares_tag {types : TypeSystem} {n : FieldName} {front back : List Char}
    {offset : Nat}
    (found : (plainField.matchAt
      ⟨front.getLast?.or (some '"'), back ++ '"' :: [';'], offset, []⟩).isSome)
    (closed : ';' ∉ back) {name : String}
    (h : FieldList.Declares types (around tagFront (tagBack n) (front ++ back)) name) :
    name.toList.length ≤ (front ++ back).length + 16 := by
  let behind := ") ".toList ++ ("private long ".toList ++ n.chars)
  let last := " \x7d".toList
  have named : ';' ∉ n.chars := notMem_of_forall (isNameChar_of_mem n) (by decide)
  have open' : ';' ∉ behind :=
    List.not_mem_append (by decide) (List.not_mem_append (by decide) named)
  have quiet : ∀ before offset, plainField.keptFrom before last offset = [] := by
    intro before offset
    have free := keptFrom_of_notMem (show 'p' ∉ last by decide) [] before offset
    rw [List.append_nil] at free
    exact free
  have text : around tagFront (tagBack n) (front ++ back) =
      tagFront ++ '"' :: front ++ back ++ '"' :: (behind ++ ';' :: last) := by
    have regrouped : ∀ a b c d : List Char,
        around a (b ++ ((c ++ (n.chars ++ [';'])) ++ d)) (front ++ back) =
          a ++ '"' :: front ++ back ++ '"' :: (b ++ (c ++ n.chars) ++ ';' :: d) := by
      simp [around]
    exact regrouped _ _ _ _
  have place : (tagFront ++ '"' :: front).getLast?.or none = front.getLast?.or (some '"') := by
    rw [← getLast?_append_or, getLast?_cons_or]
  -- Whether a declaration begins there depends on what follows only by whether it has a semicolon.
  have found' : (plainField.matchAt ⟨(tagFront ++ '"' :: front).getLast?.or none,
      back ++ '"' :: (behind ++ ';' :: last), 0, []⟩).isSome := by
    have both : ';' ∈ [';'] ↔ ';' ∈ behind ++ ';' :: last := iff_of_true (by simp) (by simp)
    rwa [← isSome_eq_of_rel (rel_matchAt both _ back offset 0), place]
  rw [text] at h
  have short := FieldList.length_le_of_declares h
    (length_le_of_swallowed open' quiet rfl closed found' 0)
  have long : (tagFront ++ '"' :: front ++ back).length = (front ++ back).length + 16 := by
    have fixed : tagFront.length = 15 := by decide
    simp [fixed]
    omega
  rwa [long] at short

/-- The search passes over the end of a literal in which no declaration begins. -/
theorem keptFrom_to_quote {rest back : List Char} (ends : ';' ∈ back)
    (none : ∀ front back, rest = front ++ back → ∀ offset,
      plainField.matchAt ⟨front.getLast?.or (some ';'), back ++ '"' :: [';'], offset, []⟩ = none)
    (offset : Nat) :
    plainField.keptFrom (some ';') (rest ++ '"' :: back) offset =
      plainField.keptFrom (some '"') back (offset + (rest.length + 1)) := by
  have both : ';' ∈ [';'] ↔ ';' ∈ back := iff_of_true (List.mem_singleton_self _) ends
  have text : rest ++ '"' :: back = rest ++ ['"'] ++ back := by simp
  have last : (rest ++ ['"']).getLast?.or (some ';') = some '"' := by
    rw [List.getLast?_concat, Option.some_or]
  have nowhere : ∀ front back', rest = front ++ back' → back' ≠ [] → ∀ offset,
      plainField.matchAt ⟨front.getLast?.or (some ';'), back' ++ '"' :: back, offset, []⟩ = .none :=
    fun front back' same _ offset =>
      (matchAt_eq_none_iff both back' offset offset).1 (none front back' same offset)
  rw [text, keptFrom_free fun _ _ same nonempty =>
    matchAt_before_quote List.not_mem_nil nowhere same nonempty, last, List.length_append,
    List.length_singleton]

/-- In the value behind a literal that holds a semicolon a field is found, if no declaration begins
behind that semicolon. -/
theorem declares_of_semicolon (types : TypeSystem) {n : FieldName}
    (unmarked : n.toString ≠ FieldList.versionMarker) (first : List Char) {rest : List Char}
    (none : ∀ front back, rest = front ++ back → ∀ offset,
      plainField.matchAt ⟨front.getLast?.or (some ';'), back ++ '"' :: [';'], offset, []⟩ = none) :
    FieldList.Declares types (around valueFront (valueBack n) (first ++ ';' :: rest))
      n.toString := by
  have text : around valueFront (valueBack n) (first ++ ';' :: rest) =
      valueFront ++ '"' :: first ++ ';' :: (rest ++ '"' :: valueBack n) := by
    simp [around]
  have ends : EndsApart " + new Object() \x7b ".toList :=
    EndsApart.concat (c := ' ') (by decide) " + new Object() \x7b".toList
  have quiet : 'p' ∉ " + new Object() \x7b ".toList := by decide
  obtain ⟨kept, one, yields⟩ :=
    exists_kept_single quiet ends (core_declaredLong n) (by decide) endsApart_close.2
  have closed : ';' ∈ valueBack n := List.mem_append_right _ (List.mem_append_left _
    (List.mem_append_right _ (List.mem_append_right _ (List.mem_singleton_self _))))
  obtain ⟨before, whole⟩ :=
    keptFrom_behind (valueFront ++ '"' :: first) (rest ++ '"' :: valueBack n) .none 0
  have found : ∀ offset, plainField.keptFrom (some '"') (valueBack n) offset = [kept] :=
    fun offset => yields (some '"') offset (by decide)
  rw [keptFrom_to_quote closed none, found] at whole
  obtain ⟨f, hf, named⟩ : ∃ f ∈ fieldsOf types [kept], f.sourceName = n.toString :=
    (FieldList.exists_of_keptPlain one).2 ⟨rfl, unmarked⟩
  refine ⟨f, ?_, named⟩
  rw [text, whole, fieldsOf, List.flatMap_append, List.filterMap_append]
  exact List.mem_append_right _ hf

/-! ## Literals that never matter -/

/-- A long name is no version marker, and is as long as asked for. -/
theorem longName_facts (k : Nat) :
    (longName k).toString ≠ FieldList.versionMarker ∧
      (longName k).toString.toList.length = k + 1 := by
  have chars : (longName k).toString.toList = List.replicate (k + 1) 'q' := String.toList_ofList
  constructor
  · intro same
    rw [same] at chars
    have other : FieldList.versionMarker.toList.head? ≠ some 'q' := by decide
    exact other (congrArg List.head? chars)
  · rw [chars, List.length_replicate]

/-- What stands around the literals has no quotes and names no property. -/
theorem plain_around (n : FieldName) :
    (('"' ∉ tagFront ∧ '"' ∉ tagBack n) ∧
      occurs namingWord tagFront = false ∧ occurs namingWord (tagBack n) = false) ∧
    ('"' ∉ valueFront ∧ '"' ∉ valueBack n) ∧
      occurs namingWord valueFront = false ∧ occurs namingWord (valueBack n) = false := by
  have declared : ∀ {c : Char}, isNameChar c = false → c ∉ "private long ".toList → c ≠ ';' →
      c ∉ declaredLong n := fun other word mark =>
    List.not_mem_append word (List.not_mem_append (notMem_of_forall (isNameChar_of_mem n) other)
      (by simpa using mark))
  have quote : '"' ∉ declaredLong n := declared (by decide) (by decide) (by decide)
  have sign : '@' ∉ declaredLong n := declared (by decide) (by decide) (by decide)
  have within : '@' ∈ namingWord := by decide
  refine ⟨⟨⟨by decide, ?_⟩, by decide, ?_⟩, ⟨by decide, ?_⟩, by decide, ?_⟩
  · exact List.not_mem_append (by decide) (List.not_mem_append quote (by decide))
  · exact occurs_of_notMem within
      (List.not_mem_append (by decide) (List.not_mem_append sign (by decide)))
  · exact List.not_mem_append (by decide) (List.not_mem_append quote (by decide))
  · exact occurs_of_notMem within
      (List.not_mem_append (by decide) (List.not_mem_append sign (by decide)))

section Exact

variable {types : TypeSystem} {admitted : List Char → Prop} {body : List Char}

/-- No declaration begins in an admitted literal behind its last semicolon. -/
theorem Unaffected.matchAt_eq_none (h : Unaffected types admitted) (hb : IsLiteral body)
    (unnamed : occurs namingWord body = false) (ha : admitted body) {front back : List Char}
    (parts : body = front ++ back) (closed : ';' ∉ back) (offset : Nat) :
    plainField.matchAt ⟨front.getLast?.or (some '"'), back ++ '"' :: [';'], offset, []⟩ = none := by
  obtain ⟨unmarked, long⟩ := longName_facts (body.length + 16)
  obtain ⟨quotes, names⟩ := (plain_around (longName (body.length + 16))).1
  have there := declares_tag types unmarked body.length
  rw [← h.declares_around quotes names hb unnamed ha, parts] at there
  rw [← Option.not_isSome_iff_eq_none]
  intro found
  have short := length_le_of_declares_tag found closed there
  rw [← parts, long] at short
  omega

/-- No admitted literal holds a semicolon. -/
theorem Unaffected.notMem (h : Unaffected types admitted) (hb : IsLiteral body)
    (unnamed : occurs namingWord body = false) (ha : admitted body) : ';' ∉ body := by
  intro inside
  obtain ⟨rest, first, same, closed⟩ := List.eq_append_cons_of_mem (List.mem_reverse.2 inside)
  have parts : body = first.reverse ++ ';' :: rest.reverse := by
    rw [← List.reverse_reverse body, same]
    simp
  have closed' : ';' ∉ rest.reverse := fun inside => closed (List.mem_reverse.1 inside)
  obtain ⟨unmarked, long⟩ := longName_facts 1
  obtain ⟨quotes, names⟩ := (plain_around (longName 1)).2
  have behind : ∀ front back, rest.reverse = front ++ back → ∀ offset,
      plainField.matchAt ⟨front.getLast?.or (some ';'), back ++ '"' :: [';'], offset, []⟩ =
        none := by
    intro front back split offset
    have whole : body = (first.reverse ++ ';' :: front) ++ back := by
      rw [parts, split]
      simp
    have closed'' : ';' ∉ back := fun inside =>
      closed' (by rw [split]; exact List.mem_append_right _ inside)
    have none := h.matchAt_eq_none hb unnamed ha whole closed'' offset
    rwa [← getLast?_append_or, getLast?_cons_or] at none
  have there := declares_of_semicolon types unmarked first.reverse behind
  rw [← parts, h.declares_around quotes names hb unnamed ha] at there
  rw [declares_value there] at long
  exact absurd long (by decide)

end Exact

/-- The contents of a string literal are those of a literal. -/
theorem isLiteral_of_quoted {body : List Char} (h : (Lexeme.quoted body).OfStrings) :
    IsLiteral body := by
  obtain ⟨body', hb, same⟩ := h
  rwa [List.append_cancel_right (List.tail_eq_of_cons_eq same)]

theorem isInfix_write {lexeme : Lexeme} {row : List Lexeme} (h : lexeme ∈ row) :
    lexeme.written <:+: write row := by
  obtain ⟨front, back, rfl⟩ := List.append_of_mem h
  exact ⟨write front, write back, by simp [write]⟩

/-- Exactly where no literal holds a semicolon and in none a declaration begins, all texts with
these literals have the fields that they have with blanked literals. -/
theorem FieldList.ofText_blank_exact (types : TypeSystem) (admitted : List Char → Prop) :
    Unaffected types admitted ↔
      ∀ body, IsLiteral body → occurs namingWord body = false → admitted body →
        ';' ∉ body ∧ BeginsNoField body := by
  constructor
  · intro h body hb unnamed ha
    have closed := h.notMem hb unnamed ha
    refine ⟨closed, beginsNoField_iff.2 fun front back parts _ => ?_⟩
    refine h.matchAt_eq_none hb unnamed ha parts fun inside => closed ?_
    rw [parts]
    exact List.mem_append_right _ inside
  · intro sound row coded unnamed literals
    refine ofText_blank types coded (fun body member => ?_) unnamed
    have within : body <:+: write row :=
      List.IsInfix.trans ⟨['"'], ['"'], rfl⟩ (isInfix_write member)
    refine sound body (isLiteral_of_quoted (coded _ member)) ?_ (literals body member)
    exact occurs_eq_false_iff.2 fun there => occurs_eq_false_iff.1 unnamed (there.trans within)

/-- A class with one field, whose value looks as if there was another. -/
def noteRow : List Lexeme :=
  Lexeme.plain "class A \x7b private String s = " ++ .quoted "x; private int y;".toList ::
    Lexeme.plain "; \x7d"

/-- The text in the literal is read as a field. -/
theorem FieldList.ofText_note :
    (∀ lexeme ∈ noteRow, lexeme.OfStrings) ∧ occurs namingWord (write noteRow) = false ∧
      (ofText (String.ofList (write noteRow)) .standard).map (·.sourceName) = ["s", "y"] ∧
      (ofText (Literal.blank (String.ofList (write noteRow))) .standard).map (·.sourceName) =
        ["s"] := by
  have literal : IsLiteral "x; private int y;".toList := by
    repeat refine .plain (by decide) ?_
    exact .nil
  have coded : ∀ lexeme ∈ noteRow, lexeme.OfStrings :=
    List.forall_mem_append.2 ⟨Lexeme.ofStrings_others (by decide),
      List.forall_mem_cons.2 ⟨⟨_, literal, rfl⟩, Lexeme.ofStrings_others (by decide)⟩⟩
  refine ⟨coded, by decide, by decide +kernel, ?_⟩
  rw [Literal.blank, String.toList_ofList, blankChars_strings coded]
  decide +kernel

end InterfaceGen.Source
