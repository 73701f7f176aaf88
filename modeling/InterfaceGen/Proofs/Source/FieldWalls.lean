import InterfaceGen.Proofs.Source.FieldExtraction
import InterfaceGen.Proofs.Source.FieldNames
import InterfaceGen.Proofs.Text.Walls

/-!
# Fields before a quote

A field declaration is recognised by what stands up to its names, where no quote can stand, and goes
on to the next semicolon. So whether one begins before a quote is decided there, but for the
semicolon that it needs behind the quote, `rel_matchAt`.
-/

namespace InterfaceGen.Source

open InterfaceGen.Text InterfaceGen.Text.Pattern InterfaceGen.Types
open FieldList (Part Found plainField ending modifiers declaredType wordPair comma)

/-! ## What a match consists of -/

/-- A private field up to its names. -/
def frontPattern : Pattern Part :=
  .wordEdge ++ .word "private" ++ .spacing ++ modifiers ++ declaredType ++ .spacing ++
    .capture .names (.name ++ .many (comma ++ .name))

/-- What ends a declaration behind its names and the blanks there. -/
def tailPattern : Pattern Part :=
  valuePattern ++ .word ";"

/-- Can `c` stand in a declaration before its initial value? -/
def isFrontChar (c : Char) : Bool :=
  c != '"' && c != ';'

theorem isFrontChar_of_accept {accept : Char → Bool} (quote : accept '"' = false)
    (semicolon : accept ';' = false) (c : Char) (h : accept c = true) : isFrontChar c = true := by
  simp only [isFrontChar, Bool.and_eq_true, bne_iff_ne]
  constructor
  · rintro rfl
    rw [quote] at h
    cases h
  · rintro rfl
    rw [semicolon] at h
    cases h

/-- No quote and no semicolon is read before the value of a declaration. -/
theorem walled_frontPattern : frontPattern.Walled isFrontChar := by
  have blank : ∀ c, isBlank c = true → isFrontChar c = true :=
    isFrontChar_of_accept (by decide) (by decide)
  have start : ∀ c, isNameStart c = true → isFrontChar c = true :=
    isFrontChar_of_accept (by decide) (by decide)
  have name : ∀ c, isNameChar c = true → isFrontChar c = true :=
    isFrontChar_of_accept (by decide) (by decide)
  have type : ∀ c, FieldList.isTypeChar c = true → isFrontChar c = true :=
    isFrontChar_of_accept (by decide) (by decide)
  simp only [frontPattern, modifiers, declaredType, comma, wordPair, Pattern.word, Pattern.spacing,
    Pattern.someRun, Pattern.blanks, Pattern.name, walled_append, walled_orElse, Walled]
  and_intros
  all_goals first | exact blank | exact start | exact name | exact type | decide

/-- What stands before the value, with the blanks behind the names. -/
theorem walled_front : (frontPattern ++ .blanks).Walled isFrontChar :=
  ⟨walled_frontPattern, isFrontChar_of_accept (by decide) (by decide)⟩

theorem silent_tailPattern : tailPattern.Silent :=
  ⟨⟨trivial, trivial⟩, trivial⟩

/-- No semicolon is read in a value. -/
theorem within_valuePattern : valuePattern.Within fun c => c != ';' := by
  have sign : ∀ c ∈ "=".toList, (c != ';') = true := by decide
  exact ⟨sign, fun _ h => h⟩

/-- A match is a front without quotes, which holds all that is captured, and the text behind it to
the first semicolon. -/
theorem exists_front {s t : Cursor Part} (h : plainField.matchAt s = some t)
    (start : s.captures = []) :
    ∃ front word, s.Passes t (word ++ [';']) t.captures ∧ ';' ∉ word ∧ front <+: word ∧
      '"' ∉ front ∧ ∀ e ∈ t.captures, e.2 <:+: front := by
  have found : (frontPattern ++ .blanks ++ tailPattern).matchAt s = some t := h
  obtain ⟨whole, kept, passes, matched⟩ := matches_of_matchAt found
  cases matched with
  | @seq _ _ front more kept later first second =>
    have inside := first.within walled_front.within
    have unquoted : '"' ∉ front := notMem_of_forall inside (by decide)
    have closed : ';' ∉ front := notMem_of_forall inside (by decide)
    have none := second.eq_nil_of_silent silent_tailPattern
    have captures := passes.captures
    rw [start, List.append_nil] at captures
    rw [← captures] at passes
    rw [none, List.nil_append] at captures
    clear none
    cases second with
    | @seq _ _ value _ _ _ valued last =>
      have open' := valued.within within_valuePattern
      cases last with
      | exactly =>
        refine ⟨front, front ++ value, ?_, ?_, List.prefix_append _ _, unquoted, ?_⟩
        · rw [List.append_assoc]
          exact passes
        · exact List.not_mem_append closed (notMem_of_forall open' (by decide))
        · rw [captures]
          exact first.isInfix_of_mem

/-! ## The end of a declaration -/

/-- A semicolon stands here, or an initial value and a semicolon somewhere behind it. -/
def EndsAhead (text : List Char) : Prop :=
  text.head? = some ';' ∨ ∃ value, text = '=' :: value ∧ ';' ∈ value

/-- The end of a declaration is found exactly where it is ahead. -/
theorem isSome_tail_iff {before : Option Char} {text : List Char} {offset : Nat}
    {captures : List (Part × List Char)} :
    (tailPattern.follow some ⟨before, text, offset, captures⟩).isSome ↔ EndsAhead text := by
  constructor
  · intro found
    obtain ⟨t, found⟩ := Option.isSome_iff_exists.1 found
    obtain ⟨word, kept, ⟨behind, -, -, -⟩, matched⟩ := matches_of_matchAt found
    dsimp only at behind
    rw [behind]
    cases matched with
    | seq first second =>
      cases second with
      | exactly =>
        cases first with
        | omitted => exact .inl rfl
        | taken h =>
          cases h with
          | seq sign value =>
            cases sign with
            | exactly => exact .inr ⟨_, rfl, by simp⟩
  · intro ends
    have found : ∃ value rest, text = value ++ ';' :: rest ∧
        Reads valuePattern value (';' :: rest) [] := by
      rcases ends with here | ⟨value, rfl, inside⟩
      · obtain ⟨rest, rfl⟩ := List.head?_eq_some_iff.1 here
        exact ⟨[], rest, rfl, reads_noValue rest⟩
      · obtain ⟨value, rest, rfl, closed⟩ := List.eq_append_cons_of_mem inside
        exact ⟨'=' :: value, rest, rfl, reads_value closed rest⟩
    obtain ⟨value, rest, rfl, reads⟩ := found
    have whole : Reads tailPattern (value ++ [';']) rest [] := .bare_seq reads (.exactly _)
    have some := whole before offset captures some _ rfl
    rw [List.append_assoc] at some
    exact Option.isSome_iff_exists.2 ⟨_, some⟩

/-- What is behind a quote counts for this by its semicolons alone. -/
theorem endsAhead_wall {rest rest' : List Char} (same : ';' ∈ rest ↔ ';' ∈ rest')
    (word : List Char) : EndsAhead (word ++ '"' :: rest) ↔ EndsAhead (word ++ '"' :: rest') := by
  cases word with
  | nil => simp [EndsAhead]
  | cons c word => simp [EndsAhead, same]

/-- So both searches end a declaration on the same condition. -/
theorem tail_same {w : Wall} (quote : w.mark = '"') (same : ';' ∈ w.rest ↔ ';' ∈ w.rest') :
    w.Same (fun t t' => t.captures = t'.captures) (tailPattern.follow some)
      (tailPattern.follow some) := by
  intro before word offset offset' captures _ _
  have both :
      (tailPattern.follow some ⟨before, word ++ w.mark :: w.rest, offset, captures⟩).isSome =
      (tailPattern.follow some ⟨before, word ++ w.mark :: w.rest', offset', captures⟩).isSome := by
    rw [Bool.eq_iff_iff, isSome_tail_iff, isSome_tail_iff, quote, endsAhead_wall same]
  exact rel_of_isSome_eq both fun t found t' found' =>
    (captures_of_silent silent_tailPattern found).trans
      (captures_of_silent silent_tailPattern found').symm

/-- A declaration begins before a quote, and with the same type and names, whatever stands behind
the quote, if only a semicolon does or none. -/
theorem rel_matchAt {rest rest' : List Char} (same : ';' ∈ rest ↔ ';' ∈ rest')
    (before : Option Char) (word : List Char) (offset offset' : Nat) :
    Option.Rel (fun t t' => t.captures = t'.captures)
      (plainField.matchAt ⟨before, word ++ '"' :: rest, offset, []⟩)
      (plainField.matchAt ⟨before, word ++ '"' :: rest', offset', []⟩) := by
  let w : Wall := ⟨'"', rest, rest', offset + word.length, offset' + word.length⟩
  have closed : isFrontChar w.mark = false := by
    show isFrontChar '"' = false
    decide
  exact walled_front.same closed (tail_same rfl same) before word offset offset' [] rfl rfl

/-! ## Searching -/

/-- A declaration begins with the first letter of its modifier. -/
theorem rejects_plainField {text : List Char} (h : ∀ c ∈ text.head?, c ≠ 'p') :
    Rejects plainField text := by
  have word : Rejects (.word "private" : Pattern Part) text := rejects_word (c := 'p') rfl h
  intro before offset captures next
  rw [plainField_follow]
  exact (word.seq _).wordEdge_seq before offset captures next

/-- A declaration that is found is not empty. -/
theorem moves_of_matchAt (s t : Cursor Part) (start : s.captures = [])
    (h : plainField.matchAt s = some t) : s.offset < t.offset := by
  obtain ⟨front, word, passes, -⟩ := exists_front h start
  rw [passes.offset]
  simp

/-- A declaration ends at the first semicolon, and what it captures stands before the first quote. -/
theorem facts_of_matchAt {before : Option Char} {word rest : List Char} {offset : Nat}
    {t : Cursor Part}
    (h : plainField.matchAt ⟨before, word ++ ';' :: rest, offset, []⟩ = some t)
    (closed : ';' ∉ word) :
    t.offset = offset + (word.length + 1) ∧
      ∃ front, front <+: word ∧ '"' ∉ front ∧ ∀ e ∈ t.captures, e.2 <:+: front := by
  obtain ⟨front, word', passes, open', within, unquoted, captures⟩ := exists_front h rfl
  have same := passes.rest
  dsimp only at same
  rw [List.append_assoc, List.singleton_append] at same
  obtain ⟨rfl, -⟩ := eq_of_append_cons closed open' same
  exact ⟨by simpa using passes.offset, front, within, unquoted, captures⟩

/-- The search goes on behind the first semicolon. -/
theorem keptFrom_of_matchAt {before : Option Char} {word rest : List Char} {offset : Nat}
    {t : Cursor Part}
    (h : plainField.matchAt ⟨before, word ++ ';' :: rest, offset, []⟩ = some t)
    (closed : ';' ∉ word) :
    plainField.keptFrom before (word ++ ';' :: rest) offset =
      t.captures :: plainField.keptFrom (some ';') rest (offset + (word.length + 1)) := by
  obtain ⟨stop, -⟩ := facts_of_matchAt h closed
  have whole : word ++ ';' :: rest = (word ++ [';']) ++ rest := by simp
  rw [whole] at h ⊢
  rw [keptFrom_append (by simp) h (by simpa using stop)]
  simp

/-- The search goes over a text without the first letter of a declaration. -/
theorem keptFrom_of_notMem {word : List Char} (h : 'p' ∉ word) (rest : List Char)
    (before : Option Char) (offset : Nat) :
    plainField.keptFrom before (word ++ rest) offset =
      plainField.keptFrom (word.getLast?.or before) rest (offset + word.length) := by
  refine keptFrom_free (fun front back same nonempty offset => ?_) offset
  obtain ⟨c, back, rfl⟩ := List.exists_cons_of_ne_nil nonempty
  refine rejects_plainField (head?_ne ?_ _) _ _ _ _
  rintro rfl
  exact h (by simp [same])

/-- A text that does not hold the word that each naming annotation begins with has none. -/
theorem annotated_eq_nil {text : List Char} (h : occurs namingWord text = false) :
    FieldList.annotated text = [] := by
  have none : FieldList.annotatedField.keptFrom Option.none text 0 = [] := by
    have free := @keptFrom_free _ FieldList.annotatedField text [] Option.none
      (fun front back same _ offset => ?_) 0
    · rw [List.append_nil] at free
      exact free
    · refine rejects_annotatedField_of_not_begins (fun found => occurs_eq_false_iff.1 h ?_) _ _ _ _
      rw [List.append_nil] at found
      exact found.isInfix.trans ⟨front, [], by simp [same]⟩
  rw [← map_captures_occurrences, List.map_eq_nil_iff] at none
  rw [FieldList.annotated, none]
  rfl

namespace FieldList

/-- A field without a literal goes by its own name. -/
theorem externalName_of_field? {found : Found} {types : TypeSystem} {f : Field}
    (unnamed : found.literal = none) (h : found.field? types = some f) :
    f.externalName = f.sourceName := by
  rw [Found.field?] at h
  split at h
  · cases h
    dsimp only
    rw [unnamed]
    rfl
  · cases h

/-- The fields of what the second pass captures. -/
def fieldsOf (types : TypeSystem) (kept : List (List (Part × List Char))) : List Field :=
  (kept.flatMap FieldDeclaration.foundPlain).filterMap (·.field? types)

/-- Where no annotation names a field, the fields are those of the second pass, the first of each
name. -/
theorem ofText_unannotated {text : List Char} (types : TypeSystem)
    (h : occurs namingWord text = false) :
    ofText (String.ofList text) types =
      (fieldsOf types (plainField.keptFrom none text 0)).eraseDupsBy isSameName := by
  rw [ofText, String.toList_ofList, annotated_eq_nil h, List.nil_append, plain_eq]
  refine foldl_addDistinct_taken fun f hf => ?_
  obtain ⟨found, hfound, read⟩ := List.mem_filterMap.1 hf
  obtain ⟨kept, -, hfound⟩ := List.mem_flatMap.1 hfound
  obtain ⟨name, -, rfl⟩ := List.mem_map.1 hfound
  exact externalName_of_field? rfl read

end FieldList

end InterfaceGen.Source
