import InterfaceGen.Proofs.Source.LastHeader
import InterfaceGen.Proofs.Source.Reading
import InterfaceGen.Proofs.Text.Cutting
import InterfaceGen.Proofs.Text.Matches
import InterfaceGen.Proofs.Types.Characters

/-!
# Characters of what is read

Whatever the source is, the names in a signature are class names without a line feed, a declared
type has no blanks but spaces, and the name of a property is written in the source. Each follows from
the classes of characters that the patterns name.
-/

namespace InterfaceGen.Source
open InterfaceGen.Text InterfaceGen.Types

namespace Comment

theorem suffix_of_afterBlock? {text after : List Char} (h : afterBlock? text = some after) :
    after <:+ text := by
  fun_induction afterBlock? text with
  | case1 => cases h
  | case2 rest =>
    cases h
    exact (List.suffix_cons _ _).trans (List.suffix_cons _ _)
  | case3 c rest _ ih => exact (ih h).trans (List.suffix_cons _ _)

/-- What is left without comments has characters of the text, and spaces. -/
theorem mem_of_mem_stripChars {text : List Char} {c : Char} (h : c ∈ stripChars text) :
    c ∈ text ∨ c = ' ' := by
  fun_induction stripChars text with
  | case1 => cases h
  | case2 rest ih =>
    refine (ih h).imp_left fun hm => ?_
    exact List.mem_cons_of_mem _ (List.mem_cons_of_mem _ ((List.dropWhile_suffix _).subset hm))
  | case3 rest after found ih =>
    rcases List.mem_cons.1 h with rfl | h
    · exact .inr rfl
    · refine (ih h).imp_left fun hm => ?_
      exact List.mem_cons_of_mem _ (List.mem_cons_of_mem _
        ((suffix_of_afterBlock? found).subset hm))
  | case4 rest found ih =>
    rcases List.mem_cons.1 h with rfl | h
    · exact .inl (List.mem_cons_self ..)
    · exact (ih h).imp_left (List.mem_cons_of_mem _)
  | case5 c rest _ _ quote body after found ih =>
    rcases List.mem_cons.1 h with rfl | h
    · exact .inl (List.mem_cons_self ..)
    · have whole := Literal.append_of_scan found
      rcases List.mem_append.1 h with h | h
      · exact .inl (List.mem_cons_of_mem _ (whole ▸ List.mem_append_left _ h))
      · refine (ih h).imp_left fun hm => ?_
        exact List.mem_cons_of_mem _ (whole ▸ List.mem_append_right _ hm)
  | case6 c rest _ _ quote found ih =>
    rcases List.mem_cons.1 h with rfl | h
    · exact .inl (List.mem_cons_self ..)
    · exact (ih h).imp_left (List.mem_cons_of_mem _)
  | case7 c rest _ _ quote ih =>
    rcases List.mem_cons.1 h with rfl | h
    · exact .inl (List.mem_cons_self ..)
    · exact (ih h).imp_left (List.mem_cons_of_mem _)

end Comment

namespace Header

/-- The characters of what is kept of a header. -/
def classOf : Part → Char → Bool
  | .kind => fun _ => true
  | .name => isNameChar
  | .supertype => fun c => isNameChar c || c == '.'

/-- What the pattern of headers captures keeps to the class of its part. -/
theorem capturesWithin_pattern : pattern.CapturesWithin classOf := by
  have upper : ∀ c : Char, c.isUpper = true → isNameChar c = true := fun c h =>
    isNameChar_of_isNameStart (isNameStart_of_isUpper h)
  have start : ∀ c : Char, isNameStart c = true → isNameChar c = true ∨ c = '.' := fun c h =>
    .inl (isNameChar_of_isNameStart h)
  have words : Pattern.Within (fun _ => true)
      (.exactly ['c', 'l', 'a', 's', 's'] <|> .exactly ['e', 'n', 'u', 'm'] : Pattern Part) :=
    ⟨fun _ _ => rfl, fun _ _ => rfl⟩
  simpa [pattern, modifier, Pattern.CapturesWithin, Pattern.Within, Pattern.word, Pattern.spacing,
    Pattern.someRun, Pattern.blanks, classOf] using ⟨⟨words, upper⟩, start⟩

variable {text : String} {h : Header}

/-- Whatever is found as a name begins with a capital. -/
theorem capturesOnly_pattern : pattern.CapturesOnly
    fun part word => part = .name → isHeadedBy Char.isUpper isNameChar word = true := by
  simp only [pattern, modifier, Pattern.CapturesOnly, Pattern.word, Pattern.spacing, Pattern.someRun,
    Pattern.blanks, Pattern.capturesOnly_append, Pattern.capturesOnly_orElse, reduceCtorEq,
    false_implies, implies_true, true_implies, and_true, true_and]
  exact fun word kept matched => matched.isHeadedBy

/-- A header always has a name. -/
theorem alwaysCaptures_pattern : pattern.AlwaysCaptures .name := by
  simp [pattern, modifier, Pattern.AlwaysCaptures, Pattern.word, Pattern.spacing, Pattern.someRun,
    Pattern.blanks]

/-- The name in a header is a class name without a line feed. -/
theorem isHeadedBy_name (hm : h ∈ findAll text) :
    isHeadedBy Char.isUpper isNameChar h.name.toList = true := by
  obtain ⟨o, ho, rfl⟩ := List.mem_map.1 hm
  obtain ⟨name, kept⟩ := Pattern.exists_captured? alwaysCaptures_pattern ho
  rw [ofOccurrence, kept, Option.getD_some, String.toList_ofList]
  exact Pattern.kind_of_captured? capturesOnly_pattern ho kept rfl

/-- A supertype has only characters of names, dots and line feeds. -/
theorem char_of_mem_supertype (hm : h ∈ findAll text) :
    ∀ q ∈ h.supertype, ∀ c ∈ q.toList, isNameChar c = true ∨ c = '.' := by
  obtain ⟨o, ho, rfl⟩ := List.mem_map.1 hm
  intro q hq
  obtain ⟨chars, kept, rfl⟩ := Option.map_eq_some_iff.1 hq
  intro c hc
  rw [String.toList_ofList] at hc
  simpa [classOf] using Pattern.forall_of_captured? capturesWithin_pattern ho kept c hc

/-- The simple name of a class is one without a line feed. -/
theorem isHeadedBy_of_simpleName? {qualified name : String} (h : simpleName? qualified = some name)
    (plain : ∀ c ∈ qualified.toList, isNameChar c = true ∨ c = '.') :
    isHeadedBy Char.isUpper isNameChar name.toList = true := by
  rw [simpleName?] at h
  split at h
  · next chars last =>
    split at h
    · next className =>
      cases h
      have piece := List.mem_of_getLast? last
      have inside : ∀ c ∈ chars, isBlank c = false := fun c hc =>
        isBlank_of_isNameChar ((plain c (mem_of_mem_cutAt piece hc)).resolve_right fun dot =>
          notMem_of_mem_cutAt piece (dot ▸ hc))
      rwa [String.toList_ofList, ← isClassName_of_isTrimmed (isTrimmed_of_forall inside)]
    · cases h
  · cases h

end Header

/-- Names in a signature are class names. -/
theorem names_of_signature {text : String} {types : TypeSystem} {s : Signature}
    (h : Source.signature text types = .ok s) :
    isHeadedBy Char.isUpper isNameChar s.name.toList = true ∧
      ∀ parent ∈ s.supertype, isHeadedBy Char.isUpper isNameChar parent.toList = true := by
  obtain ⟨header, last, rfl⟩ := signature_eq_ok_iff.1 h
  refine ⟨Header.isHeadedBy_name last.found, fun parent hp => ?_⟩
  rw [Header.signature] at hp
  dsimp only at hp
  split at hp
  · obtain ⟨qualified, hq, simple⟩ := Option.bind_eq_some_iff.1 hp
    exact Header.isHeadedBy_of_simpleName? simple
      (Header.char_of_mem_supertype last.found qualified hq)
  · cases hp

namespace EnumBody

/-- Whatever is read as the name of a constant begins with a capital or an underscore. -/
theorem capturesOnly_entry : entry.CapturesOnly
    fun part word => part = .name → isHeadedBy (fun c => c.isUpper || c == '_')
      (fun c => c.isUpper || c.isDigit || c == '_') word = true := by
  simp only [entry, anyRun, Pattern.CapturesOnly, Pattern.word, Pattern.blanks,
    Pattern.capturesOnly_append, reduceCtorEq, false_implies, implies_true, true_implies, and_true]
  exact fun word kept matched => matched.isHeadedBy

theorem alwaysCaptures_entry : entry.AlwaysCaptures .name := by
  simp [entry, anyRun, Pattern.AlwaysCaptures, Pattern.word, Pattern.blanks]

/-- The name of a constant is an identifier. -/
theorem isHeadedBy_of_constant? {piece : List Char} {c : Constant} (h : constant? piece = some c) :
    isHeadedBy isNameStart isNameChar c.name.toList = true := by
  obtain ⟨s, found, rfl⟩ := Option.map_eq_some_iff.1 h
  obtain ⟨name, kept, headed⟩ := Pattern.exists_captured?_of_matchStart capturesOnly_entry
    alwaysCaptures_entry found
  rw [kept, Option.getD_some, String.toList_ofList]
  obtain ⟨first, rest, rfl, start, further⟩ := isHeadedBy_iff.1 (headed rfl)
  refine isHeadedBy_iff.2 ⟨first, rest, rfl, ?_, fun d hd => ?_⟩
  · simp only [Bool.or_eq_true] at start
    exact start.elim isNameStart_of_isUpper fun mark => by simp [isNameStart, mark]
  · have inside := further d hd
    simp only [Bool.or_eq_true] at inside
    rcases inside with (upper | digit) | mark
    · exact isNameChar_of_isNameStart (isNameStart_of_isUpper upper)
    · simp [isNameChar, Char.isAlphanum, digit]
    · simp [isNameChar, mark]

end EnumBody

/-- Constants that are read have names. -/
theorem names_of_enumConstants {text name : String} {constants : List Constant}
    (h : enumConstants text name = .ok constants) :
    ∀ c ∈ constants, isHeadedBy isNameStart isNameChar c.name.toList = true := by
  rw [enumConstants] at h
  split at h
  · cases h
  · split at h
    · cases h
    · cases h
      intro c hc
      obtain ⟨piece, -, read⟩ := List.mem_filterMap.1 hc
      exact EnumBody.isHeadedBy_of_constant? read

namespace FieldList

/-- The characters of what is kept of a field. -/
def classOf : Part → Char → Bool
  | .type => isTypeChar
  | .literal | .names => fun _ => true

theorem isTypeChar_of_isNameStart {c : Char} (h : isNameStart c = true) : isTypeChar c = true := by
  simp [isTypeChar, isNameChar_of_isNameStart h]

/-- What the pattern of annotated fields captures keeps to the class of its part. -/
theorem capturesWithin_annotatedField : annotatedField.CapturesWithin classOf := by
  have start : ∀ c : Char, isNameStart c = true → isTypeChar c = true := fun c h =>
    isTypeChar_of_isNameStart h
  have part : Pattern.Within (fun _ => true) ( Annotation.literalItem : Pattern Part) ∧
      Pattern.CapturesWithin classOf ( Annotation.literalItem : Pattern Part) :=
    ⟨⟨⟨fun _ _ => rfl, fun _ _ => rfl⟩, fun _ _ => rfl⟩, ⟨trivial, trivial⟩, trivial⟩
  simpa [annotatedField, naming, Annotation.literal, Annotation.annotation,
    Annotation.argumentsEnd, modifiers, declaredType, ending, Pattern.CapturesWithin,
    Pattern.Within, Pattern.word, Pattern.spacing, Pattern.someRun, Pattern.blanks, Pattern.name,
    classOf] using ⟨part, start⟩

/-- So does what the pattern of plain fields captures. -/
theorem capturesWithin_plainField : plainField.CapturesWithin classOf := by
  have start : ∀ c : Char, isNameStart c = true → isTypeChar c = true := fun c h =>
    isTypeChar_of_isNameStart h
  simpa [plainField, comma, modifiers, declaredType, ending, Pattern.CapturesWithin,
    Pattern.Within, Pattern.word, Pattern.spacing, Pattern.someRun, Pattern.blanks, Pattern.name,
    classOf] using start

variable {text : List Char} {found : Found}

/-- The literal of an annotated field is part of the text, and its type has only characters of
types. -/
theorem facts_of_mem_annotated (h : found ∈ annotated text) :
    (∀ l ∈ found.literal, l <:+: text) ∧ ∀ c ∈ found.type, isTypeChar c = true := by
  obtain ⟨o, ho, rfl⟩ := List.mem_map.1 h
  refine ⟨fun l hl => Pattern.isInfix_of_captured? ho hl, ?_⟩
  cases kept : o.captured? .type with
  | none => exact List.forall_mem_nil _
  | some type => exact Pattern.forall_of_captured? capturesWithin_annotatedField ho kept

/-- A plain field has no literal. -/
theorem facts_of_mem_plain (h : found ∈ plain text) :
    found.literal = none ∧ ∀ c ∈ found.type, isTypeChar c = true := by
  obtain ⟨o, ho, hf⟩ := List.mem_flatMap.1 h
  obtain ⟨name, -, rfl⟩ := List.mem_map.1 hf
  refine ⟨rfl, ?_⟩
  cases kept : o.captured? .type with
  | none => exact List.forall_mem_nil _
  | some type => exact Pattern.forall_of_captured? capturesWithin_plainField ho kept

theorem isTypeChar_of_mem_found {text : List Char} {found : Found}
    (h : found ∈ annotated text ++ plain text) : ∀ c ∈ found.type, isTypeChar c = true :=
  (List.mem_append.1 h).elim (fun h => (facts_of_mem_annotated h).2) fun h => (facts_of_mem_plain h).2

/-- An external name has characters of the literal, and quotes. -/
theorem mem_of_mem_externalName {literal : String} {c : Char}
    (h : c ∈ (externalName literal).toList) : c ∈ literal.toList ∨ c = '"' := by
  rw [externalName] at h
  split at h
  · exact .inl h
  · simp only [String.toList_append, List.mem_append] at h
    rcases h with (h | h) | h
    · exact .inr (List.mem_singleton.1 h)
    · exact .inl h
    · exact .inr (List.mem_singleton.1 h)

variable {text : String} {types : TypeSystem} {f : Field}

/-- A declared type has no blanks but spaces, and else what a type can be made of. -/
theorem char_of_mem_declaredType (h : f ∈ ofText text types) {c : Char}
    (hc : c ∈ f.declaredType.toList) : c = ' ' ∨ isTypeChar c = true ∧ isBlank c = false := by
  obtain ⟨found, hf, read⟩ := exists_found h
  rw [Found.field?] at read
  split at read
  · cases read
    rw [FieldType.clean, String.toList_ofList, String.toList_ofList] at hc
    rcases FieldType.mem_of_mem_cleanChars hc with space | object | ⟨hm, solid⟩
    · exact .inl space
    · have inside : ∀ c ∈ "Object".toList, isTypeChar c = true ∧ isBlank c = false := by decide
      exact .inr (inside c object)
    · exact .inr ⟨isTypeChar_of_mem_found hf c hm, solid⟩
  · cases read

/-- The name of a property is written in the source, perhaps but for quotes around it. -/
theorem char_of_mem_externalName (h : f ∈ ofText text types) {c : Char}
    (hc : c ∈ f.externalName.toList) : c ∈ text.toList ∨ c = '"' ∨ isNameChar c = true := by
  obtain ⟨found, hf, read⟩ := exists_found h
  rw [Found.field?] at read
  split at read
  · next valid =>
    have own : ∀ c ∈ found.name, isNameChar c = true :=
      forall_of_isHeadedBy valid.2.1 fun c lower =>
        isNameChar_of_isNameStart (isNameStart_of_isLower lower)
    cases read
    dsimp only at hc
    cases literal : found.literal with
    | none =>
      rw [literal] at hc
      exact .inr (.inr (own c (by simpa using hc)))
    | some l =>
      rw [literal] at hc
      rcases mem_of_mem_externalName hc with inside | quote
      · rw [String.toList_ofList] at inside
        refine .inl ?_
        rcases List.mem_append.1 hf with hf | hf
        · exact ((facts_of_mem_annotated hf).1 l literal).subset inside
        · rw [(facts_of_mem_plain hf).1] at literal
          cases literal
      · exact .inr (.inl quote)
  · cases read

end FieldList

end InterfaceGen.Source
