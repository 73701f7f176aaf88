import InterfaceGen.Proofs.Source.AnnotationReading
import InterfaceGen.Proofs.Source.Brackets
import InterfaceGen.Proofs.Source.FieldNames
import InterfaceGen.Proofs.Types.Plausible

/-!
# What every list of fields satisfies

Whatever the text is, each field has a name of its own and a type that is one name with type
arguments, and is called by its own name or by the literal of an annotation; the fields with
annotations come first: `FieldList.laws_ofText`. Nothing is asked of the text, so all of this
follows from what the patterns can match, from the cleaning of types, and from the two steps that
leave fields out.
-/

namespace InterfaceGen.Source

open InterfaceGen.Text InterfaceGen.Text.Pattern InterfaceGen.Types InterfaceGen.Source.Annotation

/-! ## Declared types -/

/-- The second text is the first one without the angle brackets and what is between them. -/
inductive Bare : List Char → List Char → Prop where
  | nil : Bare [] []
  | outer {c : Char} {rest outer : List Char} (mark : c ≠ '<' ∧ c ≠ '>') (more : Bare rest outer) :
    Bare (c :: rest) (c :: outer)
  | arguments {inner rest outer : List Char} (h : Closes '<' '>' inner) (more : Bare rest outer) :
    Bare ('<' :: (inner ++ '>' :: rest)) outer

/-- Nothing is added to a text when its arguments are taken away. -/
theorem Bare.subset {text outer : List Char} (h : Bare text outer) : outer ⊆ text := by
  induction h with
  | nil => exact List.Subset.refl _
  | outer _ _ ih => exact List.cons_subset_cons _ ih
  | arguments _ _ ih =>
    intro c hc
    exact List.mem_cons_of_mem _ (List.mem_append_right _ (List.mem_cons_of_mem _ (ih hc)))

/-- A type as it is declared: one name, perhaps with type arguments and of an array. It is on one
line, and has no wildcards. -/
structure IsDeclaredType (text : List Char) : Prop where
  oneLine : ∀ c ∈ text, isBlank c = true → c = ' '
  noWildcard : '?' ∉ text
  noSemicolon : ';' ∉ text
  closes : Closes '<' '>' text
  named : ∃ name count, isHeadedBy isNameStart isNameChar name = true ∧
    Bare text (name ++ (List.replicate count ['[', ']']).flatten)

namespace FieldType

variable {depth : Nat} {text outer : List Char}

theorem outside?_other {c : Char} (h : c ≠ '<' ∧ c ≠ '>') (rest : List Char) :
    outside? 0 (c :: rest) = (outside? 0 rest).map (c :: ·) ∧
      ∀ depth, outside? (depth + 1) (c :: rest) = outside? (depth + 1) rest := by
  simp [outside?, h]

/-- Behind open brackets, the text goes on behind the bracket that closes the first of them. -/
theorem exists_closing (h : outside? (depth + 1) text = some outer) :
    ∃ inner rest, text = inner ++ '>' :: rest ∧ openBehind '<' '>' depth inner = some 0 ∧
      outside? 0 rest = some outer := by
  induction text generalizing depth with
  | nil => cases h
  | cons c text ih =>
    have step : ∀ {depth'}, outside? (depth' + 1) text = some outer →
        (∀ inner, openBehind '<' '>' depth (c :: inner) = openBehind '<' '>' depth' inner) →
        ∃ inner rest, c :: text = inner ++ '>' :: rest ∧
          openBehind '<' '>' depth inner = some 0 ∧ outside? 0 rest = some outer := by
      intro depth' later same
      obtain ⟨inner, rest, rfl, balanced, behind⟩ := ih later
      exact ⟨c :: inner, rest, rfl, (same inner).trans balanced, behind⟩
    by_cases opens : c = '<'
    · subst opens
      exact step h fun _ => openBehind_opening
    by_cases closing : c = '>'
    · subst closing
      cases depth with
      | zero => exact ⟨[], text, rfl, rfl, h⟩
      | succ less => exact step h fun _ => rfl
    · rw [(outside?_other ⟨opens, closing⟩ text).2] at h
      exact step h fun _ => openBehind_other ⟨opens, closing⟩

/-- What is left outside the brackets is the text without them. -/
theorem bare_of_outside? : ∀ {text outer : List Char},
    outside? 0 text = some outer → Bare text outer
  | [], outer, h => by
    cases h
    exact .nil
  | c :: text, outer, h => by
    by_cases opens : c = '<'
    · subst opens
      obtain ⟨inner, rest, same, balanced, behind⟩ := exists_closing h
      have shorter : rest.length < text.length + 1 := by
        rw [same, List.length_append, List.length_cons]
        omega
      rw [same]
      exact .arguments ((closes_iff (by decide)).2 balanced) (bare_of_outside? behind)
    by_cases closing : c = '>'
    · subst closing
      cases h
    · rw [(outside?_other ⟨opens, closing⟩ text).1] at h
      obtain ⟨outer, behind, rfl⟩ := Option.map_eq_some_iff.1 h
      exact .outer ⟨opens, closing⟩ (bare_of_outside? behind)
termination_by text => text.length
decreasing_by
  · exact shorter
  · exact Nat.lt_succ_self _

/-- Where something is outside of the brackets, they close. -/
theorem openBehind_of_outside? (h : outside? depth text = some outer) :
    openBehind '<' '>' depth text = some 0 := by
  induction text generalizing depth outer with
  | nil =>
    cases depth with
    | zero => rfl
    | succ => cases h
  | cons c text ih =>
    by_cases opens : c = '<'
    · subst opens
      rw [openBehind_opening]
      cases depth <;> exact ih h
    by_cases closing : c = '>'
    · subst closing
      cases depth with
      | zero => cases h
      | succ less => exact ih h
    · rw [openBehind_other ⟨opens, closing⟩]
      cases depth with
      | zero =>
        rw [(outside?_other ⟨opens, closing⟩ text).1] at h
        obtain ⟨outer, behind, -⟩ := Option.map_eq_some_iff.1 h
        exact ih behind
      | succ less =>
        rw [(outside?_other ⟨opens, closing⟩ text).2] at h
        exact ih h

/-- On one line a plain text is a name and bracket pairs. -/
theorem exists_name_of_isPlain (h : isPlain text = true) (line : '\n' ∉ text) :
    ∃ name count, isHeadedBy isNameStart isNameChar name = true ∧
      text = name ++ (List.replicate count ['[', ']']).flatten := by
  have whole : withoutFinalBreak text = text :=
    if_neg fun last => line (List.mem_of_getLast? last)
  simp only [isPlain, whole, Bool.and_eq_true] at h
  obtain ⟨count, suffix⟩ := exists_replicate_of_isArraySuffix h.2
  refine ⟨text.takeWhile isNameChar, count, ?_, ?_⟩
  · cases text with
    | nil => cases h.1
    | cons c rest =>
      have start : isNameStart c = true := h.1
      rw [List.takeWhile_cons_of_pos (isNameChar_of_isNameStart start)]
      exact isHeadedBy_iff.2 ⟨c, _, rfl, start, List.all_eq_true.1 List.all_takeWhile⟩
  · rw [← suffix, List.takeWhile_append_dropWhile]

end FieldType

/-! ## Names of properties -/

section Literal

variable {ι : Type} {p : Pattern ι} {word : List Char} {kept : List (ι × List Char)}

/-- An item of a literal is read in one way only. -/
theorem reads_of_item (h : (literalItem : Pattern ι).Matches word kept) (rest : List Char) :
    word ≠ [] ∧ Reads (literalItem : Pattern ι) word rest [] := by
  cases h with
  | left h =>
    cases h with
    | seq first second =>
      cases first
      cases second with
      | @one _ c line =>
        have item : Reads (.one (· != '\n') : Pattern ι) [c] rest [] := .one line
        exact ⟨List.cons_ne_nil _ _, .either_left (.seq (.exactly _) item)⟩
  | right h =>
    cases h with
    | @one _ c other =>
      have apart := other
      rw [Bool.and_eq_true, bne_iff_ne, bne_iff_ne] at apart
      have off : Rejects (.word "\\" : Pattern ι) ([c] ++ rest) :=
        rejects_word (c := '\\') rfl (head?_ne apart.2 _)
      exact ⟨List.cons_ne_nil _ _, .either_right (off.seq _) (.one other)⟩

theorem repeats_of_many (h : p.Matches word kept) (items : p = .many literalItem)
    (rest : List Char) : Repeats (literalItem : Pattern ι) ('"' :: rest) word := by
  induction h with
  | done => exact .nil (rejects_literalItem rest)
  | again first _ _ ih =>
    cases items
    obtain ⟨nonempty, reads⟩ := reads_of_item first _
    exact .cons nonempty reads (ih rfl)
  | _ => cases items

/-- The contents of a literal that were matched are matched again behind any quote. -/
theorem repeats_of_matches (h : (literalItem ++ .many literalItem : Pattern ι).Matches word kept)
    (rest : List Char) : word ≠ [] ∧ Repeats (literalItem : Pattern ι) ('"' :: rest) word := by
  cases h with
  | seq first more =>
    obtain ⟨nonempty, reads⟩ := reads_of_item first _
    exact ⟨List.append_ne_nil_of_left_ne_nil nonempty _,
      .cons nonempty reads (repeats_of_many more rfl rest)⟩

end Literal

namespace FieldList

/-- Whatever follows, a literal is read that ends with the last character of the text. -/
def IsOneLiteral (text : List Char) : Prop :=
  ∀ rest, ∃ s, ( Annotation.literal Part.literal).matchStart (text ++ rest) = some s ∧
    s.offset = text.length ∧ s.rest = rest

/-- The name that the literal of an annotation gives a field: itself if it is an identifier, perhaps
with a line feed behind it, and else itself between quotes. -/
inductive GivesName : List Char → List Char → Prop where
  | bare {name : List Char} (h : isHeadedBy isNameStart isNameChar name = true) :
    GivesName name name
  | bareLine {name : List Char} (h : isHeadedBy isNameStart isNameChar name = true) :
    GivesName (name ++ ['\n']) (name ++ ['\n'])
  | quoted {literal : List Char} (unlike : isIdentifier literal = false)
    (whole : IsOneLiteral ('"' :: (literal ++ ['"']))) :
    GivesName literal ('"' :: (literal ++ ['"']))

/-- They make one literal between quotes. -/
theorem isOneLiteral_of_matches {literal : List Char} {kept : List (Part × List Char)}
    (h : (literalItem ++ .many literalItem : Pattern Part).Matches literal kept) :
    IsOneLiteral ('"' :: (literal ++ ['"'])) := by
  intro rest
  obtain ⟨nonempty, repeats⟩ := repeats_of_matches h rest
  have inside : Reads (.capture Part.literal (literalItem ++ .many literalItem)) literal
      (['"'] ++ rest) [(Part.literal, literal)] :=
    .capture Part.literal (repeats.reads_some nonempty)
  have quoted : Reads ( Annotation.literal Part.literal) (['"'] ++ (literal ++ ['"'])) rest
      [(Part.literal, literal)] := .assoc (.bare_seq (.exactly _) (.seq_bare inside (.exactly _)))
  have found := quoted none 0 [] some _ rfl
  exact ⟨_, found, Nat.zero_add _, rfl⟩

/-- The external name is the one that the literal gives. -/
theorem givesName_externalName {literal : List Char} {kept : List (Part × List Char)}
    (h : (literalItem ++ .many literalItem : Pattern Part).Matches literal kept) :
    GivesName literal (externalName (String.ofList literal)).toList := by
  rcases externalName_cases literal with ⟨identifier, same⟩ | ⟨other, same⟩
  · rw [same]
    rw [isIdentifier, withoutFinalBreak] at identifier
    split at identifier
    · next last =>
      have whole : literal = literal.dropLast ++ ['\n'] :=
        (List.dropLast_append_getLast? _ last).symm
      rw [whole]
      exact .bareLine identifier
    · exact .bare identifier
  · rw [same]
    exact .quoted other (isOneLiteral_of_matches h)

theorem alwaysCaptures_annotatedField : annotatedField.AlwaysCaptures .literal := by
  simp [annotatedField, naming, Annotation.literal, Pattern.AlwaysCaptures]

/-- An annotated field has a literal. -/
theorem exists_literal {text : List Char} {found : Found} (h : found ∈ annotated text) :
    ∃ literal, found.literal = some literal := by
  obtain ⟨o, ho, rfl⟩ := List.mem_map.1 h
  exact exists_captured? alwaysCaptures_annotatedField ho

/-! ## The list -/

variable {text : String} {types : TypeSystem} {f : Field}

/-- A field that is taken has a name, a plausible type and the external name of its literal, or else
its own. -/
theorem facts_of_field? {found : Found} (h : found.field? types = some f) :
    f.sourceName ≠ versionMarker ∧ isFieldName f.sourceName.toList = true ∧
      FieldType.isPlausible f.declaredType = true ∧
      f.externalName =
        (found.literal.map fun l => externalName (String.ofList l)).getD f.sourceName := by
  rw [Found.field?] at h
  split at h
  · next valid =>
    cases h
    rw [String.toList_ofList]
    exact ⟨valid.1, valid.2.1, valid.2.2, rfl⟩
  · cases h

/-- The declared type of a field is one that can be declared. -/
theorem isDeclaredType_of_mem (h : f ∈ ofText text types) :
    IsDeclaredType f.declaredType.toList := by
  obtain ⟨found, -, read⟩ := exists_found h
  have characters : ∀ c ∈ f.declaredType.toList,
      c = ' ' ∨ isTypeChar c = true ∧ isBlank c = false := fun c hc => char_of_mem_declaredType h hc
  have oneLine : ∀ c ∈ f.declaredType.toList, isBlank c = true → c = ' ' := by
    intro c hc blank
    rcases characters c hc with space | ⟨-, solid⟩
    · exact space
    · rw [blank] at solid
      cases solid
  have noWildcard : '?' ∉ f.declaredType.toList := by
    rw [Found.field?] at read
    split at read
    · cases read
      rw [FieldType.clean, String.toList_ofList]
      exact Wildcard.not_mem_stripChars _
    · cases read
  have noSemicolon : ';' ∉ f.declaredType.toList := fun hm =>
    absurd (characters _ hm) (by decide)
  obtain ⟨-, -, accepted, -⟩ := facts_of_field? read
  obtain ⟨outer, outside, plain⟩ := (Option.any_eq_true _ _).1 accepted
  have bare := FieldType.bare_of_outside? outside
  have line : '\n' ∉ outer := fun hm => absurd (oneLine _ (bare.subset hm) rfl) (by decide)
  obtain ⟨name, count, headed, rfl⟩ := FieldType.exists_name_of_isPlain plain line
  have closes := FieldType.openBehind_of_outside? outside
  exact ⟨oneLine, noWildcard, noSemicolon, (closes_iff (by decide)).2 closes, name, count, headed,
    bare⟩

/-- The fields that are kept stand in the order in which they are found. -/
theorem sublist_found : (ofText text types).Sublist
    ((annotated text.toList ++ plain text.toList).filterMap (·.field? types)) := by
  obtain ⟨kept, inside, whole⟩ := exists_sublist_foldl
    (fun fields field => (add_cases fields field).imp_right And.left)
    ((annotated text.toList ++ plain text.toList).filterMap (·.field? types)) []
  have taken : taken text types = kept := whole
  exact (taken ▸ sublist_taken).trans inside

/-- The external name of an annotated field is given by its literal. -/
theorem exists_givesName (h : f ∈ (annotated text.toList).filterMap (·.field? types)) :
    ∃ found ∈ annotated text.toList, found.field? types = some f ∧
      ∃ literal, found.literal = some literal ∧ GivesName literal f.externalName.toList := by
  obtain ⟨found, hf, read⟩ := List.mem_filterMap.1 h
  obtain ⟨literal, there⟩ := exists_literal hf
  obtain ⟨kept, matched⟩ := matches_of_mem_annotated hf literal there
  obtain ⟨-, -, -, external⟩ := facts_of_field? read
  rw [there, Option.map_some, Option.getD_some] at external
  rw [external]
  exact ⟨found, hf, read, literal, there, givesName_externalName matched⟩

/-- A plain field goes by its own name. -/
theorem externalName_of_plain (h : f ∈ (plain text.toList).filterMap (·.field? types)) :
    f.externalName = f.sourceName := by
  obtain ⟨found, hf, read⟩ := List.mem_filterMap.1 h
  obtain ⟨-, -, -, external⟩ := facts_of_field? read
  rwa [(facts_of_mem_plain hf).1] at external

/-- What holds of the fields of a text, of which the annotated pass finds the first and the other
pass the second ones. -/
structure Laws (text : String) (types : TypeSystem) (first second : List Field) : Prop where
  annotated : first.Sublist ((annotated text.toList).filterMap (·.field? types))
  plain : second.Sublist ((plain text.toList).filterMap (·.field? types))
  sourceNames : ((first ++ second).map (·.sourceName)).Nodup
  named : ∀ f ∈ first ++ second,
    isFieldName f.sourceName.toList = true ∧ f.sourceName ≠ versionMarker
  declared : ((first ++ second).map fun f => (f.externalName, f.mappedType)).Nodup
  declaredType : ∀ f ∈ first ++ second, IsDeclaredType f.declaredType.toList
  mappedType : ∀ f ∈ first ++ second, f.mappedType = types.mapType f.declaredType
  /-- A field of the annotated pass is called by the literal of its annotation. -/
  renamed : ∀ f ∈ first, ∃ found ∈ FieldList.annotated text.toList, found.field? types = some f ∧
    ∃ literal, found.literal = some literal ∧ GivesName literal f.externalName.toList
  own : ∀ f ∈ second, f.externalName = f.sourceName

/-- The fields of any text are those of the annotated pass and then those of the other one. -/
theorem laws_ofText (text : String) (types : TypeSystem) :
    ∃ first second, ofText text types = first ++ second ∧ Laws text types first second := by
  have found := @sublist_found text types
  rw [List.filterMap_append] at found
  obtain ⟨first, second, whole, inFirst, inSecond⟩ := List.sublist_append_iff.1 found
  have mem : ∀ {f}, f ∈ first ++ second → f ∈ ofText text types := fun hf => whole ▸ hf
  refine ⟨first, second, whole, ?_⟩
  constructor
  case annotated => exact inFirst
  case plain => exact inSecond
  case sourceNames => exact whole ▸ nodup_sourceName
  case named =>
    intro f hf
    obtain ⟨found, -, read⟩ := exists_found (mem hf)
    obtain ⟨marker, regular, -⟩ := facts_of_field? read
    exact ⟨regular, marker⟩
  case declared => exact whole ▸ nodup_declared
  case declaredType => exact fun f hf => isDeclaredType_of_mem (mem hf)
  case mappedType => exact fun f hf => mappedType_of_mem (mem hf)
  case renamed => exact fun f hf => exists_givesName (inFirst.subset hf)
  case own => exact fun f hf => externalName_of_plain (inSecond.subset hf)

/-- A class in which a plain field stands before two with annotations. -/
def orderSource : String :=
  "class Order \x7b private Map<String, ? extends Item>[] lines; " ++
    "@JsonProperty(\"order-id\") private java.util.UUID id; " ++
    "@JsonProperty(\"total\") private Long sum; \x7d"

example : (ofText orderSource .standard).map (fun f => (f.externalName, f.declaredType)) =
    [("\"order-id\"", "UUID"), ("total", "Long"), ("lines", "Map<String, Item>[]")] := by
  decide +kernel

end FieldList

end InterfaceGen.Source
