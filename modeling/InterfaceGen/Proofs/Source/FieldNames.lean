import InterfaceGen.Proofs.Declaration.Lines
import InterfaceGen.Proofs.Source.Characters
import InterfaceGen.Proofs.Source.Reading
import Mathlib.Data.List.Nodup

/-!
# Names of properties

Every field is taken up once, and so is every pair of an external name and a mapped type. That is
all: a name is declared twice where a field is renamed to the name of another one of a different type.
No line of an interface is written twice, because the end of the name can be
told in every line: `eq_of_line_eq`.
-/

namespace InterfaceGen.Source

open InterfaceGen.Text InterfaceGen.Text.Pattern InterfaceGen.Source.Annotation

/-! ## Lists without repetitions -/

section Distinct

variable {α : Type} {step : List α → α → List α} {apart : α → α → Prop}

/-- A list to which elements are added only if they are apart from all that it holds. -/
theorem pairwise_foldl
    (adds : ∀ xs x, step xs x = xs ∨ step xs x = xs ++ [x] ∧ ∀ y ∈ xs, apart y x)
    {known : List α} (h : known.Pairwise apart) (xs : List α) :
    (xs.foldl step known).Pairwise apart := by
  induction xs generalizing known with
  | nil => exact h
  | cons x xs ih =>
    apply ih
    rcases adds known x with same | ⟨more, new⟩
    · rwa [same]
    · rw [more, List.pairwise_append]
      refine ⟨h, List.pairwise_singleton .., fun y hy z hz => ?_⟩
      rw [List.mem_singleton.1 hz]
      exact new y hy

/-- What is added comes in the order of the list. -/
theorem exists_sublist_foldl (adds : ∀ xs x, step xs x = xs ∨ step xs x = xs ++ [x])
    (xs known : List α) : ∃ kept, kept.Sublist xs ∧ xs.foldl step known = known ++ kept := by
  induction xs generalizing known with
  | nil => exact ⟨[], List.Sublist.refl _, (List.append_nil known).symm⟩
  | cons x xs ih =>
    rw [List.foldl_cons]
    rcases adds known x with same | more
    · obtain ⟨kept, inside, whole⟩ := ih known
      exact ⟨kept, inside.cons x, by rw [same, whole]⟩
    · obtain ⟨kept, inside, whole⟩ := ih (known ++ [x])
      exact ⟨x :: kept, inside.cons_cons x, by rw [more, whole, List.append_assoc]; rfl⟩

end Distinct

namespace FieldList

/-- Two fields with different names in the source. -/
def OfOtherName (f g : Field) : Prop :=
  f.sourceName ≠ g.sourceName

/-- Two fields that are not declared in the same way. -/
def Apart (f g : Field) : Prop :=
  ¬(f.externalName = g.externalName ∧ f.mappedType = g.mappedType)

/-- A field is added behind the others, or left out because its name is there. -/
theorem add_cases (fields : List Field) (field : Field) :
    add fields field = fields ∨
      add fields field = fields ++ [field] ∧ ∀ f ∈ fields, OfOtherName f field := by
  rw [add]
  split
  · exact .inl rfl
  · next new =>
    refine .inr ⟨rfl, fun f hf same => new (List.any_eq_true.2 ⟨f, hf, ?_⟩)⟩
    exact beq_iff_eq.2 same

/-- A field is added behind the others, or left out because it is declared as one of them. -/
theorem addDistinct_cases (fields : List Field) (field : Field) :
    addDistinct fields field = fields ∨
      addDistinct fields field = fields ++ [field] ∧ ∀ f ∈ fields, Apart f field := by
  rw [addDistinct]
  split
  · exact .inl rfl
  · next new =>
    refine .inr ⟨rfl, fun f hf same => new (List.any_eq_true.2 ⟨f, hf, ?_⟩)⟩
    rw [Bool.and_eq_true, beq_iff_eq, beq_iff_eq]
    exact same

/-- The fields that the passes find, the first of each name in the source. -/
def taken (text : String) (types : TypeSystem) : List Field :=
  ((annotated text.toList ++ plain text.toList).filterMap fun f => f.field? types).foldl add []

/-- The fields of a text are those that are taken, each declaration once. -/
theorem ofText_eq (text : String) (types : TypeSystem) :
    ofText text types = (taken text types).foldl addDistinct [] :=
  rfl

variable {text : String} {types : TypeSystem}

theorem nodup_taken : ((taken text types).map (·.sourceName)).Nodup :=
  List.pairwise_map.2 (pairwise_foldl add_cases .nil _)

/-- The fields of a text are among those that are taken, in their order. -/
theorem sublist_taken : (ofText text types).Sublist (taken text types) := by
  obtain ⟨kept, inside, whole⟩ := exists_sublist_foldl
    (fun fields field => (addDistinct_cases fields field).imp_right And.left) (taken text types) []
  rw [ofText_eq, whole]
  exact inside

theorem nodup_sourceName : ((ofText text types).map (·.sourceName)).Nodup :=
  nodup_taken.sublist (sublist_taken.map _)

/-- No two fields are declared in the same way. -/
theorem nodup_declared :
    ((ofText text types).map fun f => (f.externalName, f.mappedType)).Nodup := by
  refine List.pairwise_map.2 ((pairwise_foldl addDistinct_cases .nil (taken text types)).imp ?_)
  exact fun differ same => differ (Prod.mk.inj same)

/-- A field that is left out repeats one that is kept. -/
theorem exists_repeated {fields : List Field} {f : Field} (h : f ∈ fields) (known : List Field) :
    ∃ g ∈ fields.foldl addDistinct known, ¬Apart g f := by
  induction fields generalizing known with
  | nil => cases h
  | cons x fields ih =>
    rcases List.mem_cons.1 h with rfl | h
    · obtain ⟨g, hg, same⟩ : ∃ g ∈ addDistinct known f, ¬Apart g f := by
        rw [addDistinct]
        split
        · next there =>
          obtain ⟨g, hg, same⟩ := List.any_eq_true.1 there
          rw [Bool.and_eq_true, beq_iff_eq, beq_iff_eq] at same
          exact ⟨g, hg, not_not_intro same⟩
        · exact ⟨f, List.mem_append_right _ (List.mem_singleton.2 rfl), not_not_intro ⟨rfl, rfl⟩⟩
      obtain ⟨kept, -, whole⟩ := exists_sublist_foldl
        (fun fields field => (addDistinct_cases fields field).imp_right And.left) fields
        (addDistinct known f)
      refine ⟨g, ?_, same⟩
      rw [List.foldl_cons, whole]
      exact List.mem_append_left _ hg
    · exact ih h _

/-- Two fields of one name in the source. -/
def isSameName (field earlier : Field) : Bool :=
  earlier.sourceName == field.sourceName

/-- Fields that go by their own names are repeated only where their names are. -/
theorem foldl_addDistinct_taken {fields : List Field}
    (own : ∀ f ∈ fields, f.externalName = f.sourceName) :
    (fields.foldl add []).foldl addDistinct [] = fields.eraseDupsBy isSameName := by
  have taken : fields.foldl add [] = fields.eraseDupsBy isSameName :=
    foldl_firsts_nil (fun f g => isSameName g f) add (fun _ _ => rfl) fields
  have own' : ∀ f ∈ fields.foldl add [], f.externalName = f.sourceName := fun f hf =>
    own f ((mem_of_mem_foldl (fun _ _ _ => mem_of_mem_add) hf).resolve_left List.not_mem_nil)
  rw [foldl_addDistinct, eraseDupsBy_eq_self, taken]
  refine (pairwise_foldl add_cases .nil fields).imp_of_mem fun hf hg differ => ?_
  rw [isRepeat, own' _ hf, own' _ hg, beq_false_of_ne differ, Bool.false_and]

end FieldList

/-! ## Where a name ends -/

/-- No quote in the text closes a literal. -/
inductive StaysOpen : List Char → Prop where
  | nil : StaysOpen []
  | plain {c : Char} {rest : List Char} (h : c ≠ '"' ∧ c ≠ '\\') (more : StaysOpen rest) :
    StaysOpen (c :: rest)
  | escaped (c : Char) {rest : List Char} (more : StaysOpen rest) : StaysOpen ('\\' :: c :: rest)

namespace StaysOpen

variable {text other rest rest' : List Char}

/-- Two texts that close nothing close nothing together. -/
theorem append (h : StaysOpen text) (more : StaysOpen rest) : StaysOpen (text ++ rest) := by
  induction h with
  | nil => exact more
  | plain h _ ih => exact .plain h ih
  | escaped c _ ih => exact .escaped c ih

/-- The first quote that closes the literal is the one behind the text. -/
theorem eq_of_append (h : StaysOpen text) (h' : StaysOpen other)
    (same : text ++ '"' :: rest = other ++ '"' :: rest') : text = other ∧ rest = rest' := by
  induction h generalizing other with
  | nil =>
    cases h' with
    | nil => exact ⟨rfl, List.tail_eq_of_cons_eq same⟩
    | plain h _ => exact absurd (List.head_eq_of_cons_eq same).symm h.1
    | escaped c _ => cases same
  | plain h more ih =>
    cases h' with
    | nil => exact absurd (List.head_eq_of_cons_eq same) h.1
    | plain h' more' =>
      obtain ⟨rfl, later⟩ := List.cons.inj same
      obtain ⟨rfl, behind⟩ := ih more' later
      exact ⟨rfl, behind⟩
    | escaped c _ => exact absurd (List.head_eq_of_cons_eq same) h.2
  | escaped c more ih =>
    cases h' with
    | nil => cases same
    | plain h' _ => exact absurd (List.head_eq_of_cons_eq same).symm h'.2
    | escaped d more' =>
      obtain ⟨rfl, later⟩ := List.cons.inj (List.tail_eq_of_cons_eq same)
      obtain ⟨rfl, behind⟩ := ih more' later
      exact ⟨rfl, behind⟩

end StaysOpen

section Literal

variable {ι : Type} {p : Pattern ι} {word : List Char} {kept : List (ι × List Char)}

/-- An item of a literal does not close it. -/
theorem staysOpen_of_item (h : (literalItem : Pattern ι).Matches word kept) : StaysOpen word := by
  cases h with
  | left h =>
    cases h with
    | seq first second =>
      cases first with
      | exactly =>
        cases second with
        | one _ => exact .escaped _ .nil
  | right h =>
    cases h with
    | one other =>
      rw [Bool.and_eq_true, bne_iff_ne, bne_iff_ne] at other
      exact .plain other .nil

theorem staysOpen_of_many (h : p.Matches word kept) (items : p = .many literalItem) :
    StaysOpen word := by
  induction h with
  | done => exact .nil
  | again first _ _ ih =>
    cases items
    exact (staysOpen_of_item first).append (ih rfl)
  | _ => cases items

/-- A row of items stays open. -/
theorem staysOpen_of_matches
    (h : (literalItem ++ .many literalItem : Pattern ι).Matches word kept) : StaysOpen word := by
  cases h with
  | seq first more => exact (staysOpen_of_item first).append (staysOpen_of_many more rfl)

end Literal

/-- How the external name of a field is written: an identifier, perhaps with a line feed after it, or
a literal. -/
inductive IsExternalName : List Char → Prop where
  | bare {name : List Char} (h : ∀ c ∈ name, isNameChar c = true ∨ c = '\n') : IsExternalName name
  | quoted {text : List Char} (h : StaysOpen text) : IsExternalName ('"' :: (text ++ ['"']))

/-- A name that is no literal has no marks in it. -/
theorem notMem_of_bare {name : List Char} (h : ∀ c ∈ name, isNameChar c = true ∨ c = '\n')
    {mark : Char} (other : isNameChar mark = false) (inLine : mark ≠ '\n') : mark ∉ name := by
  intro hm
  rcases h mark hm with letter | feed
  · rw [letter] at other
    cases other
  · exact inLine feed

/-- A name that is no literal does not end as one. -/
theorem ne_quoted_of_bare {name rest rest' : List Char}
    (h : ∀ c ∈ name, isNameChar c = true ∨ c = '\n') : name ++ '?' :: rest ≠ '"' :: rest' := by
  intro same
  cases name with
  | nil => cases same
  | cons c name =>
    obtain rfl : c = '"' := List.head_eq_of_cons_eq same
    exact notMem_of_bare h (by decide) (by decide) (List.mem_cons_self ..)

/-- The question mark behind the name is the first outside the literal. -/
theorem IsExternalName.eq_of_append {name other rest rest' : List Char} (h : IsExternalName name)
    (h' : IsExternalName other) (same : name ++ '?' :: rest = other ++ '?' :: rest') :
    name = other ∧ rest = rest' := by
  cases h with
  | bare bare =>
    cases h' with
    | bare bare' =>
      have mark : '?' ∉ name := notMem_of_bare bare (by decide) (by decide)
      have mark' : '?' ∉ other := notMem_of_bare bare' (by decide) (by decide)
      exact eq_of_append_cons mark mark' same
    | quoted _ => exact absurd same (ne_quoted_of_bare bare)
  | quoted opened =>
    cases h' with
    | bare bare' => exact absurd same.symm (ne_quoted_of_bare bare')
    | quoted opened' =>
      rw [List.cons_append, List.cons_append, List.append_assoc, List.append_assoc] at same
      obtain ⟨rfl, rest⟩ := opened.eq_of_append opened' (List.tail_eq_of_cons_eq same)
      exact ⟨rfl, List.tail_eq_of_cons_eq rest⟩

namespace FieldList

variable {text : String} {types : TypeSystem} {f g : Field}

/-- Between the quotes of a naming annotation stand the items of a literal. -/
theorem capturesOnly_annotatedField : annotatedField.CapturesOnly fun part word => part = .literal →
    ∃ kept, (literalItem ++ .many literalItem : Pattern Part).Matches word kept := by
  simp only [annotatedField, naming, Annotation.literal, Annotation.annotation,
    Annotation.argumentsEnd, Annotation.literalItem, modifiers, declaredType, ending,
    Pattern.CapturesOnly, Pattern.word, Pattern.spacing, Pattern.someRun, Pattern.blanks,
    Pattern.name, Pattern.capturesOnly_append, Pattern.capturesOnly_orElse, reduceCtorEq,
    false_implies, implies_true, true_implies, and_true, true_and]
  exact fun word kept matched => ⟨kept, matched⟩

/-- The literal of an annotated field is a row of items. -/
theorem matches_of_mem_annotated {text : List Char} {found : Found} (h : found ∈ annotated text) :
    ∀ l ∈ found.literal,
      ∃ kept, (literalItem ++ .many literalItem : Pattern Part).Matches l kept := by
  obtain ⟨o, ho, rfl⟩ := List.mem_map.1 h
  exact fun l hl => Pattern.kind_of_captured? capturesOnly_annotatedField ho hl rfl

/-- Nothing in the literal of a naming annotation closes it. -/
theorem staysOpen_of_mem_annotated {text : List Char} {found : Found} (h : found ∈ annotated text) :
    ∀ l ∈ found.literal, StaysOpen l := by
  intro l hl
  obtain ⟨kept, matched⟩ := matches_of_mem_annotated h l hl
  exact staysOpen_of_matches matched

/-- An identifier is a property name as it stands; any other literal gets quotes. -/
theorem externalName_cases (literal : List Char) :
    isIdentifier literal = true ∧ (externalName (String.ofList literal)).toList = literal ∨
      isIdentifier literal = false ∧
        (externalName (String.ofList literal)).toList = '"' :: (literal ++ ['"']) := by
  have quotes : ("\"" ++ String.ofList literal ++ "\"").toList = '"' :: (literal ++ ['"']) := by
    simp [String.toList_append]
  rw [externalName, String.toList_ofList]
  cases identifier : isIdentifier literal with
  | true =>
    rw [if_pos rfl]
    exact .inl ⟨rfl, String.toList_ofList⟩
  | false =>
    rw [if_neg Bool.false_ne_true]
    exact .inr ⟨rfl, quotes⟩

/-- A literal that is not closed within gives an external name. -/
theorem isExternalName_externalName {literal : List Char} (h : StaysOpen literal) :
    IsExternalName (externalName (String.ofList literal)).toList := by
  rcases externalName_cases literal with ⟨identifier, same⟩ | ⟨-, same⟩
  · rw [same]
    exact .bare (isNameChar_or_of_isIdentifier identifier)
  · rw [same]
    exact .quoted h

/-- The fields that are taken up are optional and have names of this kind. -/
theorem facts_of_mem (h : f ∈ ofText text types) :
    f.isOptional = true ∧ IsExternalName f.externalName.toList := by
  obtain ⟨found, hf, read⟩ := exists_found h
  rw [Found.field?] at read
  split at read
  · next valid =>
    cases read
    refine ⟨rfl, ?_⟩
    dsimp only
    cases literal : found.literal with
    | none =>
      refine .bare fun c hc => .inl ?_
      rw [Option.map_none, Option.getD_none, String.toList_ofList] at hc
      exact forall_of_isHeadedBy valid.2.1
        (fun c lower => isNameChar_of_isNameStart (isNameStart_of_isLower lower)) c hc
    | some l =>
      refine isExternalName_externalName ?_
      rcases List.mem_append.1 hf with hf | hf
      · exact staysOpen_of_mem_annotated hf l literal
      · rw [(facts_of_mem_plain hf).1] at literal
        cases literal
  · cases read

/-- A line of an interface tells what it declares. -/
theorem eq_of_line_eq (hf : f ∈ ofText text types) (hg : g ∈ ofText text types)
    (same : f.toProperty.line = g.toProperty.line) :
    f.externalName = g.externalName ∧ f.mappedType = g.mappedType := by
  obtain ⟨optional, named⟩ := facts_of_mem hf
  obtain ⟨optional', named'⟩ := facts_of_mem hg
  have lines := congrArg String.toList same
  simp only [Property.line_toList, optional, optional', if_true, List.cons_append,
    List.append_assoc, List.nil_append] at lines
  obtain ⟨names, rest⟩ := named.eq_of_append named'
    (List.tail_eq_of_cons_eq (List.tail_eq_of_cons_eq lines))
  have mapped := List.append_cancel_right
    (List.tail_eq_of_cons_eq (List.tail_eq_of_cons_eq rest))
  exact ⟨String.toList_inj.1 names, String.toList_inj.1 mapped⟩

/-- Two fields with one name are declared differently, and one of them is renamed. -/
theorem renamed_of_externalName_eq (hf : f ∈ ofText text types) (hg : g ∈ ofText text types)
    (differ : f ≠ g) (same : f.externalName = g.externalName) :
    f.mappedType ≠ g.mappedType ∧
      (f.externalName ≠ f.sourceName ∨ g.externalName ≠ g.sourceName) := by
  constructor
  · intro mapped
    exact differ (List.inj_on_of_nodup_map nodup_declared hf hg (Prod.ext same mapped))
  · by_contra own
    rw [not_or, not_not, not_not] at own
    obtain ⟨own, own'⟩ := own
    have named : f.sourceName = g.sourceName := by rw [← own, ← own', same]
    exact differ (List.inj_on_of_nodup_map nodup_sourceName hf hg named)

/-- The names are distinct exactly if no two fields with one name have different types. -/
theorem nodup_externalName_iff :
    ((ofText text types).map (·.externalName)).Nodup ↔
      ∀ f ∈ taken text types, ∀ g ∈ taken text types,
        f.externalName = g.externalName → f.mappedType = g.mappedType := by
  constructor
  · intro distinct f hf g hg same
    -- What is left out is declared as a field that is kept.
    obtain ⟨f', hf', kept⟩ := exists_repeated hf []
    obtain ⟨g', hg', kept'⟩ := exists_repeated hg []
    obtain ⟨name, type⟩ := not_not.1 kept
    obtain ⟨name', type'⟩ := not_not.1 kept'
    have one : f' = g' := List.inj_on_of_nodup_map distinct hf' hg' (by rw [name, name', same])
    rw [← type, ← type', one]
  · intro determined
    refine List.Nodup.map_on (fun f hf g hg same => ?_) nodup_declared.of_map
    have mapped := determined f (sublist_taken.subset hf) g (sublist_taken.subset hg) same
    exact List.inj_on_of_nodup_map nodup_declared hf hg (Prod.ext same mapped)

/-- The fields of a class have different names in the source, and no two of them are one property
with one type, so no line of the interface is written twice. A property can be declared twice, but
only where a field is renamed and the types differ. -/
theorem ofText_distinct (text : String) (types : TypeSystem) :
    ((ofText text types).map (·.sourceName)).Nodup ∧
      ((ofText text types).map fun f => (f.externalName, f.mappedType)).Nodup ∧
      ((ofText text types).map (·.toProperty.line)).Nodup ∧
      (∀ f ∈ ofText text types, ∀ g ∈ ofText text types, f ≠ g →
        f.externalName = g.externalName → f.mappedType ≠ g.mappedType ∧
          (f.externalName ≠ f.sourceName ∨ g.externalName ≠ g.sourceName)) ∧
      (((ofText text types).map (·.externalName)).Nodup ↔
        ∀ f ∈ taken text types, ∀ g ∈ taken text types,
          f.externalName = g.externalName → f.mappedType = g.mappedType) := by
  refine ⟨nodup_sourceName, nodup_declared, ?_, ?_, nodup_externalName_iff⟩
  · refine List.Nodup.map_on (fun f hf g hg same => ?_) nodup_declared.of_map
    obtain ⟨name, type⟩ := eq_of_line_eq hf hg same
    exact List.inj_on_of_nodup_map nodup_declared hf hg (Prod.ext name type)
  · exact fun f hf g hg differ same => renamed_of_externalName_eq hf hg differ same

/-- A class in which a field is renamed to the name of another one. -/
def accountSource : String :=
  "class Account \x7b @JsonProperty(\"id\") private Long identifier; private String id; \x7d"

/-- The interface of this class has two properties of one name. -/
theorem externalName_twice :
    ¬((ofText accountSource .standard).map (·.externalName)).Nodup ∧
      (ofText accountSource .standard).map (·.toProperty.line) =
        ["  id?: number;", "  id?: string;"] := by
  have names : (ofText accountSource .standard).map (·.externalName) = ["id", "id"] := by
    decide +kernel
  refine ⟨?_, by decide +kernel⟩
  rw [names]
  decide

end FieldList

end InterfaceGen.Source
