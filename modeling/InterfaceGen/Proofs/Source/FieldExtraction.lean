import InterfaceGen.Proofs.Source.FieldPasses
import InterfaceGen.Proofs.Source.Reading
import InterfaceGen.Proofs.Types.Cleaning
import InterfaceGen.Proofs.Types.Plausible
import Mathlib.Data.List.Flatten
import Mathlib.Data.List.Nodup

/-!
# The fields of a class text

Each declaration that a pass finds stands for the fields that are declared: the type that it keeps
is a spelling of the declared type, and its names are cut apart at the commas. The second pass finds
the fields of the first again, under their own names, so they are not taken twice.
-/

namespace InterfaceGen.Source

open InterfaceGen.Text InterfaceGen.Text.Pattern InterfaceGen.Types
open FieldList (Part Found annotatedField plainField comma add)

/-! ## Names cut apart -/

/-- No comma stands within a name. -/
theorem rejectsWithin_name (n : FieldName) (rest : List Char) :
    RejectsWithin comma n.chars rest := by
  intro back nonempty suffix
  obtain ⟨c, back, rfl⟩ := List.exists_cons_of_ne_nil nonempty
  have name := isNameChar_of_mem n c (suffix.subset (List.mem_cons_self ..))
  refine @rejects_comma [] _ (List.forall_mem_nil _) fun d hd => ?_
  cases hd
  exact ⟨isBlank_of_isNameChar name, ne_of_isNameChar name rfl⟩

/-- Further names are cut apart at their commas. -/
theorem FurtherNames.cuts {names : List FieldName} {text : List Char}
    (h : FurtherNames names text) : Cuts comma text ([] :: names.map (·.chars)) := by
  induction h with
  | nil => exact .nil _
  | @cons n names before behind more hb hb' _ ih =>
    have named := ih.free (rejectsWithin_name n more)
    rw [List.append_nil] at named
    have whole := named.occurrence (by simp) (reads_comma hb hb' (n.head more))
    simpa using whole

/-- The names of a declaration are what its list of names is cut into. -/
theorem cut_names {first : FieldName} {others : List FieldName} {further : List Char}
    (h : FurtherNames others further) :
    comma.cut (first.chars ++ further) = (first :: others).map (·.chars) := by
  have cuts := h.cuts.free (rejectsWithin_name first further)
  rw [List.append_nil] at cuts
  rw [cut_eq]
  exact cuts none 0

/-! ## What each pass finds -/

/-- The field of a declared type and a name of the usual look. -/
theorem field?_of_spelling (types : TypeSystem) (literal : Option (List Char)) {type : JavaType}
    {spelled : List Char} (spelling : type.Spelling spelled) {n : FieldName}
    (unmarked : n.toString ≠ FieldList.versionMarker) :
    (Found.mk literal spelled n.chars).field? types = some {
      externalName :=
        (literal.map fun l => FieldList.externalName (String.ofList l)).getD n.toString
      mappedType := types.mapType type.toString
      isOptional := true
      declaredType := type.toString
      sourceName := n.toString } := by
  have cleaned : FieldType.clean (String.ofList spelled) = type.toString := by
    rw [FieldType.clean, String.toList_ofList, clean_of_spelling spelling, JavaType.toString]
  have accepted : String.ofList n.chars ≠ FieldList.versionMarker ∧ isFieldName n.chars = true ∧
      FieldType.isPlausible type.toString = true :=
    ⟨unmarked, n.wellFormed, type.isPlausible_toString⟩
  simp only [Found.field?, cleaned]
  rw [if_pos accepted]
  rfl

/-- No field is made of the name that marks the version. -/
theorem field?_of_marker (types : TypeSystem) (literal : Option (List Char)) (spelled : List Char)
    {n : FieldName} (marked : n.toString = FieldList.versionMarker) :
    (Found.mk literal spelled n.chars).field? types = none := by
  rw [Found.field?]
  exact if_neg fun accepted => accepted.1 marked

/-- Is the field none that marks the version of the class? -/
def isUnmarked (f : Field) : Bool :=
  f.sourceName ≠ FieldList.versionMarker

namespace FieldDeclaration

/-- The declaration as the second pass finds it, which does not look for names of properties. -/
def unnamed (d : FieldDeclaration) : FieldDeclaration :=
  { d with literal := none }

variable {d : FieldDeclaration} {kept : List (Part × List Char)} (types : TypeSystem)

/-- What the first pass makes of the captures of an occurrence. -/
def foundAnnotated (kept : List (Part × List Char)) : Found :=
  ⟨kept.lookup .literal, (kept.lookup .type).getD [], (kept.lookup .names).getD []⟩

/-- What the second pass makes of them. -/
def foundPlain (kept : List (Part × List Char)) : List Found :=
  (comma.cut ((kept.lookup .names).getD [])).map fun name =>
    ⟨none, (kept.lookup .type).getD [], name⟩

/-- The field of an annotated declaration is taken, unless it is the version marker. -/
theorem field?_annotated (h : KeptAnnotated d kept)
    (unmarked : ∀ n ∈ d.names, n.toString ≠ FieldList.versionMarker) :
    ∃ f, (foundAnnotated kept).field? types = some f ∧ d.fields types = [f] := by
  obtain ⟨single, literal, spelled, named, spelling, rfl⟩ := h
  refine ⟨_, field?_of_spelling types _ spelling (unmarked d.first (List.mem_cons_self ..)), ?_⟩
  rw [fields, names, single, named]
  rfl

theorem filterMap_plain (h : KeptPlain d kept) :
    (foundPlain kept).filterMap (·.field? types) = (d.unnamed.fields types).filter isUnmarked := by
  obtain ⟨spelled, further, spelling, names, rfl⟩ := h
  have cut : foundPlain [(Part.names, d.first.chars ++ further), (Part.type, spelled)] =
      d.names.map fun n => ⟨none, spelled, n.chars⟩ := by
    show (comma.cut (d.first.chars ++ further)).map _ = _
    rw [cut_names names, List.map_map]
    rfl
  rw [cut, fields]
  show _ = (d.names.map _).filter isUnmarked
  induction d.names with
  | nil => rfl
  | cons n names ih =>
    rw [List.map_cons, List.map_cons, List.filterMap_cons, List.filter_cons, ih]
    by_cases marked : n.toString = FieldList.versionMarker
    · rw [field?_of_marker types none spelled marked, if_neg (by simp [isUnmarked, marked])]
    · rw [field?_of_spelling types none spelling marked, if_pos (by simp [isUnmarked, marked])]
      rfl

end FieldDeclaration

/-- The first pass over a class finds the fields that name a property. -/
theorem ClassText.filterMap_annotated {ds : List FieldDeclaration} {text : List Char}
    (types : TypeSystem) (h : ClassText ds text)
    (unmarked : ∀ d ∈ ds.filter (·.isAnnotated), ∀ n ∈ d.names,
      n.toString ≠ FieldList.versionMarker) :
    (FieldList.annotated text).filterMap (·.field? types) =
      (ds.filter (·.isAnnotated)).flatMap (·.fields types) := by
  obtain ⟨kept, all, yields⟩ := h.yields_annotated
  have captures := map_captures_occurrences annotatedField text
  rw [yields none 0 rfl] at captures
  have found : FieldList.annotated text = kept.map FieldDeclaration.foundAnnotated := by
    rw [← captures, List.map_map]
    rfl
  rw [found]
  clear found captures yields
  generalize ds.filter (·.isAnnotated) = named at all unmarked ⊢
  induction all with
  | nil => rfl
  | @cons d first ds' kept one _ ih =>
    obtain ⟨f, here, fields⟩ :=
      FieldDeclaration.field?_annotated types one (unmarked d (List.mem_cons_self ..))
    rw [List.map_cons, List.filterMap_cons_some (f := fun x => Found.field? x types) here,
      List.flatMap_cons, fields,
      ih fun e he => unmarked e (List.mem_cons_of_mem _ he)]
    rfl

/-- The second pass makes fields of what it captures. -/
theorem plain_eq (text : List Char) :
    FieldList.plain text = (plainField.keptFrom none text 0).flatMap FieldDeclaration.foundPlain := by
  rw [← map_captures_occurrences, List.flatMap_map]
  rfl

/-- The second pass finds all fields, each under its own name, but those that mark the version. -/
theorem ClassText.filterMap_plain {ds : List FieldDeclaration} {text : List Char}
    (types : TypeSystem) (h : ClassText ds text) :
    (FieldList.plain text).filterMap (·.field? types) =
      (ds.flatMap (·.unnamed.fields types)).filter isUnmarked := by
  obtain ⟨kept, all, yields⟩ := h.yields_plain
  rw [plain_eq, yields none 0 rfl]
  clear yields h
  induction all with
  | nil => rfl
  | @cons d first ds kept one _ ih =>
    rw [List.flatMap_cons, List.filterMap_append, List.flatMap_cons, List.filter_append,
      FieldDeclaration.filterMap_plain types one, ih]

/-! ## Class texts -/

section Lists

variable {ds : List FieldDeclaration} {types : TypeSystem}

/-- The names of the fields that declarations stand for. -/
theorem map_sourceName (ds : List FieldDeclaration) (types : TypeSystem) :
    (ds.flatMap (·.fields types)).map (·.sourceName) =
      (ds.flatMap (·.names)).map (·.toString) := by
  rw [List.map_flatMap, List.map_flatMap]
  congr 1
  funext d
  rw [FieldDeclaration.fields, List.map_map]
  rfl

/-- The fields have the same names without the names of properties. -/
theorem map_sourceName_unnamed (ds : List FieldDeclaration) (types : TypeSystem) :
    (ds.flatMap (·.unnamed.fields types)).map (·.sourceName) =
      (ds.flatMap (·.names)).map (·.toString) := by
  have all := map_sourceName (ds.map (·.unnamed)) types
  rwa [List.flatMap_map, List.flatMap_map] at all

/-- The fields of a declaration have its names. -/
theorem mem_fields (types : TypeSystem) {d : FieldDeclaration} {name : String} :
    (∃ f ∈ d.fields types, f.sourceName = name) ↔ ∃ n ∈ d.names, n.toString = name := by
  simp [FieldDeclaration.fields]

/-- Two declarations that share a name are one. -/
theorem eq_of_shared_name (distinct : ((ds.flatMap (·.names)).map (·.toString)).Nodup)
    {d e : FieldDeclaration} (hd : d ∈ ds) (he : e ∈ ds) {m n : FieldName} (hm : m ∈ d.names)
    (hn : n ∈ e.names) (same : m.toString = n.toString) : d = e := by
  rw [List.map_flatMap, List.nodup_flatMap] at distinct
  have symm : Std.Symm (Function.onFun List.Disjoint
      fun d : FieldDeclaration => d.names.map (·.toString)) :=
    ⟨fun _ _ apart _ hc hc' => apart hc' hc⟩
  refine Classical.byContradiction fun differ => ?_
  refine distinct.2.forall hd he differ (List.mem_map_of_mem hm) ?_
  rw [same]
  exact List.mem_map_of_mem hn

/-- What the second pass finds anew of a declaration. -/
theorem filter_fields_unnamed (distinct : ((ds.flatMap (·.names)).map (·.toString)).Nodup)
    {d : FieldDeclaration} (hd : d ∈ ds) :
    ((d.unnamed.fields types).filter fun f =>
        !((ds.filter (·.isAnnotated)).flatMap (·.fields types)).any
          (·.sourceName == f.sourceName)) =
      if d.isAnnotated then [] else d.fields types := by
  split
  · next annotated =>
    -- The first pass has found a field of each of these names.
    refine List.filter_eq_nil_iff.2 fun f hf => ?_
    obtain ⟨n, hn, same⟩ := (mem_fields types).1 ⟨f, hf, rfl⟩
    obtain ⟨g, hg, same'⟩ := (mem_fields types (d := d)).2 ⟨n, hn, same⟩
    have known : g ∈ (ds.filter (·.isAnnotated)).flatMap (·.fields types) :=
      List.mem_flatMap.2 ⟨d, List.mem_filter.2 ⟨hd, annotated⟩, hg⟩
    have there : ((ds.filter (·.isAnnotated)).flatMap (·.fields types)).any
        (·.sourceName == f.sourceName) = true :=
      List.any_eq_true.2 ⟨g, known, by simp [same']⟩
    rw [there]
    decide
  · next plain =>
    have own : d.unnamed = d := by
      obtain ⟨literal, type, first, others⟩ := d
      cases literal with
      | none => rfl
      | some => exact absurd rfl plain
    rw [own]
    refine List.filter_eq_self.2 fun f hf => ?_
    rw [Bool.not_eq_true', List.any_eq_false]
    intro g hg same
    obtain ⟨e, he, hg⟩ := List.mem_flatMap.1 hg
    obtain ⟨he, annotated⟩ := List.mem_filter.1 he
    obtain ⟨m, hm, same'⟩ := (mem_fields types).1 ⟨f, hf, rfl⟩
    obtain ⟨n, hn, same''⟩ := (mem_fields types).1 ⟨g, hg, beq_iff_eq.1 same⟩
    rw [eq_of_shared_name distinct hd he hm hn (same'.trans same''.symm)] at plain
    exact plain annotated

/-- Parts that give nothing may be left out. -/
theorem flatMap_eq_filter {α β : Type} {test : α → Bool} {f g : α → List β} {xs : List α}
    (h : ∀ x ∈ xs, f x = if test x then [] else g x) :
    xs.flatMap f = (xs.filter (!test ·)).flatMap g := by
  induction xs with
  | nil => rfl
  | cons x xs ih =>
    rw [List.flatMap_cons, h x (List.mem_cons_self ..),
      ih fun y hy => h y (List.mem_cons_of_mem _ hy)]
    by_cases pass : test x = true <;> simp [pass]

end Lists

/-- Of a class text the fields that name a property are returned, then the others, each with its
declared type and the translation of that. -/
theorem FieldList.ofText_classText {ds : List FieldDeclaration} {text : String}
    (types : TypeSystem) (h : ClassText ds text.toList)
    (distinct : ((ds.flatMap (·.names)).map (·.toString)).Nodup)
    (unmarked : ∀ d ∈ ds, ∀ n ∈ d.names, n.toString ≠ FieldList.versionMarker) :
    FieldList.ofText text types =
      ((ds.filter (·.isAnnotated) ++ ds.filter (!·.isAnnotated)).flatMap
        (·.fields types)).eraseDupsBy FieldList.isRepeat := by
  have first : (((ds.filter (·.isAnnotated)).flatMap (·.fields types)).map
      (·.sourceName)).Nodup := by
    have part := List.filter_sublist (p := (·.isAnnotated)) (l := ds)
    rw [map_sourceName]
    exact distinct.sublist ((part.flatMap (·.names)).map _)
  have second : ((ds.flatMap (·.unnamed.fields types)).map (·.sourceName)).Nodup := by
    rwa [map_sourceName_unnamed]
  have alone : ((ds.filter (·.isAnnotated)).flatMap (·.fields types)).foldl add [] =
      (ds.filter (·.isAnnotated)).flatMap (·.fields types) := by
    rw [foldl_add first]
    simp
  -- The second pass finds all fields again, and adds those of declarations that name no property.
  have anew : (ds.flatMap (·.unnamed.fields types)).filter (fun f =>
      !((ds.filter (·.isAnnotated)).flatMap (·.fields types)).any
        (·.sourceName == f.sourceName)) =
      (ds.filter (!·.isAnnotated)).flatMap (·.fields types) := by
    rw [List.filter_flatMap]
    exact flatMap_eq_filter fun d hd => filter_fields_unnamed distinct hd
  have kept : (ds.flatMap (·.unnamed.fields types)).filter isUnmarked =
      ds.flatMap (·.unnamed.fields types) := by
    refine List.filter_eq_self.2 fun f hf => ?_
    obtain ⟨d, hd, hf⟩ := List.mem_flatMap.1 hf
    obtain ⟨n, hn, same⟩ := (mem_fields types).1 ⟨f, hf, rfl⟩
    rw [isUnmarked, ← same]
    exact decide_eq_true (unmarked d hd n hn)
  rw [ofText, List.filterMap_append,
    h.filterMap_annotated types fun d hd => unmarked d (List.mem_of_mem_filter hd),
    h.filterMap_plain types, kept, List.foldl_append, alone, foldl_add second, anew,
    foldl_addDistinct, List.flatMap_append]

/-- The type `long`. -/
def long : JavaType :=
  .name ⟨"long".toList, by decide⟩

/-- The type `List<String>`. -/
def listOfStrings : JavaType :=
  .generic ⟨"List".toList, Eq.refl true⟩ (.last (.exactly (.name ⟨"String".toList, Eq.refl true⟩)))

/-- A declaration that names a property and one of two fields. -/
def orderFields : List FieldDeclaration :=
  [⟨some "order-id".toList, long, ⟨"id".toList, by decide⟩, []⟩,
    ⟨none, listOfStrings, ⟨"lines".toList, by decide⟩, [⟨"notes".toList, by decide⟩]⟩]

/-- A class with these declarations, written with modifiers, an annotation and a value. -/
def orderText : String :=
  "class Order \x7b\n  @JsonProperty(\"order-id\") private final long id;\n" ++
    "  private List<String> lines, notes = null;\n\x7d"

theorem spaced_listOfStrings : Spaced AreBlank listOfStrings.tokens "List<String>".toList := by
  have none : AreBlank [] := List.forall_mem_nil _
  have row : Spaced AreBlank listOfStrings.tokens _ :=
    .cons (.name [] ⟨"List".toList, by decide⟩) none
    (.cons (.mark '<' rfl) none
    (.cons (.name [] ⟨"String".toList, by decide⟩) none
    (.last (.mark '>' rfl))))
  exact row

/-- The annotation names the property. -/
theorem naming_order : Naming "order-id".toList "@JsonProperty(\"order-id\")".toList := by
  have none : AreBlank [] := List.forall_mem_nil _
  have literal : IsLiteral "order-id".toList := by
    repeat refine .plain (by decide) ?_
    exact .nil
  have order : Quiet "order".toList := .of_word (by decide) (by decide)
  have id : Quiet "id".toList := .of_word (by decide) (by decide)
  have quiet : Quiet "order-id".toList :=
    .append order (.cons (c := '-') (by decide) id) (.inr (head?_other (by decide) _))
  exact .intro literal (by decide) quiet none none .none List.not_mem_nil
    (Quiet.of_forall (List.forall_mem_nil _))

/-- The text is written in one of the ways of a class. -/
theorem classText_order : ClassText orderFields orderText.toList := by
  have none : AreBlank [] := List.forall_mem_nil _
  have space : AreBlank [' '] := by unfold AreBlank; decide
  have line : AreBlank "\n  ".toList := by unfold AreBlank; decide
  have feed : AreBlank ['\n'] := by unfold AreBlank; decide
  have apart : [' '] ≠ [] := List.cons_ne_nil _ _
  have final : "final".toList ∈ fieldModifiers := by decide
  have type : Spaced AreBlank long.tokens "long".toList := .last (.name [] _)
  have id : Core long ⟨"id".toList, by decide⟩ []
      "private final long id;".toList :=
    .intro space apart (.cons final space apart .nil) type (by decide) space apart .nil none .none
  have value : Initializer "= null".toList := .value (by decide) (by decide)
  have lines : Core listOfStrings ⟨"lines".toList, by decide⟩ [⟨"notes".toList, by decide⟩]
      "private List<String> lines, notes = null;".toList :=
    .intro space apart .nil spaced_listOfStrings (by decide) space apart
      (.cons none space .nil) space value
  exact .intro (n := ⟨"Order".toList, by decide⟩) space apart (by decide) space
    (.cons line (.annotated naming_order space .nil id)
      (.cons line (.plain .nil lines) (.nil feed)))

/-- The fields are read in the order of their declarations, the annotated one with its property name
and all with their mapped types. -/
theorem ofText_order :
    ClassText orderFields orderText.toList ∧
      ((orderFields.flatMap (·.names)).map (·.toString)).Nodup ∧
      (∀ d ∈ orderFields, ∀ n ∈ d.names, n.toString ≠ FieldList.versionMarker) ∧
      (FieldList.ofText orderText .standard).map (fun f => (f.externalName, f.mappedType)) =
        [("\"order-id\"", "number"), ("lines", "string[]"), ("notes", "string[]")] := by
  have distinct : ((orderFields.flatMap (·.names)).map (·.toString)).Nodup := by decide
  have unmarked : ∀ d ∈ orderFields, ∀ n ∈ d.names, n.toString ≠ FieldList.versionMarker := by
    decide
  refine ⟨classText_order, distinct, unmarked, ?_⟩
  rw [FieldList.ofText_classText .standard classText_order distinct unmarked]
  decide +kernel

/-- A declaration of one field of this type. -/
def linesField : FieldDeclaration :=
  ⟨none, listOfStrings, ⟨"lines".toList, by decide⟩, []⟩

/-- A type that ends with a bracket needs no blank behind it, but without one no field is found. -/
theorem ofText_unspaced :
    linesField.type.Spelling "List<String>".toList ∧
      (linesField.fields .standard).map (·.sourceName) = ["lines"] ∧
      FieldList.ofText ("class Order \x7b private " ++ "List<String>" ++ "lines; \x7d") .standard =
        [] := by
  have none : AreBlank [] := List.forall_mem_nil _
  refine ⟨.intro none none spaced_listOfStrings, by decide, ?_⟩
  decide +kernel

end InterfaceGen.Source
