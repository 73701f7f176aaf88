import InterfaceGen.Proofs.Types.Mentions
import InterfaceGen.Proofs.Types.Walk

/-!
# The names that a declaration refers to

What a walk notes in a mapped text stands in the declared text too, or is built in.
`declarationDependencies_exact` puts the walks through both texts of each field together, for a
whole declaration.
-/

namespace InterfaceGen.Types

open InterfaceGen.Text TypeSystem

variable {types : TypeSystem}

/-! ## Names of translations -/

/-- A translated generic type adds at most the name of its container. -/
theorem TargetType.visited_ofGeneric {container : String} {as : TargetTypes} {n : String}
    (h : n ∈ (TargetType.ofGeneric container as).visited) : n = container ∨ n ∈ as.visited := by
  rcases TargetType.ofGeneric_cases container as with
    ⟨item, rfl, same | same⟩ | ⟨key, value, rfl, same⟩ | same
  · rw [same] at h
    exact .inr h
  · rw [same] at h
    exact nomatch h
  · rw [same] at h
    exact nomatch h
  · rw [same] at h
    exact List.mem_cons.1 h

/-- A name is translated to itself or to one that is built in. -/
theorem Identifier.mem_translation {n : Identifier} {name : String}
    (h : name ∈ [n.translation types]) : name ∈ [n.toString] ∨ types.isBuiltIn name = true := by
  rw [List.mem_singleton] at h ⊢
  rw [h]
  exact n.translation_eq_or types

mutual

/-- No name comes from a translation that is not in the type or built in. -/
theorem JavaType.visited_translation :
    (t : JavaType) → ∀ n ∈ (t.translation types).visited, n ∈ t.names ∨ types.isBuiltIn n = true
  | .name _ => fun _ => Identifier.mem_translation
  | .array element => element.visited_translation
  | .generic container arguments => by
    intro n hn
    rcases TargetType.visited_ofGeneric hn with rfl | hn
    · exact .inl (List.mem_cons_self ..)
    · exact (arguments.visited_translation n hn).imp_left (List.mem_cons_of_mem _)

theorem TypeArguments.visited_translation :
    (as : TypeArguments) → ∀ n ∈ (as.translation types).visited,
      n ∈ as.names ∨ types.isBuiltIn n = true
  | .last argument => argument.visited_translation
  | .cons argument rest => by
    intro n hn
    rcases List.mem_append.1 hn with hn | hn
    · exact (argument.visited_translation n hn).imp_left (List.mem_append_left _)
    · exact (rest.visited_translation n hn).imp_left (List.mem_append_right _)

theorem TypeArgument.visited_translation :
    (a : TypeArgument) → ∀ n ∈ (a.translation types).visited,
      n ∈ a.names ∨ types.isBuiltIn n = true
  | .exactly t => t.visited_translation
  | .wildcard => fun _ => Identifier.mem_translation
  | .bounded _ t => t.visited_translation

end

mutual

theorem JavaType.isName_of_mem : (t : JavaType) → ∀ n ∈ t.names, IsName n
  | .name n => by
    intro name hn
    rw [List.mem_singleton.1 hn]
    exact n.isName
  | .array element => element.isName_of_mem
  | .generic container arguments => by
    intro n hn
    rcases List.mem_cons.1 hn with rfl | hn
    · exact container.isName
    · exact arguments.isName_of_mem n hn

theorem TypeArguments.isName_of_mem : (as : TypeArguments) → ∀ n ∈ as.names, IsName n
  | .last argument => argument.isName_of_mem
  | .cons argument rest => by
    intro n hn
    rcases List.mem_append.1 hn with hn | hn
    · exact argument.isName_of_mem n hn
    · exact rest.isName_of_mem n hn

theorem TypeArgument.isName_of_mem : (a : TypeArgument) → ∀ n ∈ a.names, IsName n
  | .exactly t => t.isName_of_mem
  | .wildcard => by
    intro name hn
    rw [List.mem_singleton.1 hn]
    exact Identifier.object.isName
  | .bounded _ t => t.isName_of_mem

end

/-! ## Whole declarations -/

/-- The walk through a declared text notes the names in the type. -/
theorem JavaType.collectDependencies_toString (plain : types.IsPlain) (t : JavaType)
    (known : List String) :
    types.collectDependencies t.toString known = t.names.foldl types.note known := by
  rw [collectDependencies, JavaType.toString, String.toList_ofList, t.stripChars_text]
  exact t.collectPlain_text plain known

/-- The walk through its mapped text notes what it visits of the translation. -/
theorem JavaType.collectDependencies_mapType (plain : types.IsPlain) (t : JavaType)
    (known : List String) :
    types.collectDependencies (types.mapType t.toString) known =
      (t.translation types).visited.foldl types.note known := by
  have named := t.wellNamed_translation plain.mapsToNames
  have free := ((t.translation types).isTarget_text named).wildcard
  rw [collectDependencies, t.mapType_toString, stripChars_of_notMem free]
  exact (t.translation types).collectPlain_text plain named known

/-- Mapped text contributes nothing that its declared text does not. -/
theorem JavaType.mem_collectDependencies_mapType (plain : types.IsPlain) {t : JavaType}
    {known : List String} {n : String}
    (h : n ∈ types.collectDependencies (types.mapType t.toString) known) :
    n ∈ known ∨ n ∈ t.names ∧ types.isDependency n = true := by
  rw [t.collectDependencies_mapType plain, mem_foldl_note] at h
  rcases h with old | ⟨visited, dependency⟩
  · exact .inl old
  · rcases t.visited_translation n visited with name | builtIn
    · exact .inr ⟨name, dependency⟩
    · rw [isDependency, builtIn, Bool.not_true, Bool.and_false] at dependency
      exact Bool.noConfusion dependency

/-- What one field adds: first by its mapped text, then by its declared one. -/
theorem JavaType.mem_collect_field (plain : types.IsPlain) {t : JavaType} {known : List String}
    {n : String} :
    n ∈ types.collectDependencies t.toString
        (types.collectDependencies (types.mapType t.toString) known) ↔
      n ∈ known ∨ n ∈ t.names ∧ types.isDependency n = true := by
  rw [t.collectDependencies_toString plain, mem_foldl_note]
  constructor
  · rintro (mapped | declared)
    · exact t.mem_collectDependencies_mapType plain mapped
    · exact .inr declared
  · rintro (old | declared)
    · rw [t.collectDependencies_mapType plain, mem_foldl_note]
      exact .inl (.inl old)
    · exact .inr declared

/-- The dependencies that the fields of these types add. -/
def collectFields (types : TypeSystem) (ts : List JavaType) (known : List String) : List String :=
  (ts.map fun t => (types.mapType t.toString, t.toString)).foldl
    (fun known field =>
      types.collectDependencies field.2 (types.collectDependencies field.1 known)) known

/-- Fields add the names in their declared types, as far as these are dependencies. -/
theorem mem_collectFields (plain : types.IsPlain) {ts : List JavaType} {known : List String}
    {n : String} :
    n ∈ collectFields types ts known ↔
      n ∈ known ∨ (∃ t ∈ ts, n ∈ t.names) ∧ types.isDependency n = true := by
  induction ts generalizing known with
  | nil => simp [collectFields]
  | cons t ts ih =>
    rw [collectFields, List.map_cons, List.foldl_cons]
    refine ih.trans ?_
    rw [t.mem_collect_field plain, List.exists_mem_cons_iff, or_assoc, or_and_right]

/-- Among the names in a type the dependencies begin with a capital and are not built in. -/
theorem JavaType.isDependency_iff {t : JavaType} {n : String} (h : n ∈ t.names) :
    types.isDependency n = true ↔
      isHeadedBy Char.isUpper isNameChar n.toList = true ∧ types.isBuiltIn n = false := by
  have trimmed : IsTrimmed n.toList := (t.isName_of_mem n h).identifier.isArgument.trimmed
  rw [isDependency, Bool.and_eq_true, Bool.not_eq_true', isClassName_of_isTrimmed trimmed]

/-- A declaration adds its supertype to them, if that is not built in. -/
theorem mem_declarationDependencies {ts : List JavaType} {supertype : Option String} {n : String}
    (named : supertype ≠ some "") :
    n ∈ types.declarationDependencies (ts.map fun t => (types.mapType t.toString, t.toString))
        supertype ↔
      n ∈ collectFields types ts [] ∨ supertype = some n ∧ types.isBuiltIn n = false := by
  cases supertype with
  | none =>
    constructor
    · exact .inl
    · rintro (field | ⟨none, -⟩)
      · exact field
      · exact nomatch none
  | some name =>
    rw [declarationDependencies, Option.some.injEq]
    have nonempty : name ≠ "" := fun empty => named (congrArg some empty)
    by_cases builtIn : types.isBuiltIn name = true
    · simp only [builtIn, or_true, if_true]
      constructor
      · exact .inl
      · rintro (field | ⟨rfl, other⟩)
        · exact field
        · rw [builtIn] at other
          exact Bool.noConfusion other
    · have new : ¬ (name = "" ∨ types.isBuiltIn name = true) := not_or.2 ⟨nonempty, builtIn⟩
      simp only [if_neg new]
      rw [mem_record]
      apply or_congr_right
      constructor
      · rintro rfl
        exact ⟨rfl, Bool.eq_false_iff.2 builtIn⟩
      · rintro ⟨rfl, -⟩
        rfl

/-- A declaration depends on the class names in its types and on its supertype, as far as these are
not built in, and on each of them once. What types are mapped to adds no names. -/
theorem declarationDependencies_exact (types : TypeSystem) (plain : types.IsPlain)
    (ts : List JavaType) (supertype : Option String) (named : supertype ≠ some "") :
    (types.declarationDependencies (ts.map fun t => (types.mapType t.toString, t.toString))
        supertype).Nodup ∧
      (∀ n, n ∈ types.declarationDependencies
          (ts.map fun t => (types.mapType t.toString, t.toString)) supertype ↔
        ((∃ t ∈ ts, n ∈ t.names) ∧ isHeadedBy Char.isUpper isNameChar n.toList = true ∨
          supertype = some n) ∧ types.isBuiltIn n = false) ∧
      ∀ (t : JavaType) (known : List String) (n : String),
        n ∈ types.collectDependencies (types.mapType t.toString) known →
          n ∈ known ∨ n ∈ t.names := by
  refine ⟨nodup_declarationDependencies types _ supertype, fun n => ?_, fun t known n hn => ?_⟩
  · rw [mem_declarationDependencies named, mem_collectFields plain, or_and_right]
    apply or_congr_left
    constructor
    · rintro (old | ⟨⟨t, ht, hn⟩, dependency⟩)
      · exact nomatch old
      · obtain ⟨className, other⟩ := (t.isDependency_iff hn).1 dependency
        exact ⟨⟨⟨t, ht, hn⟩, className⟩, other⟩
    · rintro ⟨⟨⟨t, ht, hn⟩, className⟩, other⟩
      exact .inr ⟨⟨t, ht, hn⟩, (t.isDependency_iff hn).2 ⟨className, other⟩⟩
  · exact (t.mem_collectDependencies_mapType plain hn).imp_right And.left

/-- The standard tables hold plain names only. -/
theorem isPlain_standard : TypeSystem.standard.IsPlain where
  mapping := by
    unfold IsName
    decide +kernel
  extraBuiltIns := by
    unfold IsName
    decide

/-- The type `Map<String, Optional<Line>>`. -/
def JavaType.optionalMap : JavaType :=
  .generic ⟨"Map".toList, Eq.refl true⟩
    (.cons (.exactly (.name ⟨"String".toList, Eq.refl true⟩))
      (.last (.exactly (.generic ⟨"Optional".toList, Eq.refl true⟩
        (.last (.exactly (.name ⟨"Line".toList, Eq.refl true⟩)))))))

/-- `Line` and the supertype are dependencies, while `Optional` is built in. -/
theorem declarationDependencies_optionalMap :
    let fields := [JavaType.optionalMap].map fun t =>
      (TypeSystem.standard.mapType t.toString, t.toString)
    TypeSystem.standard.IsPlain ∧ some "Base" ≠ some "" ∧
      "Line" ∈ TypeSystem.standard.declarationDependencies fields (some "Base") ∧
      "Base" ∈ TypeSystem.standard.declarationDependencies fields (some "Base") ∧
      "Optional" ∉ TypeSystem.standard.declarationDependencies fields (some "Base") := by
  intro fields
  have named : some "Base" ≠ some "" := by decide
  obtain ⟨-, exact, -⟩ := declarationDependencies_exact .standard isPlain_standard
    [JavaType.optionalMap] (some "Base") named
  refine ⟨isPlain_standard, named, (exact "Line").2 ?_, (exact "Base").2 ?_, fun hm => ?_⟩
  · exact ⟨.inl ⟨⟨_, List.mem_singleton_self _, by decide⟩, by decide⟩, by decide⟩
  · exact ⟨.inr rfl, by decide⟩
  · exact absurd ((exact "Optional").1 hm).2 (by decide)

end InterfaceGen.Types
