import InterfaceGen.Proofs.Types.Cleaning
import InterfaceGen.Proofs.Types.Depth
import InterfaceGen.Proofs.Types.Shapes
import InterfaceGen.Types.Mapping

/-!
# Mapping a type means translating it

`JavaType.mapPlain_text`: on the canonical text of a type, the mapping of texts gives the text of the type's
translation. With the cleaning of spellings before it, this holds of every way to write a type:
`mapType_clean_of_spelling`.
-/

namespace InterfaceGen.Types

open InterfaceGen.Text InterfaceGen.Source

/-! ## Canonical texts are arguments -/

/-- The text of arguments is their row. -/
theorem TypeArguments.text_eq (as : TypeArguments) :
    as.text = [',', ' '].intercalate as.texts := by
  cases as with
  | last argument => rw [TypeArguments.text, TypeArguments.texts, List.intercalate_singleton]
  | cons argument rest =>
    have more : rest.texts ≠ [] := by cases rest <;> exact List.cons_ne_nil _ _
    rw [TypeArguments.text, TypeArguments.texts, List.intercalate_cons_of_ne_nil more, rest.text_eq]
    simp

theorem TypeArguments.texts_ne_nil (as : TypeArguments) : as.texts ≠ [] := by
  cases as <;> exact List.cons_ne_nil _ _

theorem Identifier.isArgument (n : Identifier) : IsArgument n.chars :=
  .name (fun _ hc => n.isNameChar_of_mem hc) n.chars_ne_nil

theorem Identifier.isArgument_generic (container : Identifier) {texts : List (List Char)}
    (h : ∀ text ∈ texts, IsArgument text) :
    IsArgument (container.chars ++ '<' :: ([',', ' '].intercalate texts ++ ['>'])) :=
  .generic (fun _ hc => container.isNameChar_of_mem hc) container.chars_ne_nil h

mutual

theorem JavaType.isArgument_text : (t : JavaType) → IsArgument t.text
  | .name n => n.isArgument
  | .array element => element.isArgument_text.array
  | .generic container arguments => by
    rw [JavaType.text, arguments.text_eq]
    exact container.isArgument_generic arguments.isArgument_texts

theorem TypeArguments.isArgument_texts :
    (as : TypeArguments) → ∀ text ∈ as.texts, IsArgument text
  | .last argument => by
    intro text ht
    rw [List.mem_singleton.1 ht]
    exact argument.isArgument_text
  | .cons argument rest => by
    intro text ht
    rcases List.mem_cons.1 ht with rfl | ht
    · exact argument.isArgument_text
    · exact rest.isArgument_texts text ht

theorem TypeArgument.isArgument_text : (a : TypeArgument) → IsArgument a.text
  | .exactly t => t.isArgument_text
  | .wildcard => Identifier.object.isArgument
  | .bounded _ t => t.isArgument_text

end

theorem Identifier.arrayElement?_chars (n : Identifier) : arrayElement? n.chars = none := by
  refine arrayElement?_of_last fun c hc => ?_
  exact ne_of_isNameChar (n.isNameChar_of_mem (List.mem_of_getLast? hc)) (by decide)

theorem Identifier.generic?_chars (n : Identifier) : generic? n.chars = none := by
  refine generic?_of_behind n.isArgument.trimmed fun c hc => ?_
  have all : n.chars.dropWhile isNameChar = [] := by
    have drop := dropWhile_of_name (fun c hc => n.isNameChar_of_mem hc) []
    rw [List.append_nil] at drop
    exact drop
  rw [all] at hc
  exact nomatch hc

theorem JavaType.text_generic (container : Identifier) (as : TypeArguments) :
    (JavaType.generic container as).text =
      container.chars ++ '<' :: ([',', ' '].intercalate as.texts ++ ['>']) := by
  rw [JavaType.text, as.text_eq]

theorem Identifier.generic?_generic (container : Identifier) {texts : List (List Char)}
    (nonempty : texts ≠ []) (h : ∀ text ∈ texts, IsArgument text) :
    generic? (container.chars ++ '<' :: ([',', ' '].intercalate texts ++ ['>'])) =
      some (container.chars, [',', ' '].intercalate texts) :=
  generic?_joined (fun _ hc => container.isNameChar_of_mem hc) container.chars_ne_nil nonempty
    fun text member => ⟨(h text member).trimmed, (h text member).nonempty⟩

/-! ## One layer of the mapping -/

section Layers

variable (types : TypeSystem)

/-- The mapping of a text, layer by layer, the arguments as a plain list. -/
theorem mapPlain_eq (text : List Char) :
    types.mapPlain text =
      if (trim text).isEmpty then "any"
      else match arrayElement? (trim text) with
        | some element => types.mapPlain element ++ "[]"
        | none => match generic? (trim text) with
          | some (container, arguments) => TypeSystem.writeGeneric (String.ofList container)
              ((splitArguments arguments).map types.mapPlain)
          | none => types.plainName (String.ofList (trim text)) := by
  rw [TypeSystem.mapPlain]
  split
  · rfl
  · split
    · next element ha => simp only [ha]
    · next ha =>
      split
      · next container arguments hg => simp only [ha, hg, List.attach_map_val]
      · next hg => simp only [ha, hg]

/-- The mapping of a trimmed text, layer by layer. -/
theorem mapPlain_of_isTrimmed {text : List Char} (trimmed : IsTrimmed text) (filled : text ≠ []) :
    types.mapPlain text =
      match arrayElement? text with
      | some element => types.mapPlain element ++ "[]"
      | none => match generic? text with
        | some (container, arguments) => TypeSystem.writeGeneric (String.ofList container)
            ((splitArguments arguments).map types.mapPlain)
        | none => types.plainName (String.ofList text) := by
  have inside : text.isEmpty = false := by
    rw [← Bool.not_eq_true, List.isEmpty_iff]
    exact filled
  rw [mapPlain_eq, trim_of_isTrimmed trimmed, inside, if_neg Bool.false_ne_true]

theorem toList_spellGeneric (container : String) (arguments : List String) :
    (TypeSystem.spellGeneric container arguments).toList =
      container.toList ++ '<' :: ([',', ' '].intercalate (arguments.map String.toList) ++ ['>']) := by
  simp only [TypeSystem.spellGeneric, String.toList_append, String.toList_intercalate,
    List.append_assoc]
  rfl

/-- The forms of the text of a generic type. -/
theorem writeGeneric_cases (container : String) (arguments : List String) :
    (∃ item, arguments = [item] ∧
      (TypeSystem.writeGeneric container arguments = item ++ "[]" ∨
        TypeSystem.writeGeneric container arguments = item ++ " | undefined")) ∨
    (∃ key value, arguments = [key, value] ∧
      TypeSystem.writeGeneric container arguments =
        "\x7b [key: " ++ key ++ "]: " ++ value ++ " \x7d") ∨
    TypeSystem.writeGeneric container arguments = TypeSystem.spellGeneric container arguments := by
  unfold TypeSystem.writeGeneric
  split
  · next item =>
    split
    · exact .inl ⟨item, rfl, .inl rfl⟩
    · split
      · exact .inl ⟨item, rfl, .inr rfl⟩
      · exact .inr (.inr rfl)
  · next key value =>
    split
    · exact .inr (.inl ⟨key, value, rfl, rfl⟩)
    · exact .inr (.inr rfl)
  · exact .inr (.inr rfl)

/-- A name is mapped to itself or to what an entry of the mapping gives it. -/
theorem plainName_cases (name : String) :
    types.plainName name = name ∨
      ∃ entry ∈ types.mapping, entry.1 = name ∧ entry.2 ≠ "" ∧ types.plainName name = entry.2 := by
  rw [TypeSystem.plainName]
  cases found : types.mapping.lookup name with
  | none => exact .inl rfl
  | some mapped =>
    obtain ⟨before, after, same, -⟩ := List.lookup_eq_some_iff.1 found
    by_cases empty : mapped = ""
    · exact .inl (if_pos empty)
    · exact .inr ⟨(name, mapped), by simp [same], rfl, empty, if_neg empty⟩

/-- A name is looked up to its translation. -/
theorem plainName_eq_translation (n : Identifier) :
    types.plainName n.toString = n.translation types := by
  rw [TypeSystem.plainName, Identifier.translation]
  cases types.mapping.lookup n.toString with
  | none => rfl
  | some mapped =>
    by_cases empty : mapped = "" <;> simp [Option.filter, empty]

/-- So it is mapped. -/
theorem mapPlain_name (n : Identifier) : types.mapPlain n.chars = n.translation types := by
  rw [mapPlain_of_isTrimmed types n.isArgument.trimmed n.isArgument.nonempty,
    n.arrayElement?_chars, n.generic?_chars]
  exact plainName_eq_translation types n

end Layers

/-! ## Generic types -/

theorem TargetTypes.text_eq : (as : TargetTypes) → as.text = ", ".intercalate as.texts
  | .last t => by rw [TargetTypes.text, TargetTypes.texts, String.intercalate_singleton]
  | .cons t rest => by
    have more : rest.texts ≠ [] := by cases rest <;> exact List.cons_ne_nil _ _
    rw [TargetTypes.text, TargetTypes.texts, String.intercalate_cons_of_ne_nil more, rest.text_eq]

theorem TargetType.text_generic (container : String) (as : TargetTypes) :
    (TargetType.generic container as).text = TypeSystem.spellGeneric container as.texts := by
  rw [TargetType.text, as.text_eq, TypeSystem.spellGeneric]

/-- The text of a generic type is chosen as its translation is. -/
theorem writeGeneric_eq (container : String) (as : TargetTypes) :
    TypeSystem.writeGeneric container as.texts = (TargetType.ofGeneric container as).text := by
  cases as with
  | last item =>
    simp only [TargetTypes.texts, TypeSystem.writeGeneric, TargetType.ofGeneric,
      TypeSystem.arrayContainers, List.contains_iff_mem]
    split
    · rfl
    · split
      · rfl
      · exact (TargetType.text_generic container (.last item)).symm
  | cons key rest =>
    cases rest with
    | last value =>
      simp only [TargetTypes.texts, TypeSystem.writeGeneric, TargetType.ofGeneric,
        TypeSystem.mapContainers, List.contains_iff_mem]
      split
      · rfl
      · exact (TargetType.text_generic container (.cons key (.last value))).symm
    | cons value more =>
      cases more <;> exact (TargetType.text_generic container _).symm

mutual

/-- The canonical text of a type is mapped to the text of its translation. -/
theorem JavaType.mapPlain_text (types : TypeSystem) :
    (t : JavaType) → types.mapPlain t.text = (t.translation types).text
  | .name n => mapPlain_name types n
  | .array element => by
    have whole := (JavaType.array element).isArgument_text
    rw [mapPlain_of_isTrimmed types whole.trimmed whole.nonempty, JavaType.text,
      arrayElement?_append]
    exact congrArg (· ++ "[]") (element.mapPlain_text types)
  | .generic container arguments => by
    have texts := arguments.isArgument_texts
    have whole := container.isArgument_generic texts
    rw [JavaType.text_generic, mapPlain_of_isTrimmed types whole.trimmed whole.nonempty,
      arrayElement?_generic, container.generic?_generic arguments.texts_ne_nil texts]
    simp only [splitArguments_intercalate texts, arguments.mapPlain_texts types]
    exact writeGeneric_eq container.toString (arguments.translation types)

theorem TypeArguments.mapPlain_texts (types : TypeSystem) :
    (as : TypeArguments) → as.texts.map types.mapPlain = (as.translation types).texts
  | .last argument => congrArg (fun text => [text]) (argument.mapPlain_text types)
  | .cons argument rest => by
    rw [TypeArguments.texts, List.map_cons, argument.mapPlain_text types, rest.mapPlain_texts types]
    rfl

theorem TypeArgument.mapPlain_text (types : TypeSystem) :
    (a : TypeArgument) → types.mapPlain a.text = (a.translation types).text
  | .exactly t => t.mapPlain_text types
  | .wildcard => mapPlain_name types .object
  | .bounded _ t => t.mapPlain_text types

end

/-- The mapping of the canonical text of a type. -/
theorem JavaType.mapType_toString (types : TypeSystem) (t : JavaType) :
    types.mapType t.toString = (t.translation types).text := by
  rw [TypeSystem.mapType, JavaType.toString, String.toList_ofList, t.stripChars_text,
    t.mapPlain_text types]

/-- However a type is spelled, its cleaned text is mapped to the text of its translation. -/
theorem mapType_clean_of_spelling (types : TypeSystem) (t : JavaType) (s : String)
    (h : t.Spelling s.toList) :
    types.mapType (FieldType.clean s) = (t.translation types).text := by
  rw [FieldType.clean, clean_of_spelling h]
  exact t.mapType_toString types

/-- The type `Map<? extends B, int[]>`. -/
def JavaType.boundedMap : JavaType :=
  .generic ⟨"Map".toList, by decide⟩
    (.cons (.bounded .upper (.name ⟨"B".toList, by decide⟩))
      (.last (.exactly (.array (.name ⟨"int".toList, by decide⟩)))))

/-- A spelling of it with package names, blanks and a line feed is mapped as the type is. -/
theorem mapType_clean_boundedMap :
    JavaType.boundedMap.Spelling " java.util.Map <? extends\na.B , int [ ]> ".toList ∧
      TypeSystem.standard.mapType
          (FieldType.clean " java.util.Map <? extends\na.B , int [ ]> ") =
        "\x7b [key: B]: number[] \x7d" := by
  have none : AreBlank [] := List.forall_mem_nil _
  have space : AreBlank [' '] := by unfold AreBlank; decide
  have feed : AreBlank ['\n'] := by unfold AreBlank; decide
  have row : Spaced AreBlank JavaType.boundedMap.tokens _ := .cons
    (.name [⟨"java".toList, by decide⟩, ⟨"util".toList, by decide⟩] ⟨"Map".toList, by decide⟩) space
    (.cons (.mark '<' rfl) none
    (.cons (.bounded .upper space) ⟨feed, List.cons_ne_nil _ _⟩
    (.cons (.name [⟨"a".toList, by decide⟩] ⟨"B".toList, by decide⟩) space
    (.cons (.mark ',' rfl) space
    (.cons (.name [] ⟨"int".toList, by decide⟩) space
    (.cons (.mark '[' rfl) space
    (.cons (.mark ']' rfl) none
    (.last (.mark '>' rfl)))))))))
  have spelled := JavaType.Spelling.intro space space row
  have translated : (JavaType.boundedMap.translation .standard).text =
      "\x7b [key: B]: number[] \x7d" := by decide
  exact ⟨spelled, (mapType_clean_of_spelling .standard _ _ spelled).trans translated⟩

end InterfaceGen.Types
