import InterfaceGen.Proofs.Types.Translation

/-!
# The texts of translations

Where the tables of a type system hold nothing but names, the names in a translation are names
again, and its text has the form of an argument: trimmed, no wildcard in it, and each of its commas
inside angle brackets.
-/

namespace InterfaceGen.Types

open InterfaceGen.Text

/-- A plain name as a string. -/
def IsName (name : String) : Prop :=
  isHeadedBy isNameStart isNameChar name.toList = true

/-- The name as an identifier. -/
def IsName.identifier {name : String} (h : IsName name) : Identifier :=
  ⟨name.toList, h⟩

theorem IsName.toString_identifier {name : String} (h : IsName name) :
    h.identifier.toString = name :=
  String.ofList_toList

theorem Identifier.isName (n : Identifier) : IsName n.toString := by
  rw [IsName, Identifier.toString, String.toList_ofList]
  exact n.wellFormed

mutual

/-- All names in the type are plain. -/
def TargetType.WellNamed : TargetType → Prop
  | .reference name => IsName name
  | .generic name arguments => IsName name ∧ arguments.WellNamed
  | .array element => element.WellNamed
  | .optional value => value.WellNamed
  | .index key value => key.WellNamed ∧ value.WellNamed

def TargetTypes.WellNamed : TargetTypes → Prop
  | .last t => t.WellNamed
  | .cons t rest => t.WellNamed ∧ rest.WellNamed

end

/-- The shapes that the translation of a generic type can have. -/
theorem TargetType.ofGeneric_cases (container : String) (as : TargetTypes) :
    (∃ item, as = .last item ∧
      (ofGeneric container as = .array item ∨ ofGeneric container as = .optional item)) ∨
    (∃ key value, as = .cons key (.last value) ∧ ofGeneric container as = .index key value) ∨
    ofGeneric container as = .generic container as := by
  cases as with
  | last item =>
    rw [ofGeneric]
    split
    · exact .inl ⟨item, rfl, .inl rfl⟩
    · split
      · exact .inl ⟨item, rfl, .inr rfl⟩
      · exact .inr (.inr rfl)
  | cons key rest =>
    cases rest with
    | last value =>
      rw [ofGeneric]
      split
      · exact .inr (.inl ⟨key, value, rfl, rfl⟩)
      · exact .inr (.inr rfl)
    | cons value more => exact .inr (.inr rfl)

/-- In all the shapes of a generic type the names are plain. -/
theorem TargetType.WellNamed.ofGeneric {container : String} (name : IsName container)
    {as : TargetTypes} (h : as.WellNamed) : (TargetType.ofGeneric container as).WellNamed := by
  rcases TargetType.ofGeneric_cases container as with
    ⟨item, rfl, same | same⟩ | ⟨key, value, rfl, same⟩ | same
  · rw [same]
    exact h
  · rw [same]
    exact h
  · rw [same]
    exact h
  · rw [same]
    exact ⟨name, h⟩

end InterfaceGen.Types

namespace InterfaceGen

open InterfaceGen.Types

/-- The tables of mapped types and of further built-in names hold plain names only. -/
structure TypeSystem.IsPlain (types : TypeSystem) : Prop where
  mapping : ∀ entry ∈ types.mapping, IsName entry.1 ∧ IsName entry.2
  extraBuiltIns : ∀ name ∈ types.extraBuiltIns, IsName name

/-- What names are mapped to is plain names, or nothing. -/
def TypeSystem.MapsToNames (types : TypeSystem) : Prop :=
  ∀ entry ∈ types.mapping, entry.2 ≠ "" → IsName entry.2

theorem TypeSystem.IsPlain.mapsToNames {types : TypeSystem} (plain : types.IsPlain) :
    types.MapsToNames :=
  fun entry listed _ => (plain.mapping entry listed).2

theorem TypeSystem.IsPlain.isName {types : TypeSystem} (plain : types.IsPlain) {name : String}
    (h : types.isBuiltIn name = true) : IsName name := by
  rw [TypeSystem.isBuiltIn, Bool.or_eq_true, List.contains_iff_mem, List.any_eq_true] at h
  rcases h with extra | ⟨entry, listed, same⟩
  · exact plain.extraBuiltIns name extra
  · obtain ⟨key, value⟩ := plain.mapping entry listed
    rw [Bool.or_eq_true, beq_iff_eq, beq_iff_eq] at same
    rcases same with rfl | rfl
    · exact key
    · exact value

end InterfaceGen

namespace InterfaceGen.Types

open InterfaceGen.Text

/-- A name is translated to itself or to what an entry of the mapping gives it. -/
theorem Identifier.translation_cases (types : TypeSystem) (n : Identifier) :
    n.translation types = n.toString ∨
      ∃ entry ∈ types.mapping, entry.2 ≠ "" ∧ n.translation types = entry.2 := by
  rw [← plainName_eq_translation]
  refine (plainName_cases types n.toString).imp_right ?_
  rintro ⟨entry, listed, -, filled, same⟩
  exact ⟨entry, listed, filled, same⟩

/-- A name is translated to itself or to a built-in name. -/
theorem Identifier.translation_eq_or (types : TypeSystem) (n : Identifier) :
    n.translation types = n.toString ∨ types.isBuiltIn (n.translation types) = true := by
  rcases n.translation_cases types with same | ⟨entry, listed, -, same⟩
  · exact .inl same
  · refine .inr ?_
    rw [TypeSystem.isBuiltIn, Bool.or_eq_true]
    exact .inr (List.any_eq_true.2 ⟨entry, listed, by simp [same]⟩)

theorem Identifier.isName_translation {types : TypeSystem} (maps : types.MapsToNames)
    (n : Identifier) : IsName (n.translation types) := by
  rcases n.translation_cases types with same | ⟨entry, listed, nonempty, same⟩
  · rw [same]
    exact n.isName
  · rw [same]
    exact maps entry listed nonempty

mutual

/-- All names in a translation are plain. -/
theorem JavaType.wellNamed_translation {types : TypeSystem} (maps : types.MapsToNames) :
    (t : JavaType) → (t.translation types).WellNamed
  | .name n => n.isName_translation maps
  | .array element => element.wellNamed_translation maps
  | .generic container arguments =>
    .ofGeneric container.isName (arguments.wellNamed_translation maps)

theorem TypeArguments.wellNamed_translation {types : TypeSystem} (maps : types.MapsToNames) :
    (as : TypeArguments) → (as.translation types).WellNamed
  | .last argument => argument.wellNamed_translation maps
  | .cons argument rest => ⟨argument.wellNamed_translation maps, rest.wellNamed_translation maps⟩

theorem TypeArgument.wellNamed_translation {types : TypeSystem} (maps : types.MapsToNames) :
    (a : TypeArgument) → (a.translation types).WellNamed
  | .exactly t => t.wellNamed_translation maps
  | .wildcard => Identifier.object.isName_translation maps
  | .bounded _ t => t.wellNamed_translation maps

end

/-! ## The form of the texts -/

/-- A stretch of a translation's text. -/
structure IsStretch (text : List Char) : Prop where
  kept : KeptFrom 0 text
  wildcard : '?' ∉ text
  bracketed : ',' ∈ text → '<' ∈ text

namespace IsStretch

theorem of_forall {text : List Char} (h : ∀ c ∈ text, c ≠ '<' ∧ c ≠ '>' ∧ c ≠ ',' ∧ c ≠ '?') :
    IsStretch text where
  kept := .of_forall fun c hc => ⟨(h c hc).1, (h c hc).2.1, (h c hc).2.2.1⟩
  wildcard := fun hm => (h _ hm).2.2.2 rfl
  bracketed := fun hm => absurd rfl (h _ hm).2.2.1

/-- Two stretches one after the other. -/
theorem append {first second : List Char} (h1 : IsStretch first) (h2 : IsStretch second) :
    IsStretch (first ++ second) where
  kept := h1.kept.append h2.kept
  wildcard := by
    rw [List.mem_append]
    exact not_or.2 ⟨h1.wildcard, h2.wildcard⟩
  bracketed := by
    rw [List.mem_append, List.mem_append]
    exact Or.imp h1.bracketed h2.bracketed

end IsStretch

/-- The text of a translation. -/
structure IsTarget (text : List Char) : Prop extends IsStretch text, IsArgument text

namespace IsTarget

/-- A name is the text of a translation. -/
theorem name (n : Identifier) : IsTarget n.chars where
  toIsArgument := n.isArgument
  wildcard := fun hm => absurd (n.isNameChar_of_mem hm) (by decide)
  bracketed := fun hm => absurd (n.isNameChar_of_mem hm) (by decide)

theorem array {element : List Char} (h : IsTarget element) : IsTarget (element ++ "[]".toList) where
  toIsStretch := h.toIsStretch.append (.of_forall (by decide))
  trimmed := h.toIsArgument.array.trimmed
  nonempty := by simp

theorem optional {value : List Char} (h : IsTarget value) :
    IsTarget (value ++ " | undefined".toList) where
  toIsStretch := h.toIsStretch.append (.of_forall (by decide))
  trimmed := by
    have word : IsTrimmed "undefined".toList := isTrimmed_of_forall (by decide)
    exact @isTrimmed_append _ " | ".toList _ h.trimmed h.nonempty word (by decide)
  nonempty := by simp

theorem index {key value : List Char} (hk : IsTarget key) (hv : IsTarget value) :
    IsTarget ("\x7b [key: ".toList ++ (key ++ ("]: ".toList ++ (value ++ " \x7d".toList)))) where
  toIsStretch := by
    have opening : IsStretch "\x7b [key: ".toList := .of_forall (by decide)
    have between : IsStretch "]: ".toList := .of_forall (by decide)
    have closing : IsStretch " \x7d".toList := .of_forall (by decide)
    exact opening.append (hk.toIsStretch.append (between.append (hv.toIsStretch.append closing)))
  trimmed := by
    refine ⟨fun c hc => ?_, fun c hc => ?_⟩
    · cases hc
      decide
    · simp only [List.getLast?_append] at hc
      cases hc
      decide
  nonempty := by simp

theorem generic (n : Identifier) {texts : List (List Char)} (h : ∀ text ∈ texts, IsTarget text) :
    IsTarget (n.chars ++ '<' :: ([',', ' '].intercalate texts ++ ['>'])) where
  toIsArgument := n.isArgument_generic fun text ht => (h text ht).toIsArgument
  wildcard := by
    have inside : '?' ∉ [',', ' '].intercalate texts := by
      intro there
      rcases mem_of_mem_intercalate there with between | ⟨text, member, there⟩
      · exact absurd between (by decide)
      · exact (h text member).wildcard there
    simp [inside, (name n).wildcard]
  bracketed := fun _ => by simp

end IsTarget

theorem TargetType.toList_generic (name : String) (as : TargetTypes) :
    (TargetType.generic name as).text.toList =
      name.toList ++ '<' :: ([',', ' '].intercalate (as.texts.map String.toList) ++ ['>']) := by
  rw [TargetType.text_generic, toList_spellGeneric]

mutual

/-- The text of a well named translation is of this form. -/
theorem TargetType.isTarget_text : (t : TargetType) → t.WellNamed → IsTarget t.text.toList
  | .reference _, h => .name h.identifier
  | .generic name as, h => by
    rw [TargetType.toList_generic]
    exact .generic h.1.identifier (as.isTarget_texts h.2)
  | .array element, h => by
    rw [TargetType.text, String.toList_append]
    exact .array (element.isTarget_text h)
  | .optional value, h => by
    rw [TargetType.text, String.toList_append]
    exact .optional (value.isTarget_text h)
  | .index key value, h => by
    rw [TargetType.text]
    simp only [String.toList_append, List.append_assoc]
    exact .index (key.isTarget_text h.1) (value.isTarget_text h.2)

theorem TargetTypes.isTarget_texts :
    (as : TargetTypes) → as.WellNamed → ∀ text ∈ as.texts.map String.toList, IsTarget text
  | .last t, h => by
    intro text ht
    rw [List.mem_singleton.1 ht]
    exact t.isTarget_text h
  | .cons t rest, h => by
    intro text ht
    rcases List.mem_cons.1 ht with rfl | ht
    · exact t.isTarget_text h.1
    · exact rest.isTarget_texts h.2 text ht

end

end InterfaceGen.Types
