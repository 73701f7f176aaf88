import InterfaceGen.Proofs.Types.Walk

/-!
# What translations leave of the names of a type

The tables of built-in names, of mapped names and of containers are kept apart, and with the
standard ones `untranslated` lists the class names that are built in and that no other table
translates. `JavaType.remains_translation`: whatever name stands in the translation of a type is a
TypeScript name, is one of these, or is a dependency.
-/

namespace InterfaceGen.Types

open InterfaceGen.Text

/-! ## The names in a TypeScript type -/

mutual

/-- The type names in a TypeScript type; the key of an index signature has only a type. -/
def TargetType.names : TargetType → List String
  | .reference name => [name]
  | .generic name arguments => name :: arguments.names
  | .array element => element.names
  | .optional value => value.names ++ ["undefined"]
  | .index key value => key.names ++ value.names

def TargetTypes.names : TargetTypes → List String
  | .last t => t.names
  | .cons t rest => t.names ++ rest.names

end

/-- The TypeScript names that Java names are mapped to, and the one of an absent value. -/
def typeScriptNames : List String :=
  ["string", "number", "boolean", "Date", "any", "void", "undefined"]

/-- The class names that are never imported and that no table translates. -/
def untranslated : List String := ["LinkedList", "HashSet", "Class"]

/-! ## Types as data classes use them -/

/-- The primitive types. -/
def primitives : List String :=
  ["int", "long", "double", "float", "boolean", "char", "byte", "short"]

/-- The built-in containers of one argument. -/
def itemContainers : List String :=
  ["List", "ArrayList", "LinkedList", "Set", "HashSet", "Collection", "Optional"]

/-- The built-in containers of two arguments. -/
def entryContainers : List String := ["Map", "HashMap"]

/-- A class name that is no container. -/
structure IsPlainClass (name : String) : Prop where
  className : isClassName name.toList = true
  item : name ∉ itemContainers
  entry : name ∉ entryContainers

def TypeArguments.count : TypeArguments → Nat
  | .last _ => 1
  | .cons _ rest => rest.count + 1

/-- Can the name stand before that many arguments? A container has its own number of them, and a
class that is mapped to a TypeScript name has none. -/
def TakesArguments (name : String) (count : Nat) : Prop :=
  name ∈ itemContainers ∧ count = 1 ∨ name ∈ entryContainers ∧ count = 2 ∨
    IsPlainClass name ∧ TypeSystem.standardMapping.lookup name = none

mutual

/-- The type is built of primitive types, class names and containers, and each container has its
arguments. -/
def JavaType.IsSimple : JavaType → Prop
  | .name n => n.toString ∈ primitives ∨ IsPlainClass n.toString
  | .array element => element.IsSimple
  | .generic container arguments =>
    TakesArguments container.toString arguments.count ∧ arguments.AreSimple

def TypeArguments.AreSimple : TypeArguments → Prop
  | .last argument => argument.IsSimple
  | .cons argument rest => argument.IsSimple ∧ rest.AreSimple

def TypeArgument.IsSimple : TypeArgument → Prop
  | .exactly t => t.IsSimple
  | .wildcard => True
  | .bounded _ t => t.IsSimple

end

/-! ## What a translation leaves -/

/-- What can become of a name of a type: it is a TypeScript name, it was left untranslated, or it
is a dependency. -/
inductive Remains (names : List String) (name : String) : Prop where
  | target (h : name ∈ typeScriptNames)
  | untranslated (h : name ∈ Types.untranslated)
  | dependency (listed : name ∈ names) (h : TypeSystem.standard.isDependency name = true)

/-- With more names in the type there is no less that can become of one. -/
theorem Remains.mono {names more : List String} {name : String} (h : Remains names name)
    (part : names ⊆ more) : Remains more name := by
  cases h with
  | target h => exact .target h
  | untranslated h => exact .untranslated h
  | dependency listed h => exact .dependency (part listed) h

/-- The list of built-in names has the names that are built in. -/
theorem mem_builtInNames {types : TypeSystem} {name : String} :
    name ∈ types.builtInNames ↔ types.isBuiltIn name = true := by
  rw [TypeSystem.builtInNames, List.mem_eraseDups, TypeSystem.isBuiltIn, Bool.or_eq_true,
    List.contains_iff_mem, List.any_eq_true]
  simp only [List.mem_append, List.mem_map, Bool.or_eq_true, beq_iff_eq]
  constructor
  · rintro ((⟨entry, listed, same⟩ | ⟨entry, listed, same⟩) | extra)
    · exact .inr ⟨entry, listed, .inl same⟩
    · exact .inr ⟨entry, listed, .inr same⟩
    · exact .inl extra
  · rintro (extra | ⟨entry, listed, same | same⟩)
    · exact .inr extra
    · exact .inl (.inl ⟨entry, listed, same⟩)
    · exact .inl (.inr ⟨entry, listed, same⟩)

/-- The tables of built-in names and of mapped names differ in the untranslated names only. -/
theorem mem_untranslated_of_isBuiltIn {name : String}
    (builtIn : TypeSystem.standard.isBuiltIn name = true) (plain : IsPlainClass name)
    (unmapped : TypeSystem.standardMapping.lookup name = none) : name ∈ untranslated := by
  have table : ∀ name ∈ TypeSystem.standard.builtInNames, isClassName name.toList = true →
      name ∉ itemContainers → name ∉ entryContainers →
      TypeSystem.standardMapping.lookup name = none → name ∈ untranslated := by
    decide +kernel
  exact table name (mem_builtInNames.2 builtIn) plain.className plain.item plain.entry unmapped

/-- A plain class that is not mapped is untranslated or a dependency. -/
theorem remains_of_unmapped {name : String} {names : List String} (plain : IsPlainClass name)
    (unmapped : TypeSystem.standardMapping.lookup name = none) (listed : name ∈ names) :
    Remains names name := by
  by_cases builtIn : TypeSystem.standard.isBuiltIn name = true
  · exact .untranslated (mem_untranslated_of_isBuiltIn builtIn plain unmapped)
  · refine .dependency listed ?_
    rw [TypeSystem.isDependency, plain.className, Bool.eq_false_iff.2 builtIn]
    rfl

/-- The standard mapping maps to TypeScript names. -/
theorem mapped_facts :
    ∀ entry ∈ TypeSystem.standardMapping, entry.2 ≠ "" ∧ entry.2 ∈ typeScriptNames := by
  decide

/-- What becomes of a primitive type or a plain class. -/
theorem Identifier.remains {n : Identifier}
    (simple : n.toString ∈ primitives ∨ IsPlainClass n.toString) :
    Remains [n.toString] (n.translation .standard) := by
  rw [Identifier.translation]
  cases found : TypeSystem.standard.mapping.lookup n.toString with
  | some mapped =>
    obtain ⟨before, after, same, -⟩ := List.lookup_eq_some_iff.1 found
    have listed : (n.toString, mapped) ∈ TypeSystem.standardMapping := by
      rw [show TypeSystem.standardMapping = _ from same]
      exact List.mem_append_right _ (List.mem_cons_self ..)
    obtain ⟨nonempty, target⟩ := mapped_facts _ listed
    refine .target ?_
    simpa [Option.filter, nonempty] using target
  | none =>
    have plain : IsPlainClass n.toString := by
      refine simple.resolve_left fun primitive => ?_
      have mapped : ∀ name ∈ primitives, TypeSystem.standardMapping.lookup name ≠ none := by decide
      exact mapped _ primitive found
    exact remains_of_unmapped plain found (List.mem_singleton_self _)

/-- A container with its number of arguments leaves the names of its arguments, and itself where
it is untranslated or a dependency. -/
theorem remains_ofGeneric {container : String} {as : TargetTypes} {count : Nat}
    (takes : TakesArguments container count) (arity : as.texts.length = count)
    {names : List String} (inside : ∀ n ∈ as.names, Remains names n) :
    ∀ n ∈ (TargetType.ofGeneric container as).names, Remains (container :: names) n := by
  have wider : ∀ n ∈ as.names, Remains (container :: names) n :=
    fun n hn => (inside n hn).mono (List.subset_cons_self ..)
  have whole : Remains (container :: names) container →
      ∀ n ∈ (TargetType.generic container as).names, Remains (container :: names) n := by
    intro head n hn
    rcases List.mem_cons.1 hn with rfl | hn
    · exact head
    · exact wider n hn
  rcases takes with ⟨item, rfl⟩ | ⟨entry, rfl⟩ | ⟨plain, unmapped⟩
  · obtain ⟨t, rfl⟩ : ∃ t, as = .last t := by
      cases as with
      | last t => exact ⟨t, rfl⟩
      | cons t rest => cases rest <;> simp [TargetTypes.texts] at arity
    -- `LinkedList` and `HashSet` keep their names, the others are translated.
    simp only [itemContainers, List.mem_cons, List.not_mem_nil, or_false] at item
    rcases item with rfl | rfl | rfl | rfl | rfl | rfl | rfl
    · exact wider
    · exact wider
    · exact whole (.untranslated (by decide))
    · exact wider
    · exact whole (.untranslated (by decide))
    · exact wider
    · intro n hn
      rcases List.mem_append.1 hn with hn | hn
      · exact wider n hn
      · rw [List.mem_singleton.1 hn]
        exact .target (by decide)
  · obtain ⟨key, value, rfl⟩ : ∃ key value, as = .cons key (.last value) := by
      cases as with
      | last t => simp [TargetTypes.texts] at arity
      | cons key rest =>
        cases rest with
        | last value => exact ⟨key, value, rfl⟩
        | cons value more => cases more <;> simp [TargetTypes.texts] at arity
    simp only [entryContainers, List.mem_cons, List.not_mem_nil, or_false] at entry
    rcases entry with rfl | rfl
    · exact wider
    · exact wider
  · rcases TargetType.ofGeneric_cases container as with
      ⟨item, rfl, same | same⟩ | ⟨key, value, rfl, same⟩ | same
    all_goals rw [same]
    · exact wider
    · intro n hn
      rcases List.mem_append.1 hn with hn | hn
      · exact wider n hn
      · rw [List.mem_singleton.1 hn]
        exact .target (by decide)
    · exact wider
    · exact whole (remains_of_unmapped plain unmapped (List.mem_cons_self ..))

/-- A translation has as many arguments as the type. -/
theorem TypeArguments.length_texts_translation (types : TypeSystem) (as : TypeArguments) :
    (as.translation types).texts.length = as.count := by
  cases as with
  | last => rfl
  | cons _ rest => exact congrArg (· + 1) (rest.length_texts_translation types)

mutual

/-- No name of a simple type is lost on the way to the output but to a TypeScript name. -/
theorem JavaType.remains_translation :
    (t : JavaType) → t.IsSimple → ∀ n ∈ (t.translation .standard).names, Remains t.names n
  | .name n, h => by
    intro name hn
    rw [List.mem_singleton.1 hn]
    exact n.remains h
  | .array element, h => element.remains_translation h
  | .generic container arguments, h =>
    remains_ofGeneric h.1 (arguments.length_texts_translation _)
      (arguments.remains_translation h.2)

theorem TypeArguments.remains_translation :
    (as : TypeArguments) → as.AreSimple → ∀ n ∈ (as.translation .standard).names,
      Remains as.names n
  | .last argument, h => argument.remains_translation h
  | .cons argument rest, h => by
    intro n hn
    rcases List.mem_append.1 hn with hn | hn
    · exact (argument.remains_translation h.1 n hn).mono (List.subset_append_left _ _)
    · exact (rest.remains_translation h.2 n hn).mono (List.subset_append_right _ _)

theorem TypeArgument.remains_translation :
    (a : TypeArgument) → a.IsSimple → ∀ n ∈ (a.translation .standard).names, Remains a.names n
  | .exactly t, h => t.remains_translation h
  | .wildcard, _ => by
    intro n hn
    rw [List.mem_singleton.1 hn]
    exact .target (by decide)
  | .bounded _ t, h => t.remains_translation h

end

end InterfaceGen.Types
