import InterfaceGen.Proofs.Engine.Prologue
import InterfaceGen.Proofs.Engine.Reading
import InterfaceGen.Proofs.Source.LastHeader
import InterfaceGen.Proofs.Source.Reading
import InterfaceGen.Proofs.Types.Remains

/-!
# Which names of a written class are resolved

A name that is built in is never imported, so where no table translates it, it stays in the output
and refers to nothing. `resolved_iff`: with the standard tables these are the only names in the type
of a field that are neither TypeScript names nor imported.
-/

namespace InterfaceGen.Engine

open InterfaceGen.Text InterfaceGen.Types

variable {e : Engine} {code name : String} {supertype : Option String} {fields : List Field}

/-- What holds of every class that is read from a source. -/
theorem facts_of_read (read : e.declaration code = .ok (.dataClass name supertype fields)) :
    supertype ≠ some "" ∧ ∀ f ∈ fields, f.mappedType = e.types.mapType f.declaredType := by
  obtain ⟨s, signed, rfl, rfl, rfl⟩ := signature_of_declaration read
  obtain ⟨header, -, rfl⟩ := Source.signature_eq_ok_iff.1 signed
  exact ⟨header.supertype_ne_empty, fun f hf => Source.FieldList.mappedType_of_mem hf⟩

/-- A fresh engine converts a source to the text that it explains it with. -/
theorem fresh_eq_explain (e : Engine) (code : String) (location : Option String) :
    e.fresh code location = (e.explain code location true .empty).1.output? := by
  rw [explain_eq]
  by_cases small : e.isTooSmall code = true
  · rw [fresh_small small, conversion, if_pos small]
    rfl
  · have large := Bool.eq_false_iff.2 small
    cases asked : e.request? code location true with
    | none => exact fresh_of_request_none large asked
    | some request =>
      rw [resolveIf_answer]
      exact fresh_of_request large asked

/-- What a fresh engine converts, it reports as converted. -/
theorem exists_explained {location output : String}
    (converted : (e.convert code (some location) .empty).1 = some output) :
    ∃ dependencies,
      (e.explain code (some location) true .empty).1 = .converted output dependencies := by
  have explained := e.fresh_eq_explain code (some location)
  rw [fresh, converted] at explained
  cases answer : (e.explain code (some location) true .empty).1 with
  | converted text dependencies =>
    rw [answer] at explained
    cases explained
    exact ⟨dependencies, rfl⟩
  | tooSmall | unsupported =>
    rw [answer] at explained
    cases explained

/-- Does the name refer to something in a written interface? -/
inductive IsResolved (interface : String) (imports : List Import) (name : String) : Prop where
  | target (h : name ∈ typeScriptNames)
  | own (h : name = interface)
  | imported (h : name ∈ imports.map (·.name))

section Imports

variable (e) (location : Option String)

/-- The imports of a class. -/
def classImports (name : String) (supertype : Option String) (fields : List Field) : List Import :=
  e.types.imports (e.dependencies (.dataClass name supertype fields)) location

variable {n : String}

/-- Every dependency of a class is imported. -/
theorem isResolved_of_mem (h : n ∈ e.dependencies (.dataClass name supertype fields)) :
    IsResolved name (e.classImports location name supertype fields) n := by
  rw [← e.names_imports_dataClass name supertype fields location] at h
  exact .imported h

/-- What is imported is not built in. -/
theorem cases_of_isResolved (builtIn : e.types.isBuiltIn n = true)
    (h : IsResolved name (e.classImports location name supertype fields) n) :
    n ∈ typeScriptNames ∨ n = name := by
  cases h with
  | target h => exact .inl h
  | own h => exact .inr h
  | imported h =>
    rw [classImports, names_imports_dataClass] at h
    rw [((e.dependencies_dataClass name supertype fields).2 n h).2.1] at builtIn
    exact Bool.noConfusion builtIn

/-- The name behind extends. -/
theorem isResolved_supertype_iff (named : n ≠ "") :
    IsResolved name (e.classImports location name (some n) fields) n ↔
      e.types.isBuiltIn n = false ∨ n ∈ typeScriptNames ∨ n = name := by
  constructor
  · intro h
    by_cases builtIn : e.types.isBuiltIn n = true
    · exact .inr (e.cases_of_isResolved location builtIn h)
    · exact .inl (Bool.eq_false_iff.2 builtIn)
  · rintro (other | target | rfl)
    · exact e.isResolved_of_mem location (mem_dependencies_dataClass named other (.inl rfl))
    · exact .target target
    · exact .own rfl

end Imports

/-- The untranslated names are built in, so they are never imported, and are no TypeScript names. -/
theorem untranslated_facts :
    ∀ n ∈ untranslated, TypeSystem.standard.isBuiltIn n = true ∧ n ∉ typeScriptNames := by
  decide

/-- A name in the translation of a field type that is built of class names, primitive types and
containers. -/
theorem isResolved_translation_iff {location : Option String} {f : Field} (hf : f ∈ fields)
    {t : JavaType} (simple : t.IsSimple) (canonical : f.declaredType = t.toString) {n : String}
    (hn : n ∈ (t.translation .standard).names) :
    IsResolved name (standard.classImports location name supertype fields) n ↔
      n ∉ untranslated ∨ n = name := by
  constructor
  · intro h
    by_cases left : n ∈ untranslated
    · obtain ⟨builtIn, other⟩ := untranslated_facts n left
      exact .inr ((standard.cases_of_isResolved location builtIn h).resolve_left other)
    · exact .inl left
  · rintro (translated | rfl)
    · cases t.remains_translation simple n hn with
      | target h => exact .target h
      | untranslated h => exact absurd h translated
      | dependency listed h =>
        rw [TypeSystem.isDependency, Bool.and_eq_true, Bool.not_eq_true'] at h
        have nonempty : n ≠ "" := by
          rintro rfl
          exact absurd h.1 (by decide)
        refine standard.isResolved_of_mem location
          (mem_dependencies_dataClass nonempty h.2 (.inr ?_))
        exact ⟨isPlain_standard, h.1, f, hf, t, canonical, listed⟩
    · exact .own rfl

/-- In the text of a class that a fresh engine writes, a type name is resolved unless a gap between
the standard tables leaves it: in the type of a field that is built of class names, primitive types
and containers, the untranslated names, and in the extends clause, the built-in names that are no
TypeScript names. -/
theorem resolved_iff (code location : String) {output name : String} {supertype : Option String}
    {fields : List Field}
    (converted : (standard.convert code (some location) .empty).1 = some output)
    (read : standard.declaration code = .ok (.dataClass name supertype fields)) :
    ∃ imports, output = Interface.render ⟨name, supertype, fields.map (·.toProperty)⟩ imports ∧
      (∀ f ∈ fields, ∀ t : JavaType, t.IsSimple → f.declaredType = t.toString →
        f.mappedType = (t.translation .standard).text ∧
        ∀ n ∈ (t.translation .standard).names,
          IsResolved name imports n ↔ n ∉ untranslated ∨ n = name) ∧
      ∀ n, supertype = some n →
        (IsResolved name imports n ↔
          TypeSystem.standard.isBuiltIn n = false ∨ n ∈ typeScriptNames ∨ n = name) := by
  obtain ⟨dependencies, answer⟩ := exists_explained converted
  obtain ⟨text, rfl⟩ := eq_of_converted answer read
  obtain ⟨named, mapped⟩ := facts_of_read read
  refine ⟨standard.classImports (some location) name supertype fields, text,
    fun f hf t simple canonical => ⟨?_, fun n hn => ?_⟩, ?_⟩
  · rw [mapped f hf, canonical]
    exact t.mapType_toString .standard
  · exact isResolved_translation_iff hf simple canonical hn
  · rintro n rfl
    have nonempty : n ≠ "" := by
      rintro rfl
      exact named rfl
    exact standard.isResolved_supertype_iff (some location) nonempty

/-- A class with a list whose container is built in and not translated. -/
def queueSource : String :=
  "public class Queue \x7b private LinkedList<Item> items; \x7d"

/-- The field of the class. -/
def queueField : Field where
  externalName := "items"
  mappedType := "LinkedList<Item>"
  isOptional := true
  declaredType := "LinkedList<Item>"
  sourceName := "items"

/-- The type `LinkedList<Item>`. -/
def linkedItems : JavaType :=
  .generic ⟨"LinkedList".toList, Eq.refl true⟩
    (.last (.exactly (.name ⟨"Item".toList, Eq.refl true⟩)))

theorem isSimple_linkedItems : linkedItems.IsSimple := by
  refine ⟨.inl ⟨by decide, rfl⟩, .inr ⟨by decide, by decide, by decide⟩⟩

/-- What a fresh engine writes for it. -/
def queueText : String :=
  "import \x7b Item \x7d from './Item';\n\nexport interface Queue \x7b\n" ++
    "  items?: LinkedList<Item>;\n\x7d\n"

/-- The element type is imported, the container is not resolved. -/
theorem resolved_iff_queue :
    ∃ imports, queueText =
        Interface.render ⟨"Queue", none, [queueField.toProperty]⟩ imports ∧
      IsResolved "Queue" imports "Item" ∧ ¬ IsResolved "Queue" imports "LinkedList" := by
  have converted : (standard.convert queueSource (some "model/Queue") .empty).1 =
      some queueText := by
    decide +kernel
  have read : standard.declaration queueSource = .ok (.dataClass "Queue" none [queueField]) := by
    decide +kernel
  obtain ⟨imports, text, fields, -⟩ := resolved_iff queueSource "model/Queue" converted read
  obtain ⟨-, resolved⟩ :=
    fields queueField (List.mem_singleton_self _) linkedItems isSimple_linkedItems (by decide)
  refine ⟨imports, text, (resolved "Item" (by decide)).2 (.inl (by decide)), fun h => ?_⟩
  exact absurd ((resolved "LinkedList" (by decide)).1 h) (by decide)

/-- A list that is neither translated nor imported. -/
theorem linkedList_unresolved :
    (standard.convert "public class Queue \x7b private LinkedList<String> items; \x7d"
        (some "model/Queue") .empty).1 =
      some "export interface Queue \x7b\n  items?: LinkedList<string>;\n\x7d\n" ∧
    "LinkedList" ∉ typeScriptNames ∧ "LinkedList" ≠ "Queue" := by
  refine ⟨?_, by decide, by decide⟩
  decide +kernel

end InterfaceGen.Engine
