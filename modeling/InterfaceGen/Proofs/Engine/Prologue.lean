import InterfaceGen.Proofs.Engine.Transparency
import InterfaceGen.Proofs.Imports.Resolution
import InterfaceGen.Proofs.Types.Mentions
import InterfaceGen.Proofs.Types.References

/-!
# What the text of a class imports

A fresh engine writes one import for each dependency of a class and no other. Dependencies are read
off the field types and the extends clause alone: a name that is declared in the source itself, as
the class or as one of its type parameters, is imported as any other if it is mentioned there, and
not otherwise (`imports_mentioned`).
-/

namespace InterfaceGen.Types

open InterfaceGen.Text TypeSystem

variable {types : TypeSystem}

/-- Where a field declares the canonical text of a type, its walk notes the names of the type. -/
theorem mem_fields_of_mem_names (plain : types.IsPlain) {fields : List (String × String)}
    {f : String × String} (hf : f ∈ fields) {t : JavaType} (canonical : f.2 = t.toString)
    {n : String} (hn : n ∈ t.names) (dependency : types.isDependency n = true)
    (known : List String) :
    n ∈ fields.foldl (fun known f =>
      types.collectDependencies f.2 (types.collectDependencies f.1 known)) known := by
  obtain ⟨front, back, rfl⟩ := List.append_of_mem hf
  obtain ⟨others, -, noted⟩ := exists_noted_fields types back
  rw [List.foldl_append, List.foldl_cons, noted, mem_foldl_note, canonical,
    t.collectDependencies_toString plain, mem_foldl_note]
  exact .inl (.inr ⟨hn, dependency⟩)

/-- The dependencies of a declaration are its supertype, and class names that its field types mention;
none of them is built in. -/
theorem facts_of_mem_declarationDependencies {fields : List (String × String)}
    {supertype : Option String} {n : String}
    (hn : n ∈ types.declarationDependencies fields supertype) :
    n ≠ "" ∧ types.isBuiltIn n = false ∧
      (supertype = some n ∨ isClassName n.toList = true ∧
        ∃ f ∈ fields, Mentions f.1 n ∨ Mentions f.2 n) := by
  obtain ⟨names, mentioned, noted⟩ := exists_noted_fields types fields
  -- What is noted is a class name, so only the supertype can be anything else.
  have byFields : n ∈ names.foldl types.note [] → n ≠ "" ∧ types.isBuiltIn n = false ∧
      (supertype = some n ∨ isClassName n.toList = true ∧
        ∃ f ∈ fields, Mentions f.1 n ∨ Mentions f.2 n) := by
    intro hn
    obtain ⟨listed, dependency⟩ := (mem_foldl_note.1 hn).resolve_left List.not_mem_nil
    rw [isDependency, Bool.and_eq_true, Bool.not_eq_true'] at dependency
    refine ⟨?_, dependency.2, .inr ⟨dependency.1, mentioned n listed⟩⟩
    rintro rfl
    exact absurd dependency.1 (by decide)
  unfold declarationDependencies at hn
  simp only [noted] at hn
  cases supertype with
  | none => exact byFields hn
  | some name =>
    dsimp only at hn
    split at hn
    · exact byFields hn
    · next new =>
      rcases mem_record.1 hn with hn | rfl
      · exact byFields hn
      · exact ⟨fun empty => new (.inl empty), Bool.eq_false_iff.2 fun known => new (.inr known),
          .inl rfl⟩

/-- What a declaration depends on for sure. -/
theorem mem_declarationDependencies_of {fields : List (String × String)}
    {supertype : Option String} {n : String} (named : n ≠ "") (new : types.isBuiltIn n = false)
    (h : supertype = some n ∨ types.IsPlain ∧ isClassName n.toList = true ∧
      ∃ f ∈ fields, ∃ t : JavaType, f.2 = t.toString ∧ n ∈ t.names) :
    n ∈ types.declarationDependencies fields supertype := by
  unfold declarationDependencies
  rcases h with rfl | ⟨plain, className, f, hf, t, canonical, hn⟩
  · dsimp only
    rw [if_neg (not_or.2 ⟨named, Bool.eq_false_iff.1 new⟩), mem_record]
    exact .inr rfl
  · have dependency : types.isDependency n = true := by
      rw [isDependency, className, new]
      rfl
    have listed := mem_fields_of_mem_names plain hf canonical hn dependency []
    cases supertype with
    | none => exact listed
    | some name =>
      dsimp only
      split
      · exact listed
      · exact mem_record.2 (.inl listed)

end InterfaceGen.Types

namespace InterfaceGen

/-- A list without repetitions stays as it is. -/
theorem eraseDups_of_nodup {α : Type} [DecidableEq α] {list : List α} (h : list.Nodup) :
    list.eraseDups = list := by
  induction list with
  | nil => rfl
  | cons a list ih =>
    obtain ⟨absent, rest⟩ := List.nodup_cons.1 h
    have kept : (list.filter fun b => !b == a) = list := by
      refine List.filter_eq_self.2 fun b hb => ?_
      have differ : b ≠ a := by
        rintro rfl
        exact absent hb
      simp [differ]
    rw [List.eraseDups_cons, kept, ih rest]

/-- Names that are to be imported are imported as they stand. -/
theorem TypeSystem.names_imports_of_nodup {types : TypeSystem} {dependencies : List String}
    (nodup : dependencies.Nodup)
    (new : ∀ n ∈ dependencies, n ≠ "" ∧ types.isBuiltIn n = false) (location : Option String) :
    (types.imports dependencies location).map (·.name) = dependencies := by
  have kept : (dependencies.filter fun n => n ≠ "" && !types.isBuiltIn n) = dependencies := by
    refine List.filter_eq_self.2 fun n hn => ?_
    obtain ⟨named, other⟩ := new n hn
    simp [named, other]
  rw [names_imports, kept, eraseDups_of_nodup nodup]

namespace Engine

open InterfaceGen.Text InterfaceGen.Types

variable {e : Engine} {code : String} {location : Option String}

/-- What a fresh engine writes for a declaration, and what it says that it depends on. -/
theorem explain_fresh (large : e.isTooSmall code = false) {declaration : Declaration}
    (read : e.declaration code = .ok declaration) (location : Option String) :
    (e.explain code location true .empty).1 =
      .converted (write (e.types.imports (e.dependencies declaration) location) declaration)
        (e.dependencies declaration) := by
  have imports : (e.resolveIf (e.request? code location true) .empty).1 =
      e.types.imports (e.dependencies declaration) location := by
    have request : e.request? code location true =
        if (true && !(e.dependencies declaration).isEmpty) = true then
          some (e.dependencies declaration, location) else none := by
      simp only [request?, large, Bool.false_eq_true, if_false, read]
    rw [request]
    cases needed : e.dependencies declaration with
    | nil => rfl
    | cons first rest => exact e.resolveIf_answer .empty (first :: rest, location)
  rw [explain_eq, imports]
  simp only [conversion, large, Bool.false_eq_true, if_false, read]

/-- A source that is too small is not converted. -/
theorem isTooSmall_of_converted {caches : Caches} {withImports : Bool} {output : String}
    {dependencies : List String}
    (h : (e.explain code location withImports caches).1 = .converted output dependencies) :
    e.isTooSmall code = false := by
  apply Bool.eq_false_iff.2
  intro small
  rw [explain_eq, conversion, if_pos small] at h
  cases h

/-- The text that a fresh engine explains a source with, and the dependencies that it reports, are
those of the declaration that it reads. -/
theorem eq_of_converted {output : String} {dependencies : List String} {declaration : Declaration}
    (converted : (e.explain code location true .empty).1 = .converted output dependencies)
    (read : e.declaration code = .ok declaration) :
    output = write (e.types.imports dependencies location) declaration ∧
      dependencies = e.dependencies declaration := by
  have fresh := e.explain_fresh (isTooSmall_of_converted converted) read location
  rw [converted] at fresh
  obtain ⟨text, needed⟩ := Conversion.converted.inj fresh
  exact ⟨needed ▸ text, needed⟩

section Class

variable (e : Engine) (name : String) (supertype : Option String) (fields : List Field)

/-- The dependencies of a class, each once: its supertype, and class names that its field types
mention; none of them is built in. -/
theorem dependencies_dataClass :
    (e.dependencies (.dataClass name supertype fields)).Nodup ∧
      ∀ n ∈ e.dependencies (.dataClass name supertype fields),
        n ≠ "" ∧ e.types.isBuiltIn n = false ∧
          (supertype = some n ∨ isClassName n.toList = true ∧
            ∃ f ∈ fields, Mentions f.mappedType n ∨ Mentions f.declaredType n) := by
  refine ⟨nodup_declarationDependencies e.types _ supertype, fun n hn => ?_⟩
  obtain ⟨named, new, mentioned⟩ := facts_of_mem_declarationDependencies hn
  refine ⟨named, new, mentioned.imp_right fun ⟨className, f, hf, word⟩ => ⟨className, ?_⟩⟩
  obtain ⟨g, hg, rfl⟩ := List.mem_map.1 hf
  exact ⟨g, hg, word⟩

/-- The imports of a class are named as its dependencies. -/
theorem names_imports_dataClass (location : Option String) :
    (e.types.imports (e.dependencies (.dataClass name supertype fields)) location).map (·.name) =
      e.dependencies (.dataClass name supertype fields) := by
  obtain ⟨nodup, facts⟩ := e.dependencies_dataClass name supertype fields
  exact TypeSystem.names_imports_of_nodup nodup
    (fun n hn => ⟨(facts n hn).1, (facts n hn).2.1⟩) location

variable {e name supertype fields}

/-- What a class depends on for sure. -/
theorem mem_dependencies_dataClass {n : String} (named : n ≠ "")
    (new : e.types.isBuiltIn n = false)
    (h : supertype = some n ∨ e.types.IsPlain ∧ isClassName n.toList = true ∧
      ∃ f ∈ fields, ∃ t : JavaType, f.declaredType = t.toString ∧ n ∈ t.names) :
    n ∈ e.dependencies (.dataClass name supertype fields) := by
  refine mem_declarationDependencies_of named new (h.imp_right ?_)
  rintro ⟨plain, className, f, hf, t, canonical, hn⟩
  exact ⟨plain, className, _, List.mem_map.2 ⟨f, hf, rfl⟩, t, canonical, hn⟩

end Class

/-- The text of a class imports its dependencies, each once and no others. A name is among them only
if the extends clause or the text of a field type mentions it; and it is among them, be it declared
in the source itself or not, if the extends clause or the canonical text of a type mentions it and
it is not built in. -/
theorem imports_mentioned (e : Engine) (code : String) (location : Option String)
    {output name : String} {dependencies : List String} {supertype : Option String}
    {fields : List Field}
    (converted : (e.explain code location true .empty).1 = .converted output dependencies)
    (read : e.declaration code = .ok (.dataClass name supertype fields)) :
    let imports := e.types.imports dependencies location
    output = Interface.render ⟨name, supertype, fields.map (·.toProperty)⟩ imports ∧
      imports.map (·.name) = dependencies ∧ dependencies.Nodup ∧
      (∀ n ∈ dependencies, n ≠ "" ∧ e.types.isBuiltIn n = false ∧
        (supertype = some n ∨ isClassName n.toList = true ∧
          ∃ f ∈ fields, Mentions f.mappedType n ∨ Mentions f.declaredType n)) ∧
      ∀ n, n ≠ "" → e.types.isBuiltIn n = false →
        (supertype = some n ∨ e.types.IsPlain ∧ isClassName n.toList = true ∧
          ∃ f ∈ fields, ∃ t : JavaType, f.declaredType = t.toString ∧ n ∈ t.names) →
        n ∈ dependencies := by
  intro imports
  obtain ⟨text, rfl⟩ := eq_of_converted converted read
  obtain ⟨nodup, facts⟩ := e.dependencies_dataClass name supertype fields
  refine ⟨text, e.names_imports_dataClass name supertype fields location, nodup, facts, ?_⟩
  intro n named new mentioned
  exact mem_dependencies_dataClass named new mentioned

/-- A class that mentions itself and its type parameter. -/
def nodeSource : String :=
  "class Node<T> \x7b private Node<T> next; \x7d"

/-- The field of the class. -/
def nodeField : Field where
  externalName := "next"
  mappedType := "Node<T>"
  isOptional := true
  declaredType := "Node<T>"
  sourceName := "next"

theorem read_nodeSource :
    standard.declaration nodeSource = .ok (.dataClass "Node" none [nodeField]) := by
  decide +kernel

/-- The class and its type parameter are both imported, as names that the type mentions. -/
theorem imports_mentioned_node :
    ∃ output, (standard.explain nodeSource (some "a/Node") true .empty).1 =
        .converted output ["Node", "T"] ∧
      (standard.types.imports ["Node", "T"] (some "a/Node")).map (·.name) = ["Node", "T"] := by
  have large : standard.isTooSmall nodeSource = false := by decide +kernel
  have needed : standard.dependencies (.dataClass "Node" none [nodeField]) = ["Node", "T"] := by
    decide +kernel
  have converted := explain_fresh large read_nodeSource (some "a/Node")
  rw [needed] at converted
  obtain ⟨-, imported, -⟩ :=
    imports_mentioned standard nodeSource (some "a/Node") converted read_nodeSource
  exact ⟨_, converted, imported⟩

/-- It imports both. -/
theorem imports_own_names :
    (standard.explain nodeSource (some "a/Node") true .empty).1.output? =
      some ("import \x7b Node \x7d from './Node';\nimport \x7b T \x7d from './T';\n\n" ++
        "export interface Node \x7b\n  next?: Node<T>;\n\x7d\n") := by
  decide +kernel

end Engine

end InterfaceGen
