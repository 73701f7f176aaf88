import InterfaceGen.Proofs.Engine.Closed
import InterfaceGen.Proofs.Engine.Outcomes

/-!
# What locations can change

Where known types are declared, and where a source is, has no influence on how the source is read:
`declaration_located`. It shows in the paths of the imports and nowhere else: `sameButPaths_explain`. So
all entry points agree on what follows the imports: `locations_apart`.
-/

namespace InterfaceGen

open InterfaceGen.Text InterfaceGen.Types InterfaceGen.Source

/-! ## Other locations of known types -/

namespace TypeSystem

/-- The same types with these locations. -/
def located (types : TypeSystem) (registry : List (String × String)) : TypeSystem :=
  { types with registry }

variable (types : TypeSystem) (registry : List (String × String))

theorem mapPlain_located (text : List Char) :
    (types.located registry).mapPlain text = types.mapPlain text := by
  induction text using Layer.induction with
  | step text ih =>
    rw [mapPlain_layer, mapPlain_layer, List.map_congr_left ih]
    cases Layer.ofText text <;> rfl

/-- Types are mapped in the same way, wherever they are declared. -/
theorem mapType_located (text : String) :
    (types.located registry).mapType text = types.mapType text :=
  types.mapPlain_located registry _

/-- A walk through several texts, each of which is walked through in the same way. -/
theorem collectEach_congr {types other : TypeSystem} {texts : List (List Char)}
    (each : ∀ text ∈ texts, ∀ known, other.collectPlain text known = types.collectPlain text known)
    (known : List String) : other.collectEach texts known = types.collectEach texts known := by
  induction texts generalizing known with
  | nil => rfl
  | cons text texts ih =>
    obtain ⟨first, rest⟩ := List.forall_mem_cons.1 each
    show other.collectEach texts (other.collectPlain text known) = _
    rw [first, ih rest]
    rfl

theorem collectPlain_located (text : List Char) (known : List String) :
    (types.located registry).collectPlain text known = types.collectPlain text known := by
  induction text using IsPart.induction generalizing known with
  | step text ih =>
    rw [collectPlain_visit, collectPlain_visit]
    exact collectEach_congr (fun part member => ih part (isPart_of_mem_visit member)) _

/-- The dependencies of a class have nothing to do with where types are declared. -/
theorem declarationDependencies_located (fields : List (String × String))
    (supertype : Option String) :
    (types.located registry).declarationDependencies fields supertype =
      types.declarationDependencies fields supertype := by
  have collected : ∀ text known, (types.located registry).collectDependencies text known =
      types.collectDependencies text known :=
    fun text known => types.collectPlain_located registry _ known
  simp only [declarationDependencies, collected]
  rfl

end TypeSystem

theorem Source.FieldList.ofText_located (text : String) (types : TypeSystem)
    (registry : List (String × String)) :
    FieldList.ofText text (types.located registry) = FieldList.ofText text types := by
  have read : ∀ found : FieldList.Found,
      found.field? (types.located registry) = found.field? types := by
    intro found
    rw [FieldList.Found.field?, FieldList.Found.field?]
    simp only [types.mapType_located registry]
  simp only [FieldList.ofText, read]

/-! ## Imports and what follows them -/

/-- The text of the imports, with the empty line behind them. -/
def prologue (imports : List Import) : String :=
  unlines (importLines imports)

namespace Engine

/-- An engine that knows these locations of types. -/
def located (e : Engine) (registry : List (String × String)) : Engine :=
  { e with types := e.types.located registry }

/-- The imports stand in front of the text that a class has without any. -/
theorem write_dataClass (imports : List Import) (name : String) (supertype : Option String)
    (fields : List Field) :
    write imports (.dataClass name supertype fields) =
      prologue imports ++ write [] (.dataClass name supertype fields) := by
  show unlines (importLines imports ++ _ ++ _) = _ ++ unlines (importLines [] ++ _ ++ _)
  rw [List.append_assoc, unlines_append]
  rfl

/-- Without imports a declaration begins with its keyword. -/
theorem export_write (d : Declaration) : "export ".toList <+: (write [] d).toList := by
  have headed : ∀ (keyword : String) (name rest : List Char) (header : String)
      (lines : List String), "export ".toList <+: keyword.toList →
      header.toList = keyword.toList ++ (name ++ rest) →
      "export ".toList <+: (unlines (header :: lines)).toList := by
    intro keyword name rest header lines begins same
    rw [unlines_cons, same, List.append_assoc]
    exact begins.trans (List.prefix_append _ _)
  cases d with
  | dataClass name supertype fields =>
    exact headed "export interface " _ _ _ _ (by decide) (Interface.header_toList _)
  | enumeration enum =>
    refine headed "export enum " enum.name.toList " \x7b".toList _ _ (by decide) ?_
    simp only [String.toList_append, List.append_assoc]

section Located

variable (e : Engine) (registry : List (String × String)) (code : String)

/-- A source declares the same, wherever types are declared. -/
theorem declaration_located : (e.located registry).declaration code = e.declaration code := by
  have fields : ∀ text, FieldList.ofText text (e.located registry).types =
      FieldList.ofText text e.types := fun text => FieldList.ofText_located text e.types registry
  simp only [declaration, fields]
  rfl

/-- It is written in the same way with the same imports. -/
theorem conversion_located (imports : List Import) :
    (e.located registry).conversion code imports = e.conversion code imports := by
  have needed : ∀ d, (e.located registry).dependencies d = e.dependencies d := by
    intro d
    cases d with
    | dataClass name supertype fields =>
      exact e.types.declarationDependencies_located registry _ supertype
    | enumeration enum => rfl
  simp only [conversion, declaration_located, needed]
  rfl

end Located

/-- The imports that a fresh engine writes before a declaration. -/
def freshImports (e : Engine) (code : String) (location : Option String) (withImports : Bool) :
    List Import :=
  if withImports then e.types.imports (e.conversion code []).dependencies location else []

section Fresh

variable (e : Engine) (code : String) (location : Option String) (withImports : Bool)

/-- The dependencies are names, each once, and none of them is built in. -/
theorem dependencies_conversion :
    (e.conversion code []).dependencies.Nodup ∧
      ∀ n ∈ (e.conversion code []).dependencies, n ≠ "" ∧ e.types.isBuiltIn n = false := by
  rw [conversion]
  split
  · exact ⟨List.nodup_nil, List.forall_mem_nil _⟩
  · split
    · exact ⟨List.nodup_nil, List.forall_mem_nil _⟩
    · next d read =>
      cases d with
      | enumeration enum => exact ⟨List.nodup_nil, List.forall_mem_nil _⟩
      | dataClass name supertype fields =>
        obtain ⟨nodup, facts⟩ := e.dependencies_dataClass name supertype fields
        exact ⟨nodup, fun n hn => ⟨(facts n hn).1, (facts n hn).2.1⟩⟩

/-- The imports are named as the dependencies, whatever the location is. -/
theorem names_freshImports :
    (e.freshImports code location withImports).map (·.name) =
      if withImports then (e.conversion code []).dependencies else [] := by
  obtain ⟨nodup, new⟩ := e.dependencies_conversion code
  rw [freshImports]
  split
  · exact TypeSystem.names_imports_of_nodup nodup new location
  · rfl

/-- A source that is large enough and declares something is converted. -/
theorem conversion_of_read {d : Declaration} (large : e.isTooSmall code = false)
    (read : e.declaration code = .ok d) (imports : List Import) :
    e.conversion code imports = .converted (write imports d) (e.dependencies d) := by
  rw [conversion, large, read]
  rfl

/-- What a fresh engine makes of a source. -/
theorem explain_empty :
    (e.explain code location withImports .empty).1 =
      e.conversion code (e.freshImports code location withImports) := by
  cases small : e.isTooSmall code with
  | true => rw [explain_eq, conversion, conversion, if_pos small, if_pos small]
  | false =>
    cases read : e.declaration code with
    | error failure => simp only [explain_eq, conversion, read]
    | ok d =>
      rw [e.conversion_of_read code small read, freshImports, e.conversion_of_read code small read]
      cases withImports with
      | true => exact e.explain_fresh small read location
      | false =>
        have unasked : e.request? code location false = none := by
          rw [request?, small, read]
          rfl
        rw [explain_eq, unasked, e.conversion_of_read code small read]
        rfl

/-- The written text is the imports, and behind them what is written without imports. -/
theorem output?_conversion :
    (e.conversion code (e.freshImports code location withImports)).output? =
      (e.conversion code []).output?.map
        (prologue (e.freshImports code location withImports) ++ ·) := by
  cases small : e.isTooSmall code with
  | true =>
    rw [conversion, conversion, if_pos small, if_pos small]
    rfl
  | false =>
    cases read : e.declaration code with
    | error failure =>
      simp only [conversion, small, read, Bool.false_eq_true, if_false]
      rfl
    | ok d =>
      rw [e.conversion_of_read code small read, e.conversion_of_read code small read]
      refine congrArg some ?_
      cases d with
      | dataClass name supertype fields => exact write_dataClass _ name supertype fields
      | enumeration enum =>
        -- An enum depends on nothing, so nothing stands before it.
        have none : e.freshImports code location withImports = [] := by
          rw [freshImports, e.conversion_of_read code small read]
          cases withImports <;> rfl
        rw [none]
        exact (String.empty_append).symm

end Fresh

/-! ## All entry points -/

/-- Two outcomes that differ at most in the paths of imports. -/
structure SameButPaths (one other : Conversion) : Prop where
  status : one.status = other.status
  reason : one.reason? = other.reason?
  dependencies : one.dependencies = other.dependencies
  /-- The texts, if there are any, are the same after imports of the same names. -/
  outputs : ∃ (imports imports' : List Import) (declared? : Option String),
    imports.map (·.name) = imports'.map (·.name) ∧
      one.output? = declared?.map (prologue imports ++ ·) ∧
      other.output? = declared?.map (prologue imports' ++ ·) ∧
      ∀ declared ∈ declared?, "export ".toList <+: declared.toList

section EntryPoints

variable (e : Engine) (registry : List (String × String)) (code : String)
  (location : Option String) (withImports : Bool)

/-- A fresh engine explains a source with the imports of its own registry. -/
theorem explain_located :
    ((e.located registry).explain code location withImports .empty).1 =
      e.conversion code ((e.located registry).freshImports code location withImports) := by
  rw [explain_empty, conversion_located]

/-- The names of these imports are the dependencies of the source. -/
theorem names_freshImports_located :
    ((e.located registry).freshImports code location withImports).map (·.name) =
      if withImports then (e.conversion code []).dependencies else [] := by
  rw [names_freshImports, conversion_located]

/-- The text is that without imports, with these in front. -/
theorem output?_explain_located :
    ((e.located registry).explain code location withImports .empty).1.output? =
      (e.conversion code []).output?.map
        (prologue ((e.located registry).freshImports code location withImports) ++ ·) := by
  rw [explain_empty, output?_conversion, conversion_located]

/-- The imports have nothing to do with whether a source is converted, and with what it depends
on. -/
theorem status_conversion (imports : List Import) :
    (e.conversion code imports).status = (e.conversion code []).status ∧
      (e.conversion code imports).dependencies = (e.conversion code []).dependencies := by
  unfold conversion
  split
  · exact ⟨rfl, rfl⟩
  · split
    · exact ⟨rfl, rfl⟩
    · exact ⟨rfl, rfl⟩

/-- What follows the imports begins with a keyword that no import has. -/
theorem export_of_output? :
    ∀ declared ∈ (e.conversion code []).output?, "export ".toList <+: declared.toList := by
  intro declared h
  rw [conversion] at h
  split at h
  · cases h
  · split at h
    · cases h
    · next d read =>
      cases h
      exact export_write d

/-- Registered locations, and the location of the source, change nothing but paths of imports. -/
theorem sameButPaths_explain (registry' : List (String × String)) (location' : Option String) :
    SameButPaths ((e.located registry).explain code location withImports .empty).1
      ((e.located registry').explain code location' withImports .empty).1 where
  status := by
    rw [explain_located, explain_located, (e.status_conversion code _).1,
      ← (e.status_conversion code _).1]
  reason := by rw [explain_located, explain_located, reason?_conversion, ← reason?_conversion]
  dependencies := by
    rw [explain_located, explain_located, (e.status_conversion code _).2,
      ← (e.status_conversion code _).2]
  outputs := by
    refine ⟨(e.located registry).freshImports code location withImports,
      (e.located registry').freshImports code location' withImports, (e.conversion code []).output?,
      ?_, ?_, ?_, e.export_of_output? code⟩
    · rw [names_freshImports_located, names_freshImports_located]
    · exact e.output?_explain_located registry code location withImports
    · exact e.output?_explain_located registry' code location' withImports

/-- So it is for `convert`. -/
theorem convert_empty :
    (e.convert code location .empty).1 =
      (e.conversion code []).output?.map (prologue (e.freshImports code location true) ++ ·) := by
  show e.fresh code location = _
  rw [fresh_eq_explain, explain_empty, output?_conversion]

/-- Where no mark is found, the fast conversion gives a reason where nothing is written. -/
theorem isSome_fastReason?_of_unmarked (unmarked : isSkipped code = false) :
    (e.fastReason? code).isSome = (e.conversion code []).output?.isNone := by
  unfold fastReason?
  by_cases small : e.isTooSmall code = true
  · rw [if_pos small, conversion, if_pos small]
    rfl
  · rw [if_neg small, if_neg (Bool.eq_false_iff.1 unmarked)]
    cases e.conversion code [] <;> rfl

/-- So it is for the fast conversion of a source without marks, which has imports if it has a
location. -/
theorem convertFast_empty {declared : String} (unmarked : isSkipped code = false)
    (written : (e.conversion code []).output? = some declared) :
    (e.convertFast code location .empty).1 =
      prologue (e.freshImports code location location.isSome) ++ declared := by
  have reason : e.fastReason? code = none := by
    rw [← Option.not_isSome_iff_eq_none, isSome_fastReason?_of_unmarked e code unmarked, written]
    exact Bool.false_ne_true
  obtain ⟨dependencies, outcome⟩ : ∃ dependencies, (e.explain code location location.isSome .empty).1 =
      .converted (e.convertFast code location .empty).1 dependencies :=
    convertFast_of_reason_none reason
  have output := e.output?_conversion code location location.isSome
  rw [← explain_empty, outcome, written] at output
  exact Option.some.inj output

end EntryPoints

/-- Two fresh engines with the same types explain a source in the same way, wherever the types are
declared and the source is: their texts differ at most in the paths of the imports. And if no mark
lets the fast conversion pass over the source, it fails where `convert` does, and writes what
`convert` writes; without a location, all that follows the imports. -/
theorem locations_apart (e : Engine) (code : String) :
    (∀ registry registry' location location' withImports,
      SameButPaths ((e.located registry).explain code location withImports .empty).1
        ((e.located registry').explain code location' withImports .empty).1) ∧
      (isSkipped code = false → ∀ location,
        ((e.convert code location .empty).1 = none ↔
          isSentinel (some (e.convertFast code location .empty).1) = true) ∧
        ∀ output, (e.convert code location .empty).1 = some output →
          (location ≠ none → (e.convertFast code location .empty).1 = output) ∧
          output = prologue (e.freshImports code location true) ++
            (e.convertFast code none .empty).1) := by
  refine ⟨fun registry registry' location location' withImports =>
    e.sameButPaths_explain registry code location withImports registry' location', ?_⟩
  intro unmarked location
  have converted := e.convert_empty code location
  constructor
  · rw [converted, Option.map_eq_none_iff, isSentinel_convertFast,
      isSome_fastReason?_of_unmarked e code unmarked, Option.isNone_iff_eq_none]
  · intro output written
    rw [converted] at written
    obtain ⟨declared, plain, rfl⟩ := Option.map_eq_some_iff.1 written
    constructor
    · intro placed
      have some : location.isSome = true := Option.isSome_iff_ne_none.2 placed
      rw [e.convertFast_empty code location unmarked plain, some]
    · have bare := e.convertFast_empty code none unmarked plain
      have empty : prologue (e.freshImports code none false) = "" := rfl
      rw [bare, Option.isSome_none, empty, String.empty_append]

/-- A class with a field of a type that is declared elsewhere. -/
def orderSource : String :=
  "class Order \x7b private Money price; \x7d"

/-- The two registries and locations change only paths, and both conversions write the same. -/
theorem locations_apart_order :
    SameButPaths
        ((standard.located [("Money", "b/Money")]).explain orderSource (some "a/Order") true .empty).1
        ((standard.located []).explain orderSource none true .empty).1 ∧
      (standard.convert orderSource (some "a/Order") .empty).1 =
        some (standard.convertFast orderSource (some "a/Order") .empty).1 := by
  obtain ⟨explained, converted⟩ := locations_apart standard orderSource
  refine ⟨explained _ _ _ _ _, ?_⟩
  obtain ⟨none_iff, agree⟩ := converted (by decide +kernel) (some "a/Order")
  have declared : isSentinel (some (standard.convertFast orderSource (some "a/Order") .empty).1) =
      false := by
    rw [isSentinel_convertFast]
    decide +kernel
  cases written : (standard.convert orderSource (some "a/Order") .empty).1 with
  | none =>
    rw [none_iff.1 written] at declared
    cases declared
  | some output => rw [(agree output written).1 (by decide)]

/-- The paths differ. -/
example :
    (((standard.located [("Money", "b/Money")]).explain orderSource (some "a/Order") true
        .empty).1.output?,
      ((standard.located []).explain orderSource none true .empty).1.output?) =
      (some ("import \x7b Money \x7d from '../b/Money';\n\n" ++
          "export interface Order \x7b\n  price?: Money;\n\x7d\n"),
        some ("import \x7b Money \x7d from './Money';\n\n" ++
          "export interface Order \x7b\n  price?: Money;\n\x7d\n")) := by
  decide +kernel

end Engine
end InterfaceGen
