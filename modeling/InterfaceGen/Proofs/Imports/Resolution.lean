import InterfaceGen.Imports.Resolver
import InterfaceGen.Proofs.Imports.Path
import InterfaceGen.Proofs.Text.Trimming
import Mathlib.Data.List.Basic

/-!
# What a resolved list imports

A list of dependencies is resolved to one import for each name in it that is not built in, in the
order of first occurrences, and each import leads to its target: `resolve_leads`.
-/

namespace InterfaceGen

variable {α : Type} [DecidableEq α]

/-! ## The order of first occurrences -/

/-- Dropping other elements keeps the order of first occurrences. -/
theorem idxOf_lt_of_filter {p : α → Bool} {list : List α} {a b : α} (ha : p a = true)
    (hb : p b = true) (h : (list.filter p).idxOf a < (list.filter p).idxOf b) :
    list.idxOf a < list.idxOf b := by
  induction list with
  | nil => exact absurd h (Nat.lt_irrefl _)
  | cons c list ih =>
    by_cases kept : p c = true
    · rw [List.filter_cons_of_pos kept] at h
      by_cases first : c = a
      · subst first
        have differ : c ≠ b := by
          rintro rfl
          exact Nat.lt_irrefl _ h
        rw [List.idxOf_cons_self, List.idxOf_cons_ne _ differ]
        exact Nat.succ_pos _
      · by_cases second : c = b
        · subst second
          rw [List.idxOf_cons_self] at h
          exact absurd h (Nat.not_lt_zero _)
        · rw [List.idxOf_cons_ne _ first, List.idxOf_cons_ne _ second] at h ⊢
          exact Nat.succ_lt_succ (ih (Nat.lt_of_succ_lt_succ h))
    · rw [List.filter_cons_of_neg kept] at h
      have first : c ≠ a := by
        rintro rfl
        exact kept ha
      have second : c ≠ b := by
        rintro rfl
        exact kept hb
      rw [List.idxOf_cons_ne _ first, List.idxOf_cons_ne _ second]
      exact Nat.succ_lt_succ (ih h)

/-- Without repetitions, a list is in the order of first occurrences. -/
theorem pairwise_eraseDups :
    (list : List α) → list.eraseDups.Pairwise fun a b => list.idxOf a < list.idxOf b
  | [] => by simp
  | a :: list => by
    have shorter := List.length_filter_le (fun b => !b == a) list
    have later := pairwise_eraseDups (list.filter fun b => !b == a)
    have others : ∀ b ∈ (list.filter fun b => !b == a).eraseDups, b ≠ a := by
      intro b hb
      have kept := (List.mem_filter.1 (List.mem_eraseDups.1 hb)).2
      simpa using kept
    rw [List.eraseDups_cons, List.pairwise_cons]
    constructor
    · intro b hb
      rw [List.idxOf_cons_self, List.idxOf_cons_ne _ (others b hb).symm]
      exact Nat.succ_pos _
    · refine later.imp_of_mem fun {b c} hb hc earlier => ?_
      have lt := idxOf_lt_of_filter (by simpa using others b hb) (by simpa using others c hc)
        earlier
      rw [List.idxOf_cons_ne _ (others b hb).symm, List.idxOf_cons_ne _ (others c hc).symm]
      exact Nat.succ_lt_succ lt
termination_by list => list.length
decreasing_by
  simp only [List.length_cons]
  omega

namespace TypeSystem

open InterfaceGen.Text InterfaceGen.Location

variable {types : TypeSystem}

/-! ## The imported names -/

/-- An import has the name that it is made for. -/
theorem importOf_name (types : TypeSystem) (location : Option String) (name : String) :
    (types.importOf location name).name = name := by
  unfold importOf
  split
  · split <;> rfl
  · rfl

/-- The imported names are the dependencies that are not built in, each once, in their order. -/
theorem names_imports (types : TypeSystem) (dependencies : List String)
    (location : Option String) :
    (types.imports dependencies location).map (·.name) =
      (dependencies.filter fun name => name ≠ "" && !types.isBuiltIn name).eraseDups := by
  rw [imports, List.map_map]
  simp [Function.comp_def, importOf_name]

/-- A name is imported exactly if it is a dependency and not built in. -/
theorem mem_names_imports {dependencies : List String} {location : Option String} {name : String} :
    name ∈ (types.imports dependencies location).map (·.name) ↔
      name ∈ dependencies ∧ name ≠ "" ∧ types.isBuiltIn name = false := by
  rw [names_imports, List.mem_eraseDups, List.mem_filter]
  simp

/-- The imports are in the order in which their names are first asked for. -/
theorem pairwise_names_imports (types : TypeSystem) (dependencies : List String)
    (location : Option String) :
    ((types.imports dependencies location).map (·.name)).Pairwise fun a b =>
      dependencies.idxOf a < dependencies.idxOf b := by
  rw [names_imports]
  refine (pairwise_eraseDups _).imp_of_mem fun {a b} ha hb earlier => ?_
  exact idxOf_lt_of_filter (List.mem_filter.1 (List.mem_eraseDups.1 ha)).2
    (List.mem_filter.1 (List.mem_eraseDups.1 hb)).2 earlier

/-- An import is the one that its name has at the location. -/
theorem mem_imports {dependencies : List String} {location : Option String} {i : Import}
    (h : i ∈ types.imports dependencies location) : i = types.importOf location i.name := by
  obtain ⟨name, -, rfl⟩ := List.mem_map.1 h
  rw [importOf_name]

/-! ## Where imports lead -/

/-- The locations of the registry are clean. -/
def HasCleanRegistry (types : TypeSystem) : Prop :=
  ∀ entry ∈ types.registry, IsClean entry.2

instance : DecidablePred HasCleanRegistry :=
  fun types => inferInstanceAs (Decidable (∀ entry ∈ types.registry, IsClean entry.2))

/-- A registered location is clean, where all are. -/
theorem HasCleanRegistry.isClean (clean : types.HasCleanRegistry) {name target : String}
    (h : types.locationOf? name = some target) : IsClean target := by
  obtain ⟨before, after, same, -⟩ := List.lookup_eq_some_iff.1 h
  exact clean (name, target) (by simp [same])

/-- A registered type is imported from its location. -/
theorem walk_importOf_registered (clean : types.HasCleanRegistry) {current name target : String}
    (hc : IsClean current) (h : types.locationOf? name = some target) :
    walk (directories current) (types.importOf (some current) name).path =
      some (parts target) := by
  have ht := clean.isClean h
  simp only [importOf, h]
  rw [if_pos ⟨ht.ne_empty, hc.ne_empty⟩]
  exact walk_importPath hc ht

/-- Another type is imported from the current directory. -/
theorem walk_importOf_unregistered {name : String} (current : String)
    (h : types.locationOf? name = none) (className : isClassName name.toList = true) :
    walk (directories current) (types.importOf (some current) name).path =
      some (directories current ++ [name]) := by
  have absent : ∀ c, isNameChar c = false → c ≠ '\n' → c ∉ name.toList := by
    intro c other noFeed hc
    rcases isNameChar_or_of_isClassName className c hc with inside | rfl
    · exact ne_of_isNameChar inside other rfl
    · exact noFeed rfl
  have single : parts name = [name] := parts_of_notMem (absent '/' rfl (by decide))
  have clean : IsClean name := by
    intro part hp
    rw [single, List.mem_singleton] at hp
    subst hp
    refine ⟨?_, ?_, ?_⟩ <;> rintro rfl <;> exact absurd className (by decide)
  have here : (types.importOf (some current) name).path = "./" ++ name := by
    simp only [importOf, h]
  rw [here, walk_here, walk_clean clean, single]

/-- A list resolved anew is imported name by name: each that is not built in once, in the order of
first occurrences. From a clean location the imports lead to the registered locations, or into the
current directory, and the path to a parent, which begins with a dot, leads to the parent as the
path of an import does. -/
theorem resolve_leads (types : TypeSystem) (clean : types.HasCleanRegistry)
    (dependencies : List String) (current : String) (hc : IsClean current) :
    let imports := (types.resolve dependencies (some current) (.empty "imports")).1
    (imports.map (·.name)).Pairwise
        (fun a b => dependencies.idxOf a < dependencies.idxOf b) ∧
      (∀ name, name ∈ imports.map (·.name) ↔
        name ∈ dependencies ∧ name ≠ "" ∧ types.isBuiltIn name = false) ∧
      (∀ i ∈ imports,
        (∀ target, types.locationOf? i.name = some target →
          walk (directories current) i.path = some (parts target)) ∧
        (types.locationOf? i.name = none → isClassName i.name.toList = true →
          walk (directories current) i.path = some (directories current ++ [i.name]))) ∧
      ∀ child parent, IsClean child → IsClean parent →
        ("./".toList <+: (parentPath child parent).toList ∨
          "../".toList <+: (parentPath child parent).toList) ∧
        walk (directories child) (parentPath child parent) = some (parts parent) ∧
        walk (directories child) (importPath (some child) parent) = some (parts parent) := by
  intro imports
  have anew : imports = types.imports dependencies (some current) := rfl
  rw [anew]
  refine ⟨types.pairwise_names_imports dependencies _, fun _ => mem_names_imports, ?_, ?_⟩
  · intro i hi
    have same := mem_imports hi
    constructor
    · intro target registered
      rw [same]
      exact walk_importOf_registered clean hc registered
    · intro unregistered className
      rw [same, importOf_name]
      exact walk_importOf_unregistered current unregistered className
  · intro child parent hchild hparent
    exact ⟨dotted_parentPath child parent, walk_parentPath hchild hparent,
      walk_importPath hchild hparent⟩

/-- The registered type is climbed to, the other one is beside the class, and the built-in name and
the repetition are left out. -/
theorem resolve_leads_standard :
    let dependencies := ["Line", "String", "Money", "Line"]
    let imports := (standard.resolve dependencies (some "model/sub/Order") (.empty "imports")).1
    standard.HasCleanRegistry ∧ IsClean "model/sub/Order" ∧
      imports = [⟨"Line", "./Line"⟩, ⟨"Money", "../../utils/base/Money"⟩] ∧
      (∃ i ∈ imports, i.name = "Money" ∧
        walk ["model", "sub"] i.path = some ["utils", "base", "Money"]) ∧
      walk ["model", "sub"] (parentPath "model/sub/Order" "Base") = some ["Base"] := by
  intro dependencies imports
  have clean : standard.HasCleanRegistry := by decide +kernel
  have hc : IsClean "model/sub/Order" := by decide
  have anew : imports = [⟨"Line", "./Line"⟩, ⟨"Money", "../../utils/base/Money"⟩] := by decide
  have money : (⟨"Money", "../../utils/base/Money"⟩ : Import) ∈ imports := by simp [anew]
  obtain ⟨-, -, leads, parents⟩ :=
    resolve_leads standard clean dependencies "model/sub/Order" hc
  refine ⟨clean, hc, anew, ⟨_, money, rfl, ?_⟩, ?_⟩
  · exact (leads _ money).1 "utils/base/Money" (by decide)
  · exact (parents "model/sub/Order" "Base" hc (by decide)).2.1

end TypeSystem

end InterfaceGen
