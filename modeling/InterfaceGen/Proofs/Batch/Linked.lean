import InterfaceGen.Proofs.Batch.Mirror
import InterfaceGen.Proofs.Batch.Served
import InterfaceGen.Proofs.Batch.Written

/-!
# Outputs that import their parents

A fast run writes interfaces without imports, and a pass over its outputs adds those of the parents.
The pass knows an output by its text only. What it reads there is what was written: `Emits.readText`,
`Emits.header?`. So each interface gets the one import of its parent, by a path that leads to the
file of the parent, and all other outputs stay as they are: `updateImports_convertTree`.
-/

namespace InterfaceGen

open InterfaceGen.Text InterfaceGen.Types FileTree

/-! ## Files with imports in front -/

/-- A block without line breaks in its name and path is shown as it is written. -/
theorem Import.IsOneLine.shown_eq {i : Import} (h : i.IsOneLine) : i.shown = i.block.toList := by
  have blocks : '\r' ∉ Import.blocks [i] := Import.cr_notMem_blocks (by simpa using h)
  exact unifyBreaks_of_notMem (by simpa [Import.blocks] using blocks)

namespace FileTree

variable {t u : FileTree} {path : FilePath}

/-- A text that is changed is stored as it is read. -/
theorem Grown.find?_of_readText (h : Grown t u) {old new : String}
    (before : t.readText path = .ok old) (after : u.readText path = .ok new) (differ : new ≠ old) :
    u.find? path = some (.file (Utf8.encode new.toList)) := by
  obtain ⟨place, bytes, chars, holds, rfl⟩ := exists_holds before
  have way : u.locate path = .ok place := h.locate path ▸ holds.located
  rcases h.entry place with same | ⟨imports, -, plain, bytes', chars', -, -, there⟩
  · have kept : u.Holds path place bytes chars := ⟨way, same.trans holds.entry, holds.decoded⟩
    exact absurd (Except.ok.inj (after.symm.trans kept.readText)) differ
  · have stored : u.Holds path place _ _ := ⟨way, there, Utf8.decode_encode _⟩
    have unified : '\r' ∉ Import.blocks imports ++ unifyBreaks chars' := by
      rw [List.mem_append, not_or]
      exact ⟨Import.cr_notMem_blocks plain, cr_notMem_unifyBreaks chars'⟩
    have read := stored.readText
    rw [after, unifyBreaks_of_notMem unified, Except.ok.injEq] at read
    rw [read, String.toList_ofList]
    exact find?_eq_some_iff.2 ⟨place, way, there⟩

/-- Behind the block of an import that a text does not hold, only the line of the import holds it. -/
theorem lines_block {i : Import} (plain : i.IsOneLine) {text : List Char}
    (absent : holdsImport i.name text = false) :
    (cutAt '\n' (i.block.toList ++ text)).filter (holdsImport i.name) = [i.statement.toList] := by
  have feed : '\n' ∉ i.statement.toList := by
    have name : '\n' ∉ i.name.toList := fun hm => (plain.1 _ hm).1 rfl
    have path : '\n' ∉ i.path.toList := fun hm => (plain.2 _ hm).1 rfl
    simp [Import.statement, name, path]
  have spelled : i.block.toList ++ text = i.statement.toList ++ '\n' :: ([] ++ '\n' :: text) := by
    simp [Import.block]
  have own : holdsImport i.name i.statement.toList = true := by
    rw [holdsImport, occurs_iff]
    refine List.IsPrefix.isInfix ?_
    rw [Import.statement]
    simp [importOpening, String.toList_append]
  have inside : 'i' ∈ (importOpening i.name).toList := by
    simp [importOpening, String.toList_append]
  have blank : holdsImport i.name [] = false := occurs_of_notMem inside List.not_mem_nil
  rw [spelled, cutAt_append_cons feed, cutAt_append_cons List.not_mem_nil,
    List.filter_cons_of_pos own, List.filter_cons_of_neg (by simp [blank])]
  refine congrArg _ (List.filter_eq_nil_iff.2 fun piece hp held => ?_)
  rw [holdsImport, occurs_iff] at held
  exact occurs_eq_false_iff.1 absent (held.trans (isInfix_of_mem_cutAt hp))

/-- A file with one new import in front: how it is stored, and that only one line holds it. -/
theorem Grown.find?_of_import (h : Grown t u) {text : String} (before : t.readText path = .ok text)
    {i : Import} (plain : i.IsOneLine) (absent : holdsImport i.name text.toList = false)
    (after : u.readText path = .ok (String.ofList i.shown ++ text)) :
    u.find? path = some (.file (Utf8.encode (i.block ++ text).toList)) ∧
      (cutAt '\n' (i.block ++ text).toList).filter (holdsImport i.name) = [i.statement.toList] := by
  rw [plain.shown_eq, String.ofList_toList] at after
  have there := holdsImport_block i text.toList
  rw [← String.toList_append] at there
  have differ : i.block ++ text ≠ text := by
    intro same
    rw [same, absent] at there
    cases there
  refine ⟨h.find?_of_readText before after differ, ?_⟩
  rw [String.toList_append]
  exact lines_block plain absent

end FileTree

/-! ## Declarations -/

namespace Declaration

/-- The name of the interface that the declaration becomes. -/
def interfaceName? : Declaration → Option String
  | .dataClass name _ _ => some name
  | .enumeration _ => none

/-- The fields of a data class. -/
def fields : Declaration → List Field
  | .dataClass _ _ fields => fields
  | .enumeration _ => []

end Declaration

/-! ## Outputs as they are read -/

theorem FileTree.cr_notMem_of_readText {t : FileTree} {path : FilePath} {text : String}
    (h : t.readText path = .ok text) : '\r' ∉ text.toList := by
  obtain ⟨place, bytes, chars, -, rfl⟩ := exists_holds h
  rw [String.toList_ofList]
  exact cr_notMem_unifyBreaks chars

/-- A text without a carriage return is read as it is stored. -/
theorem FileTree.readText_of_find? {t : FileTree} {path : FilePath} {text : String}
    (stored : t.find? path = some (.file (Utf8.encode text.toList))) (plain : '\r' ∉ text.toList) :
    t.readText path = .ok text := by
  obtain ⟨place, located, there⟩ := find?_eq_some_iff.1 stored
  have holds : t.Holds path place _ _ := ⟨located, there, Utf8.decode_encode _⟩
  rw [holds.readText, unifyBreaks_of_notMem plain, String.ofList_toList]

namespace Engine

variable {e : Engine} {t u : FileTree} {input : FilePath} {f : SourceFile} {name : String}
  {parent : Option String} {fields : List Field}

namespace Emits

variable (standard : e.types.mapping = TypeSystem.standardMapping)
  (h : e.Emits t input u f (.dataClass name parent fields))

include h

/-- The name and the parent of an output are words. -/
theorem words : InterfaceHeader.IsWord name.toList ∧
    ∀ p ∈ parent, InterfaceHeader.IsWord p.toList := by
  obtain ⟨-, ⟨-, code, -, declared, -⟩, -⟩ := h.source
  exact words_of_declaration declared

include standard

/-- With the standard mapping, types are inert and names hold no carriage return. -/
theorem properties : ∀ p ∈ fields.map (·.toProperty),
    IsInert p.mappedType.toList ∧ '\r' ∉ p.externalName.toList := by
  obtain ⟨g, ⟨-, code, read, declared, -⟩, -⟩ := h.source
  intro p hp
  obtain ⟨field, hf, rfl⟩ := List.mem_map.1 hp
  refine properties_of_declaration (fun entry he => ?_) (cr_notMem_of_readText read) declared
    field hf
  rw [standard] at he
  exact isInert_standardMapping entry he

/-- An output is read as it was written. -/
theorem readText : u.readText f.fullPath = .ok (write [] (.dataClass name parent fields)) := by
  have properties := h.properties standard
  exact readText_of_find? h.stored (Interface.cr_notMem_render h.words.1 h.words.2
    (fun p hp => (properties p hp).1) fun p hp => (properties p hp).2)

/-- It declares what it was written for. -/
theorem header? : u.header? f.fullPath = some (name, parent) := by
  rw [FileTree.header?, h.readText standard]
  exact Interface.first?_render h.words.1 h.words.2

/-- It holds no import. -/
theorem holdsImport (names : ∀ p ∈ fields, occurs importBrace p.externalName.toList = false)
    {imported : String} (plain : IsOneLine imported) :
    FileTree.holdsImport imported (write [] (.dataClass name parent fields)).toList = false := by
  refine Interface.holdsImport_render h.words.1 h.words.2
    (fun p hp => (h.properties standard p hp).1) (fun p hp => ?_) plain
  obtain ⟨field, hf, rfl⟩ := List.mem_map.1 hp
  exact names field hf

end Emits

/-- The outputs have plain paths, interfaces of different names and properties whose names do not
look like imports. -/
structure Tidy (e : Engine) (t : FileTree) (input : FilePath) (u : FileTree)
    (files : List SourceFile) : Prop where
  /-- No name on the way to an output has a line break. -/
  oneLine : ∀ f ∈ files, ∀ name ∈ f.relative.names, IsOneLine name
  /-- No two interfaces have one name. -/
  distinct : ∀ f ∈ files, ∀ h ∈ files, ∀ name parent fields parent' fields',
    e.Emits t input u f (.dataClass name parent fields) →
    e.Emits t input u h (.dataClass name parent' fields') → f = h
  /-- No name of a property holds what begins an import. -/
  names : ∀ f ∈ files, ∀ name parent fields, e.Emits t input u f (.dataClass name parent fields) →
    ∀ p ∈ fields, occurs importBrace p.externalName.toList = false

/-- Nor does an enum hold a line that reads as the header of an interface. -/
structure Orderly (e : Engine) (t : FileTree) (input : FilePath) (u : FileTree)
    (files : List SourceFile) : Prop extends Tidy e t input u files where
  enums : ∀ f ∈ files, ∀ enum, e.Emits t input u f (.enumeration enum) →
    u.header? f.fullPath = none

namespace Orderly

variable {files : List SourceFile} (orderly : e.Orderly t input u files)
  (standard : e.types.mapping = TypeSystem.standardMapping)
  (emitted : ∀ f ∈ files, ∃ d, e.Emits t input u f d)

include orderly standard emitted

/-- The first header of an output is that of the interface that was written. -/
theorem header?_iff (hf : f ∈ files) : u.header? f.fullPath = some (name, parent) ↔
    ∃ fields, e.Emits t input u f (.dataClass name parent fields) := by
  refine ⟨fun header => ?_, fun ⟨fields, h⟩ => h.header? standard⟩
  obtain ⟨d, h⟩ := emitted f hf
  cases d with
  | dataClass name' parent' fields =>
    rw [h.header? standard, Option.some.injEq, Prod.mk.injEq] at header
    obtain ⟨rfl, rfl⟩ := header
    exact ⟨fields, h⟩
  | enumeration enum =>
    rw [orderly.enums f hf enum h] at header
    cases header

/-- An output declares a name exactly if it was written for an interface of that name. -/
theorem declared?_iff (hf : f ∈ files) : u.declared? f = some name ↔
    ∃ parent fields, e.Emits t input u f (.dataClass name parent fields) := by
  simp only [declared?, Option.map_eq_some_iff, Prod.exists, exists_and_right, exists_eq_right,
    orderly.header?_iff standard emitted hf]

/-- No two outputs declare one name. -/
theorem distinct_files : u.Distinct files := by
  intro f hf h hh name df dh
  obtain ⟨parent, fields, ef⟩ := (orderly.declared?_iff standard emitted hf).1 df
  obtain ⟨parent', fields', eh⟩ := (orderly.declared?_iff standard emitted hh).1 dh
  exact orderly.distinct f hf h hh name parent fields parent' fields' ef eh

end Orderly

/-! ## What the sources say -/

/-- What is read from a source, with the names of its output. -/
def outcome? (e : Engine) (t : FileTree) (g : SourceFile) : Option (List String × Declaration) :=
  match t.readText g.fullPath with
  | .error _ => none
  | .ok code => (e.declaration code).toOption.map fun d => (g.outputNames, d)

/-- What a fast run can write. -/
def outcomes (e : Engine) (t : FileTree) (input : FilePath) : List (List String × Declaration) :=
  (sourcesOf t input).filterMap (e.outcome? t)

/-- What is written to a file is an outcome of the sources. -/
theorem Emits.mem_outcomes {d : Declaration} (h : e.Emits t input u f d) :
    (f.relative.names, d) ∈ e.outcomes t input := by
  obtain ⟨g, ⟨source, code, read, declared, -⟩, same⟩ := h.source
  refine List.mem_filterMap.2 ⟨g, source, ?_⟩
  rw [outcome?, read, same]
  simp only [declared]
  rfl

/-- The header of an output is the first in the text that was written for it. -/
theorem Emits.header?_eq {d : Declaration} (h : e.Emits t input u f d) : u.header? f.fullPath =
    InterfaceHeader.first? (String.ofList (unifyBreaks (write [] d).toList)) := by
  obtain ⟨place, located, there⟩ := find?_eq_some_iff.1 h.stored
  have holds : u.Holds f.fullPath place _ _ := ⟨located, there, Utf8.decode_encode _⟩
  rw [FileTree.header?, holds.readText]

/-- Where no two sources have one output, their outcomes say what is written. -/
theorem emits_of_mem_outcomes {files : List SourceFile} {output : FilePath}
    (emitted : ∀ f ∈ files, ∃ d, e.Emits t input u f d)
    (nodup : ((e.outcomes t input).map (·.1)).Nodup)
    (found : ∀ o ∈ e.outcomes t input, SourceFile.below output ⟨.here, o.1⟩ ∈ files) :
    ∀ o ∈ e.outcomes t input, e.Emits t input u (.below output ⟨.here, o.1⟩) o.2 := by
  intro o ho
  obtain ⟨d, h⟩ := emitted _ (found o ho)
  have same : (o.1, d) = o := List.inj_on_of_nodup_map nodup h.mem_outcomes ho rfl
  rwa [← congrArg Prod.snd same]

section Sources

variable (wf : u.WellFormed) {output : FilePath}
  (emitted : ∀ f ∈ SourceFile.find u output Session.targets, ∃ d, e.Emits t input u f d)
  (oneLine : ∀ o ∈ e.outcomes t input, ∀ name ∈ o.1, IsOneLine name)
  (distinct : ((e.outcomes t input).filterMap (·.2.interfaceName?)).Nodup)
  (names : ∀ o ∈ e.outcomes t input, ∀ p ∈ o.2.fields,
    occurs importBrace p.externalName.toList = false)

include wf emitted oneLine distinct names

/-- The sources alone tell that the outputs are in order. -/
theorem tidy_of_outcomes : e.Tidy t input u (SourceFile.find u output Session.targets) where
  oneLine f hf := by
    obtain ⟨d, h⟩ := emitted f hf
    exact oneLine _ h.mem_outcomes
  distinct f hf h hh name parent fields parent' fields' ef eh := by
    have same := eq_of_nodup_filterMap distinct ef.mem_outcomes eh.mem_outcomes rfl rfl
    exact SourceFile.eq_of_names wf hf hh (congrArg Prod.fst same)
  names f _ name parent fields h := names _ h.mem_outcomes

/-- Conditions on the outcomes of the sources are enough for orderly outputs. -/
theorem orderly_of_outcomes
    (enums : ∀ o ∈ e.outcomes t input, o.2.interfaceName? = none →
      InterfaceHeader.first? (String.ofList (unifyBreaks (write [] o.2).toList)) = none) :
    e.Orderly t input u (SourceFile.find u output Session.targets) where
  toTidy := tidy_of_outcomes wf emitted oneLine distinct names
  enums f _ enum h := by
    have silent := enums (f.relative.names, .enumeration enum) h.mem_outcomes rfl
    rw [h.header?_eq, silent]

end Sources

/-! ## Both passes -/

section Linking

variable {output : FilePath} {files : List SourceFile} {log : List (SourceFile × Import)}
  (wf : u.WellFormed) (found : files = SourceFile.find u output Session.targets)
  (orderly : e.Orderly t input u files)
  (standard : e.types.mapping = TypeSystem.standardMapping)
  (emitted : ∀ f ∈ files, ∃ d, e.Emits t input u f d)

include wf found orderly standard emitted

/-- An interface gets the import of its parent in front. -/
theorem find?_of_parent {parent : String} {h : SourceFile} (hf : f ∈ files)
    (child : e.Emits t input u f (.dataClass name (some parent) fields)) (hh : h ∈ files)
    {parent' : Option String} {fields' : List Field}
    (declares : e.Emits t input u h (.dataClass parent parent' fields')) {i : Import}
    (linked : i = f.importOf h parent) {text : String}
    (written : text = i.block ++ write [] (.dataClass name (some parent) fields)) :
    (updateImports output u).2.find? f.fullPath = some (.file (Utf8.encode text.toList)) ∧
      (cutAt '\n' text.toList).filter (FileTree.holdsImport parent) = [i.statement.toList] := by
  obtain ⟨log, l, -⟩ := exists_importLog wf output
  rw [← found] at l
  have plain : (f.importOf h parent).IsOneLine := SourceFile.isOneLine_importOf
    (child.words.2 parent rfl).isOneLine (SourceFile.isOneLine_location (orderly.oneLine h hh))
  have absent := child.holdsImport standard (orderly.names f hf _ _ _ child) plain.1
  have before := child.readText standard
  have after := l.text_of_header (orderly.distinct_files standard emitted) hf before
    (child.header? standard) hh (declared?_of_header? (declares.header? standard)) absent
  have grown := grown_updateImports wf fun f hf => orderly.oneLine f (found ▸ hf)
  subst linked written
  exact grown.find?_of_import before plain absent after

/-- Any other output stays as it is. -/
theorem find?_of_no_parent (hf : f ∈ files)
    (none : ∀ name parent fields, e.Emits t input u f (.dataClass name (some parent) fields) →
      ∀ h ∈ files, ∀ parent' fields', ¬ e.Emits t input u h (.dataClass parent parent' fields')) :
    (updateImports output u).2.find? f.fullPath = u.find? f.fullPath := by
  obtain ⟨log, l, -⟩ := exists_importLog wf output
  rw [← found] at l
  obtain ⟨d, h⟩ := emitted f hf
  obtain ⟨place, located, there⟩ := find?_eq_some_iff.1 h.stored
  have holds : u.Holds f.fullPath place _ _ := ⟨located, there, Utf8.decode_encode _⟩
  have kept := l.entry_of_served wf found (orderly.distinct_files standard emitted) hf
    holds.readText (fun name parent header ⟨h, hh, declared⟩ => by
      obtain ⟨fields, child⟩ := (orderly.header?_iff standard emitted hf).1 header
      obtain ⟨parent', fields', declares⟩ := (orderly.declared?_iff standard emitted hh).1 declared
      exact absurd declares (none name parent fields child h hh parent' fields')) located
  rw [find?, find?, ← locate_congr l.outline, located]
  exact kept

end Linking

variable {output : FilePath} {s : Session}

/-- A fast run into an empty directory and a pass over its outputs. An interface whose parent is
among them gets one line that imports it, by a path that leads to the file of the parent, and an
empty line; behind them stands what the conversion gave. An output without such a parent stays byte
for byte. -/
theorem updateImports_convertTree (standard : e.types.mapping = TypeSystem.standardMapping)
    (wf : s.tree.WellFormed) (proper : ∀ name ∈ output.names, IsPathName name) (size : Int) :
    let t := (makeDirectories output s.tree).2
    let run := e.convertTree input output "fast" size s
    let u := run.2.tree
    let files := SourceFile.find u output Session.targets
    let v := (updateImports output u).2
    t.IsEmptyDirectory output → e.Orderly t input u files →
      (∀ report, run.1 = .ok report → ∀ result ∈ report.results, result.success = true →
        ∃ g ∈ sourcesOf t input, result = .written g (g.outputPath output).toText ∧
          SourceFile.below output ⟨.here, g.outputNames⟩ ∈ files) ∧
      (∀ f ∈ files, ∃ d, e.Emits t input u f d) ∧
      (∀ f ∈ files, ∀ name parent fields,
        e.Emits t input u f (.dataClass name (some parent) fields) → parent ≠ name →
        ∀ h ∈ files, ∀ parent' fields', e.Emits t input u h (.dataClass parent parent' fields') →
          let i := f.importOf h parent
          let text := i.block ++ write [] (.dataClass name (some parent) fields)
          v.find? f.fullPath = some (.file (Utf8.encode text.toList)) ∧
          (cutAt '\n' text.toList).filter (FileTree.holdsImport parent) = [i.statement.toList] ∧
          (h.baseName ≠ "." → h.baseName ≠ ".." →
            Location.walk f.relative.parent.names i.path =
              some (h.relative.parent.names ++ [h.baseName]))) ∧
      ∀ f ∈ files, (∀ name parent fields,
        e.Emits t input u f (.dataClass name (some parent) fields) →
        ∀ h ∈ files, ∀ parent' fields', ¬ e.Emits t input u h (.dataClass parent parent' fields')) →
          v.find? f.fullPath = u.find? f.fullPath := by
  intro t run u files v empty orderly
  obtain ⟨-, wf', emitted, reported⟩ := emits_convertTree e input wf proper size empty
  refine ⟨reported, emitted, fun f hf name parent fields child _ h hh parent' fields' declares => ?_,
    fun f hf none => find?_of_no_parent wf' rfl orderly standard emitted hf none⟩
  intro i text
  obtain ⟨stored, line⟩ :=
    find?_of_parent wf' rfl orderly standard emitted hf child hh declares rfl rfl
  refine ⟨stored, line, fun ne_here ne_up => ?_⟩
  rw [SourceFile.importOf_path]
  exact (SourceFile.isNamed_of_mem_find wf' hf).walk_parentPath
    (SourceFile.isNamed_of_mem_find wf' hh) ne_here ne_up

/-! ## Two runs -/

section Runs

/-- The input directory of both runs. -/
def inDirectory : FilePath := ⟨.here, ["in"]⟩

/-- The output directory of both runs. -/
def outDirectory : FilePath := ⟨.here, ["out"]⟩

/-- The tree after a fast run of the engine with standard types. -/
def fastOutputs (t : FileTree) : FileTree :=
  (standard.convertTree inDirectory outDirectory "fast" standardBatchSize ⟨t, .empty⟩).2.tree

/-- A run in fast mode reports the sources in the tree with the output directory. -/
theorem fastOutputs_eq {t made : FileTree} {files : List SourceFile}
    (h : makeDirectories outDirectory t = (.ok (), made))
    (listed : sourcesOf made inDirectory = files) : fastOutputs t =
      (standard.reportBatch outDirectory .fast "fast" files ⟨made, .empty⟩).2.tree := by
  have known : Mode.ofName? "fast" = some .fast := by decide
  rw [fastOutputs, standard.convertTree_of_made inDirectory outDirectory known _ h, listed]

/-- A class in a directory below that of the class that it extends. -/
def childSources : FileTree :=
  ⟨[], [(["in"], .directory),
    (["in", "Base.java"], .file (Utf8.encode "class Base \x7b private Id id; \x7d".toList)),
    (["in", "model"], .directory),
    (["in", "model", "Child.java"], .file (Utf8.encode "class Child extends Base \x7b \x7d".toList))]⟩

/-- The sources with the output directory. -/
def childMade : FileTree :=
  ⟨[], childSources.entries ++ [(["out"], .directory)]⟩

/-- What a fast run makes of them. -/
def childOutputs : FileTree :=
  ⟨[], childMade.entries ++
    [(["out", "Base.ts"],
      .file (Utf8.encode "export interface Base \x7b\n  id?: Id;\n\x7d\n".toList)),
    (["out", "model"], .directory),
    (["out", "model", "Child.ts"],
      .file (Utf8.encode "export interface Child extends Base \x7b\n\x7d\n".toList))]⟩

theorem makeDirectories_child :
    makeDirectories outDirectory childSources = (.ok (), childMade) := by
  refine Prod.ext ?_ ?_ <;> decide +kernel

theorem sourcesOf_child : sourcesOf childMade inDirectory =
    [.below inDirectory ⟨.here, ["Base.java"]⟩,
      .below inDirectory ⟨.here, ["model", "Child.java"]⟩] := by
  unfold sourcesOf
  rw [SourceFile.find_of_pairwise rfl] <;> decide +kernel

/-- The run writes both interfaces. -/
theorem fastOutputs_child : fastOutputs childSources = childOutputs := by
  rw [fastOutputs_eq makeDirectories_child sourcesOf_child]
  decide +kernel

/-- The sources declare an interface and its child. -/
theorem outcomes_child : standard.outcomes childMade inDirectory =
    [(["Base.ts"], .dataClass "Base" none [⟨⟨"id", "Id", true⟩, "Id", "id"⟩]),
      (["model", "Child.ts"], .dataClass "Child" (some "Base") [])] := by
  rw [outcomes, sourcesOf_child]
  decide +kernel

theorem find_childOutputs : SourceFile.find childOutputs outDirectory Session.targets =
    [.below outDirectory ⟨.here, ["Base.ts"]⟩,
      .below outDirectory ⟨.here, ["model", "Child.ts"]⟩] := by
  rw [SourceFile.find_of_pairwise rfl] <;> decide +kernel

/-- The child in the directory imports its parent, and the parent stays as it is. -/
theorem updateImports_convertTree_child :
    let t := (makeDirectories outDirectory childSources).2
    let u := fastOutputs childSources
    let v := (updateImports outDirectory u).2
    standard.types.mapping = TypeSystem.standardMapping ∧ childSources.WellFormed ∧
      (∀ name ∈ outDirectory.names, IsPathName name) ∧ t.IsEmptyDirectory outDirectory ∧
      standard.Orderly t inDirectory u (SourceFile.find u outDirectory Session.targets) ∧
      v.find? ⟨.here, ["out", "model", "Child.ts"]⟩ = some (.file (Utf8.encode
        ("import \x7b Base \x7d from '../Base';\n\n" ++
          "export interface Child extends Base \x7b\n\x7d\n").toList)) ∧
      Location.walk ["model"] "../Base" = some ["Base"] ∧
      v.find? ⟨.here, ["out", "Base.ts"]⟩ = u.find? ⟨.here, ["out", "Base.ts"]⟩ := by
  have wf : childSources.WellFormed := by decide +kernel
  have proper : ∀ name ∈ outDirectory.names, IsPathName name := by decide
  have empty : childMade.IsEmptyDirectory outDirectory := by decide +kernel
  have made : (makeDirectories outDirectory childSources).2 = childMade :=
    congrArg Prod.snd makeDirectories_child
  rw [← made] at empty
  intro t u v
  have out : u = childOutputs := fastOutputs_child
  have outcomes : standard.outcomes t inDirectory = _ := made ▸ outcomes_child
  obtain ⟨-, wf', emitted, -⟩ :=
    emits_convertTree standard inDirectory (s := ⟨childSources, .empty⟩) wf proper
      standardBatchSize empty
  have orderly : standard.Orderly t inDirectory u
      (SourceFile.find u outDirectory Session.targets) := by
    refine orderly_of_outcomes wf' emitted ?_ ?_ ?_ ?_ <;> rw [outcomes] <;> decide +kernel
  have main := @updateImports_convertTree standard inDirectory outDirectory
    ⟨childSources, .empty⟩ rfl wf proper standardBatchSize empty orderly
  obtain ⟨-, -, linked, kept⟩ := main
  have found : ∀ o ∈ standard.outcomes t inDirectory, SourceFile.below outDirectory ⟨.here, o.1⟩ ∈
      SourceFile.find u outDirectory Session.targets := by
    rw [outcomes, out, find_childOutputs]
    decide
  have emits := emits_of_mem_outcomes emitted (by rw [outcomes]; decide) found
  have ofBase : (["Base.ts"], .dataClass "Base" none [⟨⟨"id", "Id", true⟩, "Id", "id"⟩]) ∈
    standard.outcomes t inDirectory := by rw [outcomes]; decide
  have ofChild : (["model", "Child.ts"], .dataClass "Child" (some "Base") []) ∈
    standard.outcomes t inDirectory := by rw [outcomes]; decide
  obtain ⟨stored, -, leads⟩ := linked _ (found _ ofChild) "Child" "Base" [] (emits _ ofChild)
    (by decide) _ (found _ ofBase) none _ (emits _ ofBase)
  refine ⟨rfl, wf, proper, empty, orderly, ?_, leads (by decide) (by decide), ?_⟩
  · have text : ((SourceFile.below outDirectory ⟨.here, ["model", "Child.ts"]⟩).importOf
        (.below outDirectory ⟨.here, ["Base.ts"]⟩) "Base").block ++
          write [] (.dataClass "Child" (some "Base") []) =
        "import \x7b Base \x7d from '../Base';\n\n" ++
          "export interface Child extends Base \x7b\n\x7d\n" := by
      decide +kernel
    rw [← text]
    exact stored
  · refine kept _ (found _ ofBase) fun name parent fields h => ?_
    have listed := h.mem_outcomes
    rw [outcomes] at listed
    simp [SourceFile.below] at listed

/-- A class in a file that is named like the directory, its child, a class that extends another one of
its own name, and an enum with a line like a header. -/
def oddSources : FileTree :=
  ⟨[], [(["in"], .directory),
    (["in", "..java"], .file (Utf8.encode "class B \x7b private C c; \x7d".toList)),
    (["in", "A.java"], .file (Utf8.encode "class A extends B \x7b \x7d".toList)),
    (["in", "E.java"], .file (Utf8.encode
      "enum E \x7b X(\"\nexport interface D extends B\") \x7d".toList)),
    (["in", "O.java"], .file (Utf8.encode "class O extends a.O \x7b \x7d".toList))]⟩

/-- The sources with the output directory. -/
def oddMade : FileTree :=
  ⟨[], oddSources.entries ++ [(["out"], .directory)]⟩

/-- What a fast run makes of them. -/
def oddOutputs : FileTree :=
  ⟨[], oddMade.entries ++
    [(["out", "..ts"], .file (Utf8.encode "export interface B \x7b\n  c?: C;\n\x7d\n".toList)),
    (["out", "A.ts"], .file (Utf8.encode "export interface A extends B \x7b\n\x7d\n".toList)),
    (["out", "E.ts"], .file (Utf8.encode
      "export enum E \x7b\n  X = \"\nexport interface D extends B\"\n\x7d\n".toList)),
    (["out", "O.ts"], .file (Utf8.encode "export interface O extends O \x7b\n\x7d\n".toList))]⟩

theorem makeDirectories_odd : makeDirectories outDirectory oddSources = (.ok (), oddMade) := by
  refine Prod.ext ?_ ?_ <;> decide +kernel

theorem sourcesOf_odd : sourcesOf oddMade inDirectory =
    [.below inDirectory ⟨.here, ["..java"]⟩, .below inDirectory ⟨.here, ["A.java"]⟩,
      .below inDirectory ⟨.here, ["E.java"]⟩, .below inDirectory ⟨.here, ["O.java"]⟩] := by
  unfold sourcesOf
  rw [SourceFile.find_of_pairwise rfl] <;> decide +kernel

theorem fastOutputs_odd : fastOutputs oddSources = oddOutputs := by
  rw [fastOutputs_eq makeDirectories_odd sourcesOf_odd]
  decide +kernel

theorem outcomes_odd : standard.outcomes oddMade inDirectory =
    [(["..ts"], .dataClass "B" none [⟨⟨"c", "C", true⟩, "C", "c"⟩]),
      (["A.ts"], .dataClass "A" (some "B") []),
      (["E.ts"], .enumeration ⟨"E", [⟨"X", "\nexport interface D extends B"⟩]⟩),
      (["O.ts"], .dataClass "O" (some "O") [])] := by
  rw [outcomes, sourcesOf_odd]
  decide +kernel

theorem find_oddOutputs : SourceFile.find oddOutputs outDirectory Session.targets =
    [.below outDirectory ⟨.here, ["..ts"]⟩, .below outDirectory ⟨.here, ["A.ts"]⟩,
      .below outDirectory ⟨.here, ["E.ts"]⟩, .below outDirectory ⟨.here, ["O.ts"]⟩] := by
  rw [SourceFile.find_of_pairwise rfl] <;> decide +kernel

/-- The import of the child leads to the directory, and the enum and the interface with its own name
as parent are changed. -/
theorem find?_odd :
    let v := (updateImports outDirectory oddOutputs).2
    v.find? ⟨.here, ["out", "A.ts"]⟩ = some (.file (Utf8.encode
        "import \x7b B \x7d from './.';\n\nexport interface A extends B \x7b\n\x7d\n".toList)) ∧
      v.find? ⟨.here, ["out", "E.ts"]⟩ ≠ oddOutputs.find? ⟨.here, ["out", "E.ts"]⟩ ∧
      v.find? ⟨.here, ["out", "O.ts"]⟩ ≠ oddOutputs.find? ⟨.here, ["out", "O.ts"]⟩ := by
  rw [updateImports_eq, find_oddOutputs]
  decide +kernel

/-- Where the outputs are not in order, an enum and an interface that extends another one of its own
name are changed, though they have no such parent; and the path to a file that is named like the
directory leads to the directory. -/
theorem not_linked_in_general :
    let t := (makeDirectories outDirectory oddSources).2
    let u := fastOutputs oddSources
    let files := SourceFile.find u outDirectory Session.targets
    let v := (updateImports outDirectory u).2
    t.IsEmptyDirectory outDirectory ∧ standard.Tidy t inDirectory u files ∧
      (∃ f ∈ files, ∃ enum, standard.Emits t inDirectory u f (.enumeration enum) ∧
        v.find? f.fullPath ≠ u.find? f.fullPath) ∧
      (∃ f ∈ files, ∃ name fields,
        standard.Emits t inDirectory u f (.dataClass name (some name) fields) ∧
        v.find? f.fullPath ≠ u.find? f.fullPath) ∧
      ∃ f ∈ files, ∃ h ∈ files, ∃ name parent fields parent' fields' path,
        standard.Emits t inDirectory u f (.dataClass name (some parent) fields) ∧ parent ≠ name ∧
        standard.Emits t inDirectory u h (.dataClass parent parent' fields') ∧
        v.find? f.fullPath = some (.file (Utf8.encode ((Import.mk parent path).block ++
          write [] (.dataClass name (some parent) fields)).toList)) ∧
        Location.walk f.relative.parent.names path ≠
          some (h.relative.parent.names ++ [h.baseName]) := by
  have wf : oddSources.WellFormed := by decide +kernel
  have proper : ∀ name ∈ outDirectory.names, IsPathName name := by decide
  have empty : oddMade.IsEmptyDirectory outDirectory := by decide +kernel
  have made : (makeDirectories outDirectory oddSources).2 = oddMade :=
    congrArg Prod.snd makeDirectories_odd
  rw [← made] at empty
  intro t u files v
  have out : u = oddOutputs := fastOutputs_odd
  have outcomes : standard.outcomes t inDirectory = _ := made ▸ outcomes_odd
  obtain ⟨-, wf', emitted, -⟩ :=
    emits_convertTree standard inDirectory (s := ⟨oddSources, .empty⟩) wf proper
      standardBatchSize empty
  have tidy : standard.Tidy t inDirectory u files := by
    refine tidy_of_outcomes wf' emitted ?_ ?_ ?_ <;> rw [outcomes] <;> decide +kernel
  have found : ∀ o ∈ standard.outcomes t inDirectory,
      SourceFile.below outDirectory ⟨.here, o.1⟩ ∈ files := by
    have listed : files = _ := out ▸ find_oddOutputs
    rw [outcomes, listed]
    decide
  have emits := emits_of_mem_outcomes emitted (by rw [outcomes]; decide) found
  have ofB : (["..ts"], .dataClass "B" none [⟨⟨"c", "C", true⟩, "C", "c"⟩]) ∈
    standard.outcomes t inDirectory := by rw [outcomes]; decide
  have ofA : (["A.ts"], .dataClass "A" (some "B") []) ∈ standard.outcomes t inDirectory := by
    rw [outcomes]; decide
  have ofE : (["E.ts"], .enumeration ⟨"E", [⟨"X", "\nexport interface D extends B"⟩]⟩) ∈
    standard.outcomes t inDirectory := by rw [outcomes]; decide
  have ofO : (["O.ts"], .dataClass "O" (some "O") []) ∈ standard.outcomes t inDirectory := by
    rw [outcomes]; decide
  obtain ⟨child, enum, own⟩ := find?_odd
  rw [← out] at child enum own
  refine ⟨empty, tidy, ⟨_, found _ ofE, _, emits _ ofE, enum⟩, ⟨_, found _ ofO, _, _, emits _ ofO, own⟩,
    _, found _ ofA, _, found _ ofB, _, _, _, _, _, "./.", emits _ ofA, by decide, emits _ ofB, ?_, ?_⟩
  · have text : (Import.mk "B" "./.").block ++ write [] (.dataClass "A" (some "B") []) =
        "import \x7b B \x7d from './.';\n\nexport interface A extends B \x7b\n\x7d\n" := by
      decide +kernel
    rw [text]
    exact child
  · decide +kernel

end Runs

end Engine

end InterfaceGen
