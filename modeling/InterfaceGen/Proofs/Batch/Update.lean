import InterfaceGen.Proofs.Batch.Declared
import InterfaceGen.Proofs.Files.Finding
import InterfaceGen.Proofs.Files.Location

/-!
# Adding imports of parents

One step puts an import in front of the file of a child or does nothing: `Adds`. So a pass only puts
imports in front of files that it has found, and a second pass finds every child served:
`updateImports_twice`.
-/

namespace InterfaceGen

open InterfaceGen.Text

namespace FileTree

variable {t u : FileTree} {child : Origin} {i : Import} {result : Bool × FileTree}

/-! ## One import -/

/-- Does the text hold an import of the name? -/
def holdsImport (name : String) (text : List Char) : Bool :=
  occurs (importOpening name).toList text

/-- What putting an import in front of the file of a child comes to. -/
inductive Adds (t : FileTree) (child : Origin) (i : Import) : Bool × FileTree → Prop where
  | unreadable {error : ReadError} (h : t.readText child.path = .error error) :
    Adds t child i (false, t)
  | present {text : String} (h : t.readText child.path = .ok text)
    (there : holdsImport i.name text.toList = true) : Adds t child i (false, t)
  | added {place : Place} {bytes : List UInt8} {chars : List Char}
    (h : t.Holds child.path place bytes chars)
    (absent : holdsImport i.name (unifyBreaks chars) = false) :
    Adds t child i
      (true, t.set place (.file (Utf8.encode (i.block.toList ++ unifyBreaks chars))))

/-- The import of one parent ends in one of these ways. -/
theorem adds_addParentImport (t : FileTree) (child : Origin) (name : String) (parent : Origin) :
    Adds t child ⟨name, Location.parentPath child.location parent.location⟩
      (addParentImport child name parent t) := by
  cases read : t.readText child.path with
  | error error =>
    simp only [addParentImport, read]
    exact .unreadable read
  | ok text =>
    simp only [addParentImport, read]
    split
    · next there => exact .present read there
    · next absent =>
      obtain ⟨place, bytes, chars, holds, rfl⟩ := exists_holds read
      rw [String.toList_ofList] at absent
      rw [writeText_of_holds holds]
      have added : Adds t child ⟨name, Location.parentPath child.location parent.location⟩ _ :=
        .added holds (Bool.eq_false_iff.2 absent)
      have same : importOpening name ++ " from '" ++
          Location.parentPath child.location parent.location ++ "';\n\n" =
          (Import.mk name (Location.parentPath child.location parent.location)).block := by
        simp [importOpening, Import.block, Import.statement, String.append_assoc]
      simp only
      rw [same, String.toList_append, String.toList_ofList]
      exact added

/-- The file is unreadable or holds an import of the name. -/
def Serves (t : FileTree) (path : FilePath) (name : String) : Prop :=
  ∀ text, t.readText path = .ok text → holdsImport name text.toList = true

/-- An import is found behind anything else. -/
theorem holdsImport_append {name : String} {text : List Char}
    (h : holdsImport name text = true) (before : List Char) :
    holdsImport name (before ++ text) = true := by
  rw [holdsImport, occurs_iff] at h ⊢
  exact h.trans (List.suffix_append _ _).isInfix

/-- A text that begins with the block of an import holds it. -/
theorem holdsImport_block (i : Import) (text : List Char) :
    holdsImport i.name (i.block.toList ++ text) = true := by
  rw [holdsImport, occurs_iff]
  refine List.IsPrefix.isInfix ?_
  rw [Import.block, Import.statement]
  simp [importOpening, String.toList_append]

/-- What is served stays so. -/
theorem Grown.serves (h : Grown t u) {path : FilePath} {name : String} (served : t.Serves path name) :
    u.Serves path name := by
  intro text read
  rcases h.readText path with same | ⟨old, imports, before, -, now⟩
  · exact served text (same ▸ read)
  · rw [now, Except.ok.injEq] at read
    rw [← read, String.toList_append]
    exact holdsImport_append (served old before) _

namespace Adds

/-- No file and no directory is added or removed. -/
theorem outline (wf : t.WellFormed) (h : Adds t child i result) :
    t.outline = result.2.outline := by
  cases h with
  | unreadable => rfl
  | present => rfl
  | added holds => exact (outline_set wf holds.entry _).symm

/-- At most the file of the child grows, by one import. -/
theorem grown (wf : t.WellFormed) (plain : i.IsOneLine) (h : Adds t child i result) :
    Grown t result.2 := by
  cases h with
  | unreadable => exact .refl t
  | present => exact .refl t
  | @added place bytes chars holds absent =>
    refine ⟨Adds.outline wf (.added (i := i) holds absent), fun other => ?_⟩
    by_cases same : other = place
    · refine .inr ⟨[i], List.cons_ne_nil _ _, by simpa using plain, bytes, chars,
        same ▸ holds.entry, holds.decoded, ?_⟩
      rw [same, entry?_set_self t (ne_nil_of_file holds.entry)]
      simp [Import.blocks]
    · exact .inl (entry?_set_of_ne t (ne_nil_of_file holds.entry) same _)

/-- The child is served. -/
theorem serves (wf : t.WellFormed) (plain : i.IsOneLine) (h : Adds t child i result) :
    result.2.Serves child.path i.name := by
  cases h with
  | unreadable h =>
    intro text read
    rw [h] at read
    cases read
  | present h there =>
    intro text read
    rw [h, Except.ok.injEq] at read
    exact read ▸ there
  | @added place bytes chars holds absent =>
    intro text read
    rw [(holds_set wf holds _).readText, Except.ok.injEq] at read
    rw [← read, String.toList_ofList, unifyBreaks_of_notMem]
    · exact holdsImport_block i _
    · rw [List.mem_append, not_or]
      have block : '\r' ∉ Import.blocks [i] := Import.cr_notMem_blocks (by simpa using plain)
      exact ⟨by simpa [Import.blocks] using block, cr_notMem_unifyBreaks chars⟩

/-- Only the file of the child is written. -/
theorem entry_eq {place : Place} (h : Adds t child i result)
    (off : t.locate child.path ≠ .ok place) : FileTree.entry? result.2 place = t.entry? place := by
  cases h with
  | unreadable => rfl
  | present => rfl
  | @added there bytes chars holds absent =>
    have differ : place ≠ there := by
      rintro rfl
      exact off holds.located
    exact entry?_set_of_ne t (ne_nil_of_file holds.entry) differ _

/-- Nothing is added to a file that is served. -/
theorem idle (h : Adds t child i result) (served : t.Serves child.path i.name) :
    result = (false, t) := by
  cases h with
  | unreadable => rfl
  | present => rfl
  | added holds absent =>
    have there := served _ holds.readText
    rw [String.toList_ofList, absent] at there
    cases there

end Adds

/-! ## All imports -/

variable {g : DeclarationGraph} {edges : List (String × String)}

/-- The first edge is served, and then the others in the tree that it leaves. -/
theorem addParentImports_cons {childName parentName : String} {child parent : Origin}
    (hc : g.origin? childName = some child) (hp : g.origin? parentName = some parent)
    (rest : List (String × String)) (t : FileTree) :
    addParentImports g ((childName, parentName) :: rest) t =
      let one := addParentImport child parentName parent t
      let more := addParentImports g rest one.2
      (if one.1 then child.location :: more.1 else more.1, more.2) := by
  rw [addParentImports]
  simp only [hc, hp]
  rfl

/-- Names and locations of the graph stand on one line, and the edges join declared names. -/
structure Ready (g : DeclarationGraph) (edges : List (String × String)) : Prop where
  location : ∀ name origin, g.origin? name = some origin → IsOneLine origin.location
  parent : ∀ edge ∈ edges, IsOneLine edge.2
  declared : ∀ edge ∈ edges, (g.origin? edge.1).isSome ∧ (g.origin? edge.2).isSome

/-- The first of the edges joins two declared names, and the others are ready too. -/
theorem Ready.cons {childName parentName : String} {rest : List (String × String)}
    (h : Ready g ((childName, parentName) :: rest)) :
    ∃ child parent, g.origin? childName = some child ∧ g.origin? parentName = some parent ∧
      (Import.mk parentName (Location.parentPath child.location parent.location)).IsOneLine ∧
      Ready g rest := by
  have declared := h.declared _ (List.mem_cons_self ..)
  obtain ⟨child, hc⟩ := Option.isSome_iff_exists.1 declared.1
  obtain ⟨parent, hp⟩ := Option.isSome_iff_exists.1 declared.2
  refine ⟨child, parent, hc, hp, ⟨h.parent _ (List.mem_cons_self ..), ?_⟩, h.location,
    fun e he => h.parent e (List.mem_cons_of_mem _ he),
    fun e he => h.declared e (List.mem_cons_of_mem _ he)⟩
  exact Location.isOneLine_parentPath _ (h.location _ _ hp)

/-- A run only puts imports in front of files. -/
theorem grown_addParentImports (wf : t.WellFormed) (ready : Ready g edges) :
    Grown t (addParentImports g edges t).2 := by
  induction edges generalizing t with
  | nil => exact .refl t
  | cons edge rest ih =>
    obtain ⟨child, parent, hc, hp, plain, ready⟩ := ready.cons
    have one := (adds_addParentImport t child edge.2 parent).grown wf plain
    rw [addParentImports_cons hc hp]
    exact one.trans (ih (wf.congr one.outline) ready)

/-- Only files of declared names are written. -/
theorem entry?_addParentImports (wf : t.WellFormed) (ready : Ready g edges) {place : Place}
    (off : ∀ name origin, g.origin? name = some origin → t.locate origin.path ≠ .ok place) :
    entry? (addParentImports g edges t).2 place = t.entry? place := by
  induction edges generalizing t with
  | nil => rfl
  | cons edge rest ih =>
    obtain ⟨firstName, lastName⟩ := edge
    obtain ⟨first, last, hc, hp, plain, ready'⟩ := ready.cons
    have one := adds_addParentImport t first lastName last
    have grown := one.grown wf plain
    rw [addParentImports_cons hc hp]
    refine (ih (wf.congr grown.outline) ready' fun name origin known => ?_).trans
      (one.entry_eq (off _ _ hc))
    rw [← grown.locate]
    exact off name origin known

/-- After a run each child is served with its parents. -/
theorem serves_addParentImports (wf : t.WellFormed) (ready : Ready g edges)
    {childName parentName : String} {child : Origin} (hm : (childName, parentName) ∈ edges)
    (known : g.origin? childName = some child) :
    (addParentImports g edges t).2.Serves child.path parentName := by
  induction edges generalizing t with
  | nil => cases hm
  | cons edge rest ih =>
    obtain ⟨firstName, lastName⟩ := edge
    obtain ⟨first, last, hc, hp, plain, ready'⟩ := ready.cons
    have one := adds_addParentImport t first lastName last
    have wf' := wf.congr (one.grown wf plain).outline
    rw [addParentImports_cons hc hp]
    rcases List.mem_cons.1 hm with same | later
    · obtain ⟨rfl, rfl⟩ := Prod.mk.inj same
      obtain rfl := Option.some.inj (known.symm.trans hc)
      have served := one.serves wf plain
      exact (grown_addParentImports wf' ready').serves served
    · exact ih wf' ready' later

/-- Where all children are served nothing happens. -/
theorem addParentImports_of_serves (ready : Ready g edges)
    (served : ∀ childName parentName child, (childName, parentName) ∈ edges →
      g.origin? childName = some child → t.Serves child.path parentName) :
    addParentImports g edges t = ([], t) := by
  induction edges with
  | nil => rfl
  | cons edge rest ih =>
    obtain ⟨firstName, lastName⟩ := edge
    obtain ⟨first, last, hc, hp, -, ready'⟩ := ready.cons
    have here := served firstName lastName first (List.mem_cons_self ..) hc
    have one := (adds_addParentImport t first lastName last).idle here
    have more := ih ready' fun c p o hm => served c p o (List.mem_cons_of_mem _ hm)
    rw [addParentImports_cons hc hp, one]
    simp only [more]
    rfl

/-- An update finds the files, draws the graph and adds the imports along its edges. -/
theorem updateImports_eq (t : FileTree) (directory : FilePath) :
    updateImports directory t =
      let files := SourceFile.find t directory Session.targets
      let g := DeclarationGraph.ofFiles t files
      let run := addParentImports g g.declaredEdges t
      (⟨files.length, run.1.length, g.declaredCount, run.1⟩, run.2) :=
  rfl

/-- Files with names on one line make a graph that is ready. -/
theorem ready_ofFiles {files : List SourceFile}
    (plain : ∀ f ∈ files, ∀ name ∈ f.relative.names, IsOneLine name) :
    Ready (.ofFiles t files) (DeclarationGraph.ofFiles t files).declaredEdges := by
  have sound := DeclarationGraph.sound_ofFiles t files
  refine ⟨fun name origin known => ?_, fun edge he => ?_, fun edge he => ?_⟩
  · rw [DeclarationGraph.origin?_ofFiles, Option.map_eq_some_iff] at known
    obtain ⟨f, found, rfl⟩ := known
    exact SourceFile.isOneLine_location (plain f (List.mem_of_find?_eq_some found))
  · obtain ⟨f, -, header⟩ :=
      DeclarationGraph.mem_links_ofFiles.1 (sound.mem_declaredEdges_iff.1 he).1
    exact isOneLine_parent header
  · exact (sound.mem_declaredEdges_iff.1 he).2

section Passes

variable {directory : FilePath} (wf : t.WellFormed)
  (plain : ∀ f ∈ SourceFile.find t directory Session.targets,
    ∀ name ∈ f.relative.names, IsOneLine name)

include wf plain

/-- A pass only puts imports in front of files. -/
theorem grown_updateImports : Grown t (updateImports directory t).2 :=
  grown_addParentImports wf (ready_ofFiles plain)

/-- The second pass finds the same files, in them the same declarations, and nothing to do. -/
theorem updateImports_again :
    let once := updateImports directory t
    updateImports directory once.2 = ({ once.1 with updatedFiles := 0, updated := [] }, once.2) := by
  have ready := ready_ofFiles (t := t) plain
  have grown := grown_updateImports wf plain
  have files := grown.find directory Session.targets
  have graph := DeclarationGraph.ofFiles_congr grown.header?
    (SourceFile.find t directory Session.targets)
  have idle := addParentImports_of_serves (t := (updateImports directory t).2) ready
    fun _ _ _ hm known => serves_addParentImports wf ready hm known
  intro once
  refine (updateImports_eq (updateImports directory t).2 directory).trans ?_
  simp only [← files, graph, idle]
  rfl

/-- Only files that the pass has found are written. -/
theorem entry?_updateImports {place : Place}
    (off : ∀ f ∈ SourceFile.find t directory Session.targets, t.locate f.fullPath ≠ .ok place) :
    entry? (updateImports directory t).2 place = t.entry? place := by
  refine entry?_addParentImports wf (ready_ofFiles plain) fun name origin known => ?_
  rw [DeclarationGraph.origin?_ofFiles, Option.map_eq_some_iff] at known
  obtain ⟨f, first, rfl⟩ := known
  exact off f (List.mem_of_find?_eq_some first)

end Passes

/-- A second pass changes nothing, and the first one only puts imports in front of files that it
has found, each with an empty line after it; the text behind them has unified line ends. -/
theorem updateImports_twice {directory : FilePath} (wf : t.WellFormed)
    (plain : ∀ f ∈ SourceFile.find t directory Session.targets,
      ∀ name ∈ f.relative.names, IsOneLine name) :
    let once := (updateImports directory t).2
    let again := updateImports directory once
    again.1.updated = [] ∧ again.1.updatedFiles = 0 ∧ again.2 = once ∧ t.outline = once.outline ∧
      ∀ place, once.entry? place = t.entry? place ∨
        (∃ f ∈ SourceFile.find t directory Session.targets, t.locate f.fullPath = .ok place) ∧
          ∃ imports, imports ≠ [] ∧ (∀ i ∈ imports, i.IsOneLine) ∧
            PrependedAt t once place imports := by
  have grown := grown_updateImports wf plain
  intro once again
  have second : again = _ := updateImports_again wf plain
  refine ⟨by rw [second], by rw [second], by rw [second], grown.outline, fun place => ?_⟩
  by_cases found : ∃ f ∈ SourceFile.find t directory Session.targets,
      t.locate f.fullPath = .ok place
  · exact (grown.entry place).imp_right fun prepended => ⟨found, prepended⟩
  · exact .inl (entry?_updateImports wf plain fun f hf located => found ⟨f, hf, located⟩)

/-- A child with foreign line ends in a directory below that of its parent, and a file that is no
text. -/
def childBelow : FileTree :=
  ⟨[], [(["model"], .directory),
    (["model", "Child.ts"],
      .file (Utf8.encode "export interface Child extends Base \x7b\r\n\x7d\n".toList)),
    (["Base.ts"], .file (Utf8.encode "export interface Base \x7b\n\x7d\n".toList)),
    (["Broken.ts"], .file [0xFF])]⟩

theorem find_childBelow : SourceFile.find childBelow ⟨.here, []⟩ Session.targets =
    [.below ⟨.here, []⟩ ⟨.here, ["Base.ts"]⟩, .below ⟨.here, []⟩ ⟨.here, ["Broken.ts"]⟩,
      .below ⟨.here, []⟩ ⟨.here, ["model", "Child.ts"]⟩] := by
  rw [SourceFile.find_of_pairwise rfl] <;> decide +kernel

/-- The first run puts the import in front of the child, the second changes nothing. -/
theorem updateImports_twice_childBelow :
    childBelow.WellFormed ∧
      (∀ f ∈ SourceFile.find childBelow ⟨.here, []⟩ Session.targets,
        ∀ name ∈ f.relative.names, IsOneLine name) ∧
      let once := (updateImports ⟨.here, []⟩ childBelow).2
      let again := updateImports ⟨.here, []⟩ once
      once.entry? ["model", "Child.ts"] = some (.file (Utf8.encode
        ("import \x7b Base \x7d from '../Base';\n\n" ++
          "export interface Child extends Base \x7b\n\x7d\n").toList)) ∧
      again.1.updated = [] ∧ again.2 = once := by
  have wf : childBelow.WellFormed := by decide +kernel
  have plain : ∀ f ∈ SourceFile.find childBelow ⟨.here, []⟩ Session.targets,
      ∀ name ∈ f.relative.names, IsOneLine name := by
    rw [find_childBelow]
    decide +kernel
  have twice := updateImports_twice wf plain
  refine ⟨wf, plain, ?_, twice.1, twice.2.2.1⟩
  rw [updateImports_eq, find_childBelow]
  decide +kernel

end FileTree

end InterfaceGen
