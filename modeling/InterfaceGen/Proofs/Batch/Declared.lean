import InterfaceGen.Proofs.Batch.Blocks
import InterfaceGen.Proofs.Graph

/-!
# What files declare

A file declares the interface of its first header. In the graph of all files the first one that
declares a name counts, and every header that names a parent makes a link: `origin?_ofFiles`,
`mem_links_ofFiles`. Imports in front of the files do not change what they declare.
-/

namespace InterfaceGen

open InterfaceGen.Text

theorem InterfaceHeader.IsWord.isOneLine {text : String} (h : IsWord text.toList) : IsOneLine text := by
  intro c hc
  have word := h.2 c hc
  constructor <;> rintro rfl <;> exact absurd word (by decide)

namespace FileTree

variable {t u : FileTree}

/-! ## Declarations of files -/

/-- What the first header of a file says; nothing if the file cannot be read. -/
def header? (t : FileTree) (path : FilePath) : Option (String × Option String) :=
  match t.readText path with
  | .error _ => none
  | .ok text => InterfaceHeader.first? text

theorem isOneLine_parent {path : FilePath} {name parent : String}
    (h : t.header? path = some (name, some parent)) : IsOneLine parent := by
  unfold header? at h
  split at h
  · cases h
  · exact (InterfaceHeader.isWord_parent h).isOneLine

/-- Imports in front of a file leave its first header. -/
theorem Grown.header? (h : Grown t u) (path : FilePath) : u.header? path = t.header? path := by
  unfold FileTree.header?
  rcases h.readText path with same | ⟨text, imports, old, plain, new⟩
  · rw [same]
  · rw [old, new]
    simp only [InterfaceHeader.first?_eq, String.toList_append, String.toList_ofList,
      InterfaceHeader.firstFrom?_blocks plain]

/-- The name that a file declares. -/
def declared? (t : FileTree) (f : SourceFile) : Option String :=
  (t.header? f.fullPath).map (·.1)

end FileTree

/-- The file as a declaration. -/
def SourceFile.origin (f : SourceFile) : Origin :=
  ⟨f.location, f.fullPath⟩

namespace DeclarationGraph

variable {t u : FileTree} {g : DeclarationGraph}

/-- A file counts by its first header: it declares the name, and extends the parent if there is
one. -/
theorem addFile_eq (t : FileTree) (g : DeclarationGraph) (f : SourceFile) :
    addFile t g f =
      match t.header? f.fullPath with
      | none => g
      | some (name, none) => g.declare name f.origin
      | some (name, some parent) => (g.declare name f.origin).extend name parent := by
  unfold addFile FileTree.header?
  rcases t.readText f.fullPath with error | text
  · rfl
  · simp only
    rcases InterfaceHeader.first? text with _ | ⟨name, _ | parent⟩ <;> rfl

/-- The graph depends on the headers of the files alone. -/
theorem ofFiles_congr (h : ∀ path, u.header? path = t.header? path) (files : List SourceFile) :
    ofFiles u files = ofFiles t files := by
  have step : addFile u = addFile t := by
    funext g f
    rw [addFile_eq, addFile_eq, h]
  rw [ofFiles, ofFiles, step]

theorem Sound.addFile (h : g.Sound) (t : FileTree) (f : SourceFile) : (addFile t g f).Sound := by
  rw [addFile_eq]
  split
  · exact h
  · exact h.declare _ _
  · exact (h.declare _ _).extend _ _

/-- A name keeps the origin that it has, or else gets the file that declares it. -/
theorem origin?_addFile (t : FileTree) (g : DeclarationGraph) (f : SourceFile) (name : String) :
    (addFile t g f).origin? name =
      (g.origin? name).or (if t.declared? f = some name then some f.origin else none) := by
  rw [addFile_eq, FileTree.declared?]
  rcases t.header? f.fullPath with _ | ⟨declared, _ | parent⟩
  · simp
  · simp [origin?_declare, eq_comm]
  · simp [origin?_extend, origin?_declare, eq_comm]

/-- A file adds the one link that its header states. -/
theorem mem_links_addFile {f : SourceFile} {child parent : String} :
    (child, parent) ∈ (addFile t g f).links ↔
      (child, parent) ∈ g.links ∨ t.header? f.fullPath = some (child, some parent) := by
  rw [addFile_eq]
  rcases t.header? f.fullPath with _ | ⟨declared, _ | extended⟩
  · simp
  · simp [links_declare]
  · simp [mem_links_extend, links_declare, eq_comm]

/-! ## The graph of all files -/

/-- The graph of all files is sound. -/
theorem sound_ofFiles (t : FileTree) (files : List SourceFile) : (ofFiles t files).Sound :=
  List.foldlRecOn files (addFile t) .empty fun _ h f _ => h.addFile t f

/-- The first file that declares a name counts. -/
theorem origin?_ofFiles (t : FileTree) (files : List SourceFile) (name : String) :
    (ofFiles t files).origin? name =
      (files.find? fun f => t.declared? f = some name).map SourceFile.origin := by
  have after : ∀ g : DeclarationGraph, (files.foldl (addFile t) g).origin? name =
      (g.origin? name).or ((files.find? fun f => t.declared? f = some name).map
        SourceFile.origin) := by
    induction files with
    | nil => exact fun g => by simp
    | cons f files ih =>
      intro g
      rw [List.foldl_cons, ih, origin?_addFile, Option.or_assoc, List.find?_cons]
      by_cases same : t.declared? f = some name <;> simp [same]
  exact after empty

/-- Every header that names a parent makes a link. -/
theorem mem_links_ofFiles {files : List SourceFile} {child parent : String} :
    (child, parent) ∈ (ofFiles t files).links ↔
      ∃ f ∈ files, t.header? f.fullPath = some (child, some parent) := by
  have after : ∀ g : DeclarationGraph, (child, parent) ∈ (files.foldl (addFile t) g).links ↔
      (child, parent) ∈ g.links ∨
        ∃ f ∈ files, t.header? f.fullPath = some (child, some parent) := by
    induction files with
    | nil => simp
    | cons f files ih =>
      intro g
      rw [List.foldl_cons, ih, mem_links_addFile, or_assoc, List.exists_mem_cons_iff]
  rw [ofFiles, after]
  simp [empty]

end DeclarationGraph

end InterfaceGen
