import InterfaceGen.Proofs.Batch.Runs
import InterfaceGen.Proofs.Files.Finding
import InterfaceGen.Proofs.Files.Location
import InterfaceGen.Proofs.Files.Making
import InterfaceGen.Proofs.Files.Text

/-!
# What a fast run writes

A fast run into an empty directory leaves everything outside it as it is, and below it only outputs
and their directories are new: `Mirrors`, kept by every conversion. So a file that is found there
holds the text of the declaration that is read from the source of its path: `emits_convertTree`.
-/

namespace InterfaceGen

open InterfaceGen.Text FileTree

variable {t u v : FileTree} {input output : FilePath} {place : Place} {f g : SourceFile}

/-! ## Names of outputs -/

/-- The names of the output of a source, from the output directory on. -/
def SourceFile.outputNames (f : SourceFile) : List String :=
  f.relative.parent.names ++ [f.outputName]

theorem SourceFile.outputName_toList (f : SourceFile) :
    f.outputName.toList = f.baseName.toList ++ ['.', 't', 's'] := by
  unfold outputName Session.targetEnding
  rw [String.toList_append]
  simp

/-- The sources of a run have names. -/
theorem Engine.isNamed_of_source (wf : t.WellFormed) (h : f ∈ Engine.sourcesOf t input) : f.IsNamed :=
  SourceFile.isNamed_of_mem_find wf (List.mem_filter.1 h).1

/-- The output of a source has a name that a path can hold. -/
theorem SourceFile.IsNamed.isPathName_outputName (h : f.IsNamed) :
    IsPathName f.outputName ∧ f.outputName ≠ ".." := by
  have length : ∀ other : String, other.toList.length < 3 → f.outputName ≠ other := by
    rintro other short same
    have longer := congrArg (fun text => text.toList.length) same
    simp only [SourceFile.outputName_toList, List.length_append, List.length_cons,
      List.length_nil] at longer
    omega
  refine ⟨⟨length _ (by decide), length _ (by decide), fun slash => ?_⟩, length _ (by decide)⟩
  rw [SourceFile.outputName_toList, List.mem_append] at slash
  rcases slash with slash | slash
  · exact h.slash_notMem_baseName slash
  · simp at slash

/-- The path of the output of a source. -/
def SourceFile.outputPath (f : SourceFile) (output : FilePath) : FilePath :=
  (output.join f.relative.parent).child f.outputName

/-- The directory of an output has the names of the output directory and then those of the
source. -/
theorem SourceFile.IsNamed.join_parent (h : f.IsNamed) (output : FilePath) :
    output.join f.relative.parent =
      { output with names := output.names ++ f.relative.parent.names } := by
  have start : f.relative.parent.start = .here := h.start
  rw [FilePath.join, if_pos start]

theorem SourceFile.IsNamed.outputPath_eq (h : f.IsNamed) (output : FilePath) :
    f.outputPath output = { output with names := output.names ++ f.outputNames } := by
  rw [SourceFile.outputPath, h.join_parent, FilePath.child, SourceFile.outputNames,
    List.append_assoc]

/-! ## What is written -/

/-- A file stands at the place. -/
def FileTree.HasFile (t : FileTree) (place : Place) : Prop :=
  ∃ bytes, t.entry? place = some (.file bytes)

/-- The fast conversion of a source is the text of the declaration that is read from it. -/
structure Engine.Yields (e : Engine) (t : FileTree) (input : FilePath) (g : SourceFile)
    (d : Declaration) : Prop where
  source : g ∈ Engine.sourcesOf t input
  converted : ∃ code, t.readText g.fullPath = .ok code ∧ e.declaration code = .ok d ∧
    ∀ caches, e.convertFast code none caches = (Engine.write [] d, caches)

/-- The path leads to an empty directory. -/
structure FileTree.IsEmptyDirectory (t : FileTree) (path : FilePath) : Prop where
  isDirectory : t.isDirectory path = true
  contents : t.contents path = []

instance (t : FileTree) (path : FilePath) : Decidable (t.IsEmptyDirectory path) :=
  decidable_of_iff (t.isDirectory path = true ∧ t.contents path = [])
    ⟨fun ⟨a, b⟩ => ⟨a, b⟩, fun ⟨a, b⟩ => ⟨a, b⟩⟩

/-- An empty directory is somewhere, and there is nothing below it. -/
theorem FileTree.IsEmptyDirectory.exists_place (h : t.IsEmptyDirectory output) :
    ∃ place, t.locate output = .ok place ∧ t.entry? place = some .directory ∧
      ∀ names, names ≠ [] → t.entry? (place ++ names) = none := by
  obtain ⟨place, located, there⟩ := isDirectory_iff.1 h.isDirectory
  refine ⟨place, located, there, fun names nonempty => ?_⟩
  have bare : t.below place = [] := by
    have contents := h.contents
    unfold FileTree.contents at contents
    rwa [located] at contents
  cases entry : t.entry? (place ++ names) with
  | none => rfl
  | some found =>
    have listed : (names, found) ∈ t.below place :=
      mem_below_iff.2 ⟨nonempty, mem_entries entry (List.append_ne_nil_of_right_ne_nil _ nonempty)⟩
    rw [bare] at listed
    cases listed

/-- Nothing but outputs of sources, in their directories, makes a difference between the trees. -/
structure Engine.Mirrors (e : Engine) (t : FileTree) (input : FilePath) (place : Place)
    (u : FileTree) : Prop where
  wf : u.WellFormed
  keeps : Extends t u
  new : ∀ other entry, u.entry? other = some entry → t.entry? other = some entry ∨
    ∃ names, names ≠ [] ∧ other = place ++ names ∧ (entry = .directory ∨
      ∃ g d, e.Yields t input g d ∧ names = g.outputNames ∧
        entry = .file (Utf8.encode (Engine.write [] d).toList))

namespace Engine

variable {e : Engine}

/-- A source is read as before where its file is reached as before and is kept. -/
theorem readText_of_source (wf : t.WellFormed) (hf : f ∈ sourcesOf t input)
    (reached : ∀ root, t.locate f.fullPath = .ok root → u.locate f.fullPath = .ok root)
    (kept : ∀ root bytes, t.entry? (root ++ f.relative.names) = some (.file bytes) →
      u.entry? (root ++ f.relative.names) = some (.file bytes)) :
    u.readText f.fullPath = t.readText f.fullPath := by
  obtain ⟨root, bytes, way, entry⟩ :=
    SourceFile.exists_file_of_mem_find wf (List.mem_filter.1 hf).1
  refine (readText_congr (way.trans (reached _ way).symm) fun other there => ?_).symm
  obtain rfl := Except.ok.inj (way.symm.trans there)
  rw [entry, kept root bytes entry]

/-- A source is read as before the run. -/
theorem Mirrors.readText (wf : t.WellFormed) (h : e.Mirrors t input place u)
    (hf : f ∈ sourcesOf t input) : u.readText f.fullPath = t.readText f.fullPath :=
  readText_of_source wf hf (fun _ => h.keeps.locate) fun _ _ => h.keeps.kept _ _

/-- What a fast run writes for a source is the text of the declaration that is read from it. -/
theorem Mirrors.exists_yields (wf : t.WellFormed) (h : e.Mirrors t input place u)
    (hf : f ∈ sourcesOf t input) {code text : String} {caches after : Caches}
    (read : u.readText f.fullPath = .ok code)
    (ran : e.run .fast code f.location caches = (some text, after))
    (content : isSentinel (some text) = false) :
    ∃ d, e.Yields t input f d ∧ text = write [] d := by
  have answer : e.run .fast code f.location caches = (some (e.fastText code), caches) :=
    bind_eq (e.convertFast_none code caches)
  obtain ⟨same, -⟩ := Prod.mk.inj (ran.symm.trans answer)
  obtain rfl := Option.some.inj same
  obtain ⟨d, declared, same⟩ := exists_declaration_of_fastText content
  refine ⟨d, ⟨hf, code, (h.readText wf hf).symm.trans read, declared, fun caches => ?_⟩, same⟩
  rw [convertFast_none, same]

/-- The output of a source is placed by its name, in the directory of its source. -/
theorem places_source (wf : t.WellFormed) (hf : f ∈ sourcesOf t input)
    (proper : ∀ name ∈ output.names, IsPathName name) (wf' : u.WellFormed) (bytes : List UInt8) :
    Places u (output.join f.relative.parent) f.outputName bytes
      (FileTree.place (output.join f.relative.parent) f.outputName bytes u) := by
  have source := isNamed_of_source wf hf
  obtain ⟨outputName, ne_up⟩ := source.isPathName_outputName
  refine places_place wf' (fun name hn => ?_) outputName ne_up bytes
  rw [source.join_parent] at hn
  exact IsPathName.append proper (fun _ => source.isFileName_directory) name hn

section Step

variable (located : t.locate output = .ok place) (there : t.entry? place = some .directory)

include located there

/-- Directories that are made below the output directory are new there. -/
theorem Mirrors.made (h : e.Mirrors t input place u) {names : List String}
    (named : ∀ name ∈ names, IsFileName name)
    (made : Made u v { output with names := output.names ++ names }) :
    e.Mirrors t input place v := by
  refine ⟨made.wf, h.keeps.trans made.keeps, fun other entry he => ?_⟩
  rcases made.new_below (h.keeps.locate located) (h.keeps.kept _ _ there) named he with
    old | ⟨-, rfl, front, nonempty, -, rfl⟩
  · exact h.new other entry old
  · exact .inr ⟨front, nonempty, rfl, .inl rfl⟩

variable (wf : t.WellFormed) (empty : ∀ names, names ≠ [] → t.entry? (place ++ names) = none)

include wf empty

/-- So is the output of a source. -/
theorem Mirrors.places (h : e.Mirrors t input place u) {d : Declaration}
    (yields : e.Yields t input g d) {result : Except FileError Unit × FileTree}
    (one : Places u (output.join g.relative.parent) g.outputName
      (Utf8.encode (write [] d).toList) result) :
    e.Mirrors t input place result.2 ∧ (result.1 = .ok () →
      entry? result.2 (place ++ g.outputNames) =
        some (.file (Utf8.encode (write [] d).toList))) := by
  have source := isNamed_of_source wf yields.source
  have named : ∀ name ∈ g.relative.parent.names, IsFileName name :=
    fun name hn => source.isFileName_directory hn
  rw [source.join_parent] at one
  have sound := one.wellFormed
  cases one with
  | failed made error => exact ⟨h.made located there named made, fun same => by cases same⟩
  | @written w above made up _ _ _ =>
    have mirrors := h.made located there named made
    obtain ⟨root, start, down⟩ := exists_of_locate_append up
    have same : root = place :=
      Except.ok.inj (start.symm.trans (mirrors.keeps.locate located))
    have below := eq_append_of_follow (fun name hn => (named name hn).ne_up) down
    rw [same] at below
    -- The output stands below the output directory, where nothing was before the run.
    have target : above ++ [g.outputName] = place ++ g.outputNames := by
      rw [below, SourceFile.outputNames, List.append_assoc]
    have nonempty : g.outputNames ≠ [] := by simp [SourceFile.outputNames]
    have full : above ++ [g.outputName] ≠ [] := by simp
    refine ⟨⟨sound, ⟨?_, fun other entry he => ?_⟩,
      fun other entry he => ?_⟩, fun _ => ?_⟩
    · rw [mirrors.keeps.workingDirectory, workingDirectory_set]
    · have differ : other ≠ above ++ [g.outputName] := by
        rintro rfl
        rw [target, empty _ nonempty] at he
        cases he
      rw [entry?_set_of_ne w full differ]
      exact mirrors.keeps.kept _ _ he
    · rw [entry?_set w full] at he
      split at he
      · next here =>
        cases he
        exact .inr ⟨_, nonempty, here.trans target, .inr ⟨g, d, yields, rfl, rfl⟩⟩
      · exact mirrors.new other entry he
    · rw [← target, entry?_set_self w full]

variable (proper : ∀ name ∈ output.names, IsPathName name)

include proper

/-- One conversion. A source that is reported as converted has its output. -/
theorem Mirrors.converts {s after : Session} (h : e.Mirrors t input place s.tree)
    (hf : f ∈ sourcesOf t input) {ended : Except BatchError FileResult}
    (one : Converts e output .fast f s (ended, after)) :
    e.Mirrors t input place after.tree ∧ KeepsFiles s.tree after.tree ∧
      ∀ result, ended = .ok result → result.success = true →
        result = .written f (f.outputPath output).toText ∧
          after.tree.HasFile (place ++ f.outputNames) := by
  have put := places_source wf hf proper h.wf
  generalize outcome : (ended, after) = result at one
  cases one with
  | unusable =>
    rw [Run.report_eq] at outcome
    obtain ⟨rfl, rfl⟩ := Prod.mk.inj outcome
    refine ⟨h, .refl _, fun result ok success => ?_⟩
    split at ok <;> cases ok
    cases success
  | undecodable | short | silent | sentinel =>
    obtain ⟨rfl, rfl⟩ := Prod.mk.inj outcome
    refine ⟨h, .refl _, fun result ok success => ?_⟩
    cases ok
    cases success
  | unplaced read large ran content placed =>
    rw [Run.report_eq] at outcome
    obtain ⟨rfl, rfl⟩ := Prod.mk.inj outcome
    obtain ⟨d, yields, rfl⟩ := h.exists_yields wf hf read ran content
    have one := placed ▸ put _
    refine ⟨(h.places located there wf empty yields one).1, one.keepsFiles,
      fun result ok success => ?_⟩
    split at ok <;> cases ok
    cases success
  | written read large ran content placed =>
    obtain ⟨rfl, rfl⟩ := Prod.mk.inj outcome
    obtain ⟨d, yields, rfl⟩ := h.exists_yields wf hf read ran content
    have one := placed ▸ put _
    obtain ⟨mirrors, stored⟩ := h.places located there wf empty yields one
    refine ⟨mirrors, one.keepsFiles, fun result ok _ => ?_⟩
    cases ok
    exact ⟨rfl, _, stored rfl⟩

/-- All conversions. What was reported as converted has its output in the end. -/
theorem Mirrors.runs {files : List SourceFile} (hf : ∀ f ∈ files, f ∈ sourcesOf t input)
    {s after : Session} (h : e.Mirrors t input place s.tree)
    {ended : Except BatchError (List FileResult)}
    (runs : Runs e output .fast files s (ended, after)) :
    e.Mirrors t input place after.tree ∧ KeepsFiles s.tree after.tree ∧
      ∀ results, ended = .ok results → ∀ result ∈ results, result.success = true →
        ∃ f ∈ files, result = .written f (f.outputPath output).toText ∧
          after.tree.HasFile (place ++ f.outputNames) := by
  generalize outcome : (ended, after) = result at runs
  induction runs generalizing ended after with
  | done s =>
    obtain ⟨rfl, rfl⟩ := Prod.mk.inj outcome
    refine ⟨h, .refl _, fun results ok => ?_⟩
    cases ok
    exact nofun
  | stopped one =>
    obtain ⟨rfl, rfl⟩ := Prod.mk.inj outcome
    obtain ⟨mirrors, kept, -⟩ :=
      h.converts located there wf empty proper (hf _ (List.mem_cons_self ..)) one
    exact ⟨mirrors, kept, nofun⟩
  | @next f files s middle after' first later one more ih =>
    obtain ⟨rfl, rfl⟩ := Prod.mk.inj outcome
    obtain ⟨mirrors, kept, made⟩ :=
      h.converts located there wf empty proper (hf _ (List.mem_cons_self ..)) one
    obtain ⟨mirrors', kept', made'⟩ := ih (fun f hm => hf f (List.mem_cons_of_mem _ hm)) mirrors rfl
    refine ⟨mirrors', kept.trans kept', fun results ok result hr success => ?_⟩
    cases later with
    | error error => cases ok
    | ok rest =>
      cases ok
      -- An output that is there stays a file during the later conversions.
      rcases List.mem_cons.1 hr with rfl | hr
      · obtain ⟨same, bytes, file⟩ := made _ rfl success
        exact ⟨f, List.mem_cons_self .., same, kept' _ bytes file⟩
      · obtain ⟨g, hg, same, file⟩ := made' rest rfl result hr success
        exact ⟨g, List.mem_cons_of_mem _ hg, same, file⟩

/-- The whole run with its report. -/
theorem Mirrors.reports {s : Session} (h : e.Mirrors t input place s.tree) {name : String} :
    let run := e.reportBatch output .fast name (sourcesOf t input) s
    e.Mirrors t input place run.2.tree ∧
      ∀ report, run.1 = .ok report → ∀ result ∈ report.results, result.success = true →
        ∃ g ∈ sourcesOf t input, result = .written g (g.outputPath output).toText ∧
          run.2.tree.HasFile (place ++ g.outputNames) := by
  have runs := e.runs_convertBatch output .fast (sourcesOf t input) s
  intro run
  cases ran : e.convertBatch output .fast (sourcesOf t input) s with
  | mk ended after =>
    rw [ran] at runs
    obtain ⟨mirrors, -, made⟩ := h.runs located there wf empty proper (fun _ hf => hf) runs
    cases ended with
    | error error =>
      have stopped : run = (.error error, after) := Run.bind_error ran
      rw [stopped]
      exact ⟨mirrors, nofun⟩
    | ok results =>
      have answer : run = (.ok _, after) := Run.bind_ok ran
      rw [answer]
      refine ⟨mirrors, fun report ok => ?_⟩
      cases ok
      exact made results rfl

/-- A fast run that makes the output directory first. -/
theorem mirrors_convertTree (e : Engine) (input : FilePath) {s : Session} (size : Int)
    (made : (FileTree.makeDirectories output s.tree).2 = t) :
    let run := e.convertTree input output "fast" size s
    e.Mirrors t input place run.2.tree ∧
      ∀ report, run.1 = .ok report → ∀ result ∈ report.results, result.success = true →
        ∃ g ∈ sourcesOf t input, result = .written g (g.outputPath output).toText ∧
          run.2.tree.HasFile (place ++ g.outputNames) := by
  intro run
  have start : e.Mirrors t input place t := ⟨wf, .refl t, fun _ _ h => .inl h⟩
  have known : Mode.ofName? "fast" = some .fast := by decide
  cases outcome : FileTree.makeDirectories output s.tree with
  | mk ended tree =>
    rw [outcome] at made
    subst made
    cases ended with
    | error error =>
      have stopped : run = _ := e.convertTree_of_unmade input output known size outcome
      rw [stopped]
      exact ⟨start, nofun⟩
    | ok done =>
      have report : run = _ := e.convertTree_of_made input output known size outcome
      rw [report]
      exact start.reports located there wf empty proper

end Step

/-! ## What is found afterwards -/

/-- The file holds the text of the declaration that is read from the source of its path. -/
structure Emits (e : Engine) (t : FileTree) (input : FilePath) (u : FileTree) (f : SourceFile)
    (d : Declaration) : Prop where
  source : ∃ g, e.Yields t input g d ∧ f.relative = ⟨.here, g.outputNames⟩
  stored : u.find? f.fullPath = some (.file (Utf8.encode (write [] d).toList))

/-- A fast run into an empty directory. What it reports as converted is found there as a file, and
what is found there holds what was converted. -/
theorem emits_convertTree (e : Engine) (input : FilePath) {s : Session} (wf : s.tree.WellFormed)
    (proper : ∀ name ∈ output.names, IsPathName name) (size : Int) :
    let t := (FileTree.makeDirectories output s.tree).2
    let run := e.convertTree input output "fast" size s
    let files := SourceFile.find run.2.tree output Session.targets
    t.IsEmptyDirectory output → t.WellFormed ∧ run.2.tree.WellFormed ∧
      (∀ f ∈ files, ∃ d, e.Emits t input run.2.tree f d) ∧
      ∀ report, run.1 = .ok report → ∀ result ∈ report.results, result.success = true →
        ∃ g ∈ sourcesOf t input, result = .written g (g.outputPath output).toText ∧
          SourceFile.below output ⟨.here, g.outputNames⟩ ∈ files := by
  intro t run files bare
  have wf' : t.WellFormed := (made_makeDirectories wf proper).wf
  obtain ⟨place, located, there, empty⟩ := bare.exists_place
  obtain ⟨mirrors, reported⟩ :=
    mirrors_convertTree located there wf' empty proper e input size rfl
  refine ⟨wf', mirrors.wf, fun f hf => ?_, fun report ok result hr success => ?_⟩
  · obtain ⟨root, names, bytes, way, nonempty, entry, -, rfl⟩ :=
      (SourceFile.mem_find_iff mirrors.wf).1 hf
    obtain rfl : root = place := Except.ok.inj (way.symm.trans (mirrors.keeps.locate located))
    rcases mirrors.new _ _ entry with old | ⟨others, -, same, written⟩
    · rw [empty names nonempty] at old
      cases old
    obtain rfl := List.append_cancel_left same
    rcases written with directory | ⟨g, d, yields, rfl, text⟩
    · cases directory
    · exact ⟨d, ⟨g, yields, rfl⟩, find?_eq_some_iff.2
        ⟨_, SourceFile.locate_of_mem_find mirrors.wf way hf, text ▸ entry⟩⟩
  · obtain ⟨g, hg, same, bytes, file⟩ := reported report ok result hr success
    refine ⟨g, hg, same, (SourceFile.mem_find_iff mirrors.wf).2 ⟨place, g.outputNames, bytes,
      mirrors.keeps.locate located, by simp [SourceFile.outputNames], file, ?_, rfl⟩⟩
    rw [SourceFile.outputNames, List.getLast?_concat, Option.getD_some,
      SourceFile.outputName_toList]
    exact List.suffix_append _ _

end Engine

end InterfaceGen
