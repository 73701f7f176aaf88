import InterfaceGen.Proofs.Batch.Mirror
import InterfaceGen.Proofs.Batch.Verdicts
import InterfaceGen.Proofs.Files.Reaching

/-!
# The entries of a run

Where a tree has room for the outputs, a run has one entry for each source, which says what the verdict
on it is, and writes what is to be written and nothing else: `convertTree_performs`. It is shown by an
invariant, `Wrote`, about the tree after some of the sources.
-/

namespace InterfaceGen

open InterfaceGen.Text FileTree

variable {before t u v : FileTree} {input output : FilePath} {place other : Place} {f g : SourceFile}

/-- What is told about a source on which the verdict is this. -/
def FileResult.of (output : FilePath) (f : SourceFile) : Except String String → FileResult
  | .ok _ => .written f (f.outputPath output).toText
  | .error reason => .failure f reason

@[simp] theorem FileResult.success_of (r : Except String String) :
    (FileResult.of output f r).success = r.isOk := by
  cases r <;> rfl

/-! ## Names -/

/-- A name with the ending of sources and its stem. -/
theorem FilePath.stemOf_source (body : List Char) :
    stemOf (String.ofList (body ++ Session.sourceEnding.toList)) =
      if body = [] then Session.sourceEnding else String.ofList body := by
  have reversed : (String.ofList (body ++ Session.sourceEnding.toList)).toList.reverse =
      'a' :: 'v' :: 'a' :: 'j' :: '.' :: body.reverse := by
    rw [String.toList_ofList, List.reverse_append]
    rfl
  unfold stemOf
  rw [reversed]
  by_cases none : body = []
  · subst none
    rfl
  · simp [none]

namespace Engine

/-- The name of a source has the ending of sources. -/
theorem suffix_of_source (wf : t.WellFormed) (h : f ∈ sourcesOf t input) :
    Session.sourceEnding.toList <:+ f.fileName.toList := by
  obtain ⟨found, -⟩ := List.mem_filter.1 h
  obtain ⟨root, names, bytes, -, -, -, ends, rfl⟩ := (SourceFile.mem_find_iff wf).1 found
  exact ends

/-- Its output is a file, too. -/
theorem isFileName_outputName (wf : t.WellFormed) (h : f ∈ sourcesOf t input) :
    IsFileName f.outputName := by
  have source := isNamed_of_source wf h
  obtain ⟨proper, ne_up⟩ := source.isPathName_outputName
  refine ⟨proper.nonempty, proper.ne_here, ne_up, proper.noSlash, fun null => ?_, ?_⟩
  · rw [SourceFile.outputName_toList, List.mem_append] at null
    rcases null with null | null
    · exact source.isFileName.noNull (FilePath.mem_of_mem_stemOf null)
    · simp at null
  · -- The stem with its new ending is shorter than the name, unless the name is the ending.
    obtain ⟨body, same⟩ := suffix_of_source wf h
    have name : f.fileName = String.ofList (body ++ Session.sourceEnding.toList) := by
      rw [same, String.ofList_toList]
    have short := source.isFileName.short
    have stem : f.baseName = if body = [] then Session.sourceEnding else String.ofList body := by
      rw [SourceFile.baseName, name, FilePath.stemOf_source]
    rw [name, String.ofList_append, String.utf8ByteSize_append, String.ofList_toList] at short
    rw [SourceFile.outputName, String.utf8ByteSize_append, stem]
    have source : Session.sourceEnding.utf8ByteSize = 5 := by decide
    have target : Session.targetEnding.utf8ByteSize = 3 := by decide
    have limit : nameLimit = 255 := rfl
    split <;> omega

/-- All names on the way to an output can be names of files. -/
theorem isFileName_outputNames (wf : t.WellFormed) (h : f ∈ sourcesOf t input) :
    ∀ name ∈ f.relative.parent.names ++ [f.outputName], IsFileName name := by
  intro name hn
  rcases List.mem_append.1 hn with hn | hn
  · exact (isNamed_of_source wf h).isFileName_directory hn
  · exact List.mem_singleton.1 hn ▸ isFileName_outputName wf h

/-- A source can be read, though what is read may be no text. -/
theorem readText_ne_of_source (wf : t.WellFormed) (h : f ∈ sourcesOf t input) (error : FileError) :
    t.readText f.fullPath ≠ .error (.file error) := by
  obtain ⟨root, bytes, way, entry⟩ :=
    SourceFile.exists_file_of_mem_find wf (List.mem_filter.1 h).1
  intro unreadable
  rw [FileTree.readText, readBytes, way] at unreadable
  simp only [entry] at unreadable
  split at unreadable <;> cases unreadable

/-- No output is where a source is. -/
theorem outputNames_ne (wf : t.WellFormed) (h : f ∈ sourcesOf t input) {root : Place} :
    root ++ f.relative.names ≠ place ++ g.outputNames := by
  intro same
  have source := isNamed_of_source wf h
  have last := congrArg List.getLast? same
  rw [SourceFile.outputNames, ← List.append_assoc, List.getLast?_concat, List.getLast?_append,
    List.getLast?_eq_some_getLast source.nonempty, Option.some_or] at last
  have name : f.fileName = g.outputName := by
    rw [SourceFile.fileName, FilePath.name, List.getLast?_eq_some_getLast source.nonempty]
    exact Option.some.inj last
  obtain ⟨body, ends⟩ := suffix_of_source wf h
  have final := congrArg List.getLast? ends
  rw [name, SourceFile.outputName_toList] at final
  simp [Session.sourceEnding] at final

/-! ## Room for the outputs -/

/-- The output directory can be made, and in the tree with it the outputs have room: none of them is
where a directory is, below a file, or at or below another one. -/
structure HasRoom (input output : FilePath) (before t : FileTree) (place : Place) : Prop where
  wf : before.WellFormed
  proper : ∀ name ∈ output.names, IsPathName name
  made : makeDirectories output before = (.ok (), t)
  located : t.locate output = .ok place
  there : t.entry? place = some .directory
  free : ∀ f ∈ sourcesOf t input, t.entry? (place ++ f.outputNames) ≠ some .directory
  clear : ∀ f ∈ sourcesOf t input, t.IsClear place f.relative.parent.names
  apart : ∀ f ∈ sourcesOf t input, ∀ g ∈ sourcesOf t input, f.outputNames <+: g.outputNames → f = g

namespace HasRoom

variable (room : HasRoom input output before t place)

include room

/-- Making the output directory changes nothing else. -/
theorem frame : Made before t output := by
  have made := made_makeDirectories room.wf room.proper
  rwa [room.made] at made

/-- The files are the same. -/
theorem file_iff {bytes : List UInt8} :
    t.entry? other = some (.file bytes) ↔ before.entry? other = some (.file bytes) := by
  constructor
  · intro h
    rcases room.frame.new _ _ h with old | ⟨-, new, -⟩
    · exact old
    · cases new
  · exact room.frame.keeps.kept _ _

/-- No output is at the directory of another. -/
theorem ne_front (hf : f ∈ sourcesOf t input) (hg : g ∈ sourcesOf t input) {front : List String}
    (part : front <+: g.relative.parent.names) : f.outputNames ≠ front := by
  rintro rfl
  obtain rfl := room.apart f hf g hg (part.trans (List.prefix_append _ _))
  have short := part.length_le
  rw [SourceFile.outputNames, List.length_append, List.length_singleton] at short
  omega

end HasRoom

/-! ## The tree after some sources -/

/-- What is written of a source on which the verdict is this. -/
def writing (f : SourceFile) : Except String String → List (SourceFile × String)
  | .ok text => [(f, text)]
  | .error _ => []

theorem mem_writing_iff {r : Except String String} {text : String} :
    (g, text) ∈ writing f r ↔ g = f ∧ r = .ok text := by
  cases r with
  | error reason => simp [writing]
  | ok other => simp [writing, eq_comm]

/-- Texts were written as the outputs of sources, and directories were made for them. Nothing else
makes a difference between the trees. -/
structure Wrote (t : FileTree) (place : Place) (done : List (SourceFile × String)) (u : FileTree) :
    Prop where
  wf : u.WellFormed
  keeps : KeepsDirectories t u
  stored : ∀ f text, (f, text) ∈ done →
    u.entry? (place ++ f.outputNames) = some (.file (Utf8.encode text.toList))
  file : ∀ other bytes, (∀ f text, (f, text) ∈ done → other ≠ place ++ f.outputNames) →
    (u.entry? other = some (.file bytes) ↔ t.entry? other = some (.file bytes))
  directory : ∀ other, u.entry? other = some .directory → t.entry? other = some .directory ∨
    ∃ f text, (f, text) ∈ done ∧ ∃ front, front <+: f.relative.parent.names ∧ other = place ++ front

namespace Wrote

variable {done : List (SourceFile × String)}

theorem refl (wf : t.WellFormed) : Wrote t place [] t where
  wf := wf
  keeps := .refl t
  stored _ _ h := by cases h
  file _ _ _ := Iff.rfl
  directory _ h := .inl h

variable (h : Wrote t place done u)

include h

/-- A source is read as before. -/
theorem readText (wf : t.WellFormed) (hf : f ∈ sourcesOf t input) :
    u.readText f.fullPath = t.readText f.fullPath :=
  readText_of_source wf hf (fun _ => h.keeps.locate) fun _ bytes =>
    (h.file _ bytes fun _ _ _ => outputNames_ne wf hf).2

variable (room : HasRoom input output before t place) (listed : ∀ p ∈ done, p.1 ∈ sourcesOf t input)

include room listed

/-- No file is in the way of the next output. -/
theorem clear (hf : f ∈ sourcesOf t input) : u.IsClear place f.relative.parent.names := by
  intro front part bytes found
  refine room.clear f hf front part bytes ((h.file _ bytes fun g text hg same => ?_).1 found)
  rw [List.append_cancel_left_eq] at same
  exact room.ne_front (listed _ hg) hf part same.symm

/-- No directory was made where it is to be. -/
theorem free (hf : f ∈ sourcesOf t input) : u.entry? (place ++ f.outputNames) ≠ some .directory := by
  intro found
  rcases h.directory _ found with old | ⟨g, text, hg, front, part, same⟩
  · exact room.free f hf old
  · rw [List.append_cancel_left_eq] at same
    exact room.ne_front hf (listed _ hg) part same

/-- The next output, put into its directory. -/
theorem put (hf : f ∈ sourcesOf t input) (new : ∀ p ∈ done, p.1 ≠ f)
    (made : Made u v { output with names := output.names ++ f.relative.parent.names })
    (up : v.entry? (place ++ f.relative.parent.names) = some .directory)
    (free : v.entry? (place ++ f.outputNames) ≠ some .directory) (text : String) :
    Wrote t place (done ++ [(f, text)])
      (v.set (place ++ f.outputNames) (.file (Utf8.encode text.toList))) := by
  have wf := room.frame.wf
  have named := isFileName_outputNames wf hf
  have nonempty : place ++ f.outputNames ≠ [] := by simp [SourceFile.outputNames]
  have target : place ++ f.outputNames = place ++ f.relative.parent.names ++ [f.outputName] :=
    (List.append_assoc ..).symm
  have below : ∀ other entry, v.entry? other = some entry → u.entry? other = some entry ∨
      entry = .directory ∧ ∃ front, front <+: f.relative.parent.names ∧ other = place ++ front := by
    intro other entry found
    rcases made.new_below (h.keeps.locate room.located) (h.keeps.kept _ room.there)
      (fun n hn => named n (List.mem_append_left _ hn)) found with
      old | ⟨-, directory, front, -, part, same⟩
    · exact .inl old
    · exact .inr ⟨directory, front, part, same⟩
  constructor
  case wf =>
    rw [target] at free ⊢
    exact made.wf.set_file up (isFileName_outputName wf hf) free _
  case keeps =>
    refine (h.keeps.trans made.keeps.keepsDirectories).trans
      ⟨(workingDirectory_set ..).symm, fun other old => ?_⟩
    have differ : other ≠ place ++ f.outputNames := by
      rintro rfl
      exact free old
    rw [entry?_set_of_ne v nonempty differ, old]
  case stored =>
    intro g written hg
    rcases List.mem_append.1 hg with hg | hg
    -- Two sources never have the same output.
    · have differ : place ++ g.outputNames ≠ place ++ f.outputNames := by
        intro same
        rw [List.append_cancel_left_eq] at same
        exact new _ hg (room.apart g (listed _ hg) f hf (same ▸ List.prefix_rfl))
      rw [entry?_set_of_ne v nonempty differ]
      exact made.keeps.kept _ _ (h.stored g written hg)
    · obtain ⟨rfl, rfl⟩ := Prod.mk.inj (List.mem_singleton.1 hg)
      exact entry?_set_self v nonempty _
  case file =>
    intro other bytes away
    have differ := away f text (by simp)
    rw [entry?_set_of_ne v nonempty differ,
      ← h.file other bytes fun g written hg => away g written (List.mem_append_left _ hg)]
    constructor
    · intro found
      rcases below other _ found with old | ⟨new, -⟩
      · exact old
      · cases new
    · exact made.keeps.kept _ _
  case directory =>
    intro other found
    rw [entry?_set v nonempty] at found
    split at found
    · cases found
    rcases below other _ found with old | ⟨-, front, part, same⟩
    · rcases h.directory other old with older | ⟨g, written, hg, more⟩
      · exact .inl older
      · exact .inr ⟨g, written, List.mem_append_left _ hg, more⟩
    · exact .inr ⟨f, text, by simp, front, part, same⟩

/-- The next output can be written. -/
theorem exists_place (hf : f ∈ sourcesOf t input) (new : ∀ p ∈ done, p.1 ≠ f) (text : String) :
    ∃ v, FileTree.place (output.join f.relative.parent) f.outputName (Utf8.encode text.toList) u =
        (.ok (), v) ∧ Wrote t place (done ++ [(f, text)]) v := by
  have wf := room.frame.wf
  rw [(isNamed_of_source wf hf).join_parent]
  obtain ⟨v, made, up, free, placed⟩ := FileTree.exists_place h.wf room.proper
    (h.keeps.locate room.located) (h.keeps.kept _ room.there) (isFileName_outputNames wf hf)
    (h.clear room listed hf) (h.free room listed hf) (Utf8.encode text.toList)
  exact ⟨_, placed, h.put room listed hf new made up free text⟩

end Wrote

/-! ## Sources, one after the other -/

section Runs

variable {done : List (SourceFile × String)} {s : Session} (e : Engine) (mode : Mode)
  (room : HasRoom input output before t place)

include room

/-- The conversion of the next source: its entry says what the verdict on it is, and what is to be
written is written. -/
theorem convertFile_wrote (h : Wrote t place done s.tree) (listed : ∀ p ∈ done, p.1 ∈ sourcesOf t input)
    (hf : f ∈ sourcesOf t input) (new : ∀ p ∈ done, p.1 ≠ f) :
    let said := e.verdict mode f (t.readText f.fullPath) s.caches
    ∃ v, e.convertFile output mode f s = (.ok (.of output f said.1), ⟨v, said.2⟩) ∧
      Wrote t place (done ++ writing f said.1) v := by
  have unwritten : Wrote t place (done ++ []) s.tree := by
    rwa [List.append_nil]
  have one := e.converts_convertFile output mode f s
  rw [← h.readText room.frame.wf hf]
  generalize e.convertFile output mode f s = result at one
  cases one with
  | unusable read =>
    rw [h.readText room.frame.wf hf] at read
    exact absurd read (readText_ne_of_source room.frame.wf hf _)
  | undecodable read =>
    rw [read]
    exact ⟨s.tree, rfl, unwritten⟩
  | short read small =>
    rw [read, verdict_of_isShort small]
    exact ⟨s.tree, rfl, unwritten⟩
  | silent read large ran =>
    rw [read, verdict_of_run large ran]
    exact ⟨s.tree, rfl, unwritten⟩
  | sentinel read large ran empty =>
    rw [read, verdict_of_run large ran, judged]
    simp only [if_pos empty]
    exact ⟨s.tree, rfl, unwritten⟩
  | unplaced read large ran content failed =>
    -- There is room for the output.
    obtain ⟨v, placed, -⟩ := h.exists_place room listed hf new _
    rw [failed] at placed
    cases placed
  | written read large ran content done =>
    obtain ⟨v, placed, wrote⟩ := h.exists_place room listed hf new _
    obtain ⟨-, rfl⟩ := Prod.mk.inj (done.symm.trans placed)
    rw [read, verdict_of_run large ran, judged_eq_ok_iff.2 ⟨rfl, content⟩]
    exact ⟨_, rfl, wrote⟩

/-- What is written of sources with these verdicts. -/
def writings (files : List SourceFile) (rs : List (Except String String)) :
    List (SourceFile × String) :=
  (List.zipWith writing files rs).flatten

/-- The conversion of the next sources. -/
theorem convertBatch_wrote {files : List SourceFile} (hf : ∀ f ∈ files, f ∈ sourcesOf t input)
    (once : files.Nodup) (h : Wrote t place done s.tree)
    (listed : ∀ p ∈ done, p.1 ∈ sourcesOf t input) (new : ∀ p ∈ done, p.1 ∉ files) :
    let said := e.verdicts mode t files s.caches
    ∃ v, e.convertBatch output mode files s =
        (.ok (List.zipWith (FileResult.of output) files said.1), ⟨v, said.2⟩) ∧
      Wrote t place (done ++ writings files said.1) v := by
  induction files generalizing s done with
  | nil =>
    refine ⟨s.tree, rfl, ?_⟩
    rwa [verdicts_nil, writings, List.zipWith_nil_left, List.flatten_nil, List.append_nil]
  | cons f files ih =>
    obtain ⟨first, later⟩ := List.forall_mem_cons.1 hf
    obtain ⟨fresh, once⟩ := List.nodup_cons.1 once
    obtain ⟨v, ran, wrote⟩ := convertFile_wrote e mode room h listed first
      fun p hp same => new p hp (same ▸ List.mem_cons_self ..)
    have own : ∀ {r}, ∀ p ∈ writing f r, p.1 = f := fun p hp => (mem_writing_iff.1 hp).1
    obtain ⟨w, rest, wrote'⟩ := ih (s := ⟨v, _⟩) later once wrote
      (fun p hp => (List.mem_append.1 hp).elim (listed p) fun hp => own p hp ▸ first)
      fun p hp => (List.mem_append.1 hp).elim
        (fun hp hm => new p hp (List.mem_cons_of_mem _ hm)) fun hp => own p hp ▸ fresh
    refine ⟨w, ?_, ?_⟩
    · rw [convertBatch, Run.bind_ok ran, Run.bind_ok rest, verdicts_cons]
      rfl
    · rw [verdicts_cons, writings, List.zipWith_cons_cons, List.flatten_cons, ← List.append_assoc]
      exact wrote'

end Runs

/-! ## The whole run -/

/-- The entries of the sources, in their order. -/
def results (e : Engine) (mode : Mode) (output : FilePath) (t : FileTree) (files : List SourceFile)
    (caches : Caches) : List FileResult :=
  List.zipWith (FileResult.of output) files (e.verdicts mode t files caches).1

/-- The engine makes this text of the source that is the next one after so many others. -/
def GivesNext (e : Engine) (mode : Mode) (t : FileTree) (files : List SourceFile) (caches : Caches)
    (i : Nat) (f : SourceFile) (text : String) : Prop :=
  files[i]? = some f ∧ e.Gives mode t f (e.verdicts mode t (files.take i) caches).2 text

/-- The sources of a run: the files below a directory whose names have the ending of sources and that
are no tests, each once, in the order of their paths. -/
structure AreSources (t : FileTree) (input : FilePath) (files : List SourceFile) : Prop where
  once : files.Nodup
  sorted : files.Pairwise fun f g => FilePath.le f.fullPath g.fullPath = true
  mem_iff : ∀ f, f ∈ files ↔ f.isTest = false ∧ ∃ root names bytes, t.locate input = .ok root ∧
    names ≠ [] ∧ t.entry? (root ++ names) = some (.file bytes) ∧
    Session.sourceEnding.toList <:+ (names.getLast?.getD "").toList ∧
    f = SourceFile.below input ⟨.here, names⟩

/-- What comes of a run: one entry for each source, which is a success exactly where a text was made of
it; these texts in their outputs; no other change of a file. The engine remembers what the sources left
with it in their order. In a fast run an entry does not even depend on that. -/
structure Performs (e : Engine) (mode : Mode) (input output : FilePath) (place : Place) (s : Session)
    (t : FileTree) (run : Except BatchError BatchReport × Session) : Prop where
  sources : AreSources t input (sourcesOf t input)
  report : run.1 = .ok ⟨mode.name, (sourcesOf t input).length,
    ((e.results mode output t (sourcesOf t input) s.caches).countP (·.success) : Nat),
    e.results mode output t (sourcesOf t input) s.caches⟩
  caches : run.2.caches = (e.verdicts mode t (sourcesOf t input) s.caches).2
  length : (e.results mode output t (sourcesOf t input) s.caches).length = (sourcesOf t input).length
  entry : ∀ i f, (sourcesOf t input)[i]? = some f →
    ∃ result, (e.results mode output t (sourcesOf t input) s.caches)[i]? = some result ∧
      result.inputFile = f.relativePath ∧
      (result.success = true ↔ ∃ text, e.GivesNext mode t (sourcesOf t input) s.caches i f text) ∧
      (result.success = true → result = .written f (f.outputPath output).toText)
  stored : ∀ i f text, e.GivesNext mode t (sourcesOf t input) s.caches i f text →
    run.2.tree.find? (f.outputPath output) = some (.file (Utf8.encode text.toList))
  file : ∀ other bytes, (∀ i f text, e.GivesNext mode t (sourcesOf t input) s.caches i f text →
      other ≠ place ++ f.outputNames) →
    (run.2.tree.entry? other = some (.file bytes) ↔ s.tree.entry? other = some (.file bytes))
  keeps : KeepsDirectories s.tree run.2.tree
  directory : ∀ other, run.2.tree.entry? other = some .directory →
    t.entry? other = some .directory ∨
      ∃ i f text, e.GivesNext mode t (sourcesOf t input) s.caches i f text ∧
        ∃ front, front <+: f.relative.parent.names ∧ other = place ++ front
  fast : mode = .fast → e.results mode output t (sourcesOf t input) s.caches =
    (sourcesOf t input).map fun f => .of output f (e.fastVerdict (t.readText f.fullPath))

/-- The sources of a tree are each listed once, in order, and are all of them. -/
theorem areSources_sourcesOf (wf : t.WellFormed) (input : FilePath) :
    AreSources t input (sourcesOf t input) where
  once := (SourceFile.nodup_find ..).filter _
  sorted := (SourceFile.pairwise_find ..).filter _
  mem_iff f := by
    rw [sourcesOf, List.mem_filter, Session.sources, SourceFile.mem_find_iff wf, and_comm,
      Bool.not_eq_true']

variable {e : Engine} {mode : Mode} {files : List SourceFile} {caches : Caches} {text : String}

/-- The verdict says that a text is to be written exactly where the engine makes one. -/
theorem getElem?_verdicts_eq_ok_iff {i : Nat} (hi : files[i]? = some f) :
    (e.verdicts mode t files caches).1[i]? = some (.ok text) ↔
      e.GivesNext mode t files caches i f text := by
  rw [getElem?_verdicts hi, Option.some.injEq, verdict_eq_ok_iff, GivesNext, and_iff_right hi]

/-- A text is written for a source exactly where the engine makes one of it. -/
theorem mem_writings_iff : (f, text) ∈ writings files (e.verdicts mode t files caches).1 ↔
    ∃ i, e.GivesNext mode t files caches i f text := by
  rw [writings, List.mem_flatten]
  constructor
  · rintro ⟨l, hl, hm⟩
    obtain ⟨i, hi⟩ := List.mem_iff_getElem?.1 hl
    rw [List.getElem?_zipWith] at hi
    split at hi
    · next g r hg hr =>
      cases hi
      obtain ⟨rfl, rfl⟩ := mem_writing_iff.1 hm
      exact ⟨i, (getElem?_verdicts_eq_ok_iff hg).1 hr⟩
    · cases hi
  · rintro ⟨i, given⟩
    have said := (getElem?_verdicts_eq_ok_iff given.1).2 given
    refine ⟨writing f (.ok text), List.mem_iff_getElem?.2 ⟨i, ?_⟩, mem_writing_iff.2 ⟨rfl, rfl⟩⟩
    rw [List.getElem?_zipWith, given.1, said]

/-- There is one entry for each source. -/
theorem length_results : (e.results mode output t files caches).length = files.length := by
  rw [results, List.length_zipWith, length_verdicts, Nat.min_self]

/-- The entries of a fast run depend on the text of each source alone. -/
theorem results_fast : e.results .fast output t files caches =
    files.map fun f => .of output f (e.fastVerdict (t.readText f.fullPath)) := by
  rw [results, verdicts_fast, List.zipWith_map_right, List.zipWith_self]

/-- The entry of a source names it, tells of success exactly if the engine makes a text of it, and
then names the output. -/
theorem getElem?_results {i : Nat} (hi : files[i]? = some f) :
    ∃ result, (e.results mode output t files caches)[i]? = some result ∧
      result.inputFile = f.relativePath ∧
      (result.success = true ↔ ∃ text, e.GivesNext mode t files caches i f text) ∧
      (result.success = true → result = .written f (f.outputPath output).toText) := by
  obtain ⟨r, said⟩ : ∃ r, (e.verdicts mode t files caches).1[i]? = some r :=
    ⟨_, getElem?_verdicts hi⟩
  refine ⟨.of output f r, by rw [results, List.getElem?_zipWith, hi, said], ?_⟩
  simp only [← getElem?_verdicts_eq_ok_iff hi, said]
  cases r with
  | error reason =>
    refine ⟨rfl, ⟨fun success => ?_, fun ⟨text, given⟩ => ?_⟩, fun success => ?_⟩
    · cases success
    · cases given
    · cases success
  | ok text => exact ⟨rfl, ⟨fun _ => ⟨text, rfl⟩, fun _ => rfl⟩, fun _ => rfl⟩

/-- The path of an output leads to its place. -/
theorem Wrote.locate_outputPath {done : List (SourceFile × String)}
    (h : Wrote t place done u) (room : HasRoom input output before t place)
    (hf : f ∈ sourcesOf t input) {entry : FileEntry}
    (there : u.entry? (place ++ f.outputNames) = some entry) :
    u.locate (f.outputPath output) = .ok (place ++ f.outputNames) := by
  rw [(isNamed_of_source room.frame.wf hf).outputPath_eq]
  exact h.wf.locate_below (h.keeps.locate room.located) there

/-- Where the outputs have room a run does what it is to do, whatever the size of the batches. -/
theorem performs_convertTree {s : Session} (room : HasRoom input output s.tree t place) (e : Engine)
    (mode : Mode) (size : Int) :
    e.Performs mode input output place s t (e.convertTree input output mode.name size s) := by
  have sources := areSources_sourcesOf room.frame.wf input
  have known : Mode.ofName? mode.name = some mode := by
    cases mode <;> decide
  obtain ⟨v, ran, wrote⟩ := convertBatch_wrote (s := { s with tree := t }) e mode room
    (fun _ hf => hf) sources.once (.refl room.frame.wf) (by simp) (by simp)
  rw [List.nil_append] at wrote
  have run : e.convertTree input output mode.name size s = (.ok ⟨mode.name, (sourcesOf t input).length,
      ((e.results mode output t (sourcesOf t input) s.caches).countP (·.success) : Nat),
      e.results mode output t (sourcesOf t input) s.caches⟩,
      ⟨v, (e.verdicts mode t (sourcesOf t input) s.caches).2⟩) := by
    rw [e.convertTree_of_made input output known size room.made, reportBatch, Run.bind_ok ran]
    rfl
  rw [run]
  refine ⟨sources, rfl, rfl, length_results, fun i f hi => getElem?_results hi, ?_, ?_, ?_, ?_, ?_⟩
  · intro i f text given
    have there := wrote.stored f text (mem_writings_iff.2 ⟨i, given⟩)
    exact find?_eq_some_iff.2
      ⟨_, wrote.locate_outputPath room (List.mem_of_getElem? given.1) there, there⟩
  · intro other bytes away
    rw [← room.file_iff]
    exact wrote.file other bytes fun f text hf =>
      (mem_writings_iff.1 hf).elim fun i given => away i f text given
  · exact room.frame.keeps.keepsDirectories.trans wrote.keeps
  · intro other found
    rcases wrote.directory other found with old | ⟨f, text, hf, more⟩
    · exact .inl old
    · obtain ⟨i, given⟩ := mem_writings_iff.1 hf
      exact .inr ⟨i, f, text, given, more⟩
  · rintro rfl
    exact results_fast

/-! ## Fast runs -/

/-- In fast mode the engine makes a text from what is read alone, whatever it remembers. -/
theorem givesNext_fast_iff {i : Nat} : e.GivesNext .fast t files caches i f text ↔
    files[i]? = some f ∧ e.fastVerdict (t.readText f.fullPath) = .ok text := by
  rw [GivesNext, ← verdict_eq_ok_iff, verdict_fast]

/-- Two runs have one and the same entry for a source, and one and the same output if there is one. -/
def AgreeOn (f : SourceFile) (input output : FilePath) (t t' : FileTree)
    (run run' : Except BatchError BatchReport × Session) : Prop :=
  ∃ report report' result, run.1 = .ok report ∧ run'.1 = .ok report' ∧
    (f, result) ∈ (sourcesOf t input).zip report.results ∧
    (f, result) ∈ (sourcesOf t' input).zip report'.results ∧
    (result.success = true →
      run.2.tree.find? (f.outputPath output) = run'.2.tree.find? (f.outputPath output))

/-- What a fast run makes of a source depends on this source only. -/
theorem Performs.agreeOn {place' : Place} {s s' : Session} {t' : FileTree}
    {run run' : Except BatchError BatchReport × Session}
    (h : e.Performs .fast input output place s t run)
    (h' : e.Performs .fast input output place' s' t' run') (hf : f ∈ sourcesOf t input)
    (hf' : f ∈ sourcesOf t' input) (same : t.readText f.fullPath = t'.readText f.fullPath) :
    AgreeOn f input output t t' run run' := by
  have listed : ∀ {t : FileTree} {caches : Caches} {i : Nat}, (sourcesOf t input)[i]? = some f →
      (f, FileResult.of output f (e.fastVerdict (t.readText f.fullPath))) ∈
        (sourcesOf t input).zip (e.results .fast output t (sourcesOf t input) caches) := by
    intro t caches i hi
    refine List.mem_iff_getElem?.2 ⟨i, List.getElem?_zip_eq_some.2 ⟨hi, ?_⟩⟩
    rw [results_fast, List.getElem?_map, hi, Option.map_some]
  obtain ⟨i, hi⟩ := List.mem_iff_getElem?.1 hf
  obtain ⟨j, hj⟩ := List.mem_iff_getElem?.1 hf'
  refine ⟨_, _, _, h.report, h'.report, listed hi, same ▸ listed hj, fun success => ?_⟩
  cases said : e.fastVerdict (t.readText f.fullPath) with
  | error reason =>
    rw [said] at success
    cases success
  | ok text =>
    rw [h.stored i f text (givesNext_fast_iff.2 ⟨hi, said⟩),
      h'.stored j f text (givesNext_fast_iff.2 ⟨hj, same ▸ said⟩)]

/-- A run, where the outputs have room, has an entry for each source that says whether a text was made
of it, writes these texts and nothing else, whatever the mode, the engine and the size of the batches.
In a fast run what becomes of a source does not depend on the others. -/
theorem convertTree_performs {s : Session} (room : HasRoom input output s.tree t place) (e : Engine)
    (mode : Mode) (size : Int) :
    let run := e.convertTree input output mode.name size s
    e.Performs mode input output place s t run ∧
      (mode = .fast → ∀ (s' : Session) (t' : FileTree) (place' : Place) (size' : Int),
        HasRoom input output s'.tree t' place' →
        let run' := e.convertTree input output mode.name size' s'
        ∀ f ∈ sourcesOf t input, f ∈ sourcesOf t' input →
          t.readText f.fullPath = t'.readText f.fullPath →
            AgreeOn f input output t t' run run') := by
  refine ⟨performs_convertTree room e mode size, ?_⟩
  rintro rfl s' t' place' size' room' run' f hf hf' same
  exact (performs_convertTree room e .fast size).agreeOn
    (performs_convertTree room' e .fast size') hf hf' same

/-- A test, a file that is no text, and a class. -/
def mixedSources : FileTree :=
  ⟨[], [(["in"], .directory),
    (["in", "ATest.java"], .file (Utf8.encode "class ATest \x7b private B b; \x7d".toList)),
    (["in", "Bad.java"], .file [0xFF]),
    (["in", "model"], .directory),
    (["in", "model", "B.java"], .file (Utf8.encode "class B \x7b private A a; \x7d".toList))]⟩

/-- The same tree with the output directory. -/
def mixedMade : FileTree :=
  ⟨[], mixedSources.entries ++ [(["out"], .directory)]⟩

/-- The test is no source; the other two files are, in order. -/
theorem sourcesOf_mixed : sourcesOf mixedMade ⟨.here, ["in"]⟩ =
    [.below ⟨.here, ["in"]⟩ ⟨.here, ["Bad.java"]⟩,
      .below ⟨.here, ["in"]⟩ ⟨.here, ["model", "B.java"]⟩] := by
  unfold sourcesOf
  rw [SourceFile.find_of_pairwise rfl] <;> decide +kernel

theorem hasRoom_mixed :
    HasRoom ⟨.here, ["in"]⟩ ⟨.here, ["out"]⟩ mixedSources mixedMade ["out"] where
  wf := by decide +kernel
  proper := by decide
  made := by refine Prod.ext ?_ ?_ <;> decide +kernel
  located := by decide +kernel
  there := by decide +kernel
  free := by rw [sourcesOf_mixed]; decide +kernel
  clear := by rw [sourcesOf_mixed]; decide +kernel
  apart := by rw [sourcesOf_mixed]; decide +kernel

/-- The file that is no text fails alone: the report counts one success of two, and the class behind
it is written. -/
theorem convertTree_performs_mixed :
    HasRoom ⟨.here, ["in"]⟩ ⟨.here, ["out"]⟩ mixedSources mixedMade ["out"] ∧
      let run := standard.convertTree ⟨.here, ["in"]⟩ ⟨.here, ["out"]⟩ "fast" 0 ⟨mixedSources, .empty⟩
      (∃ report, run.1 = .ok report ∧ report.totalFiles = 2 ∧ report.successCount = 1 ∧
        report.results.map (·.success) = [false, true]) ∧
      run.2.tree.find? ⟨.here, ["out", "model", "B.ts"]⟩ =
        some (.file (Utf8.encode "export interface B \x7b\n  a?: A;\n\x7d\n".toList)) := by
  refine ⟨hasRoom_mixed, ?_⟩
  obtain ⟨performs, -⟩ :=
    convertTree_performs (s := ⟨mixedSources, .empty⟩) hasRoom_mixed standard .fast 0
  have bad : (standard.fastVerdict (mixedMade.readText ⟨.here, ["in", "Bad.java"]⟩)).isOk = false := by
    decide +kernel
  have written : standard.fastVerdict (mixedMade.readText ⟨.here, ["in", "model", "B.java"]⟩) =
      .ok "export interface B \x7b\n  a?: A;\n\x7d\n" := by
    decide +kernel
  have successes : (standard.results .fast ⟨.here, ["out"]⟩ mixedMade
      (sourcesOf mixedMade ⟨.here, ["in"]⟩) .empty).map (·.success) = [false, true] := by
    rw [performs.fast rfl, sourcesOf_mixed]
    simp only [List.map_cons, List.map_nil, FileResult.success_of]
    exact congrArg₂ (fun first second => [first, second]) bad (congrArg Except.isOk written)
  refine ⟨⟨_, performs.report, ?_, ?_, successes⟩, performs.stored 1
    (.below ⟨.here, ["in"]⟩ ⟨.here, ["model", "B.java"]⟩) _ (givesNext_fast_iff.2 ⟨?_, written⟩)⟩
  · rw [sourcesOf_mixed]
    rfl
  · have count := congrArg (List.countP id) successes
    rw [List.countP_map] at count
    exact congrArg Int.ofNat count
  · rw [sourcesOf_mixed]
    rfl

end Engine

end InterfaceGen
