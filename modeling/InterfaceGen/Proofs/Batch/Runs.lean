import InterfaceGen.Batch.Convert
import InterfaceGen.Proofs.Declaration.Sentinel
import InterfaceGen.Proofs.Engine.Session

/-!
# Runs over directories

What the conversion of one file does is said once, `converts_convertFile`: it answers, may change the
memos, and at most puts one file into the output directory. A run is one conversion after the other,
in the order of the sources, whatever the size of the batches: `runs_convertBatch`,
`convertTree_of_made`.
-/

namespace InterfaceGen

open InterfaceGen.Text

/-! ## Fast conversion -/

namespace Engine

variable (e : Engine) (code : String)

/-- The text of a fast conversion without a location. -/
def fastText : String :=
  if e.isTooSmall code then sentinel "Skipped: Input too small"
  else if isSkipped code then sentinel "Skipped: Not suitable for interface conversion"
  else match e.conversion code [] with
    | .converted output _ => output
    | failed => sentinel (failed.reason?.getD "")

/-- Without a location a fast conversion remembers nothing. -/
theorem convertFast_none (caches : Caches) :
    e.convertFast code none caches = (e.fastText code, caches) := by
  unfold convertFast fastText
  by_cases small : e.isTooSmall code = true
  · simp only [small, if_true]
    rfl
  · by_cases skipped : isSkipped code = true
    · simp only [small, skipped, if_true, Bool.false_eq_true, if_false]
      rfl
    · have unasked : e.request? code none false = none := by
        unfold request?
        rw [if_neg small]
        cases e.declaration code <;> rfl
      have explained := e.explain_eq caches code none false
      rw [unasked] at explained
      simp only [small, skipped, Bool.false_eq_true, if_false]
      refine (bind_eq explained).trans ?_
      show (match e.conversion code [] with
        | .converted output _ => (pure output : StateM Caches String)
        | failed => pure (sentinel (failed.reason?.getD ""))) caches = _
      cases e.conversion code [] <;> rfl

end Engine

/-- What is no sentinel is a declaration that was written. -/
theorem Engine.exists_declaration_of_fastText {e : Engine} {code : String}
    (h : isSentinel (some (e.fastText code)) = false) :
    ∃ d, e.declaration code = .ok d ∧ e.fastText code = write [] d := by
  unfold fastText at h ⊢
  by_cases small : e.isTooSmall code = true
  · rw [if_pos small, isSentinel_sentinel] at h
    cases h
  rw [if_neg small] at h ⊢
  by_cases skipped : isSkipped code = true
  · rw [if_pos skipped, isSentinel_sentinel] at h
    cases h
  rw [if_neg skipped] at h ⊢
  unfold conversion at h ⊢
  rw [if_neg small] at h ⊢
  cases read : e.declaration code with
  | error failure =>
    rw [read] at h
    have none : isSentinel (some (sentinel failure.message)) = false := h
    rw [isSentinel_sentinel] at none
    cases none
  | ok d => exact ⟨d, rfl, rfl⟩

/-! ## Runs -/

namespace Run

variable {α β : Type} {first : Run α} {rest : α → Run β} {s after : Session}

/-- A step that answers hands its answer and its state on. -/
theorem bind_ok {answer : α} (h : first s = (.ok answer, after)) :
    (first >>= rest) s = rest answer after := by
  show StateT.bind first (ExceptT.bindCont rest) s = _
  unfold StateT.bind
  rw [h]
  rfl

/-- A step that fails ends the run, in the state in which it failed. -/
theorem bind_error {error : BatchError} (h : first s = (.error error, after)) :
    (first >>= rest) s = (.error error, after) := by
  show StateT.bind first (ExceptT.bindCont rest) s = _
  unfold StateT.bind
  rw [h]
  rfl

/-- A report leaves everything as it is and calls nothing a success. -/
theorem report_eq (f : SourceFile) (error : FileError) (s : Session) :
    report f error s =
      (if error.isReported then .ok (.failure f error.message) else .error (.file error), s) := by
  unfold report
  split <;> rfl

end Run

namespace Engine

/-- How the conversion of a file may end. -/
inductive Converts (e : Engine) (output : FilePath) (mode : Mode) (f : SourceFile) (s : Session) :
    Except BatchError FileResult × Session → Prop where
  | unusable {error : FileError} (read : s.tree.readText f.fullPath = .error (.file error)) :
    Converts e output mode f s (Run.report f error s)
  | undecodable {error : Utf8.DecodeError}
    (read : s.tree.readText f.fullPath = .error (.undecodable error)) :
    Converts e output mode f s (.ok (.failure f error.message), s)
  | short {code : String} (read : s.tree.readText f.fullPath = .ok code)
    (small : e.isShort code = true) :
    Converts e output mode f s (.ok (.failure f "Too small"), s)
  | silent {code : String} {caches : Caches} (read : s.tree.readText f.fullPath = .ok code)
    (large : e.isShort code = false) (ran : e.run mode code f.location s.caches = (none, caches)) :
    Converts e output mode f s
      (.ok (.failure f "No content: nothing to convert"), { s with caches })
  | sentinel {code text : String} {caches : Caches}
    (read : s.tree.readText f.fullPath = .ok code) (large : e.isShort code = false)
    (ran : e.run mode code f.location s.caches = (some text, caches))
    (empty : isSentinel (some text) = true) :
    Converts e output mode f s
      (.ok (.failure f ("No content: " ++ sentinelReason text)), { s with caches })
  | unplaced {code text : String} {caches : Caches} {error : FileError} {tree : FileTree}
    (read : s.tree.readText f.fullPath = .ok code) (large : e.isShort code = false)
    (ran : e.run mode code f.location s.caches = (some text, caches))
    (content : isSentinel (some text) = false)
    (placed : FileTree.place (output.join f.relative.parent) f.outputName
      (Utf8.encode text.toList) s.tree = (.error error, tree)) :
    Converts e output mode f s (Run.report f error ⟨tree, caches⟩)
  | written {code text : String} {caches : Caches} {tree : FileTree}
    (read : s.tree.readText f.fullPath = .ok code) (large : e.isShort code = false)
    (ran : e.run mode code f.location s.caches = (some text, caches))
    (content : isSentinel (some text) = false)
    (placed : FileTree.place (output.join f.relative.parent) f.outputName
      (Utf8.encode text.toList) s.tree = (.ok (), tree)) :
    Converts e output mode f s
      (.ok (.written f ((output.join f.relative.parent).child f.outputName).toText), ⟨tree, caches⟩)

/-- The conversion of a file ends in one of these ways. -/
theorem converts_convertFile (e : Engine) (output : FilePath) (mode : Mode) (f : SourceFile)
    (s : Session) : Converts e output mode f s (e.convertFile output mode f s) := by
  have look : Run.currentTree s = (.ok s.tree, s) := rfl
  unfold convertFile
  rw [Run.bind_ok look]
  cases read : s.tree.readText f.fullPath with
  | error error =>
    cases error with
    | file error => exact .unusable read
    | undecodable error => exact .undecodable read
  | ok code =>
    dsimp only
    cases large : e.isShort code with
    | true => exact .short read large
    | false =>
      -- The outcome gets a name, since the case that holds tells what it was.
      obtain ⟨⟨answer, caches⟩, ran⟩ :
          ∃ result, e.run mode code f.location s.caches = result := ⟨_, rfl⟩
      have run : Run.withCaches (e.run mode code f.location) s =
          (.ok answer, { s with caches }) := by
        show (Except.ok (e.run mode code f.location s.caches).1,
          { s with caches := (e.run mode code f.location s.caches).2 }) = _
        rw [ran]
      rw [if_neg Bool.false_ne_true, Run.bind_ok run]
      cases answer with
      | none => exact .silent read large ran
      | some text =>
        dsimp only
        cases empty : isSentinel (some text) with
        | true => exact .sentinel read large ran empty
        | false =>
          obtain ⟨⟨ended, tree⟩, placed⟩ : ∃ result, FileTree.place (output.join f.relative.parent)
              f.outputName (Utf8.encode text.toList) s.tree = result := ⟨_, rfl⟩
          have write : Run.withTree (FileTree.place (output.join f.relative.parent) f.outputName
              (Utf8.encode text.toList)) { s with caches } = (.ok ended, ⟨tree, caches⟩) := by
            show (Except.ok (FileTree.place (output.join f.relative.parent) f.outputName
                (Utf8.encode text.toList) s.tree).1,
              { s with caches, tree := (FileTree.place (output.join f.relative.parent) f.outputName
                (Utf8.encode text.toList) s.tree).2 }) = _
            rw [placed]
          rw [if_neg Bool.false_ne_true, Run.bind_ok write]
          cases ended with
          | error error => exact .unplaced read large ran empty placed
          | ok done => exact .written read large ran empty placed

/-! ## All files -/

/-- How the conversion of files, one after the other, may end. -/
inductive Runs (e : Engine) (output : FilePath) (mode : Mode) :
    List SourceFile → Session → Except BatchError (List FileResult) × Session → Prop where
  | done (s : Session) : Runs e output mode [] s (.ok [], s)
  | stopped {f : SourceFile} {files : List SourceFile} {s after : Session} {error : BatchError}
    (one : Converts e output mode f s (.error error, after)) :
    Runs e output mode (f :: files) s (.error error, after)
  | next {f : SourceFile} {files : List SourceFile} {s middle after : Session}
    {result : FileResult} {ended : Except BatchError (List FileResult)}
    (one : Converts e output mode f s (.ok result, middle))
    (more : Runs e output mode files middle (ended, after)) :
    Runs e output mode (f :: files) s (ended.map (result :: ·), after)

/-- A batch is a run of its conversions. -/
theorem runs_convertBatch (e : Engine) (output : FilePath) (mode : Mode) (files : List SourceFile)
    (s : Session) : Runs e output mode files s (e.convertBatch output mode files s) := by
  induction files generalizing s with
  | nil => exact .done s
  | cons f files ih =>
    have one := e.converts_convertFile output mode f s
    rw [convertBatch]
    cases ran : e.convertFile output mode f s with
    | mk ended after =>
      rw [ran] at one
      cases ended with
      | error error =>
        rw [Run.bind_error ran]
        exact .stopped one
      | ok result =>
        have more := Runs.next one (ih after)
        rw [Run.bind_ok ran]
        cases rest : e.convertBatch output mode files after with
        | mk ended last =>
          rw [rest] at more
          cases ended with
          | error error =>
            rw [Run.bind_error rest]
            exact more
          | ok results =>
            rw [Run.bind_ok rest]
            exact more

/-! ## Batches -/

variable (e : Engine) (input output : FilePath) (mode : Mode)

/-- Two batches one after the other are one. -/
theorem convertBatch_append (files more : List SourceFile) :
    e.convertBatch output mode (files ++ more) = (do
      let first ← e.convertBatch output mode files
      let second ← e.convertBatch output mode more
      return first ++ second) := by
  induction files with
  | nil => simp [convertBatch]
  | cons f files ih => simp [convertBatch, ih]

/-- How the files are put into batches makes no difference. -/
theorem convertBatches_eq (batches : List (List SourceFile)) :
    e.convertBatches output mode batches = e.convertBatch output mode batches.flatten := by
  induction batches with
  | nil => rfl
  | cons batch batches ih => rw [convertBatches, ih, List.flatten_cons, convertBatch_append]

/-- Batches of a positive size hold all files, in their order. -/
theorem flatten_batches {α : Type} {size : Nat} (positive : 0 < size) (files : List α) :
    (batches size files).flatten = files := by
  fun_induction batches size files with
  | case1 files none =>
    rcases none with empty | zero
    · exact (List.isEmpty_iff.1 empty).symm
    · omega
  | case2 files some' ih => rw [List.flatten_cons, ih, List.take_append_drop]

/-- The files that a run converts: the sources that are no tests. -/
def sourcesOf (t : FileTree) (input : FilePath) : List SourceFile :=
  (SourceFile.find t input Session.sources).filter fun f => !f.isTest

/-- The conversion of files with its report. -/
def reportBatch (name : String) (files : List SourceFile) : Run BatchReport := do
  let results ← e.convertBatch output mode files
  return ⟨name, files.length, (results.countP (·.success) : Nat), results⟩

variable {mode} {name : String} (known : Mode.ofName? name = some mode) (size : Int) {s : Session}
  {t : FileTree}

include known

/-- Without the output directory nothing is converted. -/
theorem convertTree_of_unmade {error : FileError}
    (made : FileTree.makeDirectories output s.tree = (.error error, t)) :
    e.convertTree input output name size s = (.error (.file error), { s with tree := t }) := by
  have make : Run.withTree (FileTree.makeDirectories output) s =
      (.ok (.error error), { s with tree := t }) := by
    show (Except.ok (FileTree.makeDirectories output s.tree).1,
      { s with tree := (FileTree.makeDirectories output s.tree).2 }) = _
    rw [made]
  unfold convertTree
  rw [known]
  exact Run.bind_ok make

/-- In it all sources are converted, whatever the size of the batches. -/
theorem convertTree_of_made (made : FileTree.makeDirectories output s.tree = (.ok (), t)) :
    e.convertTree input output name size s =
      e.reportBatch output mode name (sourcesOf t input) { s with tree := t } := by
  have make : Run.withTree (FileTree.makeDirectories output) s =
      (.ok (.ok ()), { s with tree := t }) := by
    show (Except.ok (FileTree.makeDirectories output s.tree).1,
      { s with tree := (FileTree.makeDirectories output s.tree).2 }) = _
    rw [made]
  have look : Run.currentTree { s with tree := t } = (.ok t, { s with tree := t }) := rfl
  have positive : 0 < (max 1 size).toNat := by omega
  unfold convertTree
  rw [known]
  dsimp only
  rw [Run.bind_ok make]
  dsimp only
  rw [Run.bind_ok look, convertBatches_eq, flatten_batches positive]
  rfl

end Engine

end InterfaceGen
