import InterfaceGen.Batch.Report
import InterfaceGen.Batch.Session

/-!
# Conversion of directories

Every source below a directory that is no test is converted into a file of the same path below
another one. Files that cannot be read, converted or written are reported and left out; the run
goes on.
-/

namespace InterfaceGen

/-- The name of the output of a source. -/
def SourceFile.outputName (f : SourceFile) : String :=
  f.baseName ++ Session.targetEnding

namespace FileResult

/-- A file that was not converted. -/
def failure (f : SourceFile) (error : String) : FileResult where
  inputFile := f.relativePath
  success := false
  outputFile := none
  outputPath := none
  directory := f.directory
  error := some error

/-- A file that was converted. -/
def written (f : SourceFile) (outputPath : String) : FileResult where
  inputFile := f.relativePath
  success := true
  outputFile :=
    some (if f.directory = "" then f.outputName else f.directory ++ "/" ++ f.outputName)
  outputPath := some outputPath
  directory := f.directory
  error := none

end FileResult

/-- The reason that a sentinel gives. -/
def sentinelReason (output : String) : String :=
  String.ofList (Text.trim ((Text.trim output.toList).dropWhile (· = '/')))

/-- Why a run stops, or does not even start. -/
inductive BatchError where
  | unknownMode (name : String)
  /-- The output directory cannot be made, or a path is none. -/
  | file (error : FileError)
  deriving DecidableEq, Repr

/-- The error in words. -/
def BatchError.message : BatchError → String
  | unknownMode name => "Unsupported batch mode: " ++ name
  | file error => error.message

/-- Work on files that may stop; what was done before stays done. -/
abbrev Run := ExceptT BatchError (StateM Session)

namespace Run

/-- Lets the engine work with its memory. -/
def withCaches {α : Type} (work : StateM Caches α) : Run α :=
  ExceptT.lift (Session.withCaches work)

/-- Lets work on the files change them. -/
def withTree {α : Type} (work : StateM FileTree α) : Run α :=
  ExceptT.lift (Session.withTree work)

/-- The files as they are now. -/
def currentTree : Run FileTree :=
  ExceptT.lift Session.currentTree

/-- Reports a file that cannot be used, or stops. -/
def report (f : SourceFile) (error : FileError) : Run FileResult :=
  if error.isReported then return .failure f error.message else throw (.file error)

end Run

namespace Engine

/-- What the engine makes of a source in a mode. -/
def run (e : Engine) (mode : Mode) (code location : String) : StateM Caches (Option String) :=
  match mode with
  | .full => e.convert code (some location)
  | .smart => do return some (← e.convertFast code (some location))
  | .fast => do return some (← e.convertFast code none)

/-- Converts a file into its place below another directory. -/
def convertFile (e : Engine) (outputRoot : FilePath) (mode : Mode) (f : SourceFile) :
    Run FileResult := do
  match (← Run.currentTree).readText f.fullPath with
  | .error (.file error) => Run.report f error
  | .error error => return .failure f error.message
  | .ok code =>
    if e.isShort code then
      return .failure f "Too small"
    match ← Run.withCaches (e.run mode code f.location) with
    | none => return .failure f "No content: nothing to convert"
    | some output =>
      if isSentinel (some output) then
        return .failure f ("No content: " ++ sentinelReason output)
      let directory := outputRoot.join f.relative.parent
      let bytes := Text.Utf8.encode output.toList
      match ← Run.withTree (FileTree.place directory f.outputName bytes) with
      | .error error => Run.report f error
      | .ok () => return .written f (directory.child f.outputName).toText

/-- The number of files in a batch when nothing else is asked for. -/
def standardBatchSize : Int := 25

/-- The number of files that are converted at a time. -/
def workers : Nat := 8

/-- The files in batches of a size, the last one perhaps smaller. -/
def batches {α : Type} (size : Nat) (files : List α) : List (List α) :=
  if files.isEmpty ∨ size = 0 then []
  else files.take size :: batches size (files.drop size)
termination_by files.length
decreasing_by
  rename_i h
  simp only [not_or, List.isEmpty_iff] at h
  have := List.length_pos_iff.2 h.1
  simp only [List.length_drop]
  omega

/-- Converts a batch, file by file. -/
def convertBatch (e : Engine) (output : FilePath) (mode : Mode) :
    List SourceFile → Run (List FileResult)
  | [] => return []
  | f :: rest => do
    let result ← e.convertFile output mode f
    return result :: (← convertBatch e output mode rest)

/-- Converts one batch after the other. -/
def convertBatches (e : Engine) (output : FilePath) (mode : Mode) :
    List (List SourceFile) → Run (List FileResult)
  | [] => return []
  | batch :: rest => do
    let results ← e.convertBatch output mode batch
    return results ++ (← convertBatches e output mode rest)

/-- Converts the sources below `input` into `output`, in batches of at least one file. -/
def convertTree (e : Engine) (input output : FilePath) (modeName : String) (batchSize : Int) :
    Run BatchReport := do
  match Mode.ofName? modeName with
  | none => throw (.unknownMode modeName)
  | some mode =>
    match ← Run.withTree (FileTree.makeDirectories output) with
    | .error error => throw (.file error)
    | .ok () =>
      let found := SourceFile.find (← Run.currentTree) input Session.sources
      let files := found.filter fun f => !f.isTest
      let results ← e.convertBatches output mode (batches (max 1 batchSize).toNat files)
      return ⟨modeName, files.length, (results.countP (·.success) : Nat), results⟩

end Engine

end InterfaceGen
