import InterfaceGen.Batch.Convert
import InterfaceGen.Batch.Update
import InterfaceGen.Service.Body
import InterfaceGen.Service.Serving

/-!
# Requests about directories

The conversion of a directory, and the imports of parents. A request may name the directories; an
empty name is none.
-/

namespace InterfaceGen.Service

/-- The directory that a request names, or else the usual one. -/
def directoryOf (named : Option String) (usual : FilePath) : FilePath :=
  match named with
  | none | some "" => usual
  | some text => .ofString text

/-- The names of all modes, as a refusal shows them. -/
def modeNames : String :=
  (Json.array (Mode.all.map fun mode => .text mode.name)).shown

/-- How a run ends that stopped. -/
def endRun {α : Type} : BatchError → Serving α
  | .file error =>
    if error.isReported then
      refuse 500 ("Convert all failed: " ++ error.kind ++ ": " ++ error.message)
    else fail (.path error)
  | error => refuse 500 error.message

/-- Converts a directory. The mode is looked at first, then the directory with the sources. -/
def convertAll (s : Setup) (members : Members) : Serving Response := do
  let (mode, inputName, outputName) ← ((members.withDefault "mode" "fast").both
    ((members.nullable "input_dir").both (members.nullable "output_dir"))).accept
  if (Mode.ofName? mode).isNone then
    refuse 400 ("Unsupported mode: " ++ mode ++ ". Use one of " ++ modeNames)
  let input := directoryOf inputName s.input
  let output := directoryOf outputName s.output
  if !(← withSession Session.currentTree).isDirectory input then
    refuse 400 ("Input directory not found: " ++ input.toText)
  match ← withSession (s.engine.convertTree input output mode Engine.standardBatchSize).run with
  | .error error => endRun error
  | .ok report =>
    let counts := toString report.successCount ++ "/" ++ toString report.totalFiles
    let message := "Convert (" ++ mode ++ "): " ++ counts ++ " files converted"
    return .ok (.object
      (("success", .bool true) :: ("message", .text message) :: report.members))

/-- Adds the missing imports of parents. -/
def updateImports (s : Setup) (members : Members) : Serving Response := do
  let name ← (members.nullable "output_dir").accept
  let directory := directoryOf name s.output
  if ((← withSession Session.currentTree).glob directory Session.targets).isEmpty then
    refuse 404
      ("No " ++ Session.targetEnding ++ " files found to update in " ++ directory.toText)
  let report ← withSession (Session.withTree (FileTree.updateImports directory))
  let counts := toString report.updatedFiles ++ "/" ++ toString report.totalFiles
  let message := "Updated imports for " ++ counts ++ " TypeScript files"
  return .ok (.object
    (("success", .bool true) :: ("message", .text message) :: report.members))

end InterfaceGen.Service
