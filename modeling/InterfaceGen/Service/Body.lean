import InterfaceGen.Batch.Report
import InterfaceGen.Declaration.Printer
import InterfaceGen.Json.Value
import InterfaceGen.Memo

/-!
# Bodies of responses

The JSON form of what the service answers with.
-/

namespace InterfaceGen

/-- An import, with its text. -/
def Import.toJson (i : Import) : Json :=
  .object [("name", .text i.name), ("path", .text i.path), ("statement", .text i.statement)]

/-- Name, size and counts. -/
def MemoStats.toJson (s : MemoStats) : Json :=
  .object [("name", .text s.name), ("size", .integer s.size), ("hits", .integer s.hits),
    ("misses", .integer s.misses)]

/-- All that is known of a file. -/
def FileResult.toJson (r : FileResult) : Json :=
  .object [("input_file", .text r.inputFile), ("success", .bool r.success),
    ("output_file", .ofOption r.outputFile), ("output_path", .ofOption r.outputPath),
    ("directory", .text r.directory), ("error", .ofOption r.error)]

/-- The members that a report of a run has. -/
def BatchReport.members (r : BatchReport) : List (String × Json) :=
  [("mode", .text r.mode), ("total_files", .integer r.totalFiles),
    ("success_count", .integer r.successCount), ("results", .array (r.results.map (·.toJson)))]

/-- The members that a report of added imports has. -/
def UpdateReport.members (r : UpdateReport) : List (String × Json) :=
  [("total_files", .integer r.totalFiles), ("updated_files", .integer r.updatedFiles),
    ("interfaces", .integer r.interfaces), ("updated", .array (r.updated.map .text))]

end InterfaceGen
