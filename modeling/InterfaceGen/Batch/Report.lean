import InterfaceGen.Decimal.Text

/-!
# Reports

What a run over many files tells about each file and about all of them together.
-/

namespace InterfaceGen

/-- The modes of a run. -/
inductive Mode where
  /-- Without imports. -/
  | fast
  /-- With imports. -/
  | smart
  /-- With imports, and with texts that the engine remembers. -/
  | full
  deriving DecidableEq, Repr

namespace Mode

/-- All modes. -/
def all : List Mode := [fast, smart, full]

/-- The name of a mode. -/
def name : Mode → String
  | fast => "fast"
  | smart => "smart"
  | full => "full"

/-- The mode of a name. -/
def ofName? (name : String) : Option Mode :=
  all.find? (·.name == name)

/-- The mode of a name; any other word means the first. -/
def ofName (name : String) : Mode :=
  (ofName? name).getD fast

end Mode

/-- What became of one file. -/
structure FileResult where
  inputFile : String
  success : Bool
  outputFile : Option String
  outputPath : Option String
  directory : String
  error : Option String
  deriving DecidableEq, Repr

/-- What became of all files of a run. -/
structure BatchReport where
  mode : String
  totalFiles : Int
  successCount : Int
  results : List FileResult
  deriving DecidableEq, Repr

/-- Why a report has no speed. -/
inductive SpeedError where
  /-- A count is beyond all numbers of double precision. -/
  | tooLarge
  deriving DecidableEq, Repr

/-- The error in words. -/
def SpeedError.message : SpeedError → String
  | .tooLarge => "int too large to convert to float"

namespace BatchReport

/-- A count in double precision. -/
def measured (count : Int) : Except SpeedError Decimal.Binary64 :=
  let number := Decimal.Binary64.ofInt count
  if number.isFinite then .ok number else .error .tooLarge

/-- The number of files per second of a run that took so many milliseconds, at least one. -/
def speed (r : BatchReport) (milliseconds : Int) : Except SpeedError String := do
  let milliseconds ← measured (max milliseconds 1)
  let files ← measured r.totalFiles
  return (files.div (milliseconds.div (.ofInt 1000))).tenths ++ " files/s"

end BatchReport

/-- What became of the written interfaces when imports were added. -/
structure UpdateReport where
  totalFiles : Nat
  updatedFiles : Nat
  interfaces : Nat
  /-- The locations of the files that were changed, once for each change. -/
  updated : List String
  deriving DecidableEq, Repr

end InterfaceGen
