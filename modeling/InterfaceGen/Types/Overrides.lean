import InterfaceGen.Files.Tree
import InterfaceGen.Json.Reader
import InterfaceGen.Types.System

/-!
# Configured locations

A file may hold a JSON object with further locations of types. A file that is not there adds none.
Values that are no texts are taken as they are shown.
-/

namespace InterfaceGen

/-- Why a file with locations cannot be used. -/
inductive OverridesError where
  | read (error : ReadError)
  | json (error : JsonError)
  /-- The file holds JSON, but no object. -/
  | noObject (path : String)
  deriving DecidableEq, Repr

/-- The error in words. -/
def OverridesError.message : OverridesError → String
  | read error => error.message
  | json error => error.message
  | noObject path => "Registry file must hold a JSON object: " ++ path

namespace TypeSystem

/-- The locations in a file. -/
def overrides (t : FileTree) (path : FilePath) :
    Except OverridesError (List (String × String)) := do
  if (t.find? path).isNone then
    return []
  let text ← (t.readText path).mapError .read
  match ← (Json.read text).mapError .json with
  | .object members => return members.map fun (name, value) => (name, value.spelled)
  | _ => throw (.noObject (path.toText))

/-- The standard type system with the locations in a file; `none` where no file is configured,
which leaves the standard one. -/
def configured? (t : FileTree) (path : Option FilePath) :
    Except OverridesError (Option TypeSystem) := do
  match path with
  | none => return none
  | some path => return some (standard.withRegistry (← overrides t path))

end TypeSystem

end InterfaceGen
