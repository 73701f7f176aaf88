import InterfaceGen.Declaration
import InterfaceGen.Imports.Path
import InterfaceGen.Memo
import InterfaceGen.Memo.Fingerprint
import InterfaceGen.Types.System

/-!
# Imports of dependencies

Each dependency that is not built in is imported once, in the order of the list. The path leads to
its registered location, or to a file of its name beside the current one. Lists that were resolved
before are remembered.
-/

namespace InterfaceGen.TypeSystem

/-- Where a dependency is imported from: its registered location if there is one to climb from, or
else the current directory. -/
def importOf (types : TypeSystem) (location : Option String) (name : String) : Import :=
  match types.locationOf? name, location with
  | some target, some current =>
    if target ≠ "" ∧ current ≠ "" then ⟨name, Location.importPath (some current) target⟩
    else ⟨name, "./" ++ name⟩
  | _, _ => ⟨name, "./" ++ name⟩

/-- The imports of the dependencies of a declaration at a location. -/
def imports (types : TypeSystem) (dependencies : List String) (location : Option String) :
    List Import :=
  let names := dependencies.filter fun name => name ≠ "" && !types.isBuiltIn name
  names.eraseDups.map (types.importOf location)

/-- The key under which a resolved list is remembered. -/
def importsKey (dependencies : List String) (location : Option String) : String :=
  fingerprint (",".intercalate dependencies ++ "\x00" ++ location.getD "")

/-- The imports, from the memo if it knows them. -/
def resolve (types : TypeSystem) (dependencies : List String) (location : Option String) :
    StateM (Memo (List Import)) (List Import) := do
  let key := importsKey dependencies location
  match ← Memo.get? key with
  | some imports => pure imports
  | none =>
    let imports := types.imports dependencies location
    let _ ← Memo.put key imports
    pure imports

end InterfaceGen.TypeSystem
