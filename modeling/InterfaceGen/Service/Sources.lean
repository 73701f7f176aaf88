import InterfaceGen.Declaration.Printer
import InterfaceGen.Service.Body
import InterfaceGen.Service.Serving

/-!
# Requests about one source

The conversion of a source that comes with the request, and the resolution of imports.
-/

namespace InterfaceGen.Service

/-- The body that says whether a source was converted. -/
def outcomeBody (ok : Bool) (output reason : Option String) : Json :=
  .object [("ok", .bool ok), ("output", .ofOption output), ("reason", .ofOption reason)]

/-- The body for a text that may be a sentinel, whose reason is then behind the comment mark. -/
def fastBody (output : String) : Json :=
  if opensWithComment output then
    let reason := Text.trim ((Text.trim output.toList).drop 2)
    outcomeBody false (some output) (some (String.ofList reason))
  else outcomeBody true (some output) none

/-- Converts a source; a failure is explained by a second run. -/
def convert (s : Setup) (members : Members) : Serving Response := do
  let (code, location) ←
    ((members.required "code").both (members.nullable "location")).accept
  match ← withCaches (s.engine.convert code location) with
  | some output => return .ok (outcomeBody true (some output) none)
  | none =>
    let outcome ← withCaches (s.engine.explain code location true)
    return .ok (outcomeBody false none outcome.reason?)

/-- Converts a source in the fast way. -/
def convertFast (s : Setup) (members : Members) : Serving Response := do
  let (code, location) ←
    ((members.required "code").both (members.nullable "location")).accept
  return .ok (fastBody (← withCaches (s.engine.convertFast code location)))

/-- Converts a source in the fast way if the name of its file is that of a source. -/
def convertFile (s : Setup) (members : Members) : Serving Response := do
  let (code, filename, location) ← ((members.required "code").both
    ((members.required "filename").both (members.nullable "location"))).accept
  if Session.sourceEnding.toList.isSuffixOf filename.toList then
    return .ok (fastBody (← withCaches (s.engine.convertFast code location)))
  else refuse 400 "Unsupported file type for Java converter"

/-- Resolves the imports of dependencies. -/
def resolveImports (s : Setup) (members : Members) : Serving Response := do
  let (dependencies, location) ←
    ((members.textList "dependencies").both (members.nullable "location")).accept
  let imports ← withCaches (s.engine.resolveImports dependencies location)
  return .ok (.object [("imports", .array (imports.map (·.toJson)))])

/-- Tells about both memos of the engine. -/
def cacheStats : Serving Response := do
  let caches := (← get).caches
  return .ok (.object [("interfaces", caches.interfaces.stats.toJson),
    ("imports", caches.imports.stats.toJson)])

end InterfaceGen.Service
