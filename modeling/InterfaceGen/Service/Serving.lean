import InterfaceGen.Batch.Session
import InterfaceGen.Service.Message

/-!
# Serving

What serves a request works on the files and the memory of the engine, and may refuse the request
at any point; what was done before stays done.
-/

namespace InterfaceGen.Service

/-- Work for a request that may end early. -/
abbrev Serving := ExceptT Ending (StateM Session)

/-- What the service is set up with. -/
structure Setup where
  engine : Engine
  /-- The directory with the sources. -/
  input : FilePath
  /-- The directory for the outputs. -/
  output : FilePath

/-- Lets the engine work with its memory. -/
def withCaches {α : Type} (work : StateM Caches α) : Serving α :=
  ExceptT.lift (Session.withCaches work)

/-- Lets a run work with the files and the memory of the engine. -/
def withSession {α : Type} (work : StateM Session α) : Serving α :=
  ExceptT.lift work

/-- Ends with a refusal. -/
def refuse {α : Type} (status : Nat) (detail : String) : Serving α :=
  throw (.response (.refused status detail))

/-- Ends without a response. -/
def fail {α : Type} (fault : Fault) : Serving α :=
  throw (.fault fault)

end InterfaceGen.Service
