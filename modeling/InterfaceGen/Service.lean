import InterfaceGen.Service.Directories
import InterfaceGen.Service.Route
import InterfaceGen.Service.Sources
import InterfaceGen.Service.Target

/-!
# The service

What the converter answers over HTTP. A target that is no route is not found, one that is asked
for with the wrong method is not allowed. The case of a method does not count.
-/

namespace InterfaceGen.Service

/-- Serves a request for a route. -/
def serve (s : Setup) (r : Request) : Route → Serving Response
  | .health => return .ok (.object [("status", .text "ok")])
  | .cacheStats => cacheStats
  | .convert => do convert s (← r.members)
  | .convertFast => do convertFast s (← r.members)
  | .convertFile => do convertFile s (← r.members)
  | .resolveImports => do resolveImports s (← r.members)
  | .convertAll => do convertAll s (← r.members)
  | .updateImports => do updateImports s (← r.members)
  | .description | .documentation | .documentationLogin | .reference => return .page

/-- Serves a request for whatever its target is. -/
def answer (s : Setup) (r : Request) : Serving Response := do
  match Route.ofPath? (Target.path r.target) with
  | none => refuse 404 "Not Found"
  | some route =>
    if r.method.toUpper ∉ route.methods then
      refuse 405 "Method Not Allowed"
    serve s r route

/-- The response as it is sent: one that is only asked for its head has no body. -/
def Response.sent (response : Response) (r : Request) : Response :=
  if r.method.toUpper = "HEAD" then { response with body := none } else response

/-- Answers a request. -/
def handle (s : Setup) (r : Request) : StateM Session (Except Fault Response) := do
  match ← (answer s r).run with
  | .ok response | .error (.response response) => return .ok (response.sent r)
  | .error (.fault fault) => return .error fault

end InterfaceGen.Service
