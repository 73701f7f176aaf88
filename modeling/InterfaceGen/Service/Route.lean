/-!
# Routes

What can be asked of the service, and under which path and methods.
-/

namespace InterfaceGen.Service

/-- What can be asked for. -/
inductive Route where
  | health
  | cacheStats
  | convert
  | convertFast
  | convertFile
  | resolveImports
  | convertAll
  | updateImports
  /-- One of the pages that describe the service. -/
  | description
  | documentation
  | documentationLogin
  | reference
  deriving DecidableEq, Repr

namespace Route

/-- All routes. -/
def all : List Route :=
  [health, cacheStats, convert, convertFast, convertFile, resolveImports, convertAll,
    updateImports, description, documentation, documentationLogin, reference]

/-- The path of a route. -/
def path : Route → String
  | health => "/health"
  | cacheStats => "/cache/stats"
  | convert => "/convert"
  | convertFast => "/convert/fast"
  | convertFile => "/convert/file"
  | resolveImports => "/imports/resolve"
  | convertAll => "/convert-all"
  | updateImports => "/update-imports"
  | description => "/openapi.json"
  | documentation => "/docs"
  | documentationLogin => "/docs/oauth2-redirect"
  | reference => "/redoc"

/-- The methods of a route. -/
def methods : Route → List String
  | health | cacheStats => ["GET"]
  | description | documentation | documentationLogin | reference => ["GET", "HEAD"]
  | _ => ["POST"]

/-- The route with this path; slashes at its end do not count. -/
def ofPath? (path : String) : Option Route :=
  let ended := String.ofList (path.toList.reverse.dropWhile (· = '/')).reverse
  all.find? (·.path == ended)

end Route

end InterfaceGen.Service
