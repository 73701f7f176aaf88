import InterfaceGen.Files.Error
import InterfaceGen.Json.Bytes

/-!
# Requests and responses

A request has a method, a target and perhaps a body; a response a status and perhaps a JSON body.
The fields that a route reads from a body are texts, some of which may be missing or null. A
response about fields of the wrong form repeats their values, and there is none if these cannot be
written as JSON.
-/

namespace InterfaceGen.Service

/-- What is asked of the service. -/
structure Request where
  method : String
  /-- The reference to what is asked for. -/
  target : String
  body : Option (List UInt8)
  deriving DecidableEq, Repr

/-- What the service answers. A page that is not JSON is not modelled. -/
structure Response where
  status : Nat
  body : Option Json

namespace Response

/-- The request was served. -/
def ok (body : Json) : Response := ⟨200, some body⟩

/-- The request was served by a page that is not JSON. -/
def page : Response := ⟨200, none⟩

/-- The request was refused, for a reason in words. -/
def refused (status : Nat) (detail : String) : Response :=
  ⟨status, some (.object [("detail", .text detail)])⟩

/-- The body has not the form that the route asks for. What is wrong with it is not told here. -/
def unprocessable : Response := ⟨422, some .null⟩

end Response

/-- Why a request gets no response at all. -/
inductive Fault where
  /-- A path cannot be used, and no route foresees why. -/
  | path (error : FileError)
  /-- The response holds a number that JSON cannot write. -/
  | notFinite
  deriving DecidableEq, Repr

namespace Fault

/-- The name of the kind of fault. -/
def kind : Fault → String
  | path error => error.kind
  | notFinite => "ValueError"

/-- The fault in words. -/
def message : Fault → String
  | path error => error.message
  | notFinite => "Out of range float values are not JSON compliant"

end Fault

/-- What ends the work for a request early. -/
inductive Ending where
  | response (r : Response)
  | fault (f : Fault)

/-- What is read from a body, or else all values of the wrong form. -/
abbrev Checked (α : Type) := Except (List Json) α

namespace Checked

/-- Both, or else what is wrong with either. -/
def both {α β : Type} : Checked α → Checked β → Checked (α × β)
  | .ok a, .ok b => .ok (a, b)
  | .error wrong, .error more => .error (wrong ++ more)
  | .error wrong, .ok _ => .error wrong
  | .ok _, .error wrong => .error wrong

/-- What was read; wrong values end the work. -/
def accept {α : Type} : Checked α → Except Ending α
  | .ok a => .ok a
  | .error wrong =>
    if wrong.all (·.isFinite) then .error (.response .unprocessable) else .error (.fault .notFinite)

end Checked

/-- The members of an object. -/
abbrev Members := List (String × Json)

/-- The members of the body. A body that is missing or no JSON object has not the right form; one
that is no text or has an integer that is too long cannot be read at all. -/
def Request.members (r : Request) : Except Ending Members :=
  match r.body.map Json.ofBytes with
  | none | some (.ok .null) | some (.error .malformed) => .error (.response .unprocessable)
  | some (.error _) => .error (.response (.refused 400 "There was an error parsing the body"))
  | some (.ok (.object members)) => .ok members
  | some (.ok value) => Checked.accept (.error [value])

namespace Members

/-- A text that has to be there. Where it is missing, all members are wrong. -/
def required (members : Members) (name : String) : Checked String :=
  match Json.member? members name with
  | none => .error [.object members]
  | some (.text s) => .ok s
  | some value => .error [value]

/-- A text that may be missing or null. -/
def nullable (members : Members) (name : String) : Checked (Option String) :=
  match Json.member? members name with
  | none | some .null => .ok none
  | some (.text s) => .ok (some s)
  | some value => .error [value]

/-- A text that may be missing, but is not null. -/
def withDefault (members : Members) (name value : String) : Checked String :=
  match Json.member? members name with
  | none => .ok value
  | some (.text s) => .ok s
  | some value => .error [value]

/-- Texts, or else all items that are none. -/
def texts : List Json → Checked (List String)
  | [] => .ok []
  | .text s :: rest => (texts rest).map (s :: ·)
  | item :: rest =>
    match texts rest with
    | .ok _ => .error [item]
    | .error wrong => .error (item :: wrong)

/-- A list of texts that may be missing, but is not null. -/
def textList (members : Members) (name : String) : Checked (List String) :=
  match Json.member? members name with
  | none => .ok []
  | some (.array items) => texts items
  | some value => .error [value]

end Members

end InterfaceGen.Service
