import InterfaceGen.Decimal.Text
import InterfaceGen.Text.Quoted

/-!
# JSON values

Numbers written without fraction and exponent are integers of any size, the others are of double
precision. The members of an object keep the order in which their names first appeared.
-/

namespace InterfaceGen

/-- A JSON value. -/
inductive Json where
  | null
  | bool (b : Bool)
  | integer (n : Int)
  | real (x : Decimal.Binary64)
  | text (s : String)
  | array (items : List Json)
  | object (members : List (String × Json))

namespace Json

/-- The members with one more; a name that is there keeps its place and takes the new value. -/
def insertMember (members : List (String × Json)) (name : String) (value : Json) :
    List (String × Json) :=
  if members.any (·.1 == name) then
    members.map fun m => if m.1 = name then (name, value) else m
  else members ++ [(name, value)]

/-- The member of an object. -/
def member? (members : List (String × Json)) (name : String) : Option Json :=
  members.lookup name

/-- A text, or null. -/
def ofOption : Option String → Json
  | some s => text s
  | none => null

mutual

/-- The value as it is shown within another: texts are quoted. -/
def shown : Json → String
  | null => "None"
  | bool true => "True"
  | bool false => "False"
  | integer n => toString n
  | real x => x.display
  | text s => Text.Quoted.encode s
  | array items => "[" ++ ", ".intercalate (shownItems items) ++ "]"
  | object members => "\x7b" ++ ", ".intercalate (shownMembers members) ++ "\x7d"

/-- The items of an array as they are shown. -/
def shownItems : List Json → List String
  | [] => []
  | item :: rest => item.shown :: shownItems rest

/-- The members of an object as they are shown. -/
def shownMembers : List (String × Json) → List String
  | [] => []
  | (name, value) :: rest =>
    (Text.Quoted.encode name ++ ": " ++ value.shown) :: shownMembers rest

end

mutual

/-- Are all numbers within the value finite? -/
def isFinite : Json → Bool
  | real x => x.isFinite
  | array items => areFinite items
  | object members => areMembersFinite members
  | _ => true

/-- Are all numbers within the items finite? -/
def areFinite : List Json → Bool
  | [] => true
  | item :: rest => item.isFinite && areFinite rest

/-- Are all numbers within the members finite? -/
def areMembersFinite : List (String × Json) → Bool
  | [] => true
  | (_, value) :: rest => value.isFinite && areMembersFinite rest

end

/-- The value as a text: a text as it is, everything else as it is shown. -/
def spelled : Json → String
  | text s => s
  | value => value.shown

end Json

end InterfaceGen
