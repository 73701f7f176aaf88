import InterfaceGen.Declaration.Printer
import InterfaceGen.Imports.Resolver
import InterfaceGen.Source.Constant
import InterfaceGen.Source.EnumBody
import InterfaceGen.Source.FieldList
import InterfaceGen.Text.Infix
import InterfaceGen.Types.Dependencies

/-!
# Conversion

An engine reads the declaration of a source, finds the imports that it needs and writes it.
`explain` does so and says what came of it. `convert` answers with the text or nothing and
remembers texts; `convertFast` always answers with a text, a sentinel where there is no
declaration, and passes over sources that are no data containers.
-/

namespace InterfaceGen

/-- A declaration as it was read from a source. -/
inductive Declaration where
  | dataClass (name : String) (supertype : Option String) (fields : List Field)
  | enumeration (enum : Enumeration)
  deriving DecidableEq, Repr

/-- What came of a conversion. -/
inductive Conversion where
  | converted (output : String) (dependencies : List String)
  /-- The source is shorter than the least length. -/
  | tooSmall
  | unsupported (failure : Source.Failure)

namespace Conversion

/-- The written declaration. -/
def output? : Conversion → Option String
  | converted output _ => some output
  | _ => none

/-- Why there is no written declaration. -/
def reason? : Conversion → Option String
  | converted .. => none
  | tooSmall => some "Input too small"
  | unsupported failure => some failure.message

/-- The custom types that the declaration refers to. -/
def dependencies : Conversion → List String
  | converted _ dependencies => dependencies
  | _ => []

/-- The outcome in one word. -/
def status : Conversion → String
  | converted .. => "converted"
  | tooSmall => "too_small"
  | unsupported _ => "unsupported"

end Conversion

/-- What a conversion depends on besides the source. -/
structure Engine where
  types : TypeSystem
  /-- The least number of characters of a source, blanks at its ends not counted. -/
  minimumLength : Int

/-- What an engine remembers. -/
structure Caches where
  interfaces : Memo String
  imports : Memo (List Import)

/-- Nothing remembered. -/
def Caches.empty : Caches :=
  ⟨.empty "interfaces", .empty "imports"⟩

namespace Engine

/-- The least length of a source when nothing else is configured. -/
def standardMinimum : Int := 20

/-- The engine that applies when nothing else is configured. -/
def standard : Engine :=
  ⟨.standard, standardMinimum⟩

/-- The language of the sources. -/
def language : String := "java"

/-- What only sources that are no data containers hold. -/
def skipMarkers : List String :=
  ["public static void main", "@Test", "extends Exception"]

/-- Does the source hold a mark of what is no data container? -/
def isSkipped (code : String) : Bool :=
  skipMarkers.any fun marker => Text.occurs marker.toList code.toList

/-- Is the text, blanks at its ends not counted, below the least length? -/
def isShort (e : Engine) (code : String) : Bool :=
  ((Text.trim code.toList).length : Int) < e.minimumLength

/-- Is the source empty or below the least length? -/
def isTooSmall (e : Engine) (code : String) : Bool :=
  code.isEmpty || e.isShort code

/-- The declaration in a source. -/
def declaration (e : Engine) (code : String) : Except Source.Failure Declaration := do
  let normalized := Source.Constant.normalize code
  let signature ← Source.signature normalized e.types
  match signature.kind with
  | .enumKind =>
    let constants ← Source.enumConstants normalized signature.name
    pure (.enumeration ⟨signature.name, constants⟩)
  | .classKind =>
    pure (.dataClass signature.name signature.supertype
      (Source.FieldList.ofText (Source.Comment.strip code) e.types))

/-- The custom types that a declaration refers to; an enum refers to none. -/
def dependencies (e : Engine) : Declaration → List String
  | .dataClass _ supertype fields =>
    e.types.declarationDependencies (fields.map fun f => (f.mappedType, f.declaredType)) supertype
  | .enumeration _ => []

/-- The text of a declaration with its imports; an enum is written without. -/
def write (imports : List Import) : Declaration → String
  | .dataClass name supertype fields =>
    Interface.render ⟨name, supertype, fields.map (·.toProperty)⟩ imports
  | .enumeration enum => enum.render

/-- Lets the memo of the imports answer. -/
def resolveImports (e : Engine) (dependencies : List String) (location : Option String) :
    StateM Caches (List Import) := fun caches =>
  let (imports, memo) := e.types.resolve dependencies location caches.imports
  (imports, { caches with imports := memo })

/-- Converts a source and says what came of it. The imports are left out if they are not wanted. -/
def explain (e : Engine) (code : String) (location : Option String) (withImports : Bool) :
    StateM Caches Conversion := do
  if e.isTooSmall code then
    return .tooSmall
  match e.declaration code with
  | .error failure => return .unsupported failure
  | .ok declaration =>
    let dependencies := e.dependencies declaration
    if withImports && !dependencies.isEmpty then
      let imports ← e.resolveImports dependencies location
      return .converted (write imports declaration) dependencies
    else
      return .converted (write [] declaration) dependencies

/-- The key under which a converted source is remembered. -/
def sourceKey (code : String) (location : Option String) : String :=
  fingerprint (code ++ "\x00" ++ location.getD "")

/-- Lets the memo of the conversions answer. -/
def remembered? (key : String) : StateM Caches (Option String) := fun caches =>
  let (answer, memo) := Memo.get? key caches.interfaces
  (answer, { caches with interfaces := memo })

/-- Hands a written declaration to the memo of the conversions. -/
def remember (key output : String) : StateM Caches String := fun caches =>
  let (stored, memo) := Memo.put key output caches.interfaces
  (stored, { caches with interfaces := memo })

/-- The written declaration of a source, if there is one, from the memo if it knows it. -/
def convert (e : Engine) (code : String) (location : Option String) :
    StateM Caches (Option String) := do
  if e.isTooSmall code then
    return none
  let key := sourceKey code location
  match ← remembered? key with
  | some output => return some output
  | none =>
    match (← e.explain code location true).output? with
    | some output => return some (← remember key output)
    | none => return none

/-- The written declaration of a source, or a sentinel that says why there is none. Imports are
written if there is a location. -/
def convertFast (e : Engine) (code : String) (location : Option String) :
    StateM Caches String := do
  if e.isTooSmall code then
    return sentinel "Skipped: Input too small"
  if isSkipped code then
    return sentinel "Skipped: Not suitable for interface conversion"
  match ← e.explain code location location.isSome with
  | .converted output _ => return output
  | failed => return sentinel (failed.reason?.getD "")

end Engine

end InterfaceGen
