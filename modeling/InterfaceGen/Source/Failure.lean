import InterfaceGen.Declaration

/-!
# Why a source could not be read

Either the source does not hold what is looked for, or it holds something of that look that cannot
be used.
-/

namespace InterfaceGen.Source

/-- The causes for which a declaration is not read. -/
inductive Failure where
  /-- There is no header of a class or an enum. -/
  | noDeclaration
  /-- There is no header of an enum of this name. -/
  | noEnum (name : String)
  /-- The last header has a name that no declaration can have. -/
  | invalidName (kind : Kind) (name : String)
  /-- The braces of the enum are missing or not closed. -/
  | openEnumBody
  deriving DecidableEq, Repr

/-- Is the failure that nothing was there to be read? -/
def Failure.isAbsence : Failure → Bool
  | .noDeclaration | .noEnum _ => true
  | .invalidName .. | .openEnumBody => false

/-- The failure in words. -/
def Failure.message : Failure → String
  | .noDeclaration => "No valid class or enum found"
  | .noEnum name => "No enum named " ++ name
  | .invalidName kind name => "Invalid " ++ kind.keyword ++ " name: " ++ name
  | .openEnumBody => "Could not parse enum body"

end InterfaceGen.Source
