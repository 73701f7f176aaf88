/-!
# Declarations

What is read from a source and written to an output: data classes with their fields, which become
interfaces, and enums with their constants.
-/

namespace InterfaceGen

/-- The kinds of declarations that are read. -/
inductive Kind where
  | classKind
  | enumKind
  deriving DecidableEq, Repr

/-- The keyword that introduces a declaration of this kind. -/
def Kind.keyword : Kind → String
  | .classKind => "class"
  | .enumKind => "enum"

/-- What the header of a declaration says. -/
structure Signature where
  kind : Kind
  name : String
  /-- The simple name of the class that is extended. -/
  supertype : Option String
  deriving DecidableEq, Repr

/-- A property of an interface. -/
structure Property where
  /-- An identifier, or a text between double quotes. -/
  externalName : String
  /-- The TypeScript text of its type. -/
  mappedType : String
  isOptional : Bool
  deriving DecidableEq, Repr

/-- A field of a data class: the property that it becomes, and how the source declares it. -/
structure Field extends Property where
  declaredType : String
  sourceName : String
  deriving DecidableEq, Repr

/-- A constant of an enum, with the text that stands for it. -/
structure Constant where
  name : String
  literal : String
  deriving DecidableEq, Repr

/-- An import of one name. -/
structure Import where
  name : String
  path : String
  deriving DecidableEq, Repr

/-- An interface to be written. -/
structure Interface where
  name : String
  parent : Option String
  properties : List Property
  deriving DecidableEq, Repr

/-- An enum to be written. -/
structure Enumeration where
  name : String
  constants : List Constant
  deriving DecidableEq, Repr

end InterfaceGen
