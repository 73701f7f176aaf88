import InterfaceGen.Text.Word

/-!
# Type systems

What is known about types before any source is read: the built-in types with their TypeScript
names, further names that never have to be imported, the places where shared types are declared,
and the words that are no declaration names.
-/

namespace InterfaceGen

/-- The tables that the mapping of types and the resolution of imports work from. The first entry
of a name counts. -/
structure TypeSystem where
  /-- Built-in types and their TypeScript names. -/
  mapping : List (String × String)
  /-- Known custom types and their locations. -/
  registry : List (String × String)
  /-- Words that look like class names and are none. -/
  reservedNames : List String
  /-- Further names that are never imported. -/
  extraBuiltIns : List String

namespace TypeSystem

/-- The built-in types and their TypeScript names. -/
def standardMapping : List (String × String) := [
  ("String", "string"), ("int", "number"), ("Integer", "number"), ("long", "number"),
  ("Long", "number"), ("double", "number"), ("Double", "number"), ("float", "number"),
  ("Float", "number"), ("boolean", "boolean"), ("Boolean", "boolean"), ("char", "string"),
  ("Character", "string"), ("byte", "number"), ("Byte", "number"), ("short", "number"),
  ("Short", "number"), ("Object", "any"), ("void", "void"), ("Date", "Date"),
  ("LocalDate", "Date"), ("LocalDateTime", "Date"), ("BigDecimal", "number"),
  ("BigInteger", "number"), ("UUID", "string")]

/-- The TypeScript names and the containers that are mapped to built-in shapes. -/
def standardExtras : List String := [
  "string", "number", "boolean", "Date", "any", "void", "undefined", "null",
  "List", "ArrayList", "LinkedList", "Set", "HashSet", "Map", "HashMap",
  "Collection", "Optional", "Object", "Class"]

/-- Types with their locations, all in one directory. -/
def under (directory : String) (names : List String) : List (String × String) :=
  names.map fun name => (name, directory ++ "/" ++ name)

/-- The shared types of the base directory and of the common entities. -/
def standardRegistry : List (String × String) :=
  under "utils/base" [
    "AbstractEntity", "AbstractEntityRef", "AbstractCatalogEntity", "EntityRef", "TimePeriod",
    "Money", "Quantity", "Duration", "Note", "RelatedParty", "Attachment", "Event"] ++
  under "entity/common" [
    "Characteristic", "CharacteristicSpecification", "CharacteristicValueSpecification",
    "Association", "AssociationRole", "EntitySpecification", "EntityRelationship",
    "EntityCategory", "ExternalReference", "ApplicableTimePeriod", "ContactMedium",
    "GeographicAddress", "Addressable"]

/-- Modifier-like words, which a header may show where a name is expected. -/
def standardReserved : List String := [
  "Class", "Interface", "Abstract", "Final", "Public", "Private", "Protected", "Static",
  "Controller"]

/-- The type system that applies when nothing else is configured. -/
def standard : TypeSystem where
  mapping := standardMapping
  registry := standardRegistry
  reservedNames := standardReserved
  extraBuiltIns := standardExtras

/-- The type system with more locations, which replace those of the same names. -/
def withRegistry (types : TypeSystem) (extra : List (String × String)) : TypeSystem :=
  { types with registry := extra ++ types.registry }

/-- Is the name one that never has to be imported? -/
def isBuiltIn (types : TypeSystem) (name : String) : Bool :=
  types.extraBuiltIns.contains name || types.mapping.any fun entry =>
    entry.1 == name || entry.2 == name

/-- The names that are never imported, each once. -/
def builtInNames (types : TypeSystem) : List String :=
  (types.mapping.map (·.1) ++ types.mapping.map (·.2) ++ types.extraBuiltIns).eraseDups

/-- Where the custom type of this name is declared, if that is known. -/
def locationOf? (types : TypeSystem) (name : String) : Option String :=
  types.registry.lookup name

/-- Can a class or an enum have this name? -/
def isDeclarationName (types : TypeSystem) (name : String) : Bool :=
  Text.isClassName name.toList && !types.reservedNames.contains name

/-- The TypeScript name of a type without outer structure: a custom type keeps its name, and so
does one that is mapped to nothing. -/
def plainName (types : TypeSystem) (name : String) : String :=
  match types.mapping.lookup name with
  | some mapped => if mapped = "" then name else mapped
  | none => name

end TypeSystem

end InterfaceGen
