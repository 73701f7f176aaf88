import InterfaceGen.Types.System

/-!
# Type terms and their translation

A Java type as a tree, apart from any way of writing it, and the TypeScript type that it stands
for, as a tree again. `JavaType.text` is the one canonical text of a type; `TargetType.text` is the
text of a translation. What the program does with texts is measured against these two.
-/

namespace InterfaceGen.Types

open InterfaceGen.Text

/-- A plain name: a letter or underscore, then letters, digits and underscores. -/
structure Identifier where
  chars : List Char
  wellFormed : isHeadedBy isNameStart isNameChar chars = true

namespace Identifier

def toString (n : Identifier) : String :=
  String.ofList n.chars

/-- The name that a wildcard without a bound stands for. -/
def object : Identifier :=
  ⟨"Object".toList, by decide⟩

end Identifier

/-- The two ways in which a wildcard has a bound. -/
inductive Bound where
  | upper
  | lower
  deriving DecidableEq

def Bound.keyword : Bound → List Char
  | .upper => "extends".toList
  | .lower => "super".toList

mutual

/-- A Java type. -/
inductive JavaType where
  | name (n : Identifier)
  | array (element : JavaType)
  | generic (container : Identifier) (arguments : TypeArguments)

/-- The arguments of a generic type, of which there is at least one. -/
inductive TypeArguments where
  | last (argument : TypeArgument)
  | cons (argument : TypeArgument) (rest : TypeArguments)

/-- A type argument: a type, or a wildcard without or with a bound. -/
inductive TypeArgument where
  | exactly (t : JavaType)
  | wildcard
  | bounded (bound : Bound) (t : JavaType)

end

mutual

/-- The canonical text of a type: no blanks but one after each comma, no package names, and each
wildcard written as what it stands for. -/
def JavaType.text : JavaType → List Char
  | .name n => n.chars
  | .array element => element.text ++ ['[', ']']
  | .generic container arguments => container.chars ++ '<' :: (arguments.text ++ ['>'])

def TypeArguments.text : TypeArguments → List Char
  | .last argument => argument.text
  | .cons argument rest => argument.text ++ ',' :: ' ' :: rest.text

def TypeArgument.text : TypeArgument → List Char
  | .exactly t => t.text
  | .wildcard => Identifier.object.chars
  | .bounded _ t => t.text

end

/-- The texts of the arguments one by one. -/
def TypeArguments.texts : TypeArguments → List (List Char)
  | .last argument => [argument.text]
  | .cons argument rest => argument.text :: rest.texts

/-- The canonical text of a type as a string. -/
def JavaType.toString (t : JavaType) : String :=
  String.ofList t.text

mutual

/-- The names that occur in a type, those of generic types included. -/
def JavaType.names : JavaType → List String
  | .name n => [n.toString]
  | .array element => element.names
  | .generic container arguments => container.toString :: arguments.names

def TypeArguments.names : TypeArguments → List String
  | .last argument => argument.names
  | .cons argument rest => argument.names ++ rest.names

def TypeArgument.names : TypeArgument → List String
  | .exactly t => t.names
  | .wildcard => [Identifier.object.toString]
  | .bounded _ t => t.names

end

mutual

/-- A TypeScript type of one of the shapes that translations have. -/
inductive TargetType where
  | reference (name : String)
  | generic (name : String) (arguments : TargetTypes)
  | array (element : TargetType)
  | optional (value : TargetType)
  | index (key value : TargetType)

/-- The arguments of a generic TypeScript type. -/
inductive TargetTypes where
  | last (t : TargetType)
  | cons (t : TargetType) (rest : TargetTypes)

end

mutual

/-- The text of a TypeScript type. -/
def TargetType.text : TargetType → String
  | .reference name => name
  | .generic name arguments => name ++ "<" ++ arguments.text ++ ">"
  | .array element => element.text ++ "[]"
  | .optional value => value.text ++ " | undefined"
  | .index key value => "\x7b [key: " ++ key.text ++ "]: " ++ value.text ++ " \x7d"

def TargetTypes.text : TargetTypes → String
  | .last t => t.text
  | .cons t rest => t.text ++ ", " ++ rest.text

end

/-- The texts of the arguments one by one. -/
def TargetTypes.texts : TargetTypes → List String
  | .last t => [t.text]
  | .cons t rest => t.text :: rest.texts

/-- The TypeScript type for a generic type with translated arguments. -/
def TargetType.ofGeneric (container : String) : TargetTypes → TargetType
  | .last item =>
    if container ∈ ["List", "ArrayList", "Set", "Collection"] then .array item
    else if container = "Optional" then .optional item
    else .generic container (.last item)
  | .cons key (.last value) =>
    if container ∈ ["Map", "HashMap"] then .index key value
    else .generic container (.cons key (.last value))
  | arguments => .generic container arguments

/-- The entry of a name in the mapping, or the name itself where that is missing or empty. -/
def Identifier.translation (types : TypeSystem) (n : Identifier) : String :=
  ((types.mapping.lookup n.toString).filter (· ≠ "")).getD n.toString

mutual

/-- The TypeScript type that a Java type stands for. -/
def JavaType.translation (types : TypeSystem) : JavaType → TargetType
  | .name n => .reference (n.translation types)
  | .array element => .array (element.translation types)
  | .generic container arguments =>
    .ofGeneric container.toString (arguments.translation types)

def TypeArguments.translation (types : TypeSystem) : TypeArguments → TargetTypes
  | .last argument => .last (argument.translation types)
  | .cons argument rest => .cons (argument.translation types) (rest.translation types)

/-- A wildcard is translated as its bound, one without a bound as `Object`. -/
def TypeArgument.translation (types : TypeSystem) : TypeArgument → TargetType
  | .exactly t => t.translation types
  | .wildcard => .reference (Identifier.object.translation types)
  | .bounded _ t => t.translation types

end

end InterfaceGen.Types
