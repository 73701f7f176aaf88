import InterfaceGen.Types.Generic
import InterfaceGen.Types.System
import InterfaceGen.Types.Wildcard

/-!
# From Java types to TypeScript types

The layers of a type text are taken off from the outside: an array suffix, a generic type, and
last a plain name. Lists and sets become arrays, maps index signatures, and an optional value a
union with `undefined`. Wildcards are replaced once, before the first layer, and no layer brings
one back.
-/

namespace InterfaceGen.TypeSystem

open InterfaceGen.Text InterfaceGen.Types

/-- The containers of one argument that are mapped to arrays. -/
def arrayContainers : List String := ["List", "ArrayList", "Set", "Collection"]

/-- The containers of two arguments that are mapped to index signatures. -/
def mapContainers : List String := ["Map", "HashMap"]

/-- A generic type with its arguments, as it is written. -/
def spellGeneric (container : String) (arguments : List String) : String :=
  container ++ "<" ++ ", ".intercalate arguments ++ ">"

/-- The TypeScript text of a generic type with mapped arguments. -/
def writeGeneric (container : String) (arguments : List String) : String :=
  match arguments with
  | [item] =>
    if arrayContainers.contains container then item ++ "[]"
    else if container = "Optional" then item ++ " | undefined"
    else spellGeneric container arguments
  | [key, value] =>
    if mapContainers.contains container then "\x7b [key: " ++ key ++ "]: " ++ value ++ " \x7d"
    else spellGeneric container arguments
  | _ => spellGeneric container arguments

/-- The TypeScript text of a type text without wildcards. -/
def mapPlain (types : TypeSystem) (text : List Char) : String :=
  if (trim text).isEmpty then "any"
  else
    match _ha : arrayElement? (trim text) with
    | some element => mapPlain types element ++ "[]"
    | none =>
      match _hg : generic? (trim text) with
      | some (container, arguments) =>
        writeGeneric (String.ofList container)
          ((splitArguments arguments).attach.map fun argument => mapPlain types argument.1)
      | none => types.plainName (String.ofList (trim text))
termination_by text.length
decreasing_by
  · have h1 := length_lt_of_arrayElement? _ha
    have h2 := length_trim_le text
    omega
  · have h1 := length_lt_of_generic? _hg
    have h2 := length_trim_le text
    have h3 := length_le_of_mem_splitArguments argument.2
    omega

/-- The TypeScript text of a type text; `any` for an empty one. -/
def mapType (types : TypeSystem) (text : String) : String :=
  types.mapPlain (Wildcard.stripChars text.toList)

end InterfaceGen.TypeSystem
