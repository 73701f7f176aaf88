import InterfaceGen.Types.Generic
import InterfaceGen.Types.System
import InterfaceGen.Types.Wildcard

/-!
# The custom types that a declaration refers to

A type text, of either language, is walked layer by layer, and each class name in it that is not
built in is recorded once, in the order in which the names are met. Index signatures and unions of
mapped texts are no class names and add nothing but what their commas separate.
-/

namespace InterfaceGen.TypeSystem

open InterfaceGen.Text InterfaceGen.Types

/-- The names with one more, unless it is among them. -/
def record (known : List String) (name : String) : List String :=
  if known.contains name then known else known ++ [name]

/-- The names with those that the text, which has no wildcards, refers to. -/
def collectPlain (types : TypeSystem) (text : List Char) (known : List String) : List String :=
  if (trim text).isEmpty ∨ types.isBuiltIn (String.ofList (trim text)) then known
  else
    match _ha : arrayElement? (trim text) with
    | some element => collectPlain types element known
    | none =>
      if '<' ∈ trim text then
        match _hg : generic? (trim text) with
        | some (container, arguments) =>
          let name := String.ofList container
          (splitArguments arguments).attach.foldl
            (fun known argument => collectPlain types argument.1 known)
            (if isClassName container ∧ !types.isBuiltIn name then record known name else known)
        | none => known
      else if _hc : ',' ∈ trim text then
        (cutAt ',' (trim text)).attach.foldl
          (fun known part => collectPlain types part.1 known) known
      else if isClassName (trim text) then record known (String.ofList (trim text))
      else known
termination_by text.length
decreasing_by
  · have h1 := length_lt_of_arrayElement? _ha
    have h2 := length_trim_le text
    omega
  · have h1 := length_lt_of_generic? _hg
    have h2 := length_trim_le text
    have h3 := length_le_of_mem_splitArguments argument.2
    omega
  · have h1 := length_lt_of_mem_cutAt _hc part.2
    have h2 := length_trim_le text
    omega

/-- The names with those of the custom types that a type text refers to. -/
def collectDependencies (types : TypeSystem) (text : String) (known : List String) :
    List String :=
  types.collectPlain (Wildcard.stripChars text.toList) known

/-- The custom types that a declaration refers to: those of its fields, each with its mapped text
before its declared one, and last its supertype. -/
def declarationDependencies (types : TypeSystem) (fields : List (String × String))
    (supertype : Option String) : List String :=
  let known := fields.foldl
    (fun known field =>
      types.collectDependencies field.2 (types.collectDependencies field.1 known)) []
  match supertype with
  | some name => if name = "" ∨ types.isBuiltIn name then known else record known name
  | none => known

end InterfaceGen.TypeSystem
