import InterfaceGen.Text.Percent
import InterfaceGen.Text.Split

/-!
# Targets

A request names its target by a reference: perhaps a scheme and a host, then a path, perhaps a
query and a fragment. A reference without a host is one to this service, from its root. Single dots
in the path lead nowhere and double dots back; escapes are resolved by the client and once more by
the service.
-/

namespace InterfaceGen.Service.Target

open InterfaceGen.Text

/-- Can the character stand in the name of a scheme? -/
def isSchemeChar (c : Char) : Bool :=
  c.isAlphanum || c == '+' || c == '.' || c == '-'

/-- Does the reference name a scheme, and what follows it? The name may be missing before its
colon. -/
def scheme (reference : List Char) : Bool × List Char :=
  let name := reference.takeWhile isSchemeChar
  match reference.dropWhile isSchemeChar with
  | ':' :: rest => if name.head?.all Char.isAlpha then (!name.isEmpty, rest) else (false, reference)
  | _ => (false, reference)

/-- What stands between two slashes and the path, and the path. -/
def authority : List Char → List Char × List Char
  | '/' :: '/' :: rest => (rest.takeWhile (· ≠ '/'), rest.dropWhile (· ≠ '/'))
  | path => ([], path)

/-- Is there a host between the user, who ends at an `@`, and the colon? -/
def hasHost (authority : List Char) : Bool :=
  match (authority.reverse.takeWhile (· ≠ '@')).reverse with
  | [] => false
  | c :: _ => c != ':'

/-- One more segment of a path, the last one first. -/
def enter (segments : List (List Char)) (segment : List Char) : List (List Char) :=
  if segment = ['.'] then segments
  else if segment = ['.', '.'] then
    if segments = [[]] then segments else segments.drop 1
  else segment :: segments

/-- The path without dots. -/
def withoutDots (path : List Char) : List Char :=
  ['/'].intercalate ((cutAt '/' path).foldl enter []).reverse

/-- The path that the reference leads to. -/
def path (reference : String) : String :=
  let (hasScheme, rest) := scheme (reference.toList.takeWhile fun c => c != '?' && c != '#')
  let (authority, written) := authority rest
  let written :=
    if hasScheme || !authority.isEmpty then withoutDots written else written
  let path :=
    if hasScheme && hasHost authority then written else '/' :: written.dropWhile (· = '/')
  String.ofList (Percent.decode (Percent.decode (withoutDots path)))

end InterfaceGen.Service.Target
