import InterfaceGen.Proofs.Types.Term
import InterfaceGen.Source.FieldType
import Mathlib.Data.List.Chain

/-!
# Spellings of a type

A type is a row of tokens, and a source may write the row in many ways: with blanks between any two
tokens and around all of them, with package names before any name. The only blanks that a spelling
must have are those behind the keyword of a bound.
-/

namespace InterfaceGen.Types

open InterfaceGen.Text InterfaceGen.Source

/-- What a type is written with. The question mark of a wildcard and the keyword of its bound are
one token. -/
inductive Token where
  | name (n : Identifier)
  | wildcard
  | bounded (bound : Bound)
  | mark (c : Char) (known : FieldType.isMark c = true)

mutual

/-- The tokens of a type from left to right. -/
def JavaType.tokens : JavaType → List Token
  | .name n => [.name n]
  | .array element => element.tokens ++ [.mark '[' rfl, .mark ']' rfl]
  | .generic container arguments =>
    .name container :: .mark '<' rfl :: (arguments.tokens ++ [.mark '>' rfl])

def TypeArguments.tokens : TypeArguments → List Token
  | .last argument => argument.tokens
  | .cons argument rest => argument.tokens ++ .mark ',' rfl :: rest.tokens

def TypeArgument.tokens : TypeArgument → List Token
  | .exactly t => t.tokens
  | .wildcard => [.wildcard]
  | .bounded bound t => .bounded bound :: t.tokens

end

/-- A part of a package name: it begins with a small letter or an underscore. -/
structure PackagePart where
  chars : List Char
  wellFormed : isHeadedBy (fun c => c.isLower || c == '_') isNameChar chars = true

/-- A package name, each of its parts with the dot behind it. -/
def packageText (parts : List PackagePart) : List Char :=
  parts.flatMap fun part => part.chars ++ ['.']

/-- Blanks and nothing else. -/
def AreBlank (text : List Char) : Prop :=
  ∀ c ∈ text, isBlank c = true

namespace Token

/-- The ways to write a token; `inner` says what may stand between a question mark and its
keyword. -/
inductive Written (inner : List Char → Prop) : Token → List Char → Prop where
  | name (parts : List PackagePart) (n : Identifier) :
    Written inner (.name n) (packageText parts ++ n.chars)
  | wildcard : Written inner .wildcard ['?']
  | bounded {gap : List Char} (bound : Bound) (h : inner gap) :
    Written inner (.bounded bound) ('?' :: (gap ++ bound.keyword))
  | mark (c : Char) (known : FieldType.isMark c = true) : Written inner (.mark c known) [c]

/-- What may stand behind a token: behind the keyword of a bound not nothing. -/
def Gap (inner : List Char → Prop) : Token → List Char → Prop
  | .bounded _, gap => inner gap ∧ gap ≠ []
  | _, gap => inner gap

end Token

/-- A row of tokens written one after the other with gaps between them. -/
inductive Spaced (inner : List Char → Prop) : List Token → List Char → Prop where
  | last {t : Token} {text : List Char} (h : t.Written inner text) : Spaced inner [t] text
  | cons {t : Token} {text gap rest : List Char} {tokens : List Token}
    (h : t.Written inner text) (space : t.Gap inner gap) (more : Spaced inner tokens rest) :
    Spaced inner (t :: tokens) (text ++ (gap ++ rest))

/-- The ways to write a type. -/
inductive JavaType.Spelling (t : JavaType) : List Char → Prop where
  | intro {before text after : List Char} (hb : AreBlank before) (ha : AreBlank after)
    (h : Spaced AreBlank t.tokens text) : Spelling t (before ++ (text ++ after))

namespace Token

def IsMark : Token → Prop
  | .mark .. => True
  | _ => False

/-- Which tokens stand next to each other in a type: marks behind names and bare wildcards, none
behind the keyword of a bound. -/
def Precedes : Token → Token → Prop
  | .mark .., _ => True
  | .bounded _, next => ¬ next.IsMark
  | _, next => next.IsMark

/-- What is left of a token when a type is written in its canonical text. -/
def canonical : Token → List Char
  | .name n => n.chars
  | .wildcard => Identifier.object.chars
  | .bounded _ => []
  | .mark c _ => if c = ',' then [',', ' '] else [c]

end Token

mutual

/-- What is left of the tokens of a type is its canonical text. -/
theorem JavaType.canonical_tokens : (t : JavaType) → t.tokens.flatMap Token.canonical = t.text
  | .name n => by simp [JavaType.tokens, JavaType.text, Token.canonical]
  | .array element => by
    rw [JavaType.tokens, List.flatMap_append, element.canonical_tokens]
    rfl
  | .generic container arguments => by
    rw [JavaType.tokens, List.flatMap_cons, List.flatMap_cons, List.flatMap_append,
      arguments.canonical_tokens]
    rfl

theorem TypeArguments.canonical_tokens :
    (as : TypeArguments) → as.tokens.flatMap Token.canonical = as.text
  | .last argument => argument.canonical_tokens
  | .cons argument rest => by
    rw [TypeArguments.tokens, List.flatMap_append, List.flatMap_cons, argument.canonical_tokens,
      rest.canonical_tokens]
    rfl

theorem TypeArgument.canonical_tokens :
    (a : TypeArgument) → a.tokens.flatMap Token.canonical = a.text
  | .exactly t => t.canonical_tokens
  | .wildcard => by simp [TypeArgument.tokens, TypeArgument.text, Token.canonical]
  | .bounded _ t => by
    rw [TypeArgument.tokens, List.flatMap_cons, t.canonical_tokens]
    rfl

end

/-! ## What stands next to what -/

/-- Behind the last of these tokens a mark may stand. -/
def EndsClosed (tokens : List Token) : Prop :=
  ∀ t ∈ tokens.getLast?, ∀ c known, t.Precedes (.mark c known)

/-- A row of tokens that a type can be written with. -/
structure IsRow (tokens : List Token) : Prop where
  chain : tokens.IsChain Token.Precedes
  head : ∃ t rest, tokens = t :: rest ∧ ¬ t.IsMark
  closed : EndsClosed tokens

/-- One token that is no mark and that a mark may follow. -/
theorem IsRow.singleton {t : Token} (h : ¬ t.IsMark) (closed : ∀ c known, t.Precedes (.mark c known)) :
    IsRow [t] where
  chain := .singleton t
  head := ⟨t, [], rfl, h⟩
  closed := by
    intro u hu
    cases hu
    exact closed

/-- A row, a mark, and what may stand behind a mark. -/
theorem IsRow.append_mark {row tail : List Token} {c : Char} {known : FieldType.isMark c = true}
    (h : IsRow row) (chain : tail.IsChain Token.Precedes) (closed : EndsClosed tail) :
    IsRow (row ++ .mark c known :: tail) where
  chain := by
    refine List.isChain_append.2 ⟨h.chain, List.isChain_cons.2 ⟨fun _ _ => trivial, chain⟩, ?_⟩
    intro t ht u hu
    cases hu
    exact h.closed t ht c known
  head := by
    obtain ⟨t, rest, rfl, nomark⟩ := h.head
    exact ⟨t, rest ++ .mark c known :: tail, rfl, nomark⟩
  closed := by
    intro t ht d known'
    rw [List.getLast?_append, List.getLast?_cons] at ht
    cases hl : tail.getLast? with
    | none =>
      rw [hl] at ht
      cases ht
      trivial
    | some last =>
      rw [hl] at ht
      cases ht
      exact closed last hl d known'

/-- The keyword of a bound and the row of the bound. -/
theorem IsRow.cons_bounded {row : List Token} (bound : Bound) (h : IsRow row) :
    IsRow (.bounded bound :: row) := by
  obtain ⟨t, rest, rfl, nomark⟩ := h.head
  refine ⟨List.isChain_cons_cons.2 ⟨nomark, h.chain⟩, ⟨_, _, rfl, id⟩, ?_⟩
  intro u hu
  rw [List.getLast?_cons_cons] at hu
  exact h.closed u hu

mutual

/-- The tokens of a type are a row. -/
theorem JavaType.isRow_tokens : (t : JavaType) → IsRow t.tokens
  | .name n => .singleton id fun _ _ => trivial
  | .array element => by
    refine element.isRow_tokens.append_mark (.singleton _) ?_
    intro t ht
    cases ht
    exact fun _ _ => trivial
  | .generic container arguments => by
    have behind : IsRow (arguments.tokens ++ [.mark '>' rfl]) :=
      arguments.isRow_tokens.append_mark .nil (by intro t ht; cases ht)
    exact (IsRow.singleton (t := .name container) id fun _ _ => trivial).append_mark
      behind.chain behind.closed

theorem TypeArguments.isRow_tokens : (as : TypeArguments) → IsRow as.tokens
  | .last argument => argument.isRow_tokens
  | .cons argument rest =>
    argument.isRow_tokens.append_mark rest.isRow_tokens.chain rest.isRow_tokens.closed

theorem TypeArgument.isRow_tokens : (a : TypeArgument) → IsRow a.tokens
  | .exactly t => t.isRow_tokens
  | .wildcard => .singleton id fun _ _ => trivial
  | .bounded bound t => t.isRow_tokens.cons_bounded bound

end

end InterfaceGen.Types
