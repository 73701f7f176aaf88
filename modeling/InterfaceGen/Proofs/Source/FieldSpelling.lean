import InterfaceGen.Proofs.Text.Words
import InterfaceGen.Proofs.Types.Spelling
import InterfaceGen.Source.FieldList

/-!
# Ways to write the fields of a class

A field declaration as data, apart from any way to write it, and the class texts that declare such
fields: annotations, the word `private`, modifiers, a spelling of the type, names and perhaps an
initial value, with blanks wherever they may stand. Blanks have to stand behind `private`, behind
each modifier and behind the type.
-/

namespace InterfaceGen.Source

open InterfaceGen.Text InterfaceGen.Types

/-- The name of a field: a small letter, then letters, digits and underscores. -/
structure FieldName where
  chars : List Char
  wellFormed : isFieldName chars = true

def FieldName.toString (n : FieldName) : String :=
  String.ofList n.chars

/-- A declaration of private fields of one type. -/
structure FieldDeclaration where
  /-- The literal of the annotation that names the field. -/
  literal : Option (List Char)
  type : JavaType
  first : FieldName
  others : List FieldName

namespace FieldDeclaration

/-- All names that are declared, in their order. -/
def names (d : FieldDeclaration) : List FieldName :=
  d.first :: d.others

/-- Is there an annotation that names the field? -/
def isAnnotated (d : FieldDeclaration) : Bool :=
  d.literal.isSome

/-- The fields that the declaration stands for. -/
def fields (types : TypeSystem) (d : FieldDeclaration) : List Field :=
  d.names.map fun n => {
    externalName := match d.literal with
      | some literal => FieldList.externalName (String.ofList literal)
      | none => n.toString
    mappedType := types.mapType d.type.toString
    isOptional := true
    declaredType := d.type.toString
    sourceName := n.toString }

end FieldDeclaration

/-- The word that each of the declarations has. -/
def privateWord : List Char := "private".toList

/-- The modifiers that a declaration may have. -/
def fieldModifiers : List (List Char) :=
  ["final".toList, "transient".toList, "volatile".toList]

/-- The words that are read as modifiers. -/
def modifierWords : List (List Char) :=
  "static".toList :: fieldModifiers

/-! ## Annotations -/

/-- What may stand between the quotes of a string literal. -/
inductive IsLiteral : List Char → Prop where
  | nil : IsLiteral []
  | plain {c : Char} {rest : List Char} (h : c ≠ '"' ∧ c ≠ '\\' ∧ c ≠ '\n')
    (more : IsLiteral rest) : IsLiteral (c :: rest)
  | escaped {c : Char} {rest : List Char} (h : c ≠ '\n') (more : IsLiteral rest) :
    IsLiteral ('\\' :: c :: rest)

/-- The name of the argument before the literal, which may be left out. -/
inductive ArgumentName : List Char → Prop where
  | none : ArgumentName []
  | value {before after : List Char} (hb : AreBlank before) (ha : AreBlank after) :
    ArgumentName ("value".toList ++ (before ++ '=' :: after))

/-- An annotation that names a property by this literal, perhaps with further arguments. -/
inductive Naming (literal : List Char) : List Char → Prop where
  | intro {before behind name arguments : List Char} (body : IsLiteral literal)
    (nonempty : literal ≠ []) (lacks : ¬ HoldsWord privateWord literal) (hb : AreBlank before)
    (hb' : AreBlank behind) (hn : ArgumentName name) (closed : ')' ∉ arguments)
    (lacks' : ¬ HoldsWord privateWord arguments) :
    Naming literal ("@JsonProperty".toList ++ (before ++ '(' :: (behind ++ (name ++
      '"' :: (literal ++ '"' :: (arguments ++ [')']))))))

/-- The name of an annotation that does not name the property. -/
structure IsAnnotationName (name : List Char) : Prop where
  nonempty : name ≠ []
  letters : ∀ c ∈ name, isWordChar c = true
  other : name ≠ "JsonProperty".toList
  notPrivate : name ≠ privateWord

/-- Other annotations, with or without arguments, each with the blanks behind it. The name of the
last does not run into the word behind it. -/
inductive Annotations : List Char → Prop where
  | nil : Annotations []
  | bare {name gap rest : List Char} (h : IsAnnotationName name) (hg : AreBlank gap)
    (apart : gap ≠ [] ∨ rest ≠ []) (more : Annotations rest) :
    Annotations ('@' :: (name ++ (gap ++ rest)))
  | call {name gap arguments behind rest : List Char} (h : IsAnnotationName name)
    (hg : AreBlank gap) (closed : ')' ∉ arguments) (plain : '@' ∉ arguments)
    (lacks : ¬ HoldsWord privateWord arguments) (hb : AreBlank behind) (more : Annotations rest) :
    Annotations ('@' :: (name ++ (gap ++ '(' :: (arguments ++ ')' :: (behind ++ rest)))))

/-! ## Declarations -/

/-- Modifiers, each with the blanks behind it. -/
inductive Modifiers : List Char → Prop where
  | nil : Modifiers []
  | cons {word gap rest : List Char} (h : word ∈ fieldModifiers)
    (hg : AreBlank gap) (nonempty : gap ≠ []) (more : Modifiers rest) :
    Modifiers (word ++ (gap ++ rest))

/-- Further names of fields, each behind a comma. -/
inductive FurtherNames : List FieldName → List Char → Prop where
  | nil : FurtherNames [] []
  | cons {n : FieldName} {names : List FieldName} {before behind rest : List Char}
    (hb : AreBlank before) (hb' : AreBlank behind) (more : FurtherNames names rest) :
    FurtherNames (n :: names) (before ++ ',' :: (behind ++ (n.chars ++ rest)))

/-- An initial value, which may be left out. -/
inductive Initializer : List Char → Prop where
  | none : Initializer []
  | value {text : List Char} (closed : ';' ∉ text) (plain : '@' ∉ text) : Initializer ('=' :: text)

/-- A declaration without annotations. The type does not begin with a word that is a modifier. -/
inductive Core (type : JavaType) (first : FieldName) (others : List FieldName) :
    List Char → Prop where
  | intro {gap modifiers text space names tail value : List Char} (hg : AreBlank gap)
    (apart : gap ≠ []) (hm : Modifiers modifiers) (ht : Spaced AreBlank type.tokens text)
    (word : text.takeWhile isWordChar ∉ modifierWords) (hs : AreBlank space) (apart' : space ≠ [])
    (hn : FurtherNames others names) (hb : AreBlank tail) (hv : Initializer value) :
    Core type first others (privateWord ++ (gap ++ (modifiers ++ (text ++ (space ++
      (first.chars ++ (names ++ (tail ++ (value ++ [';'])))))))))

/-- The ways to write a declaration. One that names a property declares a single field. -/
inductive FieldDeclaration.Written : FieldDeclaration → List Char → Prop where
  | annotated {literal naming gap annotations core : List Char} {type : JavaType} {n : FieldName}
    (h : Naming literal naming) (hg : AreBlank gap) (ha : Annotations annotations)
    (hc : Core type n [] core) :
    Written ⟨some literal, type, n, []⟩ (naming ++ (gap ++ (annotations ++ core)))
  | plain {annotations core : List Char} {type : JavaType} {n : FieldName} {others : List FieldName}
    (ha : Annotations annotations) (hc : Core type n others core) :
    Written ⟨none, type, n, others⟩ (annotations ++ core)

/-- Declarations one after the other with blanks between them. -/
inductive Members : List FieldDeclaration → List Char → Prop where
  | nil {gap : List Char} (hg : AreBlank gap) : Members [] gap
  | cons {d : FieldDeclaration} {ds : List FieldDeclaration} {gap text rest : List Char}
    (hg : AreBlank gap) (h : d.Written text) (more : Members ds rest) :
    Members (d :: ds) (gap ++ (text ++ rest))

/-- A class with these declarations and nothing else in it. -/
inductive ClassText (ds : List FieldDeclaration) : List Char → Prop where
  | intro {gap behind members : List Char} {n : Identifier} (hg : AreBlank gap)
    (apart : gap ≠ []) (notPrivate : n.chars ≠ privateWord) (hb : AreBlank behind)
    (hm : Members ds members) :
    ClassText ds
      ("class".toList ++ (gap ++ (n.chars ++ (behind ++ '\x7b' :: (members ++ ['\x7d'])))))

end InterfaceGen.Source
