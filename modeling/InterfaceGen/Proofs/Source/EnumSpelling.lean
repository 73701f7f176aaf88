import InterfaceGen.Proofs.Source.Brackets

/-!
# Ways to write an enum

The constants of an enum as data, apart from any way to write them, and the texts that declare them:
annotations, a name, perhaps arguments and a body for each constant, commas between them, and behind
a semicolon the members, with blanks wherever they may stand.
-/

namespace InterfaceGen.Source

open InterfaceGen.Text InterfaceGen.Types

/-- Can the character begin the name of a constant? -/
def isConstantStart (c : Char) : Bool :=
  c.isUpper || c == '_'

/-- Can the character stand in the name of a constant? -/
def isConstantChar (c : Char) : Bool :=
  c.isUpper || c.isDigit || c == '_'

/-- Annotations with simple names, each with the blanks behind it. No parenthesis stands in their
arguments, and the name of the last does not run into the name of the constant. -/
inductive ConstantAnnotations : List Char → Prop where
  | nil : ConstantAnnotations []
  | bare {name gap rest : List Char} (nonempty : name ≠ [])
    (letters : ∀ c ∈ name, isWordChar c = true) (hg : AreBlank gap) (apart : gap ≠ [] ∨ rest ≠ [])
    (more : ConstantAnnotations rest) : ConstantAnnotations ('@' :: (name ++ (gap ++ rest)))
  | call {name gap arguments behind rest : List Char} (nonempty : name ≠ [])
    (letters : ∀ c ∈ name, isWordChar c = true) (hg : AreBlank gap)
    (simple : '(' ∉ arguments ∧ ')' ∉ arguments) (balanced : BalancesBrackets arguments)
    (hb : AreBlank behind) (more : ConstantAnnotations rest) :
    ConstantAnnotations ('@' :: (name ++ (gap ++ '(' :: (arguments ++ ')' :: (behind ++ rest)))))

/-- The contents of the string literal that an argument list begins with, if it begins with one; it
does not begin with an empty one. -/
inductive LeadingLiteral : Option (List Char) → List Char → Prop where
  | none {gap rest : List Char} (hg : AreBlank gap)
    (other : ∀ c ∈ rest.head?, isBlank c = false ∧ c ≠ '"') : LeadingLiteral none (gap ++ rest)
  | some {gap body rest : List Char} (hg : AreBlank gap) (hb : IsLiteral body)
    (nonempty : body ≠ []) : LeadingLiteral (some body) (gap ++ '"' :: (body ++ '"' :: rest))

/-- The arguments of a constant, or nothing. -/
inductive ConstantArguments : Option (List Char) → List Char → Prop where
  | none : ConstantArguments none []
  | some {literal : Option (List Char)} {gap arguments : List Char} (hg : AreBlank gap)
    (balanced : BalancesBrackets arguments) (leading : LeadingLiteral literal arguments) :
    ConstantArguments literal (gap ++ '(' :: (arguments ++ [')']))

/-- The body of a constant, or nothing. -/
inductive ConstantBody : List Char → Prop where
  | none : ConstantBody []
  | some {gap body : List Char} (hg : AreBlank gap) (balanced : BalancesBrackets body) :
    ConstantBody (gap ++ '\x7b' :: (body ++ ['\x7d']))

/-- The constant is written like this. It stands for the literal that its arguments begin with, or
else for its name in small letters. -/
inductive ConstantText : Constant → List Char → Prop where
  | intro {annotations name arguments body : List Char} {literal : Option (List Char)}
    (ha : ConstantAnnotations annotations)
    (hn : isHeadedBy isConstantStart isConstantChar name = true)
    (hargs : ConstantArguments literal arguments) (hb : ConstantBody body) :
    ConstantText ⟨String.ofList name, String.ofList (literal.getD (name.map Char.toLower))⟩
      (annotations ++ (name ++ (arguments ++ body)))

/-- Entries with commas between them, and perhaps one behind the last, with blanks around each. -/
inductive Listed {α : Type} (entry : α → List Char → Prop) : List α → List Char → Prop where
  | none {gap : List Char} (hg : AreBlank gap) : Listed entry [] gap
  | comma {gap gap' : List Char} (hg : AreBlank gap) (hg' : AreBlank gap') :
    Listed entry [] (gap ++ ',' :: gap')
  | last {x : α} {before text after : List Char} (hb : AreBlank before) (h : entry x text)
    (ha : AreBlank after) : Listed entry [x] (before ++ (text ++ after))
  | cons {x : α} {xs : List α} {before text after rest : List Char} (hb : AreBlank before)
    (h : entry x text) (ha : AreBlank after) (more : Listed entry xs rest) :
    Listed entry (x :: xs) (before ++ (text ++ (after ++ ',' :: rest)))

/-- The members of an enum behind its constants, or nothing. -/
inductive EnumMembers : List Char → Prop where
  | none : EnumMembers []
  | some {members : List Char} (balanced : BalancesBraces members) : EnumMembers (';' :: members)

/-- One of the words with blanks behind it, or nothing. -/
inductive OptionalWord (words : List String) : List Char → Prop where
  | none : OptionalWord words []
  | some {word : String} {gap : List Char} (h : word ∈ words) (hg : AreBlank gap)
    (nonempty : gap ≠ []) : OptionalWord words (word.toList ++ gap)

/-- The modifiers of an enum, each with blanks behind it. -/
inductive EnumModifiers : List Char → Prop where
  | intro {access kind final : List Char}
    (ha : OptionalWord ["public", "private", "protected"] access)
    (hk : OptionalWord ["abstract", "static"] kind) (hf : OptionalWord ["final"] final) :
    EnumModifiers (access ++ (kind ++ final))

/-- What stands between the name of an enum and its opening brace. -/
inductive EnumClause : List Char → Prop where
  | none {gap : List Char} (hg : AreBlank gap) : EnumClause gap
  | implements {gap rest outside : List Char} (hg : AreBlank gap) (nonempty : gap ≠ [])
    (coded : Coded outside rest) (closed : '\x7b' ∉ outside) :
    EnumClause (gap ++ ("implements".toList ++ rest))

/-- An enum with this body between its braces, and anything behind it. -/
inductive EnumFrame (name body : List Char) : List Char → Prop where
  | intro {before modifiers gap clause behind : List Char} (hb : AreBlank before)
    (hmod : EnumModifiers modifiers) (hn : isHeadedBy Char.isUpper isNameChar name = true)
    (hg : AreBlank gap) (nonempty : gap ≠ []) (hc : EnumClause clause) :
    EnumFrame name body (before ++ (modifiers ++ ("enum".toList ++ (gap ++ (name ++ (clause ++
      '\x7b' :: (body ++ '\x7d' :: behind)))))))

/-- An enum with these constants is written like this, and anything behind it. -/
inductive EnumText (name : List Char) (constants : List Constant) : List Char → Prop where
  | intro {before modifiers gap clause list members behind : List Char}
    (hb : AreBlank before) (hmod : EnumModifiers modifiers)
    (hn : isHeadedBy Char.isUpper isNameChar name = true)
    (hg : AreBlank gap) (nonempty : gap ≠ []) (hc : EnumClause clause)
    (hl : Listed ConstantText constants list) (hm : EnumMembers members) :
    EnumText name constants (before ++ (modifiers ++ ("enum".toList ++ (gap ++ (name ++ (clause ++
      '\x7b' :: (list ++ (members ++ '\x7d' :: behind))))))))

/-- The list and the members are the body of the enum. -/
theorem EnumText.exists_frame {name text : List Char} {constants : List Constant}
    (h : EnumText name constants text) :
    ∃ list members, EnumFrame name (list ++ members) text ∧ Listed ConstantText constants list ∧
      EnumMembers members := by
  cases h with
  | @intro before modifiers gap clause list members behind hb hmod hn hg nonempty hc hl hm =>
    have frame := @EnumFrame.intro name (list ++ members) _ _ _ _ behind hb hmod hn hg nonempty hc
    rw [List.append_assoc] at frame
    exact ⟨list, members, frame, hl, hm⟩

/-! ## Lists of any entries -/

/-- What holds of each entry holds of the list. -/
theorem Listed.map {α β : Type} {entry : α → List Char → Prop} {entry' : β → List Char → Prop}
    {f : α → β} (each : ∀ x text, entry x text → entry' (f x) text) {xs : List α}
    {list : List Char} (h : Listed entry xs list) : Listed entry' (xs.map f) list := by
  induction h with
  | none hg => exact .none hg
  | comma hg hg' => exact .comma hg hg'
  | last hb h ha => exact .last hb (each _ _ h) ha
  | cons hb h ha _ ih => exact .cons hb (each _ _ h) ha ih

end InterfaceGen.Source
