import InterfaceGen.Proofs.Source.EnumExtraction

/-!
# Constants that are given a literal

A constant without arguments stands for its name in small letters, and one whose only argument is a
string literal for that literal. This is read of all constants but those that are given the empty
literal: at least one character has to stand between the quotes, so an empty literal is taken for
none, `enumConstants_given`.
-/

namespace InterfaceGen.Source

open InterfaceGen.Text InterfaceGen.Text.Pattern InterfaceGen.Types

/-- A constant with the literal that it is given, if it is given one. -/
structure GivenConstant where
  name : List Char
  literal : Option (List Char)
  named : isHeadedBy isConstantStart isConstantChar name = true
  plain : ∀ body ∈ literal, '"' ∉ body ∧ '\\' ∉ body ∧ '\n' ∉ body

namespace GivenConstant

/-- The constant that stands for the literal, or else for its name in small letters. -/
def standingFor (c : GivenConstant) (literal : Option (List Char)) : Constant :=
  ⟨String.ofList c.name, String.ofList (literal.getD (c.name.map Char.toLower))⟩

/-- The constant as it is declared. -/
def declared (c : GivenConstant) : Constant :=
  c.standingFor c.literal

/-- The constant as it is read: an empty literal counts as none. -/
def read (c : GivenConstant) : Constant :=
  c.standingFor (c.literal.filter (· ≠ []))

/-- The ways to write a constant, alone or with its literal in parentheses. -/
inductive Written (c : GivenConstant) : List Char → Prop where
  | bare (h : c.literal = none) : Written c c.name
  | given {body gap before after : List Char} (h : c.literal = some body) (hg : AreBlank gap)
    (hb : AreBlank before) (ha : AreBlank after) :
    Written c (c.name ++ (gap ++ '(' :: (before ++ '"' :: (body ++ '"' :: after) ++ [')'])))

/-- A constant is read as declared exactly if its literal is not empty. -/
theorem read_eq_declared {c : GivenConstant} : c.read = c.declared ↔ c.literal ≠ some [] := by
  cases given : c.literal with
  | none => simp [read, declared, given]
  | some body =>
    cases body with
    | nil =>
      obtain ⟨d, more, same, -, -⟩ := isHeadedBy_iff.1 c.named
      simp [read, declared, standingFor, given, same, Option.filter]
    | cons => simp [read, declared, given, Option.filter]

theorem isLiteral {c : GivenConstant} {body : List Char} (h : c.literal = some body) :
    IsLiteral body := by
  obtain ⟨quote, escape, feed⟩ := c.plain body h
  clear h
  induction body with
  | nil => exact .nil
  | cons d body ih =>
    simp only [List.mem_cons, not_or] at quote escape feed
    exact .plain ⟨Ne.symm quote.1, Ne.symm escape.1, Ne.symm feed.1⟩ (ih quote.2 escape.2 feed.2)

/-! ## What is read of a constant -/

/-- No literal is read of an empty one. -/
theorem leads_empty {before : List Char} (hb : AreBlank before) (after : List Char) :
    EnumBody.Leads none (before ++ '"' :: ([] ++ '"' :: after)) := by
  intro more _
  have off : Rejects EnumBody.leadingLiteral (before ++ '"' :: '"' :: (after ++ more)) := by
    refine .run hb (head?_other (by decide) _) (fun c rest blank => ?_) ?_
    · refine ((rejects_word (c := '"') rfl (head?_ne ?_ rest)).seq _).seq _
      rintro rfl
      exact absurd blank (by decide)
    · exact (Rejects.exactly_seq (((rejects_literalItem _).seq _).capture _) ['"']).seq _
  have same : before ++ '"' :: ([] ++ '"' :: after) ++ more =
      before ++ '"' :: '"' :: (after ++ more) := by simp
  rw [same, matchStart, matchAt, Cursor.start, off]
  rfl

/-- The literal of a constant leads its arguments, unless it is empty. -/
theorem leads {c : GivenConstant} {body before : List Char} (h : c.literal = some body)
    (hb : AreBlank before) (after : List Char) :
    EnumBody.Leads (c.literal.filter (· ≠ [])) (before ++ '"' :: (body ++ '"' :: after)) := by
  rw [h]
  by_cases empty : body = []
  · subst empty
    exact leads_empty hb after
  · have kept : (some body).filter (· ≠ []) = some body := by simp [empty]
    rw [kept]
    exact EnumBody.leads_of_leadingLiteral (.some hb (isLiteral h) empty)

/-- Brackets in a literal do not count. -/
theorem balances {c : GivenConstant} {body before after : List Char} (h : c.literal = some body)
    (hb : AreBlank before) (ha : AreBlank after) :
    BalancesBrackets (before ++ '"' :: (body ++ '"' :: after)) := by
  have single : ¬ ['\\', '\\'] <:+: body := fun escape =>
    (c.plain body h).2.1 (escape.subset (List.mem_cons_self ..))
  have free : ∀ {gap : List Char} {d : Char}, AreBlank gap → isBlank d = false → d ∉ gap :=
    fun hg solid => notMem_of_forall hg solid
  have coded : Coded (before ++ after) (before ++ '"' :: (body ++ '"' :: after)) :=
    .run ⟨free hb (by decide), free hb (by decide)⟩
      (.literal (isLiteral h) single (.of_notMem ⟨free ha (by decide), free ha (by decide)⟩))
  have blank : AreBlank (before ++ after) := List.forall_mem_append.2 ⟨hb, ha⟩
  have idle : ∀ {opening closing : Char}, isBlank opening = false → isBlank closing = false →
      openBehind opening closing 0 (before ++ after) = some 0 := by
    intro opening closing first last
    have whole := @openBehind_append opening closing [] 0 _ (free blank first) (free blank last)
    rwa [List.append_nil] at whole
  exact ⟨_, coded, idle (by decide) (by decide), idle (by decide) (by decide)⟩

/-- A constant as it is written is a piece of the body, read with its literal unless it is empty. -/
theorem Written.isPiece {c : GivenConstant} {text : List Char} (h : c.Written text) :
    EnumBody.IsPiece c.read text := by
  cases h with
  | bare none =>
    have piece := EnumBody.isPiece_of_parts .nil c.named .none .none
    rw [List.append_nil, List.append_nil, List.nil_append] at piece
    rw [read, none]
    exact piece
  | @given body gap before after h hg hb ha =>
    have arguments : ReadArguments (c.literal.filter (· ≠ [])) _ :=
      .some hg (balances h hb ha) (leads h hb after)
    have piece := EnumBody.isPiece_of_parts .nil c.named arguments .none
    rw [List.append_nil, List.nil_append] at piece
    exact piece

/-- What is read is what is declared, except where an empty literal is given. -/
theorem map_read_eq_map_declared {constants : List GivenConstant} :
    constants.map read = constants.map declared ↔ ∀ c ∈ constants, c.literal ≠ some [] := by
  rw [List.map_inj_left]
  exact forall₂_congr fun c _ => read_eq_declared

end GivenConstant

/-! ## Enums of such constants -/

/-- An enum with these constants is written like this: with nothing but blanks around its list of
constants, or else so that no other header of an enum with its name follows. -/
inductive GivenEnum (name : String) (constants : List GivenConstant) (text : String) : Prop where
  | alone {before modifiers gap gap' list behind : List Char} (hb : AreBlank before)
    (hmod : EnumModifiers modifiers) (hn : isHeadedBy Char.isUpper isNameChar name.toList = true)
    (hg : AreBlank gap) (nonempty : gap ≠ []) (hg' : AreBlank gap')
    (hl : Listed GivenConstant.Written constants list) (hb' : AreBlank behind)
    (same : text.toList = before ++ (modifiers ++ ("enum".toList ++ (gap ++ (name.toList ++ (gap' ++
      '\x7b' :: (list ++ '\x7d' :: behind)))))))
  | among {list members : List Char} (frame : EnumFrame name.toList (list ++ members) text.toList)
    (hl : Listed GivenConstant.Written constants list) (hm : EnumMembers members)
    (apart : ∀ header ∈ (Header.findAll text).tail, header.kind = .enumKind → header.name ≠ name)

/-- When literals are blanked, nothing of the text can begin a header. -/
def Headerless (text : List Char) : Prop :=
  ∀ rest, (∀ c ∈ Literal.blankChars rest, c ∉ Header.initials) →
    ∀ c ∈ Literal.blankChars (text ++ rest), c ∉ Header.initials

namespace Headerless

/-- Texts without headers make a text without headers. -/
theorem append {first second : List Char} (hf : Headerless first) (hs : Headerless second) :
    Headerless (first ++ second) := by
  intro rest quiet
  rw [List.append_assoc]
  exact hf _ (hs rest quiet)

/-- A run without quotes and first letters of headers has no header. -/
theorem run {test : Char → Bool} {word : List Char} (h : ∀ c ∈ word, test c = true)
    (other : ∀ c ∈ '"' :: Header.initials, test c = false) : Headerless word := by
  intro rest quiet
  rw [Literal.blankChars_append (notMem_of_forall h (other _ (List.mem_cons_self ..)))]
  refine List.forall_mem_append.2 ⟨fun c hc letter => ?_, quiet⟩
  have off := other c (List.mem_cons_of_mem _ letter)
  rw [h c hc] at off
  cases off

theorem blanks {gap : List Char} (h : AreBlank gap) : Headerless gap :=
  run h (by decide)

/-- A literal has no header, as it is blanked. -/
theorem literal {body : List Char} (h : IsLiteral body) : Headerless ('"' :: (body ++ ['"'])) := by
  intro rest quiet
  have same : '"' :: (body ++ ['"']) ++ rest = '"' :: (body ++ '"' :: rest) := by simp
  rw [same, Literal.blankChars_literal h]
  intro c hc
  simp only [List.mem_cons, List.mem_append, List.mem_replicate] at hc
  rcases hc with rfl | ⟨-, rfl⟩ | rfl | hc
  · decide
  · decide
  · decide
  · exact quiet c hc

theorem mark {c : Char} (h : c ∈ ['(', ')', ',', '\x7b', '\x7d']) : Headerless [c] := by
  refine @run (['(', ')', ',', '\x7b', '\x7d'].contains ·) [c] (fun d hd => ?_) (by decide)
  rwa [List.mem_singleton.1 hd, List.contains_iff_mem]

end Headerless

/-- No header begins in a constant. -/
theorem GivenConstant.Written.headerless {c : GivenConstant} {text : List Char}
    (h : c.Written text) :
    Headerless text := by
  have name : Headerless c.name := .run (isConstantChar_of_name c.named) (by decide)
  cases h with
  | bare => exact name
  | given h hg hb ha =>
    have literal := Headerless.literal (isLiteral h)
    have opened : Headerless ['('] := .mark (by decide)
    have closed : Headerless [')'] := .mark (by decide)
    have arguments := opened.append ((Headerless.blanks hb).append
      (literal.append ((Headerless.blanks ha).append closed)))
    have whole := name.append ((Headerless.blanks hg).append arguments)
    simpa using whole

/-- No header begins in a list of entries none of which has one. -/
theorem Headerless.listed {α : Type} {entry : α → List Char → Prop}
    (each : ∀ x text, entry x text → Headerless text) {xs : List α} {list : List Char}
    (h : Listed entry xs list) : Headerless list := by
  have comma : Headerless [','] := .mark (by decide)
  induction h with
  | none hg => exact blanks hg
  | comma hg hg' => exact (blanks hg).append (comma.append (blanks hg'))
  | last hb h ha => exact (blanks hb).append ((each _ _ h).append (blanks ha))
  | cons hb h ha _ ih =>
    exact (blanks hb).append ((each _ _ h).append ((blanks ha).append (comma.append ih)))

/-- No other header stands in a text with nothing but blanks around the list. -/
theorem tail_findAll_of_headerless {text : String}
    {before modifiers gap gap' name list behind : List Char} (hb : AreBlank before)
    (hmod : EnumModifiers modifiers) (hn : isHeadedBy Char.isUpper isNameChar name = true)
    (hg : AreBlank gap) (nonempty : gap ≠ []) (hg' : AreBlank gap') (free : Headerless list)
    (hb' : AreBlank behind)
    (same : text.toList = before ++ (modifiers ++ ("enum".toList ++ (gap ++ (name ++ (gap' ++
      '\x7b' :: (list ++ '\x7d' :: behind))))))) :
    (Header.findAll text).tail = [] := by
  let inside := list ++ '\x7d' :: behind
  have front : Literal.blankChars text.toList =
      before ++ (modifiers ++ ("enum".toList ++ (gap ++ name))) ++
        Literal.blankChars (gap' ++ '\x7b' :: inside) := by
    rw [← Literal.blankChars_append (unquoted_header hb hmod hg hn), same]
    simp only [inside, List.append_assoc]
  obtain ⟨blanked, blank, -, -, ends⟩ := (EnumClause.none hg').exists_blanked
    (Literal.blankChars inside)
  rw [← Literal.blankChars_cons (by decide), ← blank] at ends
  have opened : Headerless ['\x7b'] := .mark (by decide)
  have closed : Headerless ['\x7d'] := .mark (by decide)
  have whole := (Headerless.blanks hg').append
    (opened.append (free.append (closed.append (Headerless.blanks hb'))))
  have silent := whole [] (by simp [Literal.blankChars])
  rw [List.append_nil] at silent
  obtain ⟨others, found, only⟩ := Header.exists_findAll hb hmod hg nonempty hn ends
    (by simpa only [List.append_assoc] using front)
  rw [found, List.tail_cons, only silent]

/-- The enum has a frame around its list and its members, and no other header of its name stands
behind it. -/
theorem GivenEnum.exists_among {name text : String} {constants : List GivenConstant}
    (h : GivenEnum name constants text) :
    ∃ list members, EnumFrame name.toList (list ++ members) text.toList ∧
      Listed GivenConstant.Written constants list ∧ EnumMembers members ∧
      ∀ header ∈ (Header.findAll text).tail, header.kind = .enumKind → header.name ≠ name := by
  cases h with
  | @alone before modifiers gap gap' list behind hb hmod hn hg nonempty hg' hl hb' same =>
    have frame := @EnumFrame.intro name.toList list _ _ _ _ behind hb hmod hn hg nonempty
      (.none hg')
    have free := Headerless.listed (fun _ _ => GivenConstant.Written.headerless) hl
    have none := tail_findAll_of_headerless hb hmod hn hg nonempty hg' free hb' same
    refine ⟨list, [], by rwa [same, List.append_nil], hl, .none, ?_⟩
    rw [none]
    exact List.forall_mem_nil _
  | among frame hl hm apart => exact ⟨_, _, frame, hl, hm, apart⟩

/-- The constants of the enum are read one by one. -/
theorem enumConstants_eq_read {name text : String} {constants : List GivenConstant}
    (h : GivenEnum name constants text) :
    enumConstants text name = .ok (constants.map GivenConstant.read) := by
  obtain ⟨list, members, frame, hl, hm, apart⟩ := h.exists_among
  have pieces : Listed EnumBody.IsPiece (constants.map GivenConstant.read) list :=
    hl.map fun _ _ h => GivenConstant.Written.isPiece h
  have body : EnumBody.Passes 0 (list ++ members) 0 :=
    (EnumBody.passes_list pieces 0).append (EnumBody.passes_members hm 0)
  rw [enumConstants_of_body frame body apart, EnumBody.constants_list pieces hm]

/-- Each constant with a literal stands for it and each other one for its name, but for those with
an empty literal: they are read as if they had none. -/
theorem enumConstants_given {name text : String} {constants : List GivenConstant}
    (h : GivenEnum name constants text) :
    enumConstants text name = .ok (constants.map GivenConstant.read) ∧
      (enumConstants text name = .ok (constants.map GivenConstant.declared) ↔
        ∀ c ∈ constants, c.literal ≠ some []) := by
  refine ⟨enumConstants_eq_read h, ?_⟩
  rw [enumConstants_eq_read h, Except.ok.injEq, GivenConstant.map_read_eq_map_declared]

/-- An enum with a literal, without one, and with an empty one. -/
def modeText : String :=
  "enum Mode \x7b ACTIVE(\"active\"), IDLE, NONE(\"\") \x7d"

/-- A constant with a literal. -/
def modeActive : GivenConstant :=
  ⟨"ACTIVE".toList, some "active".toList, by decide, by decide⟩

/-- A constant without arguments. -/
def modeIdle : GivenConstant :=
  ⟨"IDLE".toList, none, by decide, by decide⟩

/-- A constant with an empty literal. -/
def modeNone : GivenConstant :=
  ⟨"NONE".toList, some [], by decide, by decide⟩

/-- All three. -/
def modeConstants : List GivenConstant :=
  [modeActive, modeIdle, modeNone]

/-- The text is an enum with these constants. -/
theorem givenEnum_mode : GivenEnum "Mode" modeConstants modeText := by
  have empty : AreBlank [] := List.forall_mem_nil _
  have space : AreBlank [' '] := by simp [AreBlank, isBlank]
  have first := @GivenConstant.Written.given modeActive _ _ _ _ rfl empty empty empty
  have last := @GivenConstant.Written.given modeNone _ _ _ _ rfl empty empty empty
  have list : Listed GivenConstant.Written modeConstants _ :=
    .cons space first empty (.cons space (.bare rfl) empty (.last space last space))
  exact @GivenEnum.alone _ _ _ [] _ [' '] [' '] _ [] empty (.intro .none .none .none) (by decide)
    space (by decide) space list empty (by rfl)

/-- The empty literal is passed over for the name in small letters. -/
theorem enumConstants_given_mode :
    GivenEnum "Mode" modeConstants modeText ∧
      enumConstants modeText "Mode" =
        .ok [⟨"ACTIVE", "active"⟩, ⟨"IDLE", "idle"⟩, ⟨"NONE", "none"⟩] :=
  ⟨givenEnum_mode, (enumConstants_given givenEnum_mode).1⟩

/-- The literal that `NONE` is given is passed over. -/
theorem enumConstants_emptyLiteral :
    GivenEnum "Mode" modeConstants modeText ∧
      enumConstants modeText "Mode" ≠ .ok (modeConstants.map GivenConstant.declared) := by
  refine ⟨givenEnum_mode, ?_⟩
  rw [enumConstants_eq_read givenEnum_mode, ne_eq, Except.ok.injEq]
  decide

end InterfaceGen.Source
