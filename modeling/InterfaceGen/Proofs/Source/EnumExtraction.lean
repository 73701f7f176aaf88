import InterfaceGen.Proofs.Source.EnumHeader
import InterfaceGen.Proofs.Source.EnumReading

/-!
# The constants of a written enum

The header of an enum text is found with its name, and the text between its braces is its body: with
what is read of the body, `enumConstants` answers the constants that are written,
`enumConstants_written`.
-/

namespace InterfaceGen.Source

open InterfaceGen.Text InterfaceGen.Text.Pattern InterfaceGen.Types

/-! ## The body -/

/-- What literals are blanked to. -/
theorem Coded.exists_blanked {outside text : List Char} (h : Coded outside text) :
    ∃ blanked, (∀ rest, Literal.blankChars (text ++ rest) = blanked ++ Literal.blankChars rest) ∧
      blanked.length = text.length ∧ ∀ c ∈ blanked, c ∈ outside ∨ c = '"' ∨ c = ' ' := by
  induction h with
  | nil => exact ⟨[], fun _ => rfl, rfl, List.forall_mem_nil _⟩
  | @literal outside body rest hb _ _ ih =>
    obtain ⟨blanked, same, long, inside⟩ := ih
    refine ⟨'"' :: (List.replicate body.length ' ' ++ '"' :: blanked), fun more => ?_, ?_, ?_⟩
    · rw [List.cons_append, List.append_assoc, List.cons_append, Literal.blankChars_literal hb, same]
      simp
    · simp [long]
    · intro c hc
      simp only [List.mem_cons, List.mem_append, List.mem_replicate] at hc
      rcases hc with rfl | ⟨-, rfl⟩ | rfl | hc
      · exact .inr (.inl rfl)
      · exact .inr (.inr rfl)
      · exact .inr (.inl rfl)
      · exact inside c hc
  | @plain c outside rest unquoted _ _ ih =>
    obtain ⟨blanked, same, long, inside⟩ := ih
    refine ⟨c :: blanked, fun more => ?_, by simp [long], ?_⟩
    · rw [List.cons_append, Literal.blankChars_cons unquoted, same, List.cons_append]
    · refine List.forall_mem_cons.2 ⟨.inl (List.mem_cons_self ..), fun d hd => ?_⟩
      exact (inside d hd).imp_left (List.mem_cons_of_mem _)

namespace EnumBody

/-- The search for the closing brace goes over a list of constants. -/
theorem passes_list {cs : List Constant} {list : List Char} (h : Listed IsPiece cs list) (d : Nat) :
    Passes d list d := by
  have comma : Passes d [','] d := .other (by decide) (by decide) d
  induction h with
  | none hg => exact .of_grouped (.blanks hg) d
  | comma hg hg' =>
    exact (Passes.of_grouped (.blanks hg) d).append (comma.cons (.of_grouped (.blanks hg') d))
  | last hb h ha => exact .of_grouped (grouped_piece hb h ha) d
  | @cons c cs before text after rest hb h ha _ ih =>
    have whole := (Passes.of_grouped (grouped_piece hb h ha) d).append (comma.cons ih)
    simpa using whole

/-- It goes over the members behind them. -/
theorem passes_members {members : List Char} (h : EnumMembers members) (d : Nat) :
    Passes d members d := by
  cases h with
  | none => exact .nil d
  | some balanced =>
    exact (Passes.other (by decide) (by decide) d).cons (.of_balancesBraces balanced d)

/-- The body of an enum stands between the brace behind its header and the one that closes it. -/
theorem find?_body {front clause body behind blanked : List Char} {text : String}
    (same : text.toList = front ++ (clause ++ '\x7b' :: (body ++ '\x7d' :: behind)))
    (unquoted : '"' ∉ front)
    (blank : ∀ rest, Literal.blankChars (clause ++ rest) = blanked ++ Literal.blankChars rest)
    (long : blanked.length = clause.length) (closed : '\x7b' ∉ blanked) (h : Passes 0 body 0) :
    find? text front.length = some (String.ofList body) := by
  have scan : Literal.blankChars text.toList =
      front ++ (blanked ++ '\x7b' :: Literal.blankChars (body ++ '\x7d' :: behind)) := by
    rw [same, Literal.blankChars_append unquoted, blank, Literal.blankChars_cons (by decide)]
  have length : closingOffset? 0 (Literal.blankChars (body ++ '\x7d' :: behind)) =
      some body.length := by
    rw [h, Literal.blankChars_cons (by decide), closingOffset?]
    simp
  rw [find?_at same scan rfl long closed, length]
  simp

end EnumBody

/-! ## The enum -/

/-- The constants are those of the body behind the one header of the enum. -/
theorem enumConstants_of_header {text name body : String} {header : Header} {others : List Header}
    (found : Header.findAll text = header :: others) (kind : header.kind = .enumKind)
    (named : header.name = name) (apart : ∀ h ∈ others, h.kind = .enumKind → h.name ≠ name)
    (inner : EnumBody.find? text header.stop = some body) :
    enumConstants text name = .ok (EnumBody.constants body) := by
  have none : (others.filter fun h => h.kind = .enumKind && h.name = name) = [] :=
    List.filter_eq_nil_iff.2 fun h hm => by simpa using apart h hm
  have only : ((header :: others).filter fun h => h.kind = .enumKind && h.name = name) = [header] := by
    rw [List.filter_cons, none]
    simp [kind, named]
  rw [enumConstants]
  simp only [found, only, List.getLast?_singleton, inner]

/-- What stands behind the name of an enum. -/
theorem EnumClause.exists_blanked {clause : List Char} (h : EnumClause clause) (rest : List Char) :
    ∃ blanked, (∀ rest, Literal.blankChars (clause ++ rest) = blanked ++ Literal.blankChars rest) ∧
      blanked.length = clause.length ∧ '\x7b' ∉ blanked ∧
      Header.EndsHeader (blanked ++ '\x7b' :: rest) := by
  cases h with
  | none hg =>
    have unquoted : '"' ∉ clause := fun hm => absurd (hg _ hm) (by decide)
    have unbraced : '\x7b' ∉ clause := fun hm => absurd (hg _ hm) (by decide)
    refine ⟨clause, Literal.blankChars_append unquoted, rfl, unbraced, ?_, clause, '\x7b', rest, rfl,
      hg, by decide, by decide, by decide⟩
    exact forall_head?_append (fun c hc => isNameChar_of_isBlank (hg c hc)) (head?_other (by decide) _)
  | @implements gap more outside hg nonempty coded closed =>
    obtain ⟨blanked, same, long, inside⟩ := coded.exists_blanked
    have gapUnquoted : '"' ∉ gap := fun hm => absurd (hg _ hm) (by decide)
    have gapUnbraced : '\x7b' ∉ gap := fun hm => absurd (hg _ hm) (by decide)
    have unbraced : '\x7b' ∉ blanked := fun hm => by
      rcases inside _ hm with there | quote | space
      · exact closed there
      · exact absurd quote (by decide)
      · exact absurd space (by decide)
    have keywordUnbraced : '\x7b' ∉ "implements".toList := by decide
    refine ⟨gap ++ ("implements".toList ++ blanked), fun rest => ?_, ?_, ?_, ?_, ?_⟩
    · rw [List.append_assoc, List.append_assoc, Literal.blankChars_append gapUnquoted,
        Literal.blankChars_append (by decide), same, List.append_assoc, List.append_assoc]
    · simp only [List.length_append, long]
    · simp only [List.mem_append, gapUnbraced, keywordUnbraced, unbraced, or_self,
        not_false_eq_true]
    · obtain ⟨c, gap, rfl⟩ := List.exists_cons_of_ne_nil nonempty
      exact head?_other (isNameChar_of_isBlank (hg c (List.mem_cons_self ..))) _
    · refine ⟨gap, 'i', "mplements".toList ++ (blanked ++ '\x7b' :: rest), ?_, hg, by decide,
        by decide, by decide⟩
      rw [List.append_assoc, List.append_assoc]
      rfl

theorem EnumModifiers.unquoted {text : List Char} (h : EnumModifiers text) : '"' ∉ text := by
  have word : ∀ {words : List String} {text}, OptionalWord words text →
      (∀ word ∈ words, '"' ∉ word.toList) → '"' ∉ text := by
    intro words text h plain
    cases h with
    | none => exact List.not_mem_nil
    | some hw hg =>
      rw [List.mem_append, not_or]
      exact ⟨plain _ hw, fun hm => absurd (hg _ hm) (by decide)⟩
  cases h with
  | intro ha hb hf =>
    simp only [List.mem_append, word ha (by decide), word hb (by decide), word hf (by decide),
      or_self, not_false_eq_true]

/-- No quote stands before the clause of an enum. -/
theorem unquoted_header {before modifiers gap name : List Char} (hb : AreBlank before)
    (hmod : EnumModifiers modifiers) (hg : AreBlank gap)
    (hn : isHeadedBy Char.isUpper isNameChar name = true) :
    '"' ∉ before ++ (modifiers ++ ("enum".toList ++ (gap ++ name))) := by
  have space : ∀ {gap}, AreBlank gap → '"' ∉ gap := fun hg hm => absurd (hg _ hm) (by decide)
  have keyword : '"' ∉ "enum".toList := by decide
  have letters : '"' ∉ name := fun hm => absurd (isNameChar_of_className hn _ hm) (by decide)
  simp only [List.mem_append, space hb, hmod.unquoted, keyword, space hg, letters, or_self,
    not_false_eq_true]

/-- The constants of an enum with this body are those of the body, where no other header of an enum
with this name follows. -/
theorem enumConstants_of_body {name text : String} {body : List Char}
    (h : EnumFrame name.toList body text.toList) (inside : EnumBody.Passes 0 body 0)
    (apart : ∀ header ∈ (Header.findAll text).tail, header.kind = .enumKind → header.name ≠ name) :
    enumConstants text name = .ok (EnumBody.constants (String.ofList body)) := by
  generalize same : text.toList = chars at h
  cases h with
  | @intro before modifiers gap clause behind hb hmod hn hg nonempty hc =>
    let front := before ++ (modifiers ++ ("enum".toList ++ (gap ++ name.toList)))
    have text' : text.toList = front ++ (clause ++ '\x7b' :: (body ++ '\x7d' :: behind)) := by
      simp [same, front]
    have unquoted : '"' ∉ front := unquoted_header hb hmod hg hn
    obtain ⟨blanked, blank, long, unbraced, ends⟩ := hc.exists_blanked
      (Literal.blankChars (body ++ '\x7d' :: behind))
    have inner := EnumBody.find?_body text' unquoted blank long unbraced inside
    have blankText : Literal.blankChars text.toList =
        before ++ ((modifiers ++ ("enum".toList ++ (gap ++ name.toList))) ++
          (blanked ++ '\x7b' :: Literal.blankChars (body ++ '\x7d' :: behind))) := by
      rw [text', Literal.blankChars_append unquoted, blank, Literal.blankChars_cons (by decide)]
      simp only [front, List.append_assoc]
    obtain ⟨others, found, -⟩ := Header.exists_findAll hb hmod hg nonempty hn ends blankText
    rw [found, List.tail_cons] at apart
    exact enumConstants_of_header found rfl (String.ofList_toList) apart inner

/-- The constants of a written enum are read in their order, each with its literal or its name in
small letters, where no other header of an enum with this name follows. -/
theorem enumConstants_written {name text : String} {constants : List Constant}
    (h : EnumText name.toList constants text.toList)
    (apart : ∀ header ∈ (Header.findAll text).tail, header.kind = .enumKind → header.name ≠ name) :
    enumConstants text name = .ok constants := by
  obtain ⟨list, members, frame, hl, hm⟩ := h.exists_frame
  have body : EnumBody.Passes 0 (list ++ members) 0 :=
    (EnumBody.passes_list hl.pieces 0).append (EnumBody.passes_members hm 0)
  rw [enumConstants_of_body frame body apart, EnumBody.constants_list hl.pieces hm]

/-- An enum with annotations, arguments, a body and members, and with marks in its literals. -/
def levelText : String :=
  "public enum Level implements Code \x7b\n  @Tag(\x7b\"a\"\x7d) LOW(\"l\\\"o;,(w\", 1) \x7b int f() " ++
    "\x7b\x7d \x7d,\n  HIGH(of(1, 2)), ; String t = \"\x7d\";\n\x7d\n"

/-- The text is written with these two constants. -/
theorem enumText_level :
    EnumText "Level".toList [⟨"LOW", "l\\\"o;,(w"⟩, ⟨"HIGH", "high"⟩] levelText.toList := by
  have single : ∀ {body : List Char}, Text.occurs ['\\', '\\'] body = false →
      ¬ ['\\', '\\'] <:+: body := fun h => occurs_eq_false_iff.1 h
  have tag : BalancesBrackets "\x7b\"a\"\x7d".toList :=
    ⟨"\x7b\x7d".toList, .plain (by decide) (by decide)
      (@Coded.literal _ ['a'] _ (.plain (by decide) .nil) (single (by decide))
        (.of_notMem (by decide))), by decide, by decide⟩
  have quoted : IsLiteral "l\\\"o;,(w".toList :=
    .plain (by decide) (.escaped (by decide) (.plain (by decide) (.plain (by decide)
      (.plain (by decide) (.plain (by decide) (.plain (by decide) .nil))))))
  have arguments : BalancesBrackets ('"' :: ("l\\\"o;,(w".toList ++ '"' :: ", 1".toList)) :=
    ⟨", 1".toList, .literal quoted (single (by decide)) (.of_notMem (by decide)), by decide,
      by decide⟩
  have body : BalancesBrackets " int f() \x7b\x7d ".toList :=
    ⟨_, .of_notMem (by decide), by decide, by decide⟩
  have call : BalancesBrackets "of(1, 2)".toList :=
    ⟨_, .of_notMem (by decide), by decide, by decide⟩
  have members : BalancesBraces " String t = \"\x7d\";\n".toList :=
    ⟨" String t = ".toList ++ ";\n".toList, @Coded.run " String t = ".toList _ _ (by decide)
        (@Coded.literal _ ['\x7d'] _ (.plain (by decide) .nil) (single (by decide))
          (.of_notMem (by decide))), by decide⟩
  have blank : (∀ c ∈ [], isBlank c = true) ∧ (∀ c ∈ " ".toList, isBlank c = true) ∧
      ∀ c ∈ "\n  ".toList, isBlank c = true := by decide
  obtain ⟨none, space, line⟩ := blank
  have low := @ConstantText.intro ("@Tag".toList ++ ("(\x7b\"a\"\x7d) ".toList)) "LOW".toList _ _ _
    (@ConstantAnnotations.call "Tag".toList [] _ " ".toList [] (by decide) (by decide) none
      (by decide) tag space .nil) (by decide)
    (.some none arguments (@LeadingLiteral.some [] _ ", 1".toList none quoted (by decide)))
    (.some space body)
  have high := @ConstantText.intro [] "HIGH".toList _ _ _ .nil (by decide)
    (.some none call (@LeadingLiteral.none [] "of(1, 2)".toList none (by decide))) .none
  have list := Listed.cons line low none (.cons line high none (.none space))
  have modifiers : EnumModifiers ("public".toList ++ " ".toList ++ ([] ++ [])) :=
    .intro (.some (by decide) space (by decide)) .none .none
  have clause : EnumClause (" ".toList ++ ("implements".toList ++ " Code ".toList)) :=
    .implements space (by decide) (.of_notMem (by decide)) (by decide)
  have whole := @EnumText.intro "Level".toList _ [] _ " ".toList _ _ _ "\n".toList none modifiers
    (by decide) space (by decide) clause list (.some members)
  convert whole using 1
  · simp only [String.ofList_toList, Option.getD_some, Option.getD_none]
    decide +kernel
  · decide +kernel

/-- Both are read: one with the literal that its arguments begin with, the other with its name in
small letters. -/
theorem enumConstants_level :
    enumConstants levelText "Level" = .ok [⟨"LOW", "l\\\"o;,(w"⟩, ⟨"HIGH", "high"⟩] :=
  enumConstants_written enumText_level (by decide +kernel)

end InterfaceGen.Source
