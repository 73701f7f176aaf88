import InterfaceGen.Proofs.Source.Blanking
import InterfaceGen.Proofs.Source.Characters
import InterfaceGen.Proofs.Source.ClassHeader
import InterfaceGen.Proofs.Source.EnumBraces
import Mathlib.Data.List.TakeWhile

/-!
# Offsets into the blanked text

Headers and the braces of an enum are looked for in the text with blanked literals, and the offsets
that are found cut the text itself. What is read at them stands in both texts and outside of all
literals: the keyword, the name and the extended class of a header, `Header.exists_located`, and the
braces around the body of an enum, `EnumBody.find?_eq_some_iff`. Without such braces there is no
body, `EnumBody.find?_eq_none_iff`.
-/

namespace InterfaceGen.Source

open InterfaceGen.Text InterfaceGen.Text.Pattern InterfaceGen.Types

/-! ## Words -/

/-- The word stands at the offset, in the text as in the blanked text, and outside of all
literals. -/
structure StandsClear (text : String) (spans : List (Nat × Nat)) (offset : Nat)
    (word : List Char) : Prop where
  blanked : word <+: (Literal.blank text).toList.drop offset
  verbatim : word <+: text.toList.drop offset
  clear : ∀ i, offset ≤ i → i < offset + word.length → Literal.IsClear spans i

/-- A word without spaces and quotes that stands in the blanked text. -/
theorem Literal.Recognised.standsClear {text : String} {spans : List (Nat × Nat)} {offset : Nat}
    {word : List Char} (h : Recognised 0 text.toList spans)
    (there : word <+: (blank text).toList.drop offset) (solid : ∀ c ∈ word, c ≠ ' ' ∧ c ≠ '"') :
    StandsClear text spans offset word := by
  have each : ∀ i (inside : i < word.length),
      text.toList[offset + i]? = some word[i] ∧ IsClear spans (offset + i) := by
    intro i inside
    have blanked := List.prefix_iff_getElem?.1 there i inside
    rw [List.getElem?_drop, toList_blank] at blanked
    have clear := h.isClear_of_getElem? blanked (solid _ (List.getElem_mem inside))
    rwa [Nat.zero_add] at clear
  refine ⟨there, List.prefix_iff_getElem?.2 fun i inside => ?_, fun i behind before => ?_⟩
  · rw [List.getElem?_drop]
    exact (each i inside).1
  · obtain ⟨j, rfl⟩ := Nat.exists_eq_add_of_le behind
    exact (each j (by omega)).2

/-- A word at the end of a front stands at the offset behind it. -/
theorem prefix_drop_of_append {front word rest text : List Char} {offset : Nat}
    (h : front ++ (word ++ rest) <+: text.drop offset) :
    word <+: text.drop (offset + front.length) := by
  obtain ⟨after, same⟩ := h
  refine ⟨rest ++ after, ?_⟩
  rw [← List.drop_drop, ← same]
  simp

/-! ## Headers -/

/-- Type parameters without an opening brace, or nothing. -/
inductive ParameterText : List Char → Prop where
  | none : ParameterText []
  | some {gap inner : List Char} (hg : AreBlank gap) (closed : '\x7b' ∉ inner) :
    ParameterText (gap ++ ('<' :: (inner ++ ['>'])))

/-- What a header has behind the name: type parameters, and the extended class at its end, each of
them or not. -/
inductive HeaderEnd : Option (List Char) → List Char → Prop where
  | plain {parameters : List Char} (h : ParameterText parameters) : HeaderEnd none parameters
  | extending {parameters gap gap' supertype : List Char} (h : ParameterText parameters)
    (hg : AreBlank gap) (apart : gap ≠ []) (hg' : AreBlank gap') (apart' : gap' ≠ []) :
    HeaderEnd (some supertype)
      (parameters ++ (gap ++ ("extends".toList ++ (gap' ++ supertype))))

/-- The extended class stands at the end. -/
theorem HeaderEnd.exists_append {supertype tail : List Char} (h : HeaderEnd (some supertype) tail) :
    ∃ before, tail = before ++ supertype := by
  cases h with
  | @extending parameters gap gap' =>
    exact ⟨parameters ++ (gap ++ ("extends".toList ++ gap')), by simp⟩

namespace Header

/-- A header written with these modifiers, this gap behind its keyword, and this behind its name. -/
def written (h : Header) (modifiers gap tail : List Char) : List Char :=
  modifiers ++ (h.kind.keyword.toList ++ (gap ++ (h.name.toList ++ tail)))

/-- The header and its parts stand at their offsets. -/
structure Located (h : Header) (text : String) (spans : List (Nat × Nat))
    (modifiers gap tail : List Char) : Prop where
  modified : EnumModifiers modifiers
  blank : AreBlank gap
  apart : gap ≠ []
  ending : HeaderEnd (h.supertype.map String.toList) tail
  there : h.written modifiers gap tail <+: (Literal.blank text).toList.drop h.start
  stop : h.stop = h.start + (h.written modifiers gap tail).length
  keyword : StandsClear text spans (h.start + modifiers.length) h.kind.keyword.toList
  name : StandsClear text spans
    (h.start + (modifiers ++ (h.kind.keyword.toList ++ gap)).length) h.name.toList
  supertype : ∀ q ∈ h.supertype, StandsClear text spans (h.stop - q.toList.length) q.toList

variable {word : List Char} {kept : List (Part × List Char)}

theorem optionalWord_of_matches {pattern : Pattern Part} {words : List String}
    (h : (modifier pattern).Matches word kept)
    (only : ∀ {word kept}, pattern.Matches word kept → ∃ w ∈ words, word = w.toList) :
    OptionalWord words word := by
  cases h with
  | omitted => exact .none
  | taken h =>
    cases h with
    | seq h spaced =>
      cases h with
      | seq edge matched =>
        cases edge
        obtain ⟨w, hw, rfl⟩ := only matched
        obtain ⟨blank, apart⟩ := areBlank_of_matches spaced
        exact .some hw blank apart

/-- What is matched as modifiers is written as the modifiers of an enum are. -/
theorem enumModifiers_of_matches (h : modifiers.Matches word kept) : EnumModifiers word := by
  cases h with
  | seq access h =>
    cases h with
    | seq binding final =>
      refine .intro (optionalWord_of_matches access fun h => ?_)
        (optionalWord_of_matches binding fun h => ?_) (optionalWord_of_matches final fun h => ?_)
      · cases h with
        | left h => cases h; exact ⟨"public", by simp, rfl⟩
        | right h =>
          cases h with
          | left h => cases h; exact ⟨"private", by simp, rfl⟩
          | right h => cases h; exact ⟨"protected", by simp, rfl⟩
      · cases h with
        | left h => cases h; exact ⟨"abstract", by simp, rfl⟩
        | right h => cases h; exact ⟨"static", by simp, rfl⟩
      · cases h
        exact ⟨"final", by simp, rfl⟩

/-- What is matched behind a name is the end of a header, with the supertype that is kept. -/
theorem headerEnd_of_matches (h : (.optional parametersPattern ++ .optional extensionPattern :
      Pattern Part).Matches word kept) :
    ∃ parent, HeaderEnd parent word ∧ kept = parent.toList.map (Part.supertype, ·) := by
  cases h with
  | @seq _ _ parameters extension kept later first second =>
    -- Only the name behind the keyword is kept.
    have silent : (.optional parametersPattern : Pattern Part).Silent :=
      ⟨⟨⟨trivial, trivial⟩, trivial⟩, trivial⟩
    have quiet := first.eq_nil_of_silent silent
    have parameters : ParameterText parameters := by
      cases first with
      | omitted => exact .none
      | taken h =>
        cases h with
        | seq h last =>
          cases last
          cases h with
          | seq h inner =>
            cases inner with
            | fewest inside =>
              cases h with
              | seq blank angle =>
                cases angle
                cases blank with
                | run blank =>
                  rw [List.append_assoc, List.append_assoc]
                  exact .some blank fun hm => absurd (inside _ hm) (by decide)
    cases second with
    | omitted =>
      rw [quiet, List.append_nil]
      exact ⟨none, .plain parameters, rfl⟩
    | taken h =>
      cases h with
      | seq h last =>
        cases last with
        | capture _ last =>
          obtain rfl := last.eq_nil_of_silent ⟨trivial, trivial⟩
          cases h with
          | seq h spaced =>
            cases h with
            | seq spaced' keyword =>
              cases keyword
              obtain ⟨blank, apart⟩ := areBlank_of_matches spaced'
              obtain ⟨blank', apart'⟩ := areBlank_of_matches spaced
              obtain rfl := spaced.eq_nil_of_silent ⟨trivial, trivial⟩
              obtain rfl := spaced'.eq_nil_of_silent ⟨trivial, trivial⟩
              rw [quiet, List.append_assoc, List.append_assoc]
              exact ⟨some _, .extending parameters blank apart blank' apart', rfl⟩

/-- What a match of a header consists of. -/
theorem exists_parts (h : pattern.Matches word kept) :
    ∃ front keyword gap name tail parent, EnumModifiers front ∧ keyword ∈ keywords ∧
      (AreBlank gap ∧ gap ≠ []) ∧ HeaderEnd parent tail ∧
      word = front ++ (keyword ++ (gap ++ (name ++ tail))) ∧
      kept =
        parent.toList.map (Part.supertype, ·) ++ [(Part.name, name), (Part.kind, keyword)] := by
  replace h : (modifier accessWord ++ modifier bindingWord ++ modifier (.word "final") ++
      (.wordEdge ++ keywordPattern)).Matches word kept := h.assoc.assoc.assoc.assoc.assoc
  cases h with
  | seq first h =>
    obtain rfl := first.assoc.eq_nil_of_silent silent_modifiers
    cases h with
    | seq edge h =>
      cases edge
      cases h with
      | seq kind h =>
        cases kind with
        | capture _ kind =>
          cases h with
          | seq spaced h =>
            cases h with
            | seq name tail =>
              cases name with
              | capture _ name =>
                obtain rfl := kind.eq_nil_of_silent ⟨trivial, trivial⟩
                obtain rfl := spaced.eq_nil_of_silent ⟨trivial, trivial⟩
                obtain rfl := name.eq_nil_of_silent ⟨trivial, trivial⟩
                obtain ⟨parent, ending, rfl⟩ := headerEnd_of_matches tail
                refine ⟨_, _, _, _, _, parent, enumModifiers_of_matches first.assoc,
                  mem_keywords kind, areBlank_of_matches spaced, ending, rfl, ?_⟩
                simp

variable {text : String} {h : Header}

/-- What is found is written like a header. -/
theorem exists_written (hm : h ∈ findAll text) :
    ∃ modifiers gap tail, EnumModifiers modifiers ∧ (AreBlank gap ∧ gap ≠ []) ∧
      HeaderEnd (h.supertype.map String.toList) tail ∧
      h.written modifiers gap tail <+: (Literal.blank text).toList.drop h.start ∧
      h.stop = h.start + (h.written modifiers gap tail).length := by
  obtain ⟨o, ho, rfl⟩ := List.mem_map.1 hm
  obtain ⟨⟨there, stop⟩, matched⟩ := facts_of_mem_occurrences ho
  obtain ⟨front, keyword, gap, name, tail, parent, modified, hk, blank, ending, word, kept⟩ :=
    exists_parts matched
  have captured : o.captured? .kind = some keyword ∧ o.captured? .name = some name ∧
      o.captured? .supertype = parent := by
    simp only [Occurrence.captured?, kept]
    cases parent <;> exact ⟨rfl, rfl, rfl⟩
  have kind : (ofOccurrence o).kind.keyword.toList = keyword := by
    simp only [keywords, List.mem_cons, List.not_mem_nil, or_false] at hk
    rw [ofOccurrence, captured.1]
    rcases hk with rfl | rfl <;> rfl
  have named : (ofOccurrence o).name.toList = name := by
    rw [ofOccurrence, captured.2.1, Option.getD_some, String.toList_ofList]
  have extended : (ofOccurrence o).supertype.map String.toList = parent := by
    rw [ofOccurrence, captured.2.2]
    cases parent with
    | none => rfl
    | some => rw [Option.map_some, Option.map_some, String.toList_ofList]
  have whole : (ofOccurrence o).written front gap tail = o.text := by
    rw [written, kind, named, word]
  rw [← whole] at there stop
  rw [Literal.toList_blank, extended]
  exact ⟨front, gap, tail, modified, blank, ending, there, stop⟩

/-- No letter of a name is a space or a quote. -/
theorem solid_of_letter {c : Char} (letter : isNameChar c = true ∨ c = '.') :
    c ≠ ' ' ∧ c ≠ '"' := by
  constructor <;> rintro rfl <;> exact absurd letter (by decide)

theorem solid_of_mem_keyword {c : Char} (kind : Kind) (hc : c ∈ kind.keyword.toList) :
    c ≠ ' ' ∧ c ≠ '"' := by
  cases kind <;> revert c <;> decide

/-- A header is found where its parts stand, in both texts and outside of all literals. -/
theorem exists_located {spans : List (Nat × Nat)} (hs : Literal.Recognised 0 text.toList spans)
    (hm : h ∈ findAll text) : ∃ modifiers gap tail, h.Located text spans modifiers gap tail := by
  obtain ⟨modifiers, gap, tail, modified, ⟨blank, apart⟩, ending, there, stop⟩ := exists_written hm
  refine ⟨modifiers, gap, tail, modified, blank, apart, ending, there, stop, ?_, ?_, ?_⟩
  · exact hs.standsClear (prefix_drop_of_append there) fun c => solid_of_mem_keyword h.kind
  · have parts : h.written modifiers gap tail =
        (modifiers ++ (h.kind.keyword.toList ++ gap)) ++ (h.name.toList ++ tail) := by
      simp only [written, List.append_assoc]
    rw [parts] at there
    refine hs.standsClear (prefix_drop_of_append there) fun c hc => solid_of_letter (.inl ?_)
    exact isNameChar_of_className (isHeadedBy_name hm) c hc
  · intro q hq
    rw [hq] at ending
    obtain ⟨before, rfl⟩ := ending.exists_append
    have parts : h.written modifiers gap (before ++ q.toList) =
        h.written modifiers gap before ++ (q.toList ++ []) := by
      simp only [written, List.append_assoc, List.append_nil]
    rw [parts] at there stop
    have place : h.stop - q.toList.length = h.start + (h.written modifiers gap before).length := by
      rw [stop, List.append_nil, List.length_append, ← Nat.add_assoc, Nat.add_sub_cancel]
    rw [place]
    refine hs.standsClear (prefix_drop_of_append there) fun c hc => solid_of_letter ?_
    exact char_of_mem_supertype hm q hq c hc

end Header

/-! ## Bodies -/

namespace EnumBody

/-- In the blanked text there are `before`, without an opening brace, such a brace, `inner`, and the
brace that closes it. The body is what the text has at the place of `inner`. -/
structure Framed (text : String) (offset : Nat) (body : String) (before inner after : List Char) :
    Prop where
  scanned : (Literal.blank text).toList.drop offset =
    before ++ '\x7b' :: (inner ++ '\x7d' :: after)
  first : '\x7b' ∉ before
  closed : Closes '\x7b' '\x7d' inner
  long : body.toList.length = inner.length
  verbatim : body.toList ++ ['\x7d'] <+: text.toList.drop (offset + before.length + 1)

/-- Without a brace ahead there is no body. -/
theorem find?_eq_none_of_notMem {text : String} {offset : Nat}
    (h : '\x7b' ∉ (Literal.blankChars text.toList).drop offset) : find? text offset = none := by
  have none : ((Literal.blankChars text.toList).drop offset).takeWhile (· ≠ '\x7b') =
      (Literal.blankChars text.toList).drop offset := by
    rw [List.takeWhile_eq_self_iff]
    intro c hc
    rw [decide_eq_true_eq]
    rintro rfl
    exact h hc
  rw [find?]
  simp only [place_natCast, none, List.drop_length]

/-- The text has the closing brace where the blanked text has it. -/
theorem take_succ_of_scanned {text : String} {offset : Nat} {before inner after : List Char}
    (scan : (Literal.blankChars text.toList).drop offset =
      before ++ '\x7b' :: (inner ++ '\x7d' :: after)) :
    (text.toList.drop (offset + before.length + 1)).take (inner.length + 1) =
      (text.toList.drop (offset + before.length + 1)).take inner.length ++ ['\x7d'] := by
  obtain ⟨spans, recognised⟩ := Literal.exists_recognised text.toList 0
  have brace : (Literal.blankChars text.toList)[offset + (before.length + 1 + inner.length)]? =
      some '\x7d' := by
    rw [← List.getElem?_drop, scan, List.getElem?_append_right (by omega)]
    simp [Nat.add_assoc, Nat.add_comm 1]
  obtain ⟨there, -⟩ := recognised.isClear_of_getElem? brace (by decide)
  rw [List.take_add_one, List.getElem?_drop, Nat.add_assoc, Nat.add_assoc, there]
  rfl

/-- A body is found exactly where the first brace from the offset on is closed. -/
theorem find?_eq_some_iff {text body : String} {offset : Nat} :
    find? text offset = some body ↔
      ∃ before inner after, Framed text offset body before inner after := by
  constructor
  · intro h
    by_cases there : '\x7b' ∈ (Literal.blankChars text.toList).drop offset
    · obtain ⟨before, rest, scan, first⟩ := List.eq_append_cons_of_mem there
      rw [find?_of_drop scan first] at h
      obtain ⟨length, closing, rfl⟩ := Option.map_eq_some_iff.1 h
      obtain ⟨inner, after, rfl, rfl, balanced⟩ := closingOffset?_eq_some_iff.1 closing
      have brace := take_succ_of_scanned scan
      refine ⟨before, inner, after, by rwa [Literal.toList_blank], first,
        (closes_iff (by decide)).2 balanced, ?_, ?_⟩
      · have long := congrArg List.length brace
        simp only [String.toList_ofList, List.length_take, List.length_append,
          List.length_singleton] at long ⊢
        omega
      · rw [String.toList_ofList, ← brace]
        exact List.take_prefix _ _
    · rw [find?_eq_none_of_notMem there] at h
      cases h
  · rintro ⟨before, inner, after, scan, first, closed, long, verbatim⟩
    rw [Literal.toList_blank] at scan
    have closing := closingOffset?_eq_some_iff.2
      ⟨inner, after, rfl, rfl, (closes_iff (by decide)).1 closed⟩
    have body' := List.prefix_iff_eq_take.1 ((List.prefix_append _ _).trans verbatim)
    rw [find?_of_drop scan first, closing, Option.map_some, ← long, ← body', String.ofList_toList]

/-- From the offset on, the blanked text has no opening brace, or nothing closes the first one. -/
inductive IsOpen (text : String) (offset : Nat) : Prop where
  | missing (absent : '\x7b' ∉ (Literal.blank text).toList.drop offset)
  | unclosed {before inner : List Char}
    (scanned : (Literal.blank text).toList.drop offset = before ++ '\x7b' :: inner)
    (first : '\x7b' ∉ before)
    (never : ∀ body after, inner = body ++ '\x7d' :: after → ¬ Closes '\x7b' '\x7d' body)

/-- The search finds no end exactly if no front of the text closes its braces. -/
theorem closingOffset?_eq_none_iff {text : List Char} : closingOffset? 0 text = none ↔
    ∀ inner after, text = inner ++ '\x7d' :: after → ¬ Closes '\x7b' '\x7d' inner := by
  rw [Option.eq_none_iff_forall_ne_some]
  constructor
  · intro none inner after same closed
    exact none inner.length
      (closingOffset?_eq_some_iff.2 ⟨inner, after, same, rfl, (closes_iff (by decide)).1 closed⟩)
  · intro never length closing
    obtain ⟨inner, after, same, -, balanced⟩ := closingOffset?_eq_some_iff.1 closing
    exact never inner after same ((closes_iff (by decide)).2 balanced)

/-- No body is found exactly where there is no brace or the first one is not closed. -/
theorem find?_eq_none_iff {text : String} {offset : Nat} :
    find? text offset = none ↔ IsOpen text offset := by
  constructor
  · intro none
    by_cases there : '\x7b' ∈ (Literal.blank text).toList.drop offset
    · obtain ⟨before, inner, scanned, first⟩ := List.eq_append_cons_of_mem there
      refine .unclosed scanned first (closingOffset?_eq_none_iff.1 ?_)
      rw [Literal.toList_blank] at scanned
      rwa [find?_of_drop scanned first, Option.map_eq_none_iff] at none
    · exact .missing there
  · intro opened
    cases opened with
    | missing absent =>
      rw [Literal.toList_blank] at absent
      exact find?_eq_none_of_notMem absent
    | unclosed scanned first never =>
      rw [Literal.toList_blank] at scanned
      rw [find?_of_drop scanned first, closingOffset?_eq_none_iff.2 never, Option.map_none]

end EnumBody

/-! ## Both texts -/

/-- What offsets into the blanked text are good for, with the literals `spans` of the text. -/
structure BlankingLaws (text : String) (spans : List (Nat × Nat)) : Prop where
  /-- Each literal stands between its two quotes. -/
  literals : ∀ span ∈ spans, ∃ body after, IsQuoted '"' false body ∧
    span.2 = span.1 + (body.length + 1) ∧ text.toList.drop span.1 = '"' :: (body ++ '"' :: after)
  length : (Literal.blank text).toList.length = text.toList.length
  /-- Between these quotes are spaces, and all else is as before. -/
  changed : ∀ offset : Nat, (Literal.blank text).toList[offset]? =
    if Literal.IsInside spans offset then some ' ' else text.toList[offset]?
  twice : Literal.blank (Literal.blank text) = Literal.blank text
  headers : ∀ h ∈ Header.findAll text, ∃ modifiers gap tail,
    h.Located text spans modifiers gap tail
  bodies : ∀ (offset : Nat) (body : String), EnumBody.find? text offset = some body ↔
    ∃ before inner after, EnumBody.Framed text offset body before inner after

/-- Every text has its literals in one way only, and its offsets stay good when they are blanked. -/
theorem blankingLaws (text : String) :
    ∃ spans, (∀ other, Literal.Recognised 0 text.toList other ↔ other = spans) ∧
      BlankingLaws text spans := by
  obtain ⟨spans, recognised⟩ := Literal.exists_recognised text.toList 0
  refine ⟨spans, fun other => ⟨recognised.unique, fun same => same ▸ recognised⟩, ?_⟩
  constructor
  case literals =>
    intro span member
    obtain ⟨place, body, after, rfl, quoted, there⟩ := recognised.exists_body span member
    rw [Nat.zero_add]
    exact ⟨body, after, quoted, rfl, there⟩
  case length => rw [Literal.toList_blank, Literal.length_blankChars]
  case changed =>
    intro offset
    rw [Literal.toList_blank, recognised.getElem?_blankChars, Nat.zero_add]
  case twice =>
    rw [Literal.blank, Literal.toList_blank, Literal.blankChars_blankChars]
    rfl
  case headers => exact fun h hm => Header.exists_located recognised hm
  case bodies => exact fun offset body => EnumBody.find?_eq_some_iff

/-- An escaped quote ends no literal, and the last quote begins none. -/
example : Literal.blank "a \"b\\\"c\" \"d" = "a \"    \" \"d" := by decide +kernel

end InterfaceGen.Source
