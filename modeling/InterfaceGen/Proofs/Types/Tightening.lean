import InterfaceGen.Proofs.Text.Trimming
import InterfaceGen.Proofs.Types.Spelling

/-!
# Spellings without spare blanks

The first passes over a declared type shorten its gaps: `collapse` to at most one space, `tighten`
to nothing beside a mark. What they make of a spelling depends on its tokens alone, up to package
names and the space between a question mark and its keyword.
-/

namespace InterfaceGen.Types

open InterfaceGen.Text InterfaceGen.Source

/-- At most one space. -/
def IsSlim (gap : List Char) : Prop :=
  gap = [] ∨ gap = [' ']

theorem IsSlim.areBlank {gap : List Char} (h : IsSlim gap) : AreBlank gap := by
  rcases h with rfl | rfl
  · exact fun c hc => nomatch hc
  · intro c hc
    rw [List.mem_singleton.1 hc]
    decide

/-- Neither a blank nor a mark. -/
def IsSolid (c : Char) : Prop :=
  isBlank c = false ∧ FieldType.isMark c = false

instance : DecidablePred IsSolid :=
  fun _ => inferInstanceAs (Decidable (_ ∧ _))

theorem isSolid_of_isNameChar {c : Char} (h : isNameChar c = true) : IsSolid c := by
  refine ⟨isBlank_of_isNameChar h, ?_⟩
  have other := fun d hd => ne_of_isNameChar (d := d) h hd
  simp [FieldType.isMark, other '<' rfl, other '>' rfl, other ',' rfl, other '[' rfl, other ']' rfl]

theorem Identifier.isNameChar_of_mem (n : Identifier) {c : Char} (h : c ∈ n.chars) :
    isNameChar c = true :=
  forall_of_isHeadedBy n.wellFormed (fun _ => isNameChar_of_isNameStart) c h

theorem Identifier.chars_ne_nil (n : Identifier) : n.chars ≠ [] := by
  obtain ⟨first, rest, same, -, -⟩ := isHeadedBy_iff.1 n.wellFormed
  rw [same]
  exact List.cons_ne_nil _ _

theorem PackagePart.isNameChar_of_mem (part : PackagePart) {c : Char} (h : c ∈ part.chars) :
    isNameChar c = true := by
  refine forall_of_isHeadedBy part.wellFormed (fun d head => ?_) c h
  exact isNameChar_of_isNameStart (isNameStart_of_isLower_or head)

theorem isSolid_of_mem_packageText {parts : List PackagePart} {c : Char}
    (h : c ∈ packageText parts) : IsSolid c := by
  obtain ⟨part, -, h⟩ := List.mem_flatMap.1 h
  rcases List.mem_append.1 h with h | h
  · exact isSolid_of_isNameChar (part.isNameChar_of_mem h)
  · rw [List.mem_singleton.1 h]
    exact ⟨by decide, by decide⟩

theorem Bound.isNameChar_of_mem (bound : Bound) {c : Char} (h : c ∈ bound.keyword) :
    isNameChar c = true := by
  have all : bound.keyword.all isNameChar = true := by cases bound <;> decide
  exact List.all_eq_true.1 all c h

theorem Bound.keyword_ne_nil (bound : Bound) : bound.keyword ≠ [] := by
  cases bound <;> decide

theorem isSolid_of_mem_name {parts : List PackagePart} {n : Identifier} {c : Char}
    (h : c ∈ packageText parts ++ n.chars) : IsSolid c := by
  rcases List.mem_append.1 h with h | h
  · exact isSolid_of_mem_packageText h
  · exact isSolid_of_isNameChar (n.isNameChar_of_mem h)

theorem isBlank_of_isMark {c : Char} (h : FieldType.isMark c = true) : isBlank c = false := by
  simp only [FieldType.isMark, Bool.or_eq_true, beq_iff_eq] at h
  rcases h with (((rfl | rfl) | rfl) | rfl) | rfl <;> decide

namespace Token

variable {inner : List Char → Prop}

/-- A written token begins with its kind: marks with a mark, the others with something solid. -/
theorem Written.head {t : Token} {text : List Char} (h : t.Written inner text) :
    ∃ c rest, text = c :: rest ∧ isBlank c = false ∧ (FieldType.isMark c = true ↔ t.IsMark) := by
  cases h with
  | name parts n =>
    have nonempty : packageText parts ++ n.chars ≠ [] := by
      simp [n.chars_ne_nil]
    obtain ⟨c, rest, same⟩ := List.exists_cons_of_ne_nil nonempty
    have solid : IsSolid c := isSolid_of_mem_name (by rw [same]; simp)
    exact ⟨c, rest, same, solid.1, by simp [solid.2, IsMark]⟩
  | wildcard => exact ⟨'?', [], rfl, by decide, by simp [FieldType.isMark, IsMark]⟩
  | bounded bound _ => exact ⟨'?', _, rfl, by decide, by simp [FieldType.isMark, IsMark]⟩
  | mark c known => exact ⟨c, [], rfl, isBlank_of_isMark known, by simp [known, IsMark]⟩

theorem Written.last {t : Token} {text : List Char} (h : t.Written inner text) :
    ∃ rest c, text = rest ++ [c] ∧ isBlank c = false := by
  cases h with
  | name parts n =>
    have nonempty := n.chars_ne_nil
    refine ⟨packageText parts ++ n.chars.dropLast, n.chars.getLast nonempty, ?_, ?_⟩
    · rw [List.append_assoc, List.dropLast_append_getLast]
    · exact isBlank_of_isNameChar (n.isNameChar_of_mem (List.getLast_mem nonempty))
  | wildcard => exact ⟨[], '?', rfl, by decide⟩
  | @bounded gap bound _ =>
    have nonempty := bound.keyword_ne_nil
    refine ⟨'?' :: (gap ++ bound.keyword.dropLast), bound.keyword.getLast nonempty, ?_, ?_⟩
    · rw [List.cons_append, List.append_assoc, List.dropLast_append_getLast]
    · exact isBlank_of_isNameChar (bound.isNameChar_of_mem (List.getLast_mem nonempty))
  | mark c known => exact ⟨[], c, rfl, isBlank_of_isMark known⟩

end Token

section Ends

variable {inner : List Char → Prop} {tokens : List Token} {text : List Char}

/-- A row begins as its first token does. -/
theorem Spaced.head (h : Spaced inner tokens text) :
    ∃ t more c rest, tokens = t :: more ∧ text = c :: rest ∧ isBlank c = false ∧
      (FieldType.isMark c = true ↔ t.IsMark) := by
  cases h with
  | last h =>
    obtain ⟨c, rest, same, facts⟩ := h.head
    exact ⟨_, _, c, rest, rfl, same, facts⟩
  | cons h space more =>
    obtain ⟨c, rest, same, facts⟩ := h.head
    exact ⟨_, _, c, rest ++ _, rfl, by rw [same]; rfl, facts⟩

theorem Spaced.last' (h : Spaced inner tokens text) :
    ∃ rest c, text = rest ++ [c] ∧ isBlank c = false := by
  induction h with
  | last h => exact h.last
  | @cons t text gap rest tokens h space more ih =>
    obtain ⟨front, c, same, facts⟩ := ih
    exact ⟨text ++ (gap ++ front), c, by rw [same]; simp, facts⟩

/-- No blank stands around a row. -/
theorem Spaced.isTrimmed (h : Spaced inner tokens text) : IsTrimmed text where
  head := by
    obtain ⟨-, -, c, rest, -, same, facts, -⟩ := h.head
    intro d hd
    rw [same] at hd
    cases hd
    exact facts
  last := by
    obtain ⟨rest, c, same, facts⟩ := h.last'
    intro d hd
    rw [same, List.getLast?_concat] at hd
    cases hd
    exact facts

end Ends

/-! ## Collapsing -/

theorem collapseFrom_append {word : List Char} (h : ∀ c ∈ word, isBlank c = false)
    (nonempty : word ≠ []) (inRun : Bool) (rest : List Char) :
    collapseFrom inRun (word ++ rest) = word ++ collapseFrom false rest := by
  induction word generalizing inRun with
  | nil => exact absurd rfl nonempty
  | cons c word ih =>
    have solid : isBlank c = false := h c (by simp)
    cases word with
    | nil => simp [collapseFrom, solid]
    | cons d word =>
      have tail := ih (fun e he => h e (by simp [he])) (List.cons_ne_nil _ _) false
      rw [List.cons_append, collapseFrom, solid, if_neg Bool.false_ne_true, tail]
      rfl

/-- What collapsing leaves of a gap. -/
def slimmed (gap : List Char) : List Char :=
  if gap = [] then [] else [' ']

theorem isSlim_slimmed (gap : List Char) : IsSlim (slimmed gap) := by
  unfold slimmed
  split
  · exact .inl rfl
  · exact .inr rfl

/-- What follows a gap begins with no blank, so it does not matter there whether the gap was
empty. -/
theorem collapseFrom_gap {gap : List Char} (h : AreBlank gap) {rest after : List Char}
    (hr : ∀ inRun, collapseFrom inRun rest = after) :
    collapseFrom false (gap ++ rest) = slimmed gap ++ after := by
  have run : ∀ spare, AreBlank spare → collapseFrom true (spare ++ rest) = after := by
    intro spare hs
    induction spare with
    | nil => exact hr true
    | cons d spare ih =>
      rw [List.cons_append, collapseFrom, if_pos (hs d (by simp)), if_pos rfl]
      exact ih fun e he => hs e (by simp [he])
  cases gap with
  | nil => exact hr false
  | cons c gap =>
    rw [List.cons_append, collapseFrom, if_pos (h c (by simp)), if_neg Bool.false_ne_true,
      run gap fun d hd => h d (by simp [hd])]
    rfl

/-- Collapsing leaves a token, with at most one space in it. -/
theorem Token.Written.collapse {t : Token} {text : List Char} (h : t.Written AreBlank text) :
    ∃ slim, t.Written IsSlim slim ∧
      ∀ inRun rest, collapseFrom inRun (text ++ rest) = slim ++ collapseFrom false rest := by
  cases h with
  | name parts n =>
    refine ⟨_, .name parts n, collapseFrom_append (fun c hc => (isSolid_of_mem_name hc).1) ?_⟩
    simp [n.chars_ne_nil]
  | wildcard => exact ⟨_, .wildcard, collapseFrom_append (by decide) (List.cons_ne_nil _ _)⟩
  | @bounded gap bound h =>
    refine ⟨_, .bounded bound (isSlim_slimmed gap), fun inRun rest => ?_⟩
    have keyword := fun inRun => collapseFrom_append
      (fun c hc => isBlank_of_isNameChar (bound.isNameChar_of_mem hc)) bound.keyword_ne_nil inRun
        rest
    have solid : ∀ c ∈ ['?'], isBlank c = false := by decide
    have mark := collapseFrom_append solid (List.cons_ne_nil _ _) inRun
      (gap ++ (bound.keyword ++ rest))
    rw [collapseFrom_gap h keyword] at mark
    simpa using mark
  | mark c known =>
    refine ⟨_, .mark c known, collapseFrom_append ?_ (List.cons_ne_nil _ _)⟩
    intro d hd
    rw [List.mem_singleton.1 hd]
    exact isBlank_of_isMark known

/-- It leaves a gap of at most one space, and one where there must be one. -/
theorem Token.Gap.collapse {t : Token} {gap : List Char} (h : t.Gap AreBlank gap) :
    AreBlank gap ∧ t.Gap IsSlim (slimmed gap) := by
  cases t with
  | bounded bound =>
    refine ⟨h.1, isSlim_slimmed gap, ?_⟩
    simp [slimmed, h.2]
  | _ => exact ⟨h, isSlim_slimmed gap⟩

/-- So it leaves the row, token by token and gap by gap. -/
theorem Spaced.collapse {tokens : List Token} {text : List Char} (h : Spaced AreBlank tokens text) :
    ∃ slim, Spaced IsSlim tokens slim ∧
      ∀ inRun rest, collapseFrom inRun (text ++ rest) = slim ++ collapseFrom false rest := by
  induction h with
  | last h =>
    obtain ⟨slim, hs, collapses⟩ := h.collapse
    exact ⟨slim, .last hs, collapses⟩
  | @cons t text gap rest tokens h space more ih =>
    obtain ⟨slim, hs, collapses⟩ := h.collapse
    obtain ⟨slimRest, hr, collapsesRest⟩ := ih
    obtain ⟨blank, space'⟩ := space.collapse
    refine ⟨_, .cons hs space' hr, fun inRun after => ?_⟩
    have skip := collapseFrom_gap blank fun inRun => collapsesRest inRun after
    rw [List.append_assoc, List.append_assoc, collapses, skip]
    simp

/-- Collapsed and trimmed, a spelling has gaps of at most one space, and none around it. -/
theorem JavaType.Spelling.trim_collapse {t : JavaType} {text : List Char} (h : t.Spelling text) :
    Spaced IsSlim t.tokens (trim (collapse text)) := by
  obtain @⟨before, text, after, hb, ha, h⟩ := h
  obtain ⟨slim, hs, collapses⟩ := h.collapse
  have inside : ∀ inRun, collapseFrom inRun (text ++ after) = slim ++ slimmed after := by
    intro inRun
    have ends : ∀ inRun, collapseFrom inRun [] = [] := fun _ => rfl
    have last := collapseFrom_gap ha ends
    rw [List.append_nil, List.append_nil] at last
    rw [collapses, last]
  obtain ⟨-, -, c, rest, -, same, -⟩ := hs.head
  rw [collapse, collapseFrom_gap hb inside, trim_surrounded (isSlim_slimmed before).areBlank
    (isSlim_slimmed after).areBlank hs.isTrimmed (by rw [same]; exact List.cons_ne_nil _ _)]
  exact hs

/-! ## Tightening -/

namespace Token

/-- The ways to write a token in a row without gaps: what stands before a name has to be a
`package`, marks are written as `spread` says, and the space behind the keyword of a bound is part
of it. -/
inductive Piece (package : List Char → Prop) (spread : Char → List Char) :
    Token → List Char → Prop where
  | name {before : List Char} (n : Identifier) (h : package before) :
    Piece package spread (.name n) (before ++ n.chars)
  | wildcard : Piece package spread .wildcard ['?']
  | bounded {gap : List Char} (bound : Bound) (h : IsSlim gap) :
    Piece package spread (.bounded bound) ('?' :: (gap ++ (bound.keyword ++ [' '])))
  | mark (c : Char) (known : FieldType.isMark c = true) :
    Piece package spread (.mark c known) (spread c)

end Token

/-- A row of tokens written one directly after the other. -/
inductive Joined (piece : Token → List Char → Prop) : List Token → List Char → Prop where
  | nil : Joined piece [] []
  | cons {t : Token} {text rest : List Char} {tokens : List Token} (h : piece t text)
    (more : Joined piece tokens rest) : Joined piece (t :: tokens) (text ++ rest)

/-- The name of a package. -/
def IsPackage (text : List Char) : Prop :=
  ∃ parts, text = packageText parts

theorem tightenFrom_append {word : List Char} (h : ∀ c ∈ word, IsSolid c) (nonempty : word ≠ [])
    (afterMark : Bool) (rest : List Char) :
    FieldType.tightenFrom afterMark (word ++ rest) = word ++ FieldType.tightenFrom false rest := by
  induction word generalizing afterMark with
  | nil => exact absurd rfl nonempty
  | cons c word ih =>
    obtain ⟨blank, mark⟩ := h c (by simp)
    cases word with
    | nil => simp [FieldType.tightenFrom, blank, mark]
    | cons d word =>
      have tail := ih (fun e he => h e (by simp [he])) (List.cons_ne_nil _ _) false
      rw [List.cons_append, FieldType.tightenFrom, blank, if_neg Bool.false_ne_true, mark, tail]
      rfl

theorem tightenFrom_mark {c : Char} (h : FieldType.isMark c = true) (afterMark : Bool)
    (rest : List Char) :
    FieldType.tightenFrom afterMark (c :: rest) = c :: FieldType.tightenFrom true rest := by
  rw [FieldType.tightenFrom, isBlank_of_isMark h, if_neg Bool.false_ne_true, h]

/-- A space goes if a mark stands on one of its sides, and stays otherwise. -/
theorem tightenFrom_space {c : Char} (h : isBlank c = false) (afterMark : Bool) (rest : List Char) :
    FieldType.tightenFrom afterMark (' ' :: c :: rest) =
      if afterMark || FieldType.isMark c then FieldType.tightenFrom afterMark (c :: rest)
      else ' ' :: FieldType.tightenFrom false (c :: rest) := by
  have next : trimLeft (c :: rest) = c :: rest := by
    refine trimLeft_of_head fun d hd => ?_
    cases hd
    exact h
  rw [FieldType.tightenFrom, if_pos (by decide), next]
  rfl

/-- A gap beside a mark is dropped. -/
theorem tightenFrom_gap {gap : List Char} (h : IsSlim gap) {c : Char} (hc : isBlank c = false)
    {afterMark : Bool} (beside : (afterMark || FieldType.isMark c) = true) (rest : List Char) :
    FieldType.tightenFrom afterMark (gap ++ c :: rest) =
      FieldType.tightenFrom afterMark (c :: rest) := by
  rcases h with rfl | rfl
  · rfl
  · rw [List.cons_append, List.nil_append, tightenFrom_space hc, if_pos beside]

/-- The space between a question mark and its keyword stays. -/
theorem tightenFrom_bounded {gap : List Char} (bound : Bound) (h : IsSlim gap) (afterMark : Bool)
    (rest : List Char) :
    FieldType.tightenFrom afterMark ('?' :: (gap ++ bound.keyword) ++ rest) =
      '?' :: (gap ++ bound.keyword) ++ FieldType.tightenFrom false rest := by
  have keyword := tightenFrom_append (fun c hc => isSolid_of_isNameChar (bound.isNameChar_of_mem hc))
    bound.keyword_ne_nil false rest
  have wildcard : ∀ c ∈ ['?'], IsSolid c := by decide
  have question := tightenFrom_append wildcard (List.cons_ne_nil _ _) afterMark
    (gap ++ (bound.keyword ++ rest))
  obtain ⟨c, more, same⟩ := List.exists_cons_of_ne_nil bound.keyword_ne_nil
  have solid : IsSolid c := isSolid_of_isNameChar (bound.isNameChar_of_mem (by rw [same]; simp))
  rcases h with rfl | rfl
  · simpa [keyword] using question
  · have space : FieldType.tightenFrom false (' ' :: (bound.keyword ++ rest)) =
        ' ' :: FieldType.tightenFrom false (bound.keyword ++ rest) := by
      rw [same, List.cons_append, tightenFrom_space solid.1, solid.2]
      rfl
    simp only [List.cons_append, List.nil_append] at question
    rw [space, keyword] at question
    simpa using question

/-- The last token of a row. -/
theorem Token.Written.tighten {t : Token} {text : List Char} (h : t.Written IsSlim text)
    (closed : ∀ c known, t.Precedes (.mark c known)) (afterMark : Bool) :
    Joined (Token.Piece IsPackage fun c => [c]) [t] (FieldType.tightenFrom afterMark text) := by
  have alone : ∀ word, (∀ c ∈ word, IsSolid c) → word ≠ [] →
      FieldType.tightenFrom afterMark word = word ++ [] := by
    intro word solid nonempty
    have whole := tightenFrom_append solid nonempty afterMark []
    rw [List.append_nil] at whole
    exact whole
  cases h with
  | name parts n =>
    rw [alone _ (fun c hc => isSolid_of_mem_name hc) (by simp [n.chars_ne_nil])]
    exact .cons (.name n ⟨parts, rfl⟩) .nil
  | wildcard =>
    rw [alone _ (by decide) (List.cons_ne_nil _ _)]
    exact .cons .wildcard .nil
  | bounded bound _ => exact absurd trivial (closed '<' rfl)
  | mark c known =>
    rw [tightenFrom_mark known]
    exact .cons (Token.Piece.mark c known) .nil

/-- Tightening joins the tokens of a row, as between any two of them stands a mark, or a keyword
with its space. -/
theorem Spaced.tighten {tokens : List Token} {text : List Char} (h : Spaced IsSlim tokens text)
    (chain : tokens.IsChain Token.Precedes) (closed : EndsClosed tokens) (afterMark : Bool) :
    Joined (Token.Piece IsPackage fun c => [c]) tokens
      (FieldType.tightenFrom afterMark text) := by
  induction h generalizing afterMark with
  | last h => exact h.tighten (closed _ rfl) afterMark
  | @cons t text gap rest tokens h space more ih =>
    obtain ⟨u, others, c, tail, rfl, rfl, blank, kind⟩ := more.head
    obtain ⟨precedes, chain'⟩ := List.isChain_cons_cons.1 chain
    have closed' : EndsClosed (u :: others) := by
      intro v hv
      exact closed v (by rw [List.getLast?_cons_cons]; exact hv)
    -- Beside a mark the space goes; between the keyword of a bound and its type it stays.
    cases h with
    | name parts n =>
      have beside : (false || FieldType.isMark c) = true := kind.2 precedes
      rw [tightenFrom_append (fun c hc => isSolid_of_mem_name hc) (by simp [n.chars_ne_nil]),
        tightenFrom_gap space blank beside]
      exact .cons (.name n ⟨parts, rfl⟩) (ih chain' closed' false)
    | wildcard =>
      have beside : (false || FieldType.isMark c) = true := kind.2 precedes
      rw [tightenFrom_append (by decide) (List.cons_ne_nil _ _),
        tightenFrom_gap space blank beside]
      exact .cons .wildcard (ih chain' closed' false)
    | bounded bound hs =>
      have solid : FieldType.isMark c = false := by
        rw [← Bool.not_eq_true]
        exact fun mark => precedes (kind.1 mark)
      obtain ⟨slim, nonempty⟩ := space
      obtain rfl := slim.resolve_left nonempty
      have stays : FieldType.tightenFrom false ([' '] ++ c :: tail) =
          ' ' :: FieldType.tightenFrom false (c :: tail) := by
        rw [List.cons_append, List.nil_append, tightenFrom_space blank, solid]
        rfl
      rw [tightenFrom_bounded bound hs, stays]
      have joined := Joined.cons (.bounded bound hs) (ih chain' closed' false)
      simpa using joined
    | mark d known =>
      rw [List.cons_append, List.nil_append, tightenFrom_mark known,
        tightenFrom_gap space blank (Bool.true_or _)]
      exact .cons (Token.Piece.mark d known) (ih chain' closed' true)

end InterfaceGen.Types
