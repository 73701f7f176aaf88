import InterfaceGen.Proofs.Text.Scanning
import InterfaceGen.Proofs.Types.Tightening

/-!
# Package names are erased

In a tight row of tokens the pattern for package names occurs exactly at the package names: it
needs a dot behind a word, and a word that is no part of a package is followed by a mark, by a space
or by nothing.
-/

namespace InterfaceGen.Types

open InterfaceGen.Text InterfaceGen.Source
open FieldType (packagePart qualifier)

/-! ## One space behind each comma -/

/-- A mark with the space that follows it. -/
def spread (c : Char) : List Char :=
  if c = ',' then [',', ' '] else [c]

theorem spaceCommas_append (first second : List Char) :
    FieldType.spaceCommas (first ++ second) =
      FieldType.spaceCommas first ++ FieldType.spaceCommas second :=
  List.flatMap_append

theorem spaceCommas_of_not_mem {text : List Char} (h : ',' ∉ text) :
    FieldType.spaceCommas text = text := by
  induction text with
  | nil => rfl
  | cons c text ih =>
    have differ : c ≠ ',' := fun same => h (by simp [same])
    have tail := ih fun hm => h (List.mem_cons_of_mem _ hm)
    simp only [FieldType.spaceCommas] at tail
    simp only [FieldType.spaceCommas, List.flatMap_cons, if_neg differ, tail]
    rfl

/-- Spacing the commas keeps all tokens but the marks as they are. -/
theorem Joined.spaceCommas {tokens : List Token} {text : List Char}
    (h : Joined (Token.Piece IsPackage fun c => [c]) tokens text) :
    Joined (Token.Piece IsPackage spread) tokens (FieldType.spaceCommas text) := by
  have plain : ∀ word : List Char, (∀ c ∈ word, IsSolid c) → FieldType.spaceCommas word = word :=
    fun word solid => spaceCommas_of_not_mem fun hc => absurd (solid ',' hc).2 (by decide)
  induction h with
  | nil => exact .nil
  | cons h more ih =>
    rw [spaceCommas_append]
    refine .cons ?_ ih
    cases h with
    | name n h =>
      obtain ⟨parts, rfl⟩ := h
      rw [plain _ fun c hc => isSolid_of_mem_name hc]
      exact .name n ⟨parts, rfl⟩
    | wildcard => exact .wildcard
    | bounded bound h =>
      rw [spaceCommas_of_not_mem]
      · exact .bounded bound h
      · rcases h with rfl | rfl <;> cases bound <;> decide
    | mark c known =>
      have same : FieldType.spaceCommas [c] = spread c := List.append_nil _
      rw [same]
      exact .mark c known

/-! ## Where the pattern matches -/

theorem packageText_cons (part : PackagePart) (parts : List PackagePart) :
    packageText (part :: parts) = part.chars ++ '.' :: packageText parts := by
  simp [packageText]

theorem length_le_packageText (parts : List PackagePart) :
    parts.length ≤ (packageText parts).length := by
  induction parts with
  | nil => exact Nat.le_refl _
  | cons part parts ih =>
    rw [packageText_cons, List.length_append, List.length_cons, List.length_cons]
    omega

/-- The pattern of a part takes one part with its dot. -/
theorem packagePart_follow (part : PackagePart) (next : Cursor Empty → Option (Cursor Empty))
    (before : Option Char) (rest : List Char) (offset : Nat) :
    packagePart.follow next ⟨before, part.chars ++ '.' :: rest, offset, []⟩ =
      next ⟨some '.', rest, offset + (part.chars.length + 1), []⟩ := by
  obtain ⟨c, more, same, head, tail⟩ := isHeadedBy_iff.1 part.wellFormed
  rw [packagePart, same, List.cons_append, Pattern.follow_seq, Pattern.follow_seq,
    Pattern.follow_one_cons, if_pos head, Pattern.follow_run _ tail]
  · have dot := Pattern.follow_exactly (".".toList) next (more.getLast?.or (some c)) rest
      (offset + 1 + more.length) []
    have count : offset + (more.length + 1 + 1) = offset + 1 + more.length + 1 := by omega
    rw [List.length_cons, count]
    exact dot
  · intro d hd
    cases hd
    decide
  · intro before d rest offset hd
    refine Pattern.follow_exactly_of_head _ _ _ '.' [] rfl ?_
    intro e he
    cases he
    exact ne_of_isNameChar hd (by decide)

/-- A word without a dot behind it is no part of a package. -/
theorem packagePart_follow_eq_none {word rest : List Char}
    (inside : ∀ c ∈ word, isNameChar c = true)
    (outside : ∀ c ∈ rest.head?, isNameChar c = false ∧ c ≠ '.')
    (next : Cursor Empty → Option (Cursor Empty)) (before : Option Char) (offset : Nat) :
    packagePart.follow next ⟨before, word ++ rest, offset, []⟩ = none := by
  rw [packagePart, Pattern.follow_seq, Pattern.follow_seq]
  cases word with
  | nil =>
    cases rest with
    | nil => rfl
    | cons c rest =>
      have other := (outside c rfl).1
      rw [List.nil_append, Pattern.follow_one_cons, if_neg]
      intro small
      rw [isNameChar_of_isNameStart (isNameStart_of_isLower_or small)] at other
      exact Bool.noConfusion other
  | cons c word =>
    rw [List.cons_append, Pattern.follow_one_cons]
    split
    · rw [Pattern.follow_run _ fun d hd => inside d (by simp [hd])]
      · refine Pattern.follow_exactly_of_head _ _ _ '.' [] rfl ?_
        exact fun d hd => (outside d hd).2
      · exact fun d hd => (outside d hd).1
      · intro before d rest offset hd
        refine Pattern.follow_exactly_of_head _ _ _ '.' [] rfl ?_
        intro e he
        cases he
        exact ne_of_isNameChar hd (by decide)
    · rfl

/-- No package name begins in a word that a dot does not follow. -/
theorem qualifier_eq_none {word rest : List Char} (inside : ∀ c ∈ word, isNameChar c = true)
    (outside : ∀ c ∈ rest.head?, isNameChar c = false ∧ c ≠ '.') (before : Option Char)
    (offset : Nat) : qualifier.matchAt ⟨before, word ++ rest, offset, []⟩ = none := by
  rw [Pattern.matchAt, qualifier, Pattern.follow_seq, Pattern.follow_seq, Pattern.follow_seq,
    Pattern.follow_wordEdge]
  split
  · exact packagePart_follow_eq_none inside outside _ _ _
  · rfl

theorem getLast?_packageText_cons (part : PackagePart) (more : List PackagePart)
    (before : Option Char) :
    (packageText (part :: more)).getLast?.or before =
      (packageText more).getLast?.or (some '.') := by
  rw [packageText_cons, List.getLast?_append, List.getLast?_cons]
  cases (packageText more).getLast? <;> rfl

/-- The further parts of a package are read up to the word that is none. -/
theorem repeated_packageParts (parts : List PackagePart) {rest : List Char}
    {next : Cursor Empty → Option (Cursor Empty)}
    (past : ∀ k before offset, packagePart.follow k ⟨before, rest, offset, []⟩ = none)
    (goes : ∀ before offset, (next ⟨before, rest, offset, []⟩).isSome = true)
    {budget : List Char} (enough : parts.length ≤ budget.length) (before : Option Char)
    (offset : Nat) :
    Pattern.repeated (fun k t => packagePart.follow k t) next budget
        ⟨before, packageText parts ++ rest, offset, []⟩ =
      next ⟨(packageText parts).getLast?.or before, rest, offset + (packageText parts).length,
        []⟩ := by
  induction parts generalizing budget before offset with
  | nil =>
    cases budget with
    | nil => rfl
    | cons _ budget =>
      simp only [Pattern.repeated, packageText, List.flatMap_nil, List.nil_append, past]
      rfl
  | cons part parts ih =>
    cases budget with
    | nil => exact absurd enough (by simp)
    | cons _ budget =>
      have shorter : parts.length ≤ budget.length := by simpa using enough
      have moved : offset < offset + (part.chars.length + 1) := by omega
      have count : offset + (packageText (part :: parts)).length =
          offset + (part.chars.length + 1) + (packageText parts).length := by
        rw [packageText_cons, List.length_append, List.length_cons]
        omega
      obtain ⟨t, ht⟩ := Option.isSome_iff_exists.1
        (goes ((packageText parts).getLast?.or (some '.'))
          (offset + (part.chars.length + 1) + (packageText parts).length))
      rw [Pattern.repeated, getLast?_packageText_cons, count, packageText_cons, List.append_assoc,
        List.cons_append, packagePart_follow, if_pos moved, ih shorter, ht]

/-- Behind a package name a name has to begin. -/
theorem nameAhead_follow (n : Identifier) (rest : List Char)
    (next : Cursor Empty → Option (Cursor Empty)) (before : Option Char) (offset : Nat) :
    (.followedBy (.one isNameStart) : Pattern Empty).follow next
        ⟨before, n.chars ++ rest, offset, []⟩ =
      next ⟨before, n.chars ++ rest, offset, []⟩ := by
  obtain ⟨c, letters, name, start, -⟩ := isHeadedBy_iff.1 n.wellFormed
  rw [name, List.cons_append, Pattern.follow_followedBy, Pattern.follow_one_cons, if_pos start]
  rfl

/-- A package name is one occurrence. -/
theorem qualifier_eq_some {parts : List PackagePart} (nonempty : parts ≠ []) (n : Identifier)
    {rest : List Char} (outside : ∀ c ∈ rest.head?, isNameChar c = false ∧ c ≠ '.')
    {before : Option Char} (edge : before.any isWordChar = false) (offset : Nat) :
    ∃ t, qualifier.matchAt ⟨before, packageText parts ++ (n.chars ++ rest), offset, []⟩ = some t ∧
      t.offset = offset + (packageText parts).length := by
  obtain ⟨part, parts, rfl⟩ := List.exists_cons_of_ne_nil nonempty
  obtain ⟨c, more, same, head, -⟩ := isHeadedBy_iff.1 part.wellFormed
  have word : isWordChar c = true :=
    isWordChar_of_isNameChar (part.isNameChar_of_mem (by rw [same]; simp))
  have atEdge : Cursor.atWordEdge (ι := Empty)
      ⟨before, packageText (part :: parts) ++ (n.chars ++ rest), offset, []⟩ = true := by
    rw [packageText_cons, same]
    simp [Cursor.atWordEdge, edge, word]
  have past : ∀ k before offset,
      packagePart.follow k ⟨before, n.chars ++ rest, offset, []⟩ = none :=
    fun k => packagePart_follow_eq_none (fun e he => n.isNameChar_of_mem he) outside k
  have goes : ∀ before offset,
      ((.followedBy (.one isNameStart) : Pattern Empty).follow some
        ⟨before, n.chars ++ rest, offset, []⟩).isSome = true := by
    intro before offset
    rw [nameAhead_follow]
    rfl
  have enough : parts.length ≤ (packageText parts ++ (n.chars ++ rest)).length := by
    rw [List.length_append]
    exact Nat.le_trans (length_le_packageText parts) (Nat.le_add_right _ _)
  have count : offset + (part.chars.length + 1) + (packageText parts).length =
      offset + (packageText (part :: parts)).length := by
    rw [packageText_cons, List.length_append, List.length_cons]
    omega
  refine ⟨⟨(packageText parts).getLast?.or (some '.'), n.chars ++ rest,
    offset + (packageText (part :: parts)).length, []⟩, ?_, rfl⟩
  rw [Pattern.matchAt, qualifier, Pattern.follow_seq, Pattern.follow_seq, Pattern.follow_seq,
    Pattern.follow_wordEdge, if_pos atEdge, packageText_cons, List.append_assoc, List.cons_append,
    packagePart_follow, Pattern.follow, repeated_packageParts parts past goes enough,
    nameAhead_follow, count, packageText_cons]

/-! ## What is left -/

/-- Nothing is erased in such a word. -/
theorem erasedFrom_word {word rest : List Char} (inside : ∀ c ∈ word, isNameChar c = true)
    (outside : ∀ c ∈ rest.head?, isNameChar c = false ∧ c ≠ '.') (before : Option Char)
    (offset : Nat) :
    qualifier.erasedFrom before (word ++ rest) offset =
      word ++ qualifier.erasedFrom (word.getLast?.or before) rest (offset + word.length) := by
  apply Pattern.erasedFrom_kept
  intro back _ suffix
  exact qualifier_eq_none (fun c hc => inside c (suffix.subset hc)) outside

theorem erasedFrom_others {word : List Char} (h : ∀ c ∈ word, isNameChar c = false ∧ c ≠ '.')
    (before : Option Char) (rest : List Char) (offset : Nat) :
    qualifier.erasedFrom before (word ++ rest) offset =
      word ++ qualifier.erasedFrom (word.getLast?.or before) rest (offset + word.length) := by
  apply Pattern.erasedFrom_kept
  intro back nonempty suffix
  obtain ⟨c, tail, rfl⟩ := List.exists_cons_of_ne_nil nonempty
  have outside : ∀ d ∈ (c :: (tail ++ rest)).head?, isNameChar d = false ∧ d ≠ '.' := by
    intro d hd
    cases hd
    exact h c (suffix.subset (List.mem_cons_self ..))
  exact @qualifier_eq_none [] _ (List.forall_mem_nil _) outside

/-- A name keeps its last part. -/
theorem erasedFrom_name (parts : List PackagePart) (n : Identifier) {rest : List Char}
    (outside : ∀ c ∈ rest.head?, isNameChar c = false ∧ c ≠ '.') {before : Option Char}
    (edge : before.any isWordChar = false) (offset : Nat) :
    ∃ last next, qualifier.erasedFrom before (packageText parts ++ n.chars ++ rest) offset =
      n.chars ++ qualifier.erasedFrom last rest next := by
  have word := fun last next =>
    erasedFrom_word (fun c hc => n.isNameChar_of_mem hc) outside last next
  rw [List.append_assoc]
  by_cases nonempty : parts = []
  · subst nonempty
    exact ⟨_, _, word before offset⟩
  · obtain ⟨t, found, moved⟩ := qualifier_eq_some nonempty n outside edge offset
    have text : packageText parts ≠ [] := by
      have := length_le_packageText parts
      have := List.length_pos_iff.2 nonempty
      exact List.length_pos_iff.1 (by omega)
    rw [Pattern.erasedFrom_append text found moved, word]
    exact ⟨_, _, rfl⟩

theorem other_of_isMark {c : Char} (h : FieldType.isMark c = true) :
    isNameChar c = false ∧ c ≠ '.' := by
  simp only [FieldType.isMark, Bool.or_eq_true, beq_iff_eq] at h
  rcases h with (((rfl | rfl) | rfl) | rfl) | rfl <;> decide

theorem spread_eq_cons (c : Char) : ∃ more, spread c = c :: more := by
  by_cases comma : c = ','
  · exact ⟨[' '], by rw [spread, if_pos comma, comma]⟩
  · exact ⟨[], by rw [spread, if_neg comma]⟩

/-- What a mark is written with belongs to no word. -/
theorem spread_facts {c : Char} (h : FieldType.isMark c = true) :
    (∀ d ∈ spread c, isNameChar d = false ∧ d ≠ '.') ∧
      ∀ before, ((spread c).getLast?.or before).any isWordChar = false := by
  simp only [FieldType.isMark, Bool.or_eq_true, beq_iff_eq] at h
  rcases h with (((rfl | rfl) | rfl) | rfl) | rfl <;> exact ⟨by decide, fun _ => rfl⟩

/-- A row that begins with a mark does so in its text. -/
theorem Joined.head_of_isMark {package : List Char → Prop} {tokens : List Token}
    {text : List Char} (h : Joined (Token.Piece package spread) tokens text)
    (marks : ∀ t ∈ tokens.head?, t.IsMark) : ∀ c ∈ text.head?, FieldType.isMark c = true := by
  intro d hd
  cases h with
  | nil => exact nomatch hd
  | cons h more =>
    have mark := marks _ rfl
    cases h with
    | mark c known =>
      obtain ⟨tail, same⟩ := spread_eq_cons c
      rw [same] at hd
      cases hd
      exact known
    | _ => exact mark.elim

/-- Erasing takes away the package names of a row and nothing else. -/
theorem Joined.erasedFrom {tokens : List Token} {text : List Char}
    (h : Joined (Token.Piece IsPackage spread) tokens text)
    (chain : tokens.IsChain Token.Precedes) {before : Option Char}
    (edge : before.any isWordChar = false ∨ ∀ t ∈ tokens.head?, t.IsMark) (offset : Nat) :
    Joined (Token.Piece (· = []) spread) tokens (qualifier.erasedFrom before text offset) := by
  induction h generalizing before offset with
  | nil => exact .nil
  | @cons t text rest tokens h more ih =>
    obtain ⟨precedes, chain'⟩ := List.isChain_cons.1 chain
    -- A package stands before a name only; all other tokens are passed over.
    cases h with
    | name n hp =>
      obtain ⟨parts, rfl⟩ := hp
      have free : before.any isWordChar = false := edge.resolve_right fun marks => marks _ rfl
      obtain ⟨last, next, same⟩ :=
        erasedFrom_name parts n (fun c hc => other_of_isMark (more.head_of_isMark precedes c hc))
          free offset
      rw [same]
      have whole : Token.Piece (· = []) spread (.name n) ([] ++ n.chars) := .name n rfl
      exact .cons whole (ih chain' (.inr precedes) next)
    | wildcard =>
      rw [erasedFrom_others (by decide)]
      exact .cons .wildcard (ih chain' (.inl rfl) _)
    | @bounded gap bound hs =>
      have front : ∀ d ∈ '?' :: gap, isNameChar d = false ∧ d ≠ '.' := by
        rcases hs with rfl | rfl <;> decide
      have space : ∀ c ∈ ([' '] ++ rest).head?, isNameChar c = false ∧ c ≠ '.' := by
        intro c hc
        cases hc
        decide
      have parted : ∀ after, '?' :: (gap ++ (bound.keyword ++ [' '])) ++ after =
          ('?' :: gap) ++ (bound.keyword ++ ([' '] ++ after)) := by simp
      rw [parted, erasedFrom_others front,
        erasedFrom_word (fun c hc => bound.isNameChar_of_mem hc) space,
        erasedFrom_others (by decide), ← parted]
      exact .cons (.bounded bound hs) (ih chain' (.inl rfl) _)
    | mark c known =>
      obtain ⟨others, free⟩ := spread_facts known
      rw [erasedFrom_others others]
      exact .cons (.mark c known) (ih chain' (.inl (free before)) _)

end InterfaceGen.Types
