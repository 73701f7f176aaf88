import InterfaceGen.Text.Blank
import InterfaceGen.Text.Word

/-!
# Blanks, name characters and trimming

The characters of names are ASCII and no blanks, so a text that begins and ends with them loses
nothing when it is trimmed.
-/

namespace InterfaceGen.Text

/-- What holds of each character of a text is decided along the text, not over all characters. -/
instance decidableForallChars {p : Char → Prop} [DecidablePred p] (text : List Char) :
    Decidable (∀ c ∈ text, p c) :=
  List.decidableBAll p text

instance decidableForallChar? {p : Char → Prop} [DecidablePred p] (c? : Option Char) :
    Decidable (∀ c ∈ c?, p c) :=
  Option.decidableForallMem c?

theorem bounds_of_isNameChar {c : Char} (h : isNameChar c = true) :
    0x30 ≤ c.toNat ∧ c.toNat ≤ 0x7A := by
  change (((decide (c.val ≥ 'A'.val ∧ c.val ≤ 'Z'.val) ||
    (decide (c.val ≥ 'a'.val) && decide (c.val ≤ 'z'.val))) ||
    (decide (c.val ≥ '0'.val) && decide (c.val ≤ '9'.val))) || c == '_') = true at h
  simp only [Bool.or_eq_true, Bool.and_eq_true, decide_eq_true_eq, beq_iff_eq, ge_iff_le,
    UInt32.le_iff_toNat_le] at h
  rcases h with (((⟨low, high⟩ | ⟨low, high⟩) | ⟨low, high⟩) | rfl)
  · exact ⟨Nat.le_trans (by decide) low, Nat.le_trans high (by decide)⟩
  · exact ⟨Nat.le_trans (by decide) low, Nat.le_trans high (by decide)⟩
  · exact ⟨low, Nat.le_trans high (by decide)⟩
  · decide

theorem isNameStart_of_isUpper {c : Char} (h : c.isUpper = true) : isNameStart c = true := by
  change (c.isUpper || c.isLower || c == '_') = true
  rw [h]
  rfl

/-- What may begin a part of a package name may begin any name. -/
theorem isNameStart_of_isLower_or {c : Char} (h : (c.isLower || c == '_') = true) :
    isNameStart c = true := by
  change (c.isUpper || c.isLower || c == '_') = true
  rw [Bool.or_assoc, h, Bool.or_true]

theorem isNameStart_of_isLower {c : Char} (h : c.isLower = true) : isNameStart c = true :=
  isNameStart_of_isLower_or (by rw [h, Bool.true_or])

theorem isNameChar_of_isNameStart {c : Char} (h : isNameStart c = true) : isNameChar c = true := by
  simp only [isNameStart, isNameChar, Char.isAlphanum, Bool.or_eq_true] at h ⊢
  exact h.elim (fun alpha => .inl (.inl alpha)) .inr

theorem isBlank_of_isNameChar {c : Char} (h : isNameChar c = true) : isBlank c = false := by
  have := bounds_of_isNameChar h
  simp only [isBlank, Bool.or_eq_false_iff, Bool.and_eq_false_iff, decide_eq_false_iff_not,
    beq_eq_false_iff_ne]
  omega

theorem isNameChar_of_isBlank {c : Char} (h : isBlank c = true) : isNameChar c = false := by
  apply Bool.eq_false_iff.2
  intro name
  rw [isBlank_of_isNameChar name] at h
  exact Bool.noConfusion h

theorem isWordChar_of_isNameChar {c : Char} (h : isNameChar c = true) : isWordChar c = true := by
  have ascii : c.toNat < 0x80 := by
    have := bounds_of_isNameChar h
    omega
  simpa [isWordChar, isAlphanumeric, ascii, isNameChar] using h

/-- A character that is told from a name character by a test is another one. -/
theorem ne_of_isNameChar {c d : Char} (h : isNameChar c = true) (other : isNameChar d = false) :
    c ≠ d := by
  rintro rfl
  rw [h] at other
  exact Bool.noConfusion other

/-- Neither end of the text is a blank. -/
structure IsTrimmed (text : List Char) : Prop where
  head : ∀ c ∈ text.head?, isBlank c = false
  last : ∀ c ∈ text.getLast?, isBlank c = false

/-- The last character is no blank. -/
def EndsSolid (text : List Char) : Prop :=
  ∀ c ∈ text.getLast?, isBlank c = false

/-- A text that ends solid does so behind another one. -/
theorem EndsSolid.append {first second : List Char} (hf : EndsSolid first) (hs : EndsSolid second) :
    EndsSolid (first ++ second) := by
  intro c hc
  rw [List.getLast?_append] at hc
  cases last : second.getLast? with
  | none =>
    rw [last, Option.none_or] at hc
    exact hf c hc
  | some d =>
    rw [last, Option.some_or] at hc
    cases hc
    exact hs c last

theorem EndsSolid.concat {c : Char} (h : isBlank c = false) (text : List Char) :
    EndsSolid (text ++ [c]) := by
  intro d hd
  rw [List.getLast?_concat] at hd
  cases hd
  exact h

/-- Nothing is trimmed where no blank stands. -/
theorem trimLeft_of_head {text : List Char} (h : ∀ c ∈ text.head?, isBlank c = false) :
    trimLeft text = text := by
  cases text with
  | nil => rfl
  | cons c rest =>
    have := h c rfl
    simp [trimLeft, this]

/-- Blanks in front are trimmed. -/
theorem trimLeft_append {blanks : List Char} (h : ∀ c ∈ blanks, isBlank c = true)
    (rest : List Char) : trimLeft (blanks ++ rest) = trimLeft rest := by
  induction blanks with
  | nil => rfl
  | cons c more ih =>
    have blank := h c (by simp)
    rw [List.cons_append, trimLeft, List.dropWhile_cons_of_pos blank]
    exact ih fun d hd => h d (by simp [hd])

/-- The blanks that a text begins with, and the rest. -/
theorem exists_gap (text : List Char) :
    ∃ gap, (∀ c ∈ gap, isBlank c = true) ∧ text = gap ++ trimLeft text ∧
      ∀ c ∈ (trimLeft text).head?, isBlank c = false := by
  refine ⟨text.takeWhile isBlank, List.all_eq_true.1 List.all_takeWhile,
    List.takeWhile_append_dropWhile.symm, fun c hc => ?_⟩
  have solid := List.head?_dropWhile_not isBlank text
  rw [trimLeft, Option.mem_def] at hc
  rwa [hc] at solid

theorem trimRight_eq (text : List Char) : trimRight text = (trimLeft text.reverse).reverse :=
  rfl

theorem trim_blanks {gap : List Char} (h : ∀ c ∈ gap, isBlank c = true) : trim gap = [] := by
  have left := trimLeft_append h []
  rw [List.append_nil] at left
  rw [trim, left]
  rfl

theorem trim_of_isTrimmed {text : List Char} (h : IsTrimmed text) : trim text = text := by
  rw [trim, trimLeft_of_head h.head, trimRight_eq, trimLeft_of_head, List.reverse_reverse]
  intro c hc
  rw [List.head?_reverse] at hc
  exact h.last c hc

/-- Blanks around a trimmed text are what `trim` removes. -/
theorem trim_surrounded {before text after : List Char}
    (hb : ∀ c ∈ before, isBlank c = true) (ha : ∀ c ∈ after, isBlank c = true)
    (h : IsTrimmed text) (nonempty : text ≠ []) : trim (before ++ (text ++ after)) = text := by
  obtain ⟨c, rest, rfl⟩ := List.exists_cons_of_ne_nil nonempty
  have left : trimLeft (before ++ (c :: rest ++ after)) = c :: rest ++ after := by
    rw [trimLeft_append hb, trimLeft_of_head]
    intro d hd
    exact h.head d (by simpa using hd)
  have blank : ∀ d ∈ after.reverse, isBlank d = true := fun d hd => ha d (List.mem_reverse.1 hd)
  have right : ∀ d ∈ (c :: rest).reverse.head?, isBlank d = false := by
    intro d hd
    rw [List.head?_reverse] at hd
    exact h.last d hd
  rw [trim, left, trimRight_eq, List.reverse_append, trimLeft_append blank,
    trimLeft_of_head right, List.reverse_reverse]

/-- Trimming takes away blanks only. -/
theorem exists_trim (text : List Char) : ∃ before after,
    (∀ c ∈ before, isBlank c = true) ∧ (∀ c ∈ after, isBlank c = true) ∧
      trimLeft text = trim text ++ after ∧ text = before ++ (trim text ++ after) := by
  obtain ⟨before, blankBefore, front, -⟩ := exists_gap text
  obtain ⟨after, blankAfter, back, -⟩ := exists_gap (trimLeft text).reverse
  have turned := congrArg List.reverse back
  rw [List.reverse_reverse, List.reverse_append, ← trimRight_eq] at turned
  refine ⟨before, after.reverse, blankBefore, fun c hc => blankAfter c (List.mem_reverse.1 hc),
    turned, ?_⟩
  rw [trim, ← turned, ← front]

theorem isTrimmed_trim (text : List Char) : IsTrimmed (trim text) where
  head c hc := by
    obtain ⟨before, -, -, solid⟩ := exists_gap text
    obtain ⟨-, after, -, -, left, -⟩ := exists_trim text
    apply solid
    rw [left, List.head?_append, Option.mem_def.1 hc]
    rfl
  last c hc := by
    obtain ⟨-, -, -, solid⟩ := exists_gap (trimLeft text).reverse
    apply solid
    rwa [trim, trimRight_eq, List.getLast?_reverse] at hc

@[simp]
theorem trim_trim (text : List Char) : trim (trim text) = trim text :=
  trim_of_isTrimmed (isTrimmed_trim text)

/-! ## What is left of a text -/

theorem mem_of_mem_trim {text : List Char} {c : Char} (h : c ∈ trim text) : c ∈ text := by
  rw [trim, trimRight, List.mem_reverse] at h
  have left := List.mem_reverse.1 ((List.dropWhile_suffix _).subset h)
  exact (List.dropWhile_suffix _).subset left

/-- What is no blank is not trimmed. -/
theorem mem_trimLeft {text : List Char} {c : Char} (h : c ∈ text) (solid : isBlank c = false) :
    c ∈ trimLeft text := by
  rw [← List.takeWhile_append_dropWhile (p := isBlank) (l := text)] at h
  refine (List.mem_append.1 h).resolve_left fun blank => ?_
  rw [List.all_eq_true.1 List.all_takeWhile c blank] at solid
  cases solid

theorem mem_trim {text : List Char} {c : Char} (h : c ∈ text) (solid : isBlank c = false) :
    c ∈ trim text := by
  rw [trim, trimRight_eq, List.mem_reverse]
  exact mem_trimLeft (List.mem_reverse.2 (mem_trimLeft h solid)) solid

/-- What is left when blanks are collapsed are single spaces and the rest. -/
theorem mem_of_mem_collapseFrom {text : List Char} {c : Char} {inRun : Bool}
    (h : c ∈ collapseFrom inRun text) : c = ' ' ∨ c ∈ text ∧ isBlank c = false := by
  fun_induction collapseFrom inRun text with
  | case1 => cases h
  | case2 d rest blank ih => exact (ih h).imp_right fun hm => ⟨List.mem_cons_of_mem _ hm.1, hm.2⟩
  | case3 inRun d rest blank first ih =>
    rcases List.mem_cons.1 h with rfl | h
    · exact .inl rfl
    · exact (ih h).imp_right fun hm => ⟨List.mem_cons_of_mem _ hm.1, hm.2⟩
  | case4 inRun d rest solid ih =>
    rcases List.mem_cons.1 h with rfl | h
    · exact .inr ⟨List.mem_cons_self .., Bool.eq_false_iff.2 solid⟩
    · exact (ih h).imp_right fun hm => ⟨List.mem_cons_of_mem _ hm.1, hm.2⟩

/-- Texts made of name characters at their ends are trimmed. -/
theorem isTrimmed_of_forall {text : List Char} (h : ∀ c ∈ text, isBlank c = false) :
    IsTrimmed text :=
  ⟨fun _ hc => h _ (List.mem_of_mem_head? hc), fun _ hc => h _ (List.mem_of_mem_getLast? hc)⟩

/-- One character of the first class, and then any number of the second. -/
theorem isHeadedBy_iff {first further : Char → Bool} {text : List Char} :
    isHeadedBy first further text = true ↔
      ∃ c rest, text = c :: rest ∧ first c = true ∧ ∀ d ∈ rest, further d = true := by
  cases text with
  | nil => simp [isHeadedBy]
  | cons c rest =>
    constructor
    · intro h
      simp only [isHeadedBy, Bool.and_eq_true, List.all_eq_true] at h
      exact ⟨c, rest, rfl, h.1, h.2⟩
    · rintro ⟨d, more, same, head, tail⟩
      cases same
      simp only [isHeadedBy, Bool.and_eq_true, List.all_eq_true]
      exact ⟨head, tail⟩

/-- Where the first kind of characters is part of the second, the text is of the second. -/
theorem forall_of_isHeadedBy {first further : Char → Bool} {text : List Char}
    (h : isHeadedBy first further text = true) (part : ∀ c, first c = true → further c = true) :
    ∀ c ∈ text, further c = true := by
  obtain ⟨first, rest, rfl, head, tail⟩ := isHeadedBy_iff.1 h
  intro c hc
  rcases List.mem_cons.1 hc with rfl | hc
  · exact part c head
  · exact tail c hc

/-- The line feed that a class name may end with is a blank. -/
theorem isClassName_of_isTrimmed {text : List Char} (h : IsTrimmed text) :
    isClassName text = isHeadedBy Char.isUpper isNameChar text := by
  have last : text.getLast? ≠ some '\n' := by
    intro feed
    exact absurd (h.last '\n' feed) (by decide)
  rw [isClassName, withoutFinalBreak, if_neg last]

/-- A name is made of name characters, perhaps with a line feed after them. -/
theorem isNameChar_or_of_isHeadedBy {first : Char → Bool} {text : List Char}
    (h : isHeadedBy first isNameChar (withoutFinalBreak text) = true)
    (part : ∀ c, first c = true → isNameChar c = true) :
    ∀ c ∈ text, isNameChar c = true ∨ c = '\n' := by
  have name := forall_of_isHeadedBy h part
  intro c hc
  by_cases feed : text.getLast? = some '\n'
  · obtain ⟨front, rfl⟩ := List.getLast?_eq_some_iff.1 feed
    rw [withoutFinalBreak, if_pos feed, List.dropLast_concat] at name
    rcases List.mem_append.1 hc with hc | hc
    · exact .inl (name c hc)
    · exact .inr (List.mem_singleton.1 hc)
  · rw [withoutFinalBreak, if_neg feed] at name
    exact .inl (name c hc)

/-- A class name has characters of names, and perhaps a line feed. -/
theorem isNameChar_or_of_isClassName {text : List Char} (h : isClassName text = true) :
    ∀ c ∈ text, isNameChar c = true ∨ c = '\n' :=
  isNameChar_or_of_isHeadedBy h fun _ upper => isNameChar_of_isNameStart (isNameStart_of_isUpper upper)

theorem isNameChar_or_of_isIdentifier {text : List Char} (h : isIdentifier text = true) :
    ∀ c ∈ text, isNameChar c = true ∨ c = '\n' :=
  isNameChar_or_of_isHeadedBy h fun _ => isNameChar_of_isNameStart

theorem isNameChar_of_className {text : List Char}
    (h : isHeadedBy Char.isUpper isNameChar text = true) : ∀ c ∈ text, isNameChar c = true := by
  apply forall_of_isHeadedBy h
  intro c upper
  exact isNameChar_of_isNameStart (isNameStart_of_isUpper upper)

end InterfaceGen.Text
