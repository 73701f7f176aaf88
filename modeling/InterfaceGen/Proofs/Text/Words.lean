import InterfaceGen.Proofs.Text.Reads
import InterfaceGen.Proofs.Text.Trimming

/-!
# Whole words

A word stands in a text as a whole if no word character is next to it. A pattern that begins with a
word at a word edge, and goes on with something else than a word character, matches at such places
only.
-/

namespace InterfaceGen.Text

/-- The blanks that are not ASCII. -/
def wideBlanks : List Nat :=
  [0x85, 0xA0, 0x1680, 0x2000, 0x2001, 0x2002, 0x2003, 0x2004, 0x2005, 0x2006, 0x2007, 0x2008,
    0x2009, 0x200A, 0x2028, 0x2029, 0x202F, 0x205F, 0x3000]

theorem isBlank_of_isWordChar {c : Char} (h : isWordChar c = true) : isBlank c = false := by
  rw [isWordChar, Bool.or_eq_true, isAlphanumeric] at h
  by_cases ascii : c.toNat < 0x80
  · rw [if_pos ascii] at h
    exact isBlank_of_isNameChar (Bool.or_eq_true .. ▸ h)
  · rw [if_neg ascii, beq_iff_eq] at h
    rcases h with wide | rfl
    · have apart : ∀ range ∈ alphanumericRanges.toList, ∀ n ∈ wideBlanks,
          ¬ (range.1 ≤ n ∧ n ≤ range.2) := by
        decide +kernel
      rw [← Array.any_toList, List.any_eq_true] at wide
      obtain ⟨range, listed, bounds⟩ := wide
      rw [Bool.and_eq_true, decide_eq_true_eq, decide_eq_true_eq] at bounds
      have other : c.toNat ∉ wideBlanks := fun blank => apart range listed _ blank bounds
      simp only [wideBlanks, List.mem_cons, List.not_mem_nil, or_false] at other
      simp only [isBlank, Bool.or_eq_false_iff, Bool.and_eq_false_iff, decide_eq_false_iff_not,
        beq_eq_false_iff_ne]
      omega
    · decide

theorem isWordChar_of_isBlank {c : Char} (h : isBlank c = true) : isWordChar c = false := by
  apply Bool.eq_false_iff.2
  intro word
  rw [isBlank_of_isWordChar word] at h
  exact Bool.noConfusion h

/-- The text does not end within a word. -/
def EndsApart (text : List Char) : Prop :=
  ∀ c ∈ text.getLast?, isWordChar c = false

/-- The text does not begin within a word. -/
def BeginsApart (text : List Char) : Prop :=
  ∀ c ∈ text.head?, isWordChar c = false

theorem EndsApart.nil : EndsApart [] :=
  fun _ hc => nomatch hc

theorem BeginsApart.nil : BeginsApart [] :=
  fun _ hc => nomatch hc

/-- A text that ends apart does so behind another one. -/
theorem EndsApart.append {first second : List Char} (hf : EndsApart first)
    (hs : EndsApart second) : EndsApart (first ++ second) := by
  intro c hc
  rw [List.getLast?_append, Option.mem_def, Option.or_eq_some_iff] at hc
  rcases hc with hc | ⟨-, hc⟩
  · exact hs c hc
  · exact hf c hc

/-- Only the end of the second text counts. -/
theorem EndsApart.append_left {first second : List Char} (h : EndsApart second)
    (nonempty : second ≠ []) : EndsApart (first ++ second) := by
  intro c hc
  rw [List.getLast?_append, List.getLast?_eq_some_getLast nonempty] at hc
  exact h c (by rw [List.getLast?_eq_some_getLast nonempty]; exact hc)

theorem EndsApart.blank {text : List Char} (h : ∀ c ∈ text, isBlank c = true) : EndsApart text :=
  fun c hc => isWordChar_of_isBlank (h c (List.mem_of_getLast? hc))

theorem EndsApart.concat {c : Char} (h : isWordChar c = false) (text : List Char) :
    EndsApart (text ++ [c]) := by
  intro d hd
  rw [List.getLast?_concat] at hd
  cases hd
  exact h

/-- The word stands in the text with no word character next to it. -/
def HoldsWord (word text : List Char) : Prop :=
  ∃ front back, text = front ++ (word ++ back) ∧ EndsApart front ∧ BeginsApart back

theorem isWordChar_of_mem_takeWhile {text : List Char} :
    ∀ c ∈ text.takeWhile isWordChar, isWordChar c = true :=
  List.all_eq_true.1 List.all_takeWhile

/-- Behind its first word a text goes on apart. -/
theorem beginsApart_dropWhile (text : List Char) : BeginsApart (text.dropWhile isWordChar) := by
  intro c hc
  have outside := List.head?_dropWhile_not isWordChar text
  rw [Option.mem_def.1 hc] at outside
  exact outside

section HoldsWord

variable {word text first second : List Char}

/-- A word does not go across a place with another character before or behind it. -/
theorem HoldsWord.of_append (h : HoldsWord word (first ++ second))
    (letters : ∀ c ∈ word, isWordChar c = true)
    (edge : EndsApart first ∨ BeginsApart second) :
    HoldsWord word first ∨ HoldsWord word second := by
  obtain ⟨front, back, same, left, right⟩ := h
  rcases List.append_eq_append_iff.1 same with ⟨gone, rfl, rest⟩ | ⟨begun, rfl, rest⟩
  · refine .inr ⟨gone, back, rest, fun c hc => left c ?_, right⟩
    rw [List.getLast?_append, Option.mem_def.1 hc]
    rfl
  · -- The word begins in the first part, and has to end there.
    rcases List.append_eq_append_iff.1 rest with ⟨behind, rfl, rfl⟩ | ⟨across, rfl, rfl⟩
    · refine .inl ⟨front, behind, rfl, left, fun c hc => right c ?_⟩
      rw [List.head?_append, Option.mem_def.1 hc]
      rfl
    · rcases begun.eq_nil_or_concat with rfl | ⟨init, c, rfl⟩
      · exact .inr ⟨[], back, by simp, .nil, right⟩
      · cases across with
        | nil => exact .inl ⟨front, [], by simp, left, .nil⟩
        | cons d tail =>
          have letter := letters c (by simp)
          have letter' := letters d (by simp)
          rcases edge with ends | begins
          · rw [ends c (by simp)] at letter
            exact Bool.noConfusion letter
          · rw [begins d rfl] at letter'
            exact Bool.noConfusion letter'

/-- Texts without the word do not make it together, where they are apart. -/
theorem not_holdsWord_append (letters : ∀ c ∈ word, isWordChar c = true)
    (hf : ¬ HoldsWord word first) (hs : ¬ HoldsWord word second)
    (edge : EndsApart first ∨ BeginsApart second) : ¬ HoldsWord word (first ++ second) :=
  fun h => (h.of_append letters edge).elim hf hs

/-- A word is the only word that stands in it. -/
theorem not_holdsWord_of_word (letters : ∀ c ∈ text, isWordChar c = true)
    (other : text ≠ word) : ¬ HoldsWord word text := by
  rintro ⟨front, back, rfl, left, right⟩
  rcases front.eq_nil_or_concat with rfl | ⟨init, c, rfl⟩
  · cases back with
    | nil => simp at other
    | cons c back =>
      have outside := right c rfl
      rw [letters c (by simp)] at outside
      exact Bool.noConfusion outside
  · have outside := left c (by simp)
    rw [letters c (by simp)] at outside
    exact Bool.noConfusion outside

/-- No word stands in a text without word characters. -/
theorem not_holdsWord_of_forall (nonempty : word ≠ []) (letters : ∀ c ∈ word, isWordChar c = true)
    (others : ∀ c ∈ text, isWordChar c = false) : ¬ HoldsWord word text := by
  rintro ⟨front, back, rfl, -, -⟩
  obtain ⟨c, more, rfl⟩ := List.exists_cons_of_ne_nil nonempty
  have letter := letters c (List.mem_cons_self ..)
  rw [others c (by simp)] at letter
  exact Bool.noConfusion letter

end HoldsWord

namespace Pattern

variable {ι : Type} {p q : Pattern ι} {word name text : List Char}

/-- The pattern does not go on within a word. -/
def LeavesWord (q : Pattern ι) : Prop :=
  ∀ before c rest offset captures next, before.any isWordChar = true → isWordChar c = true →
    q.follow next ⟨before, c :: rest, offset, captures⟩ = none

theorem LeavesWord.wordEdge : LeavesWord (.wordEdge : Pattern ι) := by
  intro before c rest offset captures next inside letter
  rw [follow_wordEdge, if_neg]
  simp [Cursor.atWordEdge, inside, letter]

theorem LeavesWord.spacing : LeavesWord (.spacing : Pattern ι) := by
  intro before c rest offset captures next _ letter
  refine (Rejects.one fun d hd => ?_).seq _ before offset captures next
  cases hd
  exact isBlank_of_isWordChar letter

/-- A sequence leaves a word if its first part does. -/
theorem LeavesWord.seq (h : LeavesWord p) (q : Pattern ι) : LeavesWord (p ++ q) :=
  fun before c rest offset captures next =>
    h before c rest offset captures fun t => q.follow next t

/-- A word is not read where another one stands. -/
theorem Rejects.of_other_word (letters : ∀ c ∈ word, isWordChar c = true) (nonempty : word ≠ [])
    (letters' : ∀ c ∈ name, isWordChar c = true) (outside : BeginsApart text)
    (other : name ≠ word) (leaves : LeavesWord q) :
    Rejects (.exactly word ++ q) (name ++ text) := by
  intro before offset captures next
  rw [follow_seq]
  by_cases here : word <+: name ++ text
  · obtain ⟨tail, same⟩ := here
    have inside : (word.getLast?.or before).any isWordChar = true := by
      rw [List.getLast?_eq_some_getLast nonempty]
      exact letters _ (List.getLast_mem nonempty)
    rw [← same, follow_exactly]
    rcases List.append_eq_append_iff.1 same with ⟨more, rfl, rfl⟩ | ⟨more, rfl, rfl⟩
    · cases more with
      | nil => simp at other
      | cons c more => exact leaves _ c _ _ _ _ inside (letters' c (by simp))
    · cases more with
      | nil => simp at other
      | cons c more =>
        have letter := letters c (by simp)
        rw [outside c rfl] at letter
        exact Bool.noConfusion letter
  · exact follow_exactly_of_not_begins here _

/-- The first word of a text is another one. -/
theorem Rejects.of_first_word (letters : ∀ c ∈ word, isWordChar c = true) (nonempty : word ≠ [])
    (other : text.takeWhile isWordChar ≠ word) (leaves : LeavesWord q) :
    Rejects (.exactly word ++ q) text := by
  have parts : text.takeWhile isWordChar ++ text.dropWhile isWordChar = text :=
    List.takeWhile_append_dropWhile
  rw [← parts]
  exact .of_other_word letters nonempty isWordChar_of_mem_takeWhile (beginsApart_dropWhile text)
    other leaves

theorem takeWhile_append_apart (outside : BeginsApart text) :
    (word ++ text).takeWhile isWordChar = word.takeWhile isWordChar := by
  induction word with
  | nil =>
    cases text with
    | nil => rfl
    | cons c text => simp [outside c rfl]
  | cons c word ih => simp only [List.cons_append, List.takeWhile_cons, ih]

/-- The word at the beginning of a text that does not end within a word, and what is behind it. -/
theorem exists_word_append (nonempty : text ≠ []) (ends : EndsApart text) :
    ∃ name gap, text = name ++ gap ∧ (∀ c ∈ name, isWordChar c = true) ∧ gap ≠ [] ∧
      BeginsApart gap := by
  have parts : text.takeWhile isWordChar ++ text.dropWhile isWordChar = text :=
    List.takeWhile_append_dropWhile
  refine ⟨_, _, parts.symm, isWordChar_of_mem_takeWhile, fun none => ?_,
    beginsApart_dropWhile text⟩
  -- Else the whole text is one word, and ends within it.
  rw [none, List.append_nil] at parts
  have last : text.getLast nonempty ∈ text.takeWhile isWordChar := by
    rw [parts]
    exact List.getLast_mem nonempty
  have letter := isWordChar_of_mem_takeWhile _ last
  rw [ends _ (List.getLast?_eq_some_getLast _)] at letter
  exact Bool.noConfusion letter

/-- A pattern that begins with a whole word does not match within a text that does not hold the
word, whatever stands around the text. -/
theorem follow_wordEdge_word (letters : ∀ c ∈ word, isWordChar c = true) (nonempty : word ≠ [])
    (leaves : LeavesWord q) {front back rest : List Char}
    (lacks : ¬ HoldsWord word (front ++ back)) (ends : EndsApart back) (some : back ≠ [])
    (before : Option Char) (offset : Nat) (captures : List (ι × List Char))
    (next : Cursor ι → Option (Cursor ι)) :
    (wordEdge ++ (exactly word ++ q)).follow next
      ⟨front.getLast?.or before, back ++ rest, offset, captures⟩ = none := by
  rw [follow_seq, follow_wordEdge]
  split
  · next edge =>
    obtain ⟨c, tail, rfl⟩ := List.exists_cons_of_ne_nil some
    -- Where a word begins, it is another one; where none begins, the first letter is missing.
    by_cases letter : isWordChar c = true
    · have front_apart : EndsApart front := by
        intro d hd
        have head : (c :: tail ++ rest).head?.any isWordChar = true := letter
        rw [Cursor.atWordEdge, head, Option.mem_def.1 hd] at edge
        simpa using edge
      obtain ⟨name, gap, same, letters', nonempty', outside⟩ := exists_word_append some ends
      rw [same, List.append_assoc]
      refine Rejects.of_other_word letters nonempty letters' (fun d hd => ?_) ?_ leaves _ _ _ _
      · obtain ⟨e, gap, rfl⟩ := List.exists_cons_of_ne_nil nonempty'
        exact outside d hd
      · rintro rfl
        exact lacks ⟨front, gap, by rw [same], front_apart, outside⟩
    · obtain ⟨d, more, rfl⟩ := List.exists_cons_of_ne_nil nonempty
      have differ : c ≠ d := by
        rintro rfl
        exact letter (letters c (List.mem_cons_self ..))
      refine ((Rejects.exactly (fun e he => ?_) more).seq q) _ _ _ _
      cases he
      exact differ
  · rfl

end Pattern

end InterfaceGen.Text
