import InterfaceGen.Text.Pattern

/-!
# Running a pattern on a text of known shape

One equation for each kind of pattern, at a cursor whose text begins in a known way. The equation
for runs is the one that rules backtracking out: where what follows cannot begin with a character
of the run, only the longest run counts.
-/

namespace InterfaceGen.Text.Pattern

variable {ι : Type}

/-- The character before the place behind a text that begins with `c`. -/
theorem getLast?_cons_or (c : Char) (word : List Char) (before : Option Char) :
    (c :: word).getLast?.or before = word.getLast?.or (some c) := by
  rw [List.getLast?_cons]
  cases word.getLast? <;> rfl

/-- A sequence is followed part by part. -/
theorem follow_seq (p q : Pattern ι) (next : Cursor ι → Option (Cursor ι)) (s : Cursor ι) :
    (p ++ q).follow next s = p.follow (fun t => q.follow next t) s :=
  rfl

/-- A choice is the first of two ways, or else the second. -/
theorem follow_either (p q : Pattern ι) (next : Cursor ι → Option (Cursor ι)) (s : Cursor ι) :
    (either p q).follow next s = (p.follow next s).or (q.follow next s) := by
  rw [follow]
  cases p.follow next s <;> rfl

theorem follow_optional (p : Pattern ι) (next : Cursor ι → Option (Cursor ι)) (s : Cursor ι) :
    (optional p).follow next s = (p.follow next s).or (next s) := by
  rw [follow]
  cases p.follow next s <;> rfl

theorem follow_many (p : Pattern ι) (next : Cursor ι → Option (Cursor ι)) (s : Cursor ι) :
    (many p).follow next s = repeated (fun k t => p.follow k t) next s.rest s :=
  rfl

/-- What follows a captured part gets its text. -/
theorem follow_capture (name : ι) (p : Pattern ι) (next : Cursor ι → Option (Cursor ι))
    (s : Cursor ι) :
    (capture name p).follow next s = p.follow (fun t => next (s.keepSince name t)) s :=
  rfl

theorem follow_one_cons (accept : Char → Bool) (next : Cursor ι → Option (Cursor ι))
    (before : Option Char) (c : Char) (rest : List Char) (offset : Nat)
    (captures : List (ι × List Char)) :
    (one accept).follow next ⟨before, c :: rest, offset, captures⟩ =
      if accept c then next ⟨some c, rest, offset + 1, captures⟩ else none :=
  rfl

theorem follow_exactly_take (word : List Char) (next : Cursor ι → Option (Cursor ι))
    (s : Cursor ι) : (exactly word).follow next s = (s.take? word).bind next :=
  rfl

/-- A word is gone over where it stands. -/
theorem follow_exactly (word : List Char) (next : Cursor ι → Option (Cursor ι))
    (before : Option Char) (rest : List Char) (offset : Nat) (captures : List (ι × List Char)) :
    (exactly word).follow next ⟨before, word ++ rest, offset, captures⟩ =
      next ⟨word.getLast?.or before, rest, offset + word.length, captures⟩ := by
  have here : word.isPrefixOf (word ++ rest) = true :=
    List.isPrefixOf_iff_prefix.2 (List.prefix_append word rest)
  simp [follow_exactly_take, Cursor.take?, here]

/-- A word of one character. -/
theorem follow_mark (c : Char) (next : Cursor ι → Option (Cursor ι)) (before : Option Char)
    (rest : List Char) (offset : Nat) (captures : List (ι × List Char)) :
    (exactly [c]).follow next ⟨before, c :: rest, offset, captures⟩ =
      next ⟨some c, rest, offset + 1, captures⟩ :=
  follow_exactly [c] next before rest offset captures

/-- A word that the text does not begin with is not gone over. -/
theorem follow_exactly_of_not_begins {word : List Char} {s : Cursor ι} (h : ¬ word <+: s.rest)
    (next : Cursor ι → Option (Cursor ι)) : (exactly word).follow next s = none := by
  have off : word.isPrefixOf s.rest = false := by
    rw [← Bool.not_eq_true, List.isPrefixOf_iff_prefix]
    exact h
  rw [follow_exactly_take, Cursor.take?, off, if_neg Bool.false_ne_true, Option.bind_none]

/-- Nor is one whose first character does not stand here. -/
theorem follow_exactly_of_head (word : List Char) (next : Cursor ι → Option (Cursor ι))
    (s : Cursor ι) (d : Char) (more : List Char) (hw : word = d :: more)
    (h : ∀ c ∈ s.rest.head?, c ≠ d) : (exactly word).follow next s = none := by
  refine follow_exactly_of_not_begins (fun begins => ?_) next
  rw [hw] at begins
  obtain ⟨tail, same⟩ := begins
  exact h d (by rw [← same]; rfl) rfl

theorem follow_wordEdge (next : Cursor ι → Option (Cursor ι)) (s : Cursor ι) :
    wordEdge.follow next s = if s.atWordEdge then next s else none :=
  rfl

theorem follow_lineStart (next : Cursor ι → Option (Cursor ι)) (s : Cursor ι) :
    lineStart.follow next s = if s.before.all (· == '\n') then next s else none :=
  rfl

theorem follow_finish (next : Cursor ι → Option (Cursor ι)) (s : Cursor ι) :
    finish.follow next s = if s.rest = [] ∨ s.rest = ['\n'] then next s else none :=
  rfl

theorem follow_followedBy (p : Pattern ι) (next : Cursor ι → Option (Cursor ι)) (s : Cursor ι) :
    (followedBy p).follow next s = if (p.follow some s).isSome then next s else none :=
  rfl

theorem follow_notFollowedBy (p : Pattern ι) (next : Cursor ι → Option (Cursor ι)) (s : Cursor ι) :
    (notFollowedBy p).follow next s = if (p.follow some s).isSome then none else next s :=
  rfl

/-- A run whose end no shorter run can replace: `next` fails wherever the run could go on. -/
theorem follow_run {accept : Char → Bool} {next : Cursor ι → Option (Cursor ι)}
    {captures : List (ι × List Char)}
    (stop : ∀ before c rest offset, accept c = true →
      next ⟨before, c :: rest, offset, captures⟩ = none)
    {word rest : List Char} (inside : ∀ c ∈ word, accept c = true)
    (outside : ∀ c ∈ rest.head?, accept c = false) (before : Option Char) (offset : Nat) :
    (run accept).follow next ⟨before, word ++ rest, offset, captures⟩ =
      next ⟨word.getLast?.or before, rest, offset + word.length, captures⟩ := by
  show (Cursor.runEnds accept captures before (word ++ rest) offset).reverse.findSome? next = _
  induction word generalizing before offset with
  | nil =>
    cases rest with
    | nil => simp [Cursor.runEnds]
    | cons c rest =>
      have closed : accept c = false := outside c rfl
      simp [Cursor.runEnds, closed]
  | cons c word ih =>
    have open_ : accept c = true := inside c (by simp)
    have longer := ih (fun d hd => inside d (by simp [hd])) (some c) (offset + 1)
    have here : next ⟨before, c :: (word ++ rest), offset, captures⟩ = none :=
      stop before c (word ++ rest) offset open_
    rw [List.cons_append, Cursor.runEnds, if_pos open_, List.reverse_cons, List.findSome?_append,
      longer, getLast?_cons_or]
    simp only [List.findSome?_cons, here, List.findSome?_nil, Option.or_none, List.length_cons]
    rw [Nat.add_right_comm, Nat.add_assoc]

end InterfaceGen.Text.Pattern
