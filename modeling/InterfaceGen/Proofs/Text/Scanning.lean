import InterfaceGen.Proofs.Text.Matches
import InterfaceGen.Proofs.Text.Words

/-!
# Searching a text of known shape

A search goes over words in which no occurrence begins and over occurrences. What it leaves of the
text (`erasedFrom`), what it captures (`Yields`) and what it cuts the text into (`Cuts`) follow from
the two lemmas about pieces. Where all matches of a text go across one place, `MatchesAcross`, the
search finds one of them, whatever stands around.
-/

namespace InterfaceGen.Text.Pattern

variable {ι : Type} {p : Pattern ι} {word rest : List Char} {before : Option Char}

/-! ## Pieces -/

/-- No occurrence begins in the word. -/
theorem piecesFrom_free (before : Option Char)
    (free : ∀ front back, word = front ++ back → back ≠ [] → ∀ offset,
      p.matchAt ⟨front.getLast?.or before, back ++ rest, offset, []⟩ = none) (offset : Nat) :
    p.piecesFrom 0 before (word ++ rest) offset =
      word.map .plain ++ p.piecesFrom 0 (word.getLast?.or before) rest (offset + word.length) := by
  induction word generalizing before offset with
  | nil => rfl
  | cons c word ih =>
    have here : p.matchAt ⟨before, c :: (word ++ rest), offset, []⟩ = none :=
      free [] (c :: word) rfl (List.cons_ne_nil _ _) offset
    have later := ih (some c) fun front back same nonempty offset => by
      have there := free (c :: front) back (by rw [same]; rfl) nonempty offset
      rwa [getLast?_cons_or] at there
    rw [List.cons_append, piecesFrom, here]
    dsimp only
    rw [later, getLast?_cons_or, List.length_cons, Nat.add_right_comm, Nat.add_assoc]
    rfl

/-- The text of an occurrence is passed over. -/
theorem piecesFrom_skip (p : Pattern ι) (word rest : List Char) (before : Option Char)
    (offset : Nat) :
    p.piecesFrom word.length before (word ++ rest) offset =
      p.piecesFrom 0 (word.getLast?.or before) rest (offset + word.length) := by
  induction word generalizing before offset with
  | nil => simp
  | cons c word ih =>
    rw [List.cons_append, List.length_cons, piecesFrom, ih, getLast?_cons_or,
      Nat.add_right_comm, Nat.add_assoc]

/-- The word is an occurrence. -/
theorem piecesFrom_occurrence {offset : Nat} {t : Cursor ι} (nonempty : word ≠ [])
    (h : p.matchAt ⟨before, word ++ rest, offset, []⟩ = some t)
    (ht : t.offset = offset + word.length) :
    p.piecesFrom 0 before (word ++ rest) offset =
      .occurrence ⟨offset, t.offset, word, t.captures⟩ ::
        p.piecesFrom 0 (word.getLast?.or before) rest (offset + word.length) := by
  obtain ⟨c, more, rfl⟩ := List.exists_cons_of_ne_nil nonempty
  have moved : offset < t.offset := by
    rw [ht, List.length_cons]
    omega
  have long : t.offset - offset = (c :: more).length := by
    rw [ht]
    omega
  have taken : (c :: (more ++ rest)).take (t.offset - offset) = c :: more := by
    rw [long, ← List.cons_append, List.take_left]
  rw [List.cons_append] at h ⊢
  simp only [piecesFrom, h, if_pos moved, taken]
  rw [long, List.length_cons, Nat.add_sub_cancel, piecesFrom_skip, getLast?_cons_or,
    Nat.add_right_comm, Nat.add_assoc]

/-- The first occurrence behind characters that are in none. It is the only one where all that
stands behind it is in none. -/
theorem exists_occurrences {text front : List Char} {o : Occurrence ι} {later : List (Piece ι)}
    (h : p.pieces text = front.map .plain ++ .occurrence o :: later) :
    ∃ others, p.occurrences text = o :: others ∧
      ∀ back : List Char, later = back.map .plain → others = [] := by
  have none : ∀ word : List Char, word.filterMap (fun _ => (none : Option (Occurrence ι))) = [] :=
    fun word => List.filterMap_eq_nil_iff.2 fun _ _ => rfl
  rw [occurrences, h, List.filterMap_append, List.filterMap_map, List.filterMap_cons]
  refine ⟨_, congrArg (· ++ _) (none front), ?_⟩
  rintro back rfl
  rw [List.filterMap_map]
  exact none back

/-- The pattern matches nowhere in a word. -/
def RejectsWithin (p : Pattern ι) (word rest : List Char) : Prop :=
  ∀ back, back ≠ [] → back <:+ word → Rejects p (back ++ rest)

/-- No match begins within either text, and so within both. -/
theorem RejectsWithin.append {first second : List Char}
    (hf : RejectsWithin p first (second ++ rest)) (hs : RejectsWithin p second rest) :
    RejectsWithin p (first ++ second) rest := by
  intro back nonempty suffix
  obtain ⟨front, same⟩ := suffix
  rcases List.append_eq_append_iff.1 same with ⟨gone, rfl, rfl⟩ | ⟨begun, rfl, rfl⟩
  · cases gone with
    | nil => exact hs second nonempty (List.suffix_refl _)
    | cons c gone =>
      rw [List.append_assoc]
      exact hf (c :: gone) (List.cons_ne_nil _ _) (List.suffix_append _ _)
  · exact hs back nonempty (List.suffix_append _ _)

theorem RejectsWithin.cons {c : Char} (here : Rejects p (c :: (word ++ rest)))
    (h : RejectsWithin p word rest) : RejectsWithin p (c :: word) rest := by
  intro back nonempty suffix
  rcases List.suffix_cons_iff.1 suffix with rfl | suffix
  · exact here
  · exact h back nonempty suffix

/-! ## What is left when the occurrences are dropped -/

/-- The characters outside the occurrences, from a place on. -/
def erasedFrom (p : Pattern ι) (before : Option Char) (text : List Char) (offset : Nat) :
    List Char :=
  (p.piecesFrom 0 before text offset).filterMap fun
    | .plain c => some c
    | .occurrence _ => none

/-- Erasing begins at the beginning of the text. -/
theorem erase_eq (p : Pattern ι) (text : List Char) : p.erase text = p.erasedFrom none text 0 :=
  rfl

/-- A word in which no occurrence begins is kept whole. -/
theorem erasedFrom_kept (free : ∀ back, back ≠ [] → back <:+ word → ∀ before offset,
      p.matchAt ⟨before, back ++ rest, offset, []⟩ = none)
    (before : Option Char) (offset : Nat) :
    p.erasedFrom before (word ++ rest) offset =
      word ++ p.erasedFrom (word.getLast?.or before) rest (offset + word.length) := by
  rw [erasedFrom, piecesFrom_free, List.filterMap_append, List.filterMap_map]
  · congr 1
    exact List.filterMap_some
  · intro front back same nonempty
    exact free back nonempty ⟨front, same.symm⟩ _

/-- A match is erased, and the search goes on behind it. -/
theorem erasedFrom_append {offset : Nat} {t : Cursor ι} (nonempty : word ≠ [])
    (h : p.matchAt ⟨before, word ++ rest, offset, []⟩ = some t)
    (ht : t.offset = offset + word.length) :
    p.erasedFrom before (word ++ rest) offset =
      p.erasedFrom (word.getLast?.or before) rest (offset + word.length) := by
  rw [erasedFrom, piecesFrom_occurrence nonempty h ht]
  rfl

theorem length_erased_le (p : Pattern ι) (skip : Nat) (before : Option Char) (text : List Char)
    (offset : Nat) :
    ((p.piecesFrom skip before text offset).filterMap fun
      | .plain c => some c
      | .occurrence _ => none).length ≤ text.length := by
  induction text generalizing skip before offset with
  | nil => simp [piecesFrom]
  | cons c rest ih =>
    have plain : ∀ before offset,
        ((Piece.plain c :: p.piecesFrom 0 before rest offset).filterMap fun
          | .plain c => some c
          | .occurrence _ => none).length ≤ (c :: rest).length := fun before offset =>
      Nat.succ_le_succ (ih 0 before offset)
    cases skip with
    | succ skip => exact Nat.le_trans (ih skip _ _) (Nat.le_succ _)
    | zero =>
      rw [piecesFrom]
      split
      · split
        · exact Nat.le_trans (ih _ _ _) (Nat.le_succ _)
        · exact plain _ _
      · exact plain _ _

/-- Where nothing is dropped, nothing is dropped from any place on. -/
theorem erasedFrom_of_append {offset : Nat}
    (h : p.erasedFrom before (word ++ rest) offset = word ++ rest) :
    p.erasedFrom (word.getLast?.or before) rest (offset + word.length) = rest := by
  induction word generalizing before offset with
  | nil => exact h
  | cons c word ih =>
    have onward : p.erasedFrom (some c) (word ++ rest) (offset + 1) = word ++ rest := by
      rw [List.cons_append, erasedFrom, piecesFrom] at h
      split at h
      · split at h
        · -- What is left of the rest is too short for the whole text.
          have short := fun skip => length_erased_le p skip (some c) (word ++ rest) (offset + 1)
          have long := congrArg List.length h
          exact absurd (long ▸ short _) (by simp)
        · exact (List.cons.inj h).2
      · exact (List.cons.inj h).2
    have later := ih onward
    rwa [Nat.add_right_comm, Nat.add_assoc, ← List.length_cons, ← getLast?_cons_or] at later

/-! ## What is captured -/

/-- The captures of the occurrences, from a place on. -/
def keptFrom (p : Pattern ι) (before : Option Char) (text : List Char) (offset : Nat) :
    List (List (ι × List Char)) :=
  (p.piecesFrom 0 before text offset).filterMap fun
    | .plain _ => none
    | .occurrence o => some o.captures

/-- The occurrences of a text capture what is kept from its beginning on. -/
theorem map_captures_occurrences (p : Pattern ι) (text : List Char) :
    (p.occurrences text).map (·.captures) = p.keptFrom none text 0 := by
  rw [occurrences, List.map_filterMap, keptFrom, pieces]
  congr 1
  funext piece
  cases piece <;> rfl

/-- Where nothing matches, the search goes on with the next character. -/
theorem keptFrom_cons {c : Char} {offset : Nat}
    (none : p.matchAt ⟨before, c :: rest, offset, []⟩ = none) :
    p.keptFrom before (c :: rest) offset = p.keptFrom (some c) rest (offset + 1) := by
  rw [keptFrom, piecesFrom, none]
  rfl

/-- A match is kept, and the search goes on behind it. -/
theorem keptFrom_append {offset : Nat} {t : Cursor ι} (nonempty : word ≠ [])
    (found : p.matchAt ⟨before, word ++ rest, offset, []⟩ = some t)
    (stop : t.offset = offset + word.length) :
    p.keptFrom before (word ++ rest) offset =
      t.captures :: p.keptFrom (word.getLast?.or before) rest (offset + word.length) := by
  rw [keptFrom, piecesFrom_occurrence nonempty found stop]
  rfl

/-- Nothing is captured in a word in which no occurrence begins. -/
theorem keptFrom_free (free : ∀ front back, word = front ++ back → back ≠ [] → ∀ offset,
      p.matchAt ⟨front.getLast?.or before, back ++ rest, offset, []⟩ = none) (offset : Nat) :
    p.keptFrom before (word ++ rest) offset =
      p.keptFrom (word.getLast?.or before) rest (offset + word.length) := by
  have none : word.filterMap (fun _ => (none : Option (List (ι × List Char)))) = [] :=
    List.filterMap_eq_nil_iff.2 fun _ _ => rfl
  rw [keptFrom, piecesFrom_free before free, List.filterMap_append, List.filterMap_map]
  exact congrArg (· ++ _) none

/-- A search for a pattern that is never empty finds nothing where no match begins. -/
theorem keptFrom_eq_nil_iff
    (moves : ∀ s t, s.captures = [] → p.matchAt s = some t → s.offset < t.offset)
    {text : List Char} {offset : Nat} :
    p.keptFrom before text offset = [] ↔ ∀ front back, text = front ++ back → back ≠ [] →
      p.matchAt ⟨front.getLast?.or before, back, offset + front.length, []⟩ = none := by
  induction text generalizing before offset with
  | nil =>
    refine iff_of_true rfl fun front back same nonempty => ?_
    exact absurd (List.append_eq_nil_iff.1 same.symm).2 nonempty
  | cons c text ih =>
    -- A match at this place is kept because it moves on; without one the places behind it count.
    cases here : p.matchAt ⟨before, c :: text, offset, []⟩ with
    | some t =>
      have found : p.keptFrom before (c :: text) offset ≠ [] := by
        rw [keptFrom, piecesFrom, here]
        dsimp only
        rw [if_pos (moves _ _ rfl here)]
        exact List.cons_ne_nil _ _
      refine iff_of_false found fun nowhere => ?_
      have none := nowhere [] (c :: text) rfl (List.cons_ne_nil _ _)
      rw [List.getLast?_nil, Option.none_or, List.length_nil, Nat.add_zero, here] at none
      cases none
    | none =>
      rw [keptFrom_cons here, ih]
      constructor
      · intro nowhere front back same nonempty
        cases front with
        | nil =>
          cases same
          exact here
        | cons d front =>
          obtain ⟨rfl, behind⟩ := List.cons.inj same
          rw [getLast?_cons_or, List.length_cons, Nat.add_comm front.length, ← Nat.add_assoc]
          exact nowhere front back behind nonempty
      · intro nowhere front back same nonempty
        have there := nowhere (c :: front) back (congrArg (c :: ·) same) nonempty
        rwa [getLast?_cons_or, List.length_cons, Nat.add_comm front.length, ← Nat.add_assoc]
          at there

/-! ### Matches that all end at one place -/

/-- The cursor behind the front of a text. -/
def placed (front back : List Char) : Cursor ι :=
  ⟨front.getLast?, back, front.length, []⟩

/-- What is captured in the back of a text. -/
def keptBehind (p : Pattern ι) (front back : List Char) : List (List (ι × List Char)) :=
  p.keptFrom front.getLast? back front.length

theorem keptBehind_cons {front back : List Char} {c : Char}
    (none : p.matchAt (placed front (c :: back)) = none) :
    p.keptBehind front (c :: back) = p.keptBehind (front ++ [c]) back := by
  rw [keptBehind, keptFrom_cons none]
  simp [keptBehind]

theorem keptBehind_append {front back : List Char} {t : Cursor ι} (nonempty : word ≠ [])
    (found : p.matchAt (placed front (word ++ back)) = some t)
    (stop : t.offset = (front ++ word).length) :
    p.keptBehind front (word ++ back) = t.captures :: p.keptBehind (front ++ word) back := by
  rw [List.length_append] at stop
  rw [keptBehind, keptFrom_append nonempty found stop, keptBehind, List.getLast?_append,
    List.length_append]

/-- All matches in the text begin at the place or before it, end at one place behind it, and capture
the same. -/
def MatchesAcross (p : Pattern ι) (text : List Char) (place stop : Nat)
    (kept : List (ι × List Char)) : Prop :=
  ∀ front back t, text = front ++ back → p.matchAt (placed front back) = some t →
    front.length ≤ place ∧ place < stop ∧ t.offset = stop ∧ t.captures = kept

namespace MatchesAcross

variable {text front back : List Char} {place stop : Nat} {kept : List (ι × List Char)}

/-- Behind the place that all matches cross, nothing is found. -/
theorem keptBehind_eq_nil (h : MatchesAcross p text place stop kept) (same : text = front ++ back)
    (behind : place < front.length) : p.keptBehind front back = [] := by
  induction back generalizing front with
  | nil => rfl
  | cons c back ih =>
    have none : p.matchAt (placed front (c :: back)) = none := by
      apply Option.eq_none_iff_forall_ne_some.2
      intro t found
      have before := (h front (c :: back) t same found).1
      omega
    rw [keptBehind_cons none]
    apply ih
    · simp [same]
    · simp only [List.length_append]
      omega

/-- A match is the only one, since all matches cross one place. -/
theorem keptBehind_of_match (h : MatchesAcross p text place stop kept) {t : Cursor ι}
    (same : text = front ++ back) (found : p.matchAt (placed front back) = some t) :
    p.keptBehind front back = [kept] := by
  obtain ⟨before, across, ends, captures⟩ := h front back t same found
  obtain ⟨word, _, passes, -⟩ := matches_of_matchAt found
  have rest : back = word ++ t.rest := passes.rest
  have moved : t.offset = (front ++ word).length := by
    rw [passes.offset, placed, List.length_append]
  have nonempty : word ≠ [] := by
    rintro rfl
    rw [List.append_nil] at moved
    omega
  rw [rest] at found same ⊢
  have none : p.keptBehind (front ++ word) t.rest = [] :=
    h.keptBehind_eq_nil (by rw [same, List.append_assoc]) (by omega)
  rw [keptBehind_append nonempty found moved, captures, none]

/-- If there is a match, the first that is found is the only one. -/
theorem keptBehind_eq (h : MatchesAcross p text place stop kept) {passed : List Char}
    (same : text = front ++ (passed ++ back))
    (found : (p.matchAt (placed (front ++ passed) back)).isSome) :
    p.keptBehind front (passed ++ back) = [kept] := by
  induction passed generalizing front with
  | nil =>
    rw [List.append_nil] at found
    obtain ⟨t, found⟩ := Option.isSome_iff_exists.1 found
    exact h.keptBehind_of_match same found
  | cons c passed ih =>
    cases here : p.matchAt (placed front (c :: passed ++ back)) with
    | some t => exact h.keptBehind_of_match same here
    | none =>
      rw [List.cons_append] at here ⊢
      rw [keptBehind_cons here]
      apply ih
      · simp [same]
      · simpa using found

/-- Such a match is all that is found in the text. -/
theorem map_captures (h : MatchesAcross p (front ++ back) place stop kept)
    (found : (p.matchAt (placed front back)).isSome) :
    (p.occurrences (front ++ back)).map (·.captures) = [kept] := by
  have whole : front ++ back = [] ++ (front ++ back) := rfl
  rw [map_captures_occurrences]
  exact h.keptBehind_eq whole found

end MatchesAcross

/-- A search through the text, begun outside a word, makes these captures. -/
def Yields (p : Pattern ι) (text : List Char) (kept : List (List (ι × List Char))) : Prop :=
  ∀ before offset, before.any isWordChar = false → p.keptFrom before text offset = kept

namespace Yields

variable {kept : List (List (ι × List Char))}

theorem nil (p : Pattern ι) : Yields p [] [] :=
  fun _ _ _ => rfl

theorem outside (ends : EndsApart word) {before : Option Char}
    (h : before.any isWordChar = false) : (word.getLast?.or before).any isWordChar = false := by
  cases last : word.getLast? with
  | none => exact h
  | some c => exact ends c last

/-- A word in which no occurrence begins. -/
theorem free (h : Yields p rest kept) (ends : EndsApart word)
    (free : ∀ front back, word = front ++ back → back ≠ [] → ∀ before offset,
      p.matchAt ⟨front.getLast?.or before, back ++ rest, offset, []⟩ = none) :
    Yields p (word ++ rest) kept := by
  intro before offset start
  rw [keptFrom_free fun front back same nonempty => free front back same nonempty before]
  exact h _ _ (outside ends start)

/-- An occurrence. -/
theorem occurrence {first : List (ι × List Char)} (h : Yields p rest kept) (nonempty : word ≠ [])
    (ends : EndsApart word)
    (found : ∀ before offset, before.any isWordChar = false →
      p.matchAt ⟨before, word ++ rest, offset, []⟩ =
        some ⟨word.getLast?.or before, rest, offset + word.length, first⟩) :
    Yields p (word ++ rest) (first :: kept) := by
  intro before offset start
  rw [keptFrom_append nonempty (found before offset start) rfl]
  exact congrArg (first :: ·) (h _ _ (outside ends start))

end Yields

/-! ## What a text is cut into -/

/-- The parts between the occurrences, from a place on. -/
def cutFrom (p : Pattern ι) (before : Option Char) (text : List Char) (offset : Nat) :
    List (List Char) :=
  (p.piecesFrom 0 before text offset).foldr
    (fun piece parts =>
      match piece, parts with
      | .plain c, part :: parts => (c :: part) :: parts
      | .plain c, [] => [[c]]
      | .occurrence _, parts => [] :: parts)
    [[]]

/-- Cutting begins at the beginning of the text. -/
theorem cut_eq (p : Pattern ι) (text : List Char) : p.cut text = p.cutFrom none text 0 :=
  rfl

/-- No part is longer than the text. -/
theorem length_le_of_mem_cut {text part : List Char} (h : part ∈ p.cut text) :
    part.length ≤ text.length := by
  refine Nat.le_trans ?_ (length_erased_le p 0 none text 0)
  rw [cut, pieces] at h
  generalize p.piecesFrom 0 none text 0 = pieces at h
  induction pieces generalizing part with
  | nil =>
    rw [List.mem_singleton.1 h]
    exact Nat.zero_le _
  | cons piece pieces ih =>
    cases piece with
    | occurrence =>
      rcases List.mem_cons.1 h with rfl | h
      · exact Nat.zero_le _
      · exact ih h
    | plain c =>
      rw [List.foldr_cons] at h
      rw [List.filterMap_cons, List.length_cons]
      split at h
      · next first parts _ behind =>
        rw [behind] at ih
        rcases List.mem_cons.1 h with rfl | h
        · exact Nat.succ_le_succ (ih (List.mem_cons_self ..))
        · exact Nat.le_succ_of_le (ih (List.mem_cons_of_mem _ h))
      · rw [List.mem_singleton.1 h]
        exact Nat.succ_le_succ (Nat.zero_le _)
      · next same => cases same

/-- The text is cut into these parts, whatever stands before it. -/
def Cuts (p : Pattern ι) (text : List Char) (parts : List (List Char)) : Prop :=
  ∀ before offset, p.cutFrom before text offset = parts

namespace Cuts

theorem nil (p : Pattern ι) : Cuts p [] [[]] :=
  fun _ _ => rfl

/-- A word in which no occurrence begins is part of the first part. -/
theorem free {part : List Char} {parts : List (List Char)} (h : Cuts p rest (part :: parts))
    (off : RejectsWithin p word rest) : Cuts p (word ++ rest) ((word ++ part) :: parts) := by
  intro before offset
  have free : ∀ front back, word = front ++ back → back ≠ [] → ∀ offset,
      p.matchAt ⟨front.getLast?.or before, back ++ rest, offset, []⟩ = none :=
    fun front back same nonempty _ => off back nonempty ⟨front, same.symm⟩ _ _ _ _
  have later := h (word.getLast?.or before) (offset + word.length)
  rw [cutFrom] at later
  rw [cutFrom, piecesFrom_free before free, List.foldr_append, later]
  clear free off later
  induction word with
  | nil => rfl
  | cons c word ih =>
    rw [List.map_cons, List.foldr_cons, ih]
    rfl

/-- An occurrence begins a new part. -/
theorem occurrence {parts : List (List Char)} {kept : List (ι × List Char)} (h : Cuts p rest parts)
    (nonempty : word ≠ []) (reads : Reads p word rest kept) :
    Cuts p (word ++ rest) ([] :: parts) := by
  intro before offset
  rw [cutFrom, piecesFrom_occurrence nonempty (reads before offset [] some _ rfl) rfl,
    List.foldr_cons]
  exact congrArg ([] :: ·) (h _ _)

end Cuts

end InterfaceGen.Text.Pattern
