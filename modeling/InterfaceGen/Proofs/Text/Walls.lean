import InterfaceGen.Proofs.Text.Matches
import InterfaceGen.Proofs.Text.Occurring
import Mathlib.Data.List.Forall2

/-!
# Walls

A wall is a character that a pattern neither takes nor looks for. What stands behind the first wall
is nothing to the pattern: before two texts that are the same up to there, it goes the same ways,
whatever follows it, `Walled.same`.
-/

namespace InterfaceGen.Text.Pattern

variable {ι : Type}

/-- All characters that the pattern can take, or look ahead for, are of the class. -/
def Walled (inside : Char → Bool) : Pattern ι → Prop
  | one accept | run accept | fewest accept => ∀ c, accept c = true → inside c = true
  | exactly text => ∀ c ∈ text, inside c = true
  | seq p q | either p q => p.Walled inside ∧ q.Walled inside
  | optional p | many p | capture _ p | followedBy p | notFollowedBy p => p.Walled inside
  | wordEdge | lineStart => True
  -- Whether the text ends here is decided by what stands behind the wall.
  | finish => False

@[simp] theorem walled_append {p q : Pattern ι} {inside : Char → Bool} :
    (p ++ q).Walled inside ↔ p.Walled inside ∧ q.Walled inside :=
  Iff.rfl

@[simp] theorem walled_orElse {p q : Pattern ι} {inside : Char → Bool} :
    (p <|> q).Walled inside ↔ p.Walled inside ∧ q.Walled inside :=
  Iff.rfl

/-- What is walled keeps to the class. -/
theorem Walled.within {p : Pattern ι} {inside : Char → Bool} (h : p.Walled inside) :
    p.Within inside := by
  induction p with
  | one | exactly | run | fewest => exact h
  | seq p q hp hq | either p q hp hq => exact ⟨hp h.1, hq h.2⟩
  | optional p hp | many p hp | capture _ p hp => exact hp h
  | wordEdge | lineStart | finish | followedBy | notFollowedBy => trivial

/-- Two texts behind the same wall, and the places of the wall. -/
structure Wall where
  mark : Char
  rest : List Char
  rest' : List Char
  place : Nat
  place' : Nat

/-- What goes on before the wall leads to results of this kind in both texts, or in none. -/
def Wall.Same (w : Wall) (result : Cursor ι → Cursor ι → Prop)
    (next next' : Cursor ι → Option (Cursor ι)) : Prop :=
  ∀ before word offset offset' captures, offset + word.length = w.place →
    offset' + word.length = w.place' →
    Option.Rel result (next ⟨before, word ++ w.mark :: w.rest, offset, captures⟩)
      (next' ⟨before, word ++ w.mark :: w.rest', offset', captures⟩)

theorem isSome_eq_of_rel {α β : Type} {result : α → β → Prop} {a? : Option α} {b? : Option β}
    (h : Option.Rel result a? b?) : a?.isSome = b?.isSome := by
  cases h <;> rfl

theorem rel_of_isSome_eq {α β : Type} {result : α → β → Prop} {a? : Option α} {b? : Option β}
    (same : a?.isSome = b?.isSome) (related : ∀ a ∈ a?, ∀ b ∈ b?, result a b) :
    Option.Rel result a? b? := by
  cases a? with
  | none =>
    cases b? with
    | none => exact .none
    | some b => cases same
  | some a =>
    cases b? with
    | none => cases same
    | some b => exact .some (related a rfl b rfl)

/-- Both searches fail, or both succeed with related results. -/
theorem cases_of_rel {α β : Type} {result : α → β → Prop} {a? : Option α} {b? : Option β}
    (h : Option.Rel result a? b?) :
    a? = none ∧ b? = none ∨ ∃ a b, a? = some a ∧ b? = some b ∧ result a b := by
  cases h with
  | none => exact .inl ⟨rfl, rfl⟩
  | some related => exact .inr ⟨_, _, rfl, rfl, related⟩

/-- The first results of related rows are related. -/
theorem rel_findSome? {α β γ δ : Type} {result : γ → δ → Prop} {f : α → Option γ} {g : β → Option δ}
    {xs : List α} {ys : List β}
    (h : List.Forall₂ (fun x y => Option.Rel result (f x) (g y)) xs ys) :
    Option.Rel result (xs.findSome? f) (ys.findSome? g) := by
  induction h with
  | nil => exact .none
  | @cons x y xs ys here _ ih =>
    rw [List.findSome?_cons, List.findSome?_cons]
    generalize f x = a? at here
    generalize g y = b? at here
    cases here with
    | some related => exact .some related
    | none => exact ih

/-- The first of two ways, or else the second. -/
theorem rel_or {α β : Type} {result : α → β → Prop} {a? c? : Option α} {b? d? : Option β}
    (first : Option.Rel result a? b?) (second : Option.Rel result c? d?) :
    Option.Rel result (a?.or c?) (b?.or d?) := by
  cases first with
  | some related => exact .some related
  | none => exact second

/-- Two ways that part on one condition. -/
theorem rel_ite {α β : Type} {result : α → β → Prop} (c : Prop) [Decidable c]
    {a? c? : Option α} {b? d? : Option β} (met : Option.Rel result a? b?)
    (failed : Option.Rel result c? d?) :
    Option.Rel result (if c then a? else c?) (if c then b? else d?) := by
  by_cases h : c
  · rwa [if_pos h, if_pos h]
  · rwa [if_neg h, if_neg h]

theorem repeated_cons {step : (Cursor ι → Option (Cursor ι)) → Cursor ι → Option (Cursor ι)}
    {next : Cursor ι → Option (Cursor ι)} (c : Char) (budget : List Char) (s : Cursor ι) :
    repeated step next (c :: budget) s =
      (step (fun t => if s.offset < t.offset then repeated step next budget t else none) s).or
        (next s) := by
  rw [repeated]
  cases step _ s <;> rfl

section Same

variable {inside : Char → Bool} {w : Wall} {result : Cursor ι → Cursor ι → Prop}
  {next next' : Cursor ι → Option (Cursor ι)} {accept : Char → Bool}

theorem Wall.rejects_mark (part : ∀ c, accept c = true → inside c = true)
    (closed : inside w.mark = false) : accept w.mark = false := by
  rw [← Bool.not_eq_true]
  intro taken
  rw [part _ taken] at closed
  cases closed

/-- Both searches go over one character alike. -/
theorem Wall.Same.one (h : w.Same result next next')
    (part : ∀ c, accept c = true → inside c = true) (closed : inside w.mark = false) :
    w.Same result ((Pattern.one accept).follow next) ((Pattern.one accept).follow next') := by
  intro before word offset offset' captures here here'
  cases word with
  | nil =>
    have off := Wall.rejects_mark part closed
    simp only [List.nil_append, follow_one_cons, off, Bool.false_eq_true, if_false]
    exact .none
  | cons c word =>
    simp only [List.cons_append, follow_one_cons]
    rw [List.length_cons] at here here'
    split
    · exact h _ _ _ _ _ (by omega) (by omega)
    · exact .none

/-- So they do over a word without the mark of the wall. -/
theorem Wall.Same.exactly (h : w.Same result next next') {text : List Char}
    (apart : w.mark ∉ text) :
    w.Same result ((Pattern.exactly text).follow next) ((Pattern.exactly text).follow next') := by
  intro before word offset offset' captures here here'
  by_cases taken : text <+: word
  · obtain ⟨more, rfl⟩ := taken
    rw [List.length_append] at here here'
    rw [List.append_assoc, follow_exactly, List.append_assoc, follow_exactly]
    exact h _ _ _ _ _ (by omega) (by omega)
  · have off : ∀ rest, ¬ text <+: word ++ w.mark :: rest := fun rest => by
      rw [isPrefix_append_cons_iff apart]
      exact taken
    rw [follow_exactly_of_not_begins (off w.rest), follow_exactly_of_not_begins (off w.rest')]
    exact .none

/-- So they do over a run, which ends at the wall at the latest. -/
theorem Wall.Same.runEnds (h : w.Same result next next')
    (part : ∀ c, accept c = true → inside c = true) (closed : inside w.mark = false)
    (captures : List (ι × List Char)) :
    ∀ before word offset offset', offset + word.length = w.place →
      offset' + word.length = w.place' →
      List.Forall₂ (fun s s' => Option.Rel result (next s) (next' s'))
        (Cursor.runEnds accept captures before (word ++ w.mark :: w.rest) offset)
        (Cursor.runEnds accept captures before (word ++ w.mark :: w.rest') offset') := by
  intro before word
  induction word generalizing before with
  | nil =>
    intro offset offset' here here'
    have off := Wall.rejects_mark part closed
    simp only [List.nil_append, Cursor.runEnds, off, Bool.false_eq_true, if_false]
    exact .cons (h before [] offset offset' captures here here') .nil
  | cons c word ih =>
    intro offset offset' here here'
    simp only [List.cons_append, Cursor.runEnds]
    refine .cons (h before (c :: word) offset offset' captures here here') ?_
    rw [List.length_cons] at here here'
    split
    · exact ih _ _ _ (by omega) (by omega)
    · exact .nil

/-- Each repetition moves towards the wall, and the budget reaches beyond it. -/
theorem Wall.Same.repeated {step : (Cursor ι → Option (Cursor ι)) → Cursor ι → Option (Cursor ι)}
    (h : w.Same result next next')
    (ih : ∀ k k', w.Same result k k' → w.Same result (step k) (step k'))
    {budget budget' : List Char} {before : Option Char} {word : List Char} {offset offset' : Nat}
    {captures : List (ι × List Char)} (enough : word.length < budget.length)
    (enough' : word.length < budget'.length) (here : offset + word.length = w.place)
    (here' : offset' + word.length = w.place') :
    Option.Rel result
      (Pattern.repeated step next budget ⟨before, word ++ w.mark :: w.rest, offset, captures⟩)
      (Pattern.repeated step next' budget'
        ⟨before, word ++ w.mark :: w.rest', offset', captures⟩) := by
  induction budget generalizing budget' before word offset offset' captures with
  | nil => exact absurd enough (Nat.not_lt_zero _)
  | cons _ budget longer =>
    cases budget' with
    | nil => exact absurd enough' (Nat.not_lt_zero _)
    | cons _ budget' =>
      rw [repeated_cons, repeated_cons]
      refine rel_or (ih _ _ ?_ before word offset offset' captures here here')
        (h before word offset offset' captures here here')
      intro before more offset₁ offset₁' captures there there'
      rw [List.length_cons] at enough enough'
      dsimp only
      by_cases moved : offset < offset₁
      · rw [if_pos moved, if_pos (by omega)]
        exact longer (by omega) (by omega) there there'
      · rw [if_neg moved, if_neg (by omega)]
        exact .none

/-- A text that is kept does not reach over the wall. -/
theorem Wall.Same.keepSince (h : w.Same result next next') (name : ι) {before : Option Char}
    {word : List Char} {offset offset' : Nat} {captures : List (ι × List Char)}
    (here : offset + word.length = w.place) (here' : offset' + word.length = w.place') :
    w.Same result
      (fun t => next (Cursor.keepSince ⟨before, word ++ w.mark :: w.rest, offset, captures⟩ name t))
      (fun t => next'
        (Cursor.keepSince ⟨before, word ++ w.mark :: w.rest', offset', captures⟩ name t)) := by
  intro before₁ more offset₁ offset₁' captures₁ there there'
  have long : offset₁' - offset' = offset₁ - offset := by omega
  have taken : ∀ rest, (word ++ w.mark :: rest).take (offset₁ - offset) =
      word.take (offset₁ - offset) := fun rest =>
    List.take_append_of_le_length (by omega)
  have same := h before₁ more offset₁ offset₁' ((name, word.take (offset₁ - offset)) :: captures₁)
    there there'
  simpa only [Cursor.keepSince, long, taken] using same

/-- What a pattern would match ahead is the same. -/
theorem Wall.Same.isSome_eq {p : Pattern ι}
    (h : w.Same (fun _ _ => True) (p.follow some) (p.follow some)) {before : Option Char}
    {word : List Char} {offset offset' : Nat} {captures : List (ι × List Char)}
    (here : offset + word.length = w.place) (here' : offset' + word.length = w.place') :
    (p.follow some ⟨before, word ++ w.mark :: w.rest, offset, captures⟩).isSome =
      (p.follow some ⟨before, word ++ w.mark :: w.rest', offset', captures⟩).isSome :=
  isSome_eq_of_rel (h before word offset offset' captures here here')

theorem Wall.same_some : w.Same (ι := ι) (fun _ _ => True) some some :=
  fun _ _ _ _ _ _ _ => .some trivial

/-- Both searches go alike over all that is walled. -/
theorem Walled.same {p : Pattern ι} (h : p.Walled inside) (closed : inside w.mark = false)
    (hn : w.Same result next next') : w.Same result (p.follow next) (p.follow next') := by
  -- No part of the pattern takes the mark, so the searches differ only behind the wall.
  have apart : ∀ text : List Char, (∀ c ∈ text, inside c = true) → w.mark ∉ text := by
    intro text part member
    rw [part _ member] at closed
    cases closed
  induction p generalizing next next' result with
  | one accept => exact hn.one h closed
  | exactly text => exact hn.exactly (apart text h)
  | seq p q hp hq => exact hp h.1 (hq h.2 hn)
  | either p q hp hq =>
    intro before word offset offset' captures here here'
    rw [follow_either, follow_either]
    exact rel_or (hp h.1 hn _ _ _ _ _ here here') (hq h.2 hn _ _ _ _ _ here here')
  | optional p hp =>
    intro before word offset offset' captures here here'
    rw [follow_optional, follow_optional]
    exact rel_or (hp h hn _ _ _ _ _ here here') (hn _ _ _ _ _ here here')
  | run accept =>
    intro before word offset offset' captures here here'
    have ends := hn.runEnds h closed captures before word offset offset' here here'
    exact rel_findSome? (List.forall₂_reverse_iff.2 ends)
  | fewest accept =>
    intro before word offset offset' captures here here'
    exact rel_findSome? (hn.runEnds h closed captures before word offset offset' here here')
  | many p hp =>
    intro before word offset offset' captures here here'
    exact hn.repeated (fun k k' hk => hp h hk) (by simp) (by simp) here here'
  | capture name p hp =>
    intro before word offset offset' captures here here'
    exact hp h (hn.keepSince name here here') before word offset offset' captures here here'
  | wordEdge =>
    intro before word offset offset' captures here here'
    have edge : Cursor.atWordEdge (ι := ι) ⟨before, word ++ w.mark :: w.rest, offset, captures⟩ =
        Cursor.atWordEdge (ι := ι) ⟨before, word ++ w.mark :: w.rest', offset', captures⟩ := by
      cases word <;> rfl
    rw [follow_wordEdge, follow_wordEdge, edge]
    exact rel_ite _ (hn _ _ _ _ _ here here') .none
  | lineStart =>
    intro before word offset offset' captures here here'
    rw [follow_lineStart, follow_lineStart]
    exact rel_ite _ (hn _ _ _ _ _ here here') .none
  | finish => exact h.elim
  | followedBy p hp =>
    intro before word offset offset' captures here here'
    rw [follow_followedBy, follow_followedBy, (hp h Wall.same_some).isSome_eq here here']
    exact rel_ite _ (hn _ _ _ _ _ here here') .none
  | notFollowedBy p hp =>
    intro before word offset offset' captures here here'
    rw [follow_notFollowedBy, follow_notFollowedBy, (hp h Wall.same_some).isSome_eq here here']
    exact rel_ite _ .none (hn _ _ _ _ _ here here')

end Same

end InterfaceGen.Text.Pattern
