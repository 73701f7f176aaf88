import InterfaceGen.Proofs.Source.Brackets

/-!
# Literals and their blanked contents

Which literals a text holds is told by the offsets of their quotes: `Recognised`. Blanking writes
spaces between these quotes and changes nothing else, so an offset into the blanked text is one into
the text itself, and what stands there is the same if it is neither a quote nor a space. A quote
that begins no literal begins none in the blanked text either, so blanking twice is blanking once.
-/

namespace InterfaceGen.Source.Literal

open InterfaceGen.Text

/-! ## Literals by their offsets -/

/-- Behind a quote, the text goes on as a literal. -/
def OpensLiteral (rest : List Char) : Prop :=
  ∃ body after, IsQuoted '"' false body ∧ rest = body ++ '"' :: after

/-- The double-quoted literals of a text that stands at an offset, from left to right, each by the
offsets of its two quotes. -/
inductive Recognised : Nat → List Char → List (Nat × Nat) → Prop where
  | nil {offset : Nat} : Recognised offset [] []
  | literal {offset : Nat} {body rest : List Char} {spans : List (Nat × Nat)}
    (h : IsQuoted '"' false body) (more : Recognised (offset + (body.length + 2)) rest spans) :
    Recognised offset ('"' :: (body ++ '"' :: rest)) ((offset, offset + (body.length + 1)) :: spans)
  | other {offset : Nat} {c : Char} {rest : List Char} {spans : List (Nat × Nat)}
    (apart : c = '"' → ¬ OpensLiteral rest) (more : Recognised (offset + 1) rest spans) :
    Recognised offset (c :: rest) spans

/-- The offset is between the quotes of a literal. -/
def IsInside (spans : List (Nat × Nat)) (offset : Nat) : Prop :=
  ∃ span ∈ spans, span.1 < offset ∧ offset < span.2

/-- The offset is in no literal, nor is it that of a quote of one. -/
def IsClear (spans : List (Nat × Nat)) (offset : Nat) : Prop :=
  ∀ span ∈ spans, offset < span.1 ∨ span.2 < offset

/-- What is scanned from a quote on is the contents of a literal and the quote that closes it. -/
theorem exists_quoted_of_scan {quote : Char} {escapesBreak : Bool} {text inside after : List Char}
    (h : scan quote escapesBreak text = some (inside, after)) :
    ∃ body, IsQuoted quote escapesBreak body ∧ inside = body ++ [quote] := by
  fun_induction scan quote escapesBreak text generalizing inside after with
  | case1 => cases h
  | case2 => cases h
  | case3 c rest allowed ih =>
    obtain ⟨⟨body', after'⟩, found, same⟩ := Option.map_eq_some_iff.1 h
    obtain ⟨body, quoted, rfl⟩ := ih found
    cases same
    refine ⟨'\\' :: c :: body, .escaped (fun feed => ?_) quoted, rfl⟩
    simpa [feed] using allowed
  | case4 c rest =>
    cases h
    exact ⟨[], .nil, rfl⟩
  | case5 => cases h
  | case6 c rest escape differ unlike ih =>
    obtain ⟨⟨body', after'⟩, found, same⟩ := Option.map_eq_some_iff.1 h
    obtain ⟨body, quoted, rfl⟩ := ih found
    cases same
    rw [not_or] at unlike
    exact ⟨c :: body, .plain ⟨differ, unlike⟩ quoted, rfl⟩

/-- Nothing is scanned exactly where no literal is opened. -/
theorem scan_eq_none_iff {text : List Char} : scan '"' false text = none ↔ ¬ OpensLiteral text := by
  constructor
  · rintro none ⟨body, after, quoted, rfl⟩
    rw [quoted.scan (by decide)] at none
    cases none
  · intro closed
    apply Option.eq_none_iff_forall_ne_some.2
    rintro ⟨inside, after⟩ found
    obtain ⟨body, quoted, rfl⟩ := exists_quoted_of_scan found
    have whole := append_of_scan found
    rw [List.append_assoc] at whole
    exact closed ⟨body, after, quoted, whole.symm⟩

/-- Every text can be read in this way. -/
theorem exists_recognised (text : List Char) : ∀ offset, ∃ spans, Recognised offset text spans := by
  fun_induction blankChars text with
  | case1 => exact fun _ => ⟨[], .nil⟩
  | case2 rest inside after found ih =>
    intro offset
    obtain ⟨body, quoted, rfl⟩ := exists_quoted_of_scan found
    obtain ⟨spans, recognised⟩ := ih (offset + (body.length + 2))
    have whole := append_of_scan found
    rw [List.append_assoc, List.singleton_append] at whole
    rw [← whole]
    exact ⟨_, .literal quoted recognised⟩
  | case3 rest found ih =>
    intro offset
    obtain ⟨spans, recognised⟩ := ih (offset + 1)
    exact ⟨spans, .other (fun _ => scan_eq_none_iff.1 found) recognised⟩
  | case4 c rest differ ih =>
    intro offset
    obtain ⟨spans, recognised⟩ := ih (offset + 1)
    exact ⟨spans, .other (fun quote => absurd quote differ) recognised⟩

/-! ## What blanking changes -/

theorem toList_blank (text : String) : (blank text).toList = blankChars text.toList :=
  String.toList_ofList

theorem blankChars_unopened {c : Char} {rest : List Char} (apart : c = '"' → ¬ OpensLiteral rest) :
    blankChars (c :: rest) = c :: blankChars rest := by
  by_cases quote : c = '"'
  · have closed := scan_eq_none_iff.2 (apart quote)
    rw [blankChars, if_pos quote]
    split
    · next found =>
      rw [closed] at found
      cases found
    · rfl
  · exact blankChars_cons quote rest

/-- Blanking keeps the length of a text. -/
theorem length_blankChars (text : List Char) : (blankChars text).length = text.length := by
  obtain ⟨spans, recognised⟩ := exists_recognised text 0
  generalize 0 = offset at recognised
  induction recognised with
  | nil => rw [blankChars]
  | literal quoted _ ih =>
    rw [blankChars_quoted quoted]
    simp [ih]
  | other apart _ ih => rw [blankChars_unopened apart, List.length_cons, List.length_cons, ih]

/-- Behind a quote that begins no literal, blanking does not make one. -/
theorem scan_blankChars {text : List Char} (closed : scan '"' false text = none) :
    scan '"' false (blankChars text) = none := by
  fun_induction scan '"' false text with
  | case1 => rw [blankChars, scan]
  | case2 c rest feed =>
    obtain ⟨rfl, -⟩ := feed
    rw [blankChars_cons (by decide), blankChars_cons (by decide), scan, if_pos ⟨rfl, rfl⟩]
  | case3 c rest allowed ih =>
    have behind := Option.map_eq_none_iff.1 closed
    -- An escaped quote begins no literal: what is behind it does not end as one.
    have escaped : blankChars (c :: rest) = c :: blankChars rest :=
      blankChars_unopened fun _ => scan_eq_none_iff.1 behind
    rw [blankChars_cons (by decide), escaped, scan, if_neg allowed, ih behind, Option.map_none]
  | case4 => cases closed
  | case5 c rest escape differ last =>
    have here : blankChars (c :: rest) = c :: blankChars rest := blankChars_cons differ rest
    rw [here]
    rcases last with rfl | rfl
    · cases rest with
      | nil => rw [blankChars]; rfl
      | cons d rest => exact (escape d rest rfl rfl).elim
    · rfl
  | case6 c rest escape differ unlike ih =>
    have behind := Option.map_eq_none_iff.1 closed
    rw [not_or] at unlike
    rw [blankChars_cons differ, scan, if_neg differ, if_neg (not_or.2 unlike), ih behind,
      Option.map_none]
    exact fun _ _ backslash => absurd backslash unlike.1

instance (spans : List (Nat × Nat)) : DecidablePred (IsInside spans) :=
  fun _ => inferInstanceAs (Decidable (∃ span ∈ spans, _ ∧ _))

namespace Recognised

variable {offset : Nat} {text : List Char} {spans : List (Nat × Nat)}

/-- There is one such way only. -/
theorem unique (h : Recognised offset text spans) {spans' : List (Nat × Nat)}
    (h' : Recognised offset text spans') : spans' = spans := by
  induction h generalizing spans' with
  | nil =>
    cases h'
    rfl
  | @literal offset body rest spans quoted _ ih =>
    -- The scanner finds one body only, and it finds that of any literal here.
    have scanned := quoted.scan (by decide) rest
    generalize same : '"' :: (body ++ '"' :: rest) = chars at h'
    cases h' with
    | nil => cases same
    | @literal _ body' rest' spans' quoted' more' =>
      rw [List.tail_eq_of_cons_eq same, quoted'.scan (by decide)] at scanned
      obtain ⟨inside, rfl⟩ := Prod.mk.inj (Option.some.inj scanned)
      obtain rfl := List.append_cancel_right inside
      rw [ih more']
    | other apart =>
      obtain ⟨rfl, rfl⟩ := List.cons.inj same
      exact absurd ⟨body, rest, quoted, rfl⟩ (apart rfl)
  | @other offset c rest spans apart _ ih =>
    generalize same : c :: rest = chars at h'
    cases h' with
    | nil => cases same
    | @literal _ body _ _ quoted =>
      obtain ⟨rfl, rfl⟩ := List.cons.inj same
      exact absurd ⟨body, _, quoted, rfl⟩ (apart rfl)
    | other _ more' =>
      obtain ⟨rfl, rfl⟩ := List.cons.inj same
      exact ih more'

/-- Between the two offsets of each literal stands what may stand in one. -/
theorem exists_body (h : Recognised offset text spans) : ∀ span ∈ spans, ∃ place body after,
    span = (offset + place, offset + place + (body.length + 1)) ∧ IsQuoted '"' false body ∧
      text.drop place = '"' :: (body ++ '"' :: after) := by
  induction h with
  | nil => exact List.forall_mem_nil _
  | @literal offset body rest spans quoted _ ih =>
    refine List.forall_mem_cons.2 ⟨⟨0, body, rest, rfl, quoted, rfl⟩, fun span member => ?_⟩
    obtain ⟨place, body', after, rfl, quoted', there⟩ := ih span member
    refine ⟨body.length + 2 + place, body', after, ?_, quoted', ?_⟩
    · simp only [Nat.add_assoc]
    · have front : '"' :: (body ++ '"' :: rest) = ('"' :: (body ++ ['"'])) ++ rest := by simp
      have long : body.length + 2 = ('"' :: (body ++ ['"'])).length := by simp
      rw [front, ← List.drop_drop, List.drop_left' long.symm, there]
  | @other offset c rest spans _ _ ih =>
    intro span member
    obtain ⟨place, body, after, rfl, quoted, there⟩ := ih span member
    exact ⟨place + 1, body, after, by simp only [Nat.add_assoc, Nat.add_comm 1], quoted, there⟩

/-- No literal is recognised before the text. -/
theorem le_of_mem (h : Recognised offset text spans) : ∀ span ∈ spans, offset ≤ span.1 := by
  intro span member
  obtain ⟨place, body, after, rfl, -⟩ := h.exists_body span member
  exact Nat.le_add_right offset place

/-- Before the text there is no literal. -/
theorem not_isInside (h : Recognised offset text spans) {place : Nat} (le : place ≤ offset) :
    ¬ IsInside spans place := by
  rintro ⟨span, member, behind, -⟩
  exact absurd (h.le_of_mem span member) (by omega)

/-- Between its quotes a blanked literal has spaces. -/
theorem getElem?_blankedLiteral {body : List Char} {i : Nat} (inside : i < body.length + 2) :
    ('"' :: (List.replicate body.length ' ' ++ ['"']))[i]? =
      if 0 < i ∧ i < body.length + 1 then some ' ' else ('"' :: (body ++ ['"']))[i]? := by
  cases i with
  | zero => rfl
  | succ i =>
    rw [List.getElem?_cons_succ, List.getElem?_cons_succ]
    by_cases early : i < body.length
    · rw [if_pos (by omega), List.getElem?_append_left (by simpa using early),
        List.getElem?_replicate, if_pos early]
    · obtain rfl : i = body.length := by omega
      rw [if_neg (by omega), List.getElem?_append_right (by simp),
        List.getElem?_append_right (Nat.le_refl _)]
      simp

/-- Blanking writes spaces between the quotes of literals and changes nothing else. -/
theorem getElem?_blankChars (h : Recognised offset text spans) (i : Nat) :
    (blankChars text)[i]? = if IsInside spans (offset + i) then some ' ' else text[i]? := by
  induction h generalizing i with
  | nil => rw [blankChars, if_neg (by rintro ⟨_, ⟨⟩, _⟩)]
  | @literal offset body rest spans quoted more ih =>
    have inside : IsInside ((offset, offset + (body.length + 1)) :: spans) (offset + i) ↔
        0 < i ∧ i < body.length + 1 ∨ IsInside spans (offset + i) := by
      simp [IsInside]
    have long : ('"' :: (List.replicate body.length ' ' ++ ['"'])).length = body.length + 2 := by
      simp
    have long' : ('"' :: (body ++ ['"'])).length = body.length + 2 := by simp
    have blank : '"' :: (List.replicate body.length ' ' ++ '"' :: blankChars rest) =
        '"' :: (List.replicate body.length ' ' ++ ['"']) ++ blankChars rest := by simp
    have whole : '"' :: (body ++ '"' :: rest) = '"' :: (body ++ ['"']) ++ rest := by simp
    rw [blankChars_quoted quoted, blank, whole]
    -- The place is in this literal, where no later one begins, or behind it.
    by_cases early : i < body.length + 2
    · have apart : ¬ IsInside spans (offset + i) := more.not_isInside (by omega)
      rw [List.getElem?_append_left (by omega), List.getElem?_append_left (by omega),
        getElem?_blankedLiteral early]
      simp only [inside, apart, or_false]
    · obtain ⟨j, rfl⟩ : ∃ j, i = body.length + 2 + j := ⟨i - (body.length + 2), by omega⟩
      have behind : ¬ (0 < body.length + 2 + j ∧ body.length + 2 + j < body.length + 1) := by omega
      rw [List.getElem?_append_right (by omega), List.getElem?_append_right (by omega), long, long',
        Nat.add_sub_cancel_left, ih, Nat.add_assoc]
      simp only [inside, behind, false_or]
  | @other offset c rest spans apart more ih =>
    rw [blankChars_unopened apart]
    cases i with
    | zero => rw [if_neg (more.not_isInside (by omega))]; rfl
    | succ i =>
      rw [List.getElem?_cons_succ, List.getElem?_cons_succ, ih, Nat.add_assoc, Nat.add_comm 1]

/-- The blanked text has its literals where the text has them. -/
theorem blanked (h : Recognised offset text spans) : Recognised offset (blankChars text) spans := by
  induction h with
  | nil =>
    rw [blankChars]
    exact .nil
  | @literal offset body rest spans quoted _ ih =>
    have long : (List.replicate body.length ' ').length = body.length := List.length_replicate
    have spaces : IsQuoted '"' false (List.replicate body.length ' ') := by
      generalize body.length = count
      induction count with
      | zero => exact .nil
      | succ count more => exact .plain (by decide) more
    have whole := @Recognised.literal offset _ (blankChars rest) spans spaces (by rwa [long])
    rw [long] at whole
    rwa [blankChars_quoted quoted]
  | other apart _ ih =>
    rw [blankChars_unopened apart]
    refine .other (fun quote => ?_) ih
    exact scan_eq_none_iff.1 (scan_blankChars (scan_eq_none_iff.2 (apart quote)))

/-- What is neither a space nor a quote stands outside all literals, in the text as well. -/
theorem isClear_of_getElem? (h : Recognised offset text spans) {i : Nat} {c : Char}
    (there : (blankChars text)[i]? = some c) (solid : c ≠ ' ' ∧ c ≠ '"') :
    text[i]? = some c ∧ IsClear spans (offset + i) := by
  rw [h.getElem?_blankChars] at there
  split at there
  · exact absurd (Option.some.inj there).symm solid.1
  · next outside =>
    refine ⟨there, fun span member => ?_⟩
    have between : ¬ (span.1 < offset + i ∧ offset + i < span.2) := fun both =>
      outside ⟨span, member, both⟩
    obtain ⟨place, body, after, rfl, -, literal⟩ := h.exists_body span member
    dsimp only at between ⊢
    have quotes : ∀ j, j = 0 ∨ j = body.length + 1 → text[place + j]? = some '"' := by
      intro j quote
      rw [← List.getElem?_drop, literal]
      rcases quote with rfl | rfl
      · rfl
      · simp
    have first : i ≠ place := fun same => by
      have quote := quotes 0 (.inl rfl)
      rw [Nat.add_zero, ← same, there] at quote
      exact solid.2 (Option.some.inj quote)
    have last : i ≠ place + (body.length + 1) := fun same => by
      have quote := quotes _ (.inr rfl)
      rw [← same, there] at quote
      exact solid.2 (Option.some.inj quote)
    omega

end Recognised

/-- Blanking twice is blanking once. -/
theorem blankChars_blankChars (text : List Char) :
    blankChars (blankChars text) = blankChars text := by
  obtain ⟨spans, recognised⟩ := exists_recognised text 0
  refine List.ext_getElem? fun i => ?_
  rw [recognised.blanked.getElem?_blankChars, recognised.getElem?_blankChars]
  split <;> rfl

end InterfaceGen.Source.Literal
