import InterfaceGen.Proofs.Text.Matching

/-!
# What a pattern reads

`Reads p word rest kept`: before `word ++ rest`, the first way that `p` prefers and that leads to a
match goes through `word` and keeps `kept`, if only what has to follow `p` matches before `rest`.
`Rejects p text`: no way of `p` begins at the text. Both are put together along the pattern, and
neither asks for the place in the text.

`Within.stops` is the one fact about ways that are not preferred: a pattern whose characters are all
of one class cannot cross a character that is not.
-/

namespace InterfaceGen.Text.Pattern

variable {ι : Type}

/-- The pattern reads the word, with the captures `kept`, newest first, where `rest` follows. -/
def Reads (p : Pattern ι) (word rest : List Char) (kept : List (ι × List Char)) : Prop :=
  ∀ before offset captures next t,
    next ⟨word.getLast?.or before, rest, offset + word.length, kept ++ captures⟩ = some t →
    p.follow next ⟨before, word ++ rest, offset, captures⟩ = some t

/-- The pattern does not match at the beginning of the text, whatever follows it. -/
def Rejects (p : Pattern ι) (text : List Char) : Prop :=
  ∀ before offset captures next, p.follow next ⟨before, text, offset, captures⟩ = none

variable {p q : Pattern ι} {accept : Char → Bool} {word more rest : List Char}
  {kept later : List (ι × List Char)}

/-- The character before the place behind two words. -/
theorem getLast?_append_or (first second : List Char) (before : Option Char) :
    second.getLast?.or (first.getLast?.or before) = (first ++ second).getLast?.or before := by
  rw [List.getLast?_append, Option.or_assoc]

/-! ## Ways that match -/

namespace Reads

/-- Two texts are read one after the other. -/
theorem seq (first : Reads p word (more ++ rest) kept) (second : Reads q more rest later) :
    Reads (p ++ q) (word ++ more) rest (later ++ kept) := by
  intro before offset captures next t found
  rw [List.append_assoc, follow_seq]
  apply first
  apply second
  rw [getLast?_append_or, Nat.add_assoc, ← List.length_append, ← List.append_assoc]
  exact found

/-- A second part that keeps nothing. -/
theorem seq_bare (first : Reads p word (more ++ rest) kept) (second : Reads q more rest []) :
    Reads (p ++ q) (word ++ more) rest kept :=
  first.seq second

/-- A first part that keeps nothing. -/
theorem bare_seq (first : Reads p word (more ++ rest) []) (second : Reads q more rest kept) :
    Reads (p ++ q) (word ++ more) rest kept := by
  have both := first.seq second
  rwa [List.append_nil] at both

/-- Sequences may be bracketed in any way. -/
theorem assoc {r : Pattern ι} (h : Reads (p ++ (q ++ r)) word rest kept) :
    Reads (p ++ q ++ r) word rest kept :=
  h

theorem one {c : Char} (h : accept c = true) : Reads (.one accept : Pattern ι) [c] rest [] := by
  intro before offset captures next t found
  rw [List.singleton_append, follow_one_cons, if_pos h]
  exact found

/-- A word is read where it stands. -/
theorem exactly (text : List Char) : Reads (.exactly text : Pattern ι) text rest [] := by
  intro before offset captures next t found
  rw [follow_exactly]
  exact found

/-- A run goes as far as its characters do. -/
theorem run (inside : ∀ c ∈ word, accept c = true) (outside : ∀ c ∈ rest.head?, accept c = false) :
    Reads (.run accept : Pattern ι) word rest [] := by
  intro before offset captures next t found
  show (Cursor.runEnds accept captures before (word ++ rest) offset).reverse.findSome? next = _
  induction word generalizing before offset with
  | nil =>
    have here : next ⟨before, rest, offset, captures⟩ = some t := found
    cases rest with
    | nil => simp [Cursor.runEnds, here]
    | cons c rest =>
      have closed : accept c = false := outside c rfl
      simp [Cursor.runEnds, closed, here]
  | cons c word ih =>
    have opened : accept c = true := inside c (List.mem_cons_self ..)
    have longer := ih (fun d hd => inside d (List.mem_cons_of_mem _ hd)) (some c) (offset + 1) (by
      rw [← getLast?_cons_or, Nat.add_right_comm, Nat.add_assoc]
      exact found)
    rw [List.cons_append, Cursor.runEnds, if_pos opened, List.reverse_cons, List.findSome?_append,
      longer]
    rfl

/-- A run is read in all its length, up to what is not of the class. -/
theorem someRun (nonempty : word ≠ []) (inside : ∀ c ∈ word, accept c = true)
    (outside : ∀ c ∈ rest.head?, accept c = false) :
    Reads (.someRun accept : Pattern ι) word rest [] := by
  obtain ⟨c, word, rfl⟩ := List.exists_cons_of_ne_nil nonempty
  exact seq (one (inside c (List.mem_cons_self ..)))
    (run (fun d hd => inside d (List.mem_cons_of_mem _ hd)) outside)

/-- The first way is taken where it reads. -/
theorem either_left (h : Reads p word rest kept) : Reads (.either p q) word rest kept := by
  intro before offset captures next t found
  rw [follow_either, h before offset captures next t found, Option.some_or]

/-- The second is taken where the first rejects. -/
theorem either_right (off : Rejects p (word ++ rest)) (h : Reads q word rest kept) :
    Reads (.either p q) word rest kept := by
  intro before offset captures next t found
  rw [follow_either, off, Option.none_or]
  exact h before offset captures next t found

/-- What may be there is read where it is. -/
theorem optional_some (h : Reads p word rest kept) : Reads (.optional p) word rest kept := by
  intro before offset captures next t found
  rw [follow_optional, h before offset captures next t found, Option.some_or]

/-- Nothing is read where it is not. -/
theorem optional_none (off : Rejects p rest) : Reads (.optional p) [] rest [] := by
  intro before offset captures next t found
  rw [List.nil_append, follow_optional, off, Option.none_or]
  exact found

/-- What is captured is the text that is read. -/
theorem capture (name : ι) (h : Reads p word rest kept) :
    Reads (.capture name p) word rest ((name, word) :: kept) := by
  intro before offset captures next t found
  rw [follow_capture]
  apply h
  rw [Cursor.keepSince]
  simp only [Nat.add_sub_cancel_left, List.take_left']
  exact found

theorem finish : Reads (.finish : Pattern ι) [] [] [] := by
  intro before offset captures next t found
  rw [follow_finish, if_pos (.inl rfl)]
  exact found

/-- Where the pattern rejects, nothing is in the way. -/
theorem notFollowedBy (off : Rejects p rest) : Reads (.notFollowedBy p) [] rest [] := by
  intro before offset captures next t found
  rw [List.nil_append, follow_notFollowedBy, off]
  exact found

end Reads

/-- The text is a number of occurrences of the item, and `rest` does not begin with one. -/
inductive Repeats (p : Pattern ι) (rest : List Char) : List Char → Prop where
  | nil (stop : Rejects p rest) : Repeats p rest []
  | cons {word more : List Char} (nonempty : word ≠ []) (first : Reads p word (more ++ rest) [])
    (later : Repeats p rest more) : Repeats p rest (word ++ more)

/-- A repetition goes on behind all its items, if there is budget for them. -/
theorem Repeats.repeated (h : Repeats p rest word) {budget : List Char}
    (enough : word.length ≤ budget.length) {before : Option Char} {offset : Nat}
    {captures : List (ι × List Char)} {next : Cursor ι → Option (Cursor ι)} {t : Cursor ι}
    (found : next ⟨word.getLast?.or before, rest, offset + word.length, captures⟩ = some t) :
    repeated (fun k s => p.follow k s) next budget ⟨before, word ++ rest, offset, captures⟩ =
      some t := by
  -- Each item takes a character, so the budget is enough for all of them.
  induction h generalizing budget before offset with
  | nil stop =>
    cases budget with
    | nil => exact found
    | cons _ budget =>
      rw [Pattern.repeated, List.nil_append, stop]
      exact found
  | @cons word more nonempty first later ih =>
    have moved : 0 < word.length := List.length_pos_iff.2 nonempty
    cases budget with
    | nil =>
      rw [List.length_append, List.length_nil] at enough
      omega
    | cons _ budget =>
      rw [Pattern.repeated, List.append_assoc]
      have onward : p.follow (fun u => if offset < u.offset then
          Pattern.repeated (fun k s => p.follow k s) next budget u else none)
          ⟨before, word ++ (more ++ rest), offset, captures⟩ = some t := by
        apply first
        dsimp only
        rw [if_pos (by omega)]
        apply ih
        · rw [List.length_append, List.length_cons] at enough
          omega
        · rw [getLast?_append_or, Nat.add_assoc, ← List.length_append]
          exact found
      rw [onward]

/-- A repetition reads all its items. -/
theorem Reads.many (h : Repeats p rest word) : Reads (.many p) word rest [] := by
  intro before offset captures next t found
  rw [follow_many]
  apply h.repeated _ found
  rw [List.length_append]
  omega

/-- A shortest run stops at the first place from which what follows matches. -/
theorem follow_fewest {next : Cursor ι → Option (Cursor ι)} {captures : List (ι × List Char)}
    {t : Cursor ι} (inside : ∀ c ∈ word, accept c = true)
    (early : ∀ back, back ≠ [] → back <:+ word → ∀ before offset,
      next ⟨before, back ++ rest, offset, captures⟩ = none)
    (before : Option Char) (offset : Nat)
    (found : next ⟨word.getLast?.or before, rest, offset + word.length, captures⟩ = some t) :
    (fewest accept).follow next ⟨before, word ++ rest, offset, captures⟩ = some t := by
  show (Cursor.runEnds accept captures before (word ++ rest) offset).findSome? next = _
  induction word generalizing before offset with
  | nil =>
    have here : next ⟨before, rest, offset, captures⟩ = some t := found
    cases rest <;> simp [Cursor.runEnds, here]
  | cons c word ih =>
    have here := early (c :: word) (List.cons_ne_nil _ _) (List.suffix_refl _) before offset
    have later := ih (fun d hd => inside d (List.mem_cons_of_mem _ hd))
      (fun back nonempty suffix => early back nonempty (suffix.trans (List.suffix_cons c word)))
      (some c) (offset + 1) (by
        rw [← getLast?_cons_or, Nat.add_right_comm, Nat.add_assoc]
        exact found)
    rw [List.cons_append] at here ⊢
    rw [Cursor.runEnds, if_pos (inside c (List.mem_cons_self ..)), List.findSome?_cons, here]
    exact later

/-- A shortest run before a mark goes to the first one. -/
theorem Reads.fewest_mark {c : Char} (inside : ∀ d ∈ word, accept d = true) (first : c ∉ word) :
    Reads (.fewest accept ++ .exactly [c] : Pattern ι) (word ++ [c]) rest [] := by
  intro before offset captures next t found
  rw [List.append_assoc, follow_seq]
  refine follow_fewest inside (fun back nonempty suffix _ _ => ?_) before offset ?_
  · obtain ⟨d, back, rfl⟩ := List.exists_cons_of_ne_nil nonempty
    refine follow_exactly_of_head _ next _ c [] rfl fun e he => ?_
    cases he
    rintro rfl
    exact first (suffix.subset (List.mem_cons_self ..))
  · rw [List.singleton_append, follow_mark, ← found]
    simp [Nat.add_assoc]

/-- One item and then as many as possible are as many as possible. -/
theorem Repeats.reads_some (h : Repeats p rest word) (nonempty : word ≠ []) :
    Reads (p ++ .many p) word rest [] := by
  cases h with
  | nil => exact absurd rfl nonempty
  | cons _ first later => exact .seq first (.many later)

/-! ## Texts that do not match -/

namespace Rejects

variable {text : List Char}

/-- A sequence rejects what its first part rejects. -/
theorem seq (h : Rejects p text) (q : Pattern ι) : Rejects (p ++ q) text :=
  fun before offset captures next => h before offset captures fun t => q.follow next t

theorem one (h : ∀ c ∈ text.head?, accept c = false) : Rejects (.one accept : Pattern ι) text := by
  intro before offset captures next
  cases text with
  | nil => rfl
  | cons c rest => rw [follow_one_cons, h c rfl, if_neg Bool.false_ne_true]

theorem exactly {c : Char} (h : ∀ d ∈ text.head?, d ≠ c) (more : List Char) :
    Rejects (.exactly (c :: more) : Pattern ι) text :=
  fun _ _ _ next => follow_exactly_of_head _ next _ c more rfl h

/-- A word rejects a text that does not begin with it. -/
theorem of_not_begins {word : List Char} (h : ¬ word <+: text) :
    Rejects (.exactly word : Pattern ι) text :=
  fun _ _ _ next => follow_exactly_of_not_begins h next

/-- Both ways have to reject. -/
theorem either (left : Rejects p text) (right : Rejects q text) : Rejects (.either p q) text := by
  intro before offset captures next
  rw [follow_either, left, Option.none_or]
  exact right before offset captures next

theorem assoc {r : Pattern ι} (h : Rejects (p ++ (q ++ r)) text) : Rejects (p ++ q ++ r) text :=
  h

theorem either_seq {r : Pattern ι} (left : Rejects (p ++ r) text) (right : Rejects (q ++ r) text) :
    Rejects (.either p q ++ r) text := by
  intro before offset captures next
  rw [follow_seq, follow_either, ← follow_seq, left, Option.none_or]
  exact right before offset captures next

/-- What may be there rejects together with what follows it. -/
theorem optional_seq (hp : Rejects p text) (hq : Rejects q text) :
    Rejects (.optional p ++ q) text := by
  intro before offset captures next
  rw [follow_seq, follow_optional, hp, Option.none_or]
  exact hq _ _ _ _

theorem wordEdge_seq (h : Rejects q text) : Rejects (.wordEdge ++ q) text := by
  intro before offset captures next
  rw [follow_seq, follow_wordEdge]
  split
  · exact h _ _ _ _
  · rfl

/-- A word is gone over before what follows it rejects. -/
theorem exactly_seq (h : Rejects q rest) (word : List Char) :
    Rejects (.exactly word ++ q) (word ++ rest) := by
  intro before offset captures next
  rw [follow_seq, follow_exactly]
  exact h _ _ _ _

theorem capture (h : Rejects p text) (name : ι) : Rejects (.capture name p) text :=
  fun before offset captures _ => h before offset captures _

/-- A first character that stands here is taken off. -/
theorem exactly_cons_seq (h : Rejects (.exactly word ++ q) text) (c : Char) :
    Rejects (.exactly (c :: word) ++ q) (c :: text) := by
  intro before offset captures next
  by_cases here : word <+: text
  · obtain ⟨tail, rfl⟩ := here
    have behind := h (some c) (offset + 1) captures next
    rw [follow_seq, follow_exactly] at behind
    rw [follow_seq, ← List.cons_append, follow_exactly, getLast?_cons_or, List.length_cons,
      Nat.add_comm word.length 1, ← Nat.add_assoc]
    exact behind
  · have off : ¬ c :: word <+: c :: text := by
      rw [List.cons_prefix_cons]
      exact fun both => here both.2
    rw [follow_seq, follow_exactly_of_not_begins off]

/-- A run before a pattern that begins neither with a character of the run nor with what stands
behind the run. -/
theorem run (inside : ∀ c ∈ word, accept c = true) (outside : ∀ c ∈ rest.head?, accept c = false)
    (stop : ∀ c more, accept c = true → Rejects q (c :: more)) (off : Rejects q rest) :
    Rejects (.run accept ++ q) (word ++ rest) := by
  intro before offset captures next
  rw [follow_seq, follow_run (fun _ _ _ _ ha => stop _ _ ha _ _ _ _) inside outside]
  exact off _ _ _ _

/-- No run gets over a character that is not of the class to a mark behind it. -/
theorem fewest_mark {c d : Char} (first : c ∉ word) (other : d ≠ c) (closed : accept d = false) :
    Rejects (.fewest accept ++ .exactly [c] : Pattern ι) (word ++ d :: rest) := by
  intro before offset captures next
  have mark : ∀ before e more offset, e ≠ c →
      (Pattern.exactly [c]).follow next ⟨before, e :: more, offset, captures⟩ = none := by
    intro before e more offset other
    refine follow_exactly_of_head _ _ _ c [] rfl fun d hd => ?_
    cases hd
    exact other
  show (Cursor.runEnds accept captures before (word ++ d :: rest) offset).findSome?
    (fun t => (Pattern.exactly [c]).follow next t) = none
  induction word generalizing before offset with
  | nil => simp [Cursor.runEnds, closed, mark before d rest offset other]
  | cons e word ih =>
    simp only [List.mem_cons, not_or] at first
    rw [List.cons_append, Cursor.runEnds, List.findSome?_cons, mark _ _ _ _ (Ne.symm first.1)]
    by_cases accepted : accept e = true
    · rw [if_pos accepted]
      exact ih first.2 (some e) (offset + 1)
    · rw [if_neg accepted]
      rfl

/-- A run rejects where what follows it does so at each of its ends. -/
theorem someRun (nonempty : word ≠ []) (inside : ∀ c ∈ word, accept c = true)
    (outside : ∀ c ∈ rest.head?, accept c = false)
    (stop : ∀ c more, accept c = true → Rejects q (c :: more)) (off : Rejects q rest) :
    Rejects (.someRun accept ++ q) (word ++ rest) := by
  obtain ⟨c, word, rfl⟩ := List.exists_cons_of_ne_nil nonempty
  have behind := run (fun d hd => inside d (List.mem_cons_of_mem _ hd)) outside stop off
  intro before offset captures next
  rw [Pattern.someRun, List.cons_append, follow_seq, follow_seq, follow_one_cons,
    if_pos (inside c (List.mem_cons_self ..))]
  exact behind _ _ _ _

end Rejects

/-! ## Ways that are not preferred -/

/-- All characters that the pattern can take are of the class. -/
def Within (inside : Char → Bool) : Pattern ι → Prop
  | one accept | run accept | fewest accept => ∀ c, accept c = true → inside c = true
  | exactly text => ∀ c ∈ text, inside c = true
  | seq p q | either p q => p.Within inside ∧ q.Within inside
  | optional p | many p | capture _ p => p.Within inside
  | wordEdge | lineStart | finish | followedBy _ | notFollowedBy _ => True

/-- Nothing matches that begins before `wall` with characters of the class, or none. -/
def Stops (inside : Char → Bool) (wall : List Char) (next : Cursor ι → Option (Cursor ι)) : Prop :=
  ∀ before word offset captures, (∀ c ∈ word, inside c = true) →
    next ⟨before, word ++ wall, offset, captures⟩ = none

section Stops

variable {inside : Char → Bool} {wall : List Char} {next : Cursor ι → Option (Cursor ι)}

/-- A run cannot leave the class either. -/
theorem Stops.eq_none_of_mem_runEnds (h : Stops inside wall next)
    (part : ∀ c, accept c = true → inside c = true)
    (closed : ∀ c ∈ wall.head?, inside c = false) {captures : List (ι × List Char)} :
    ∀ {word before offset}, (∀ c ∈ word, inside c = true) →
      ∀ s ∈ Cursor.runEnds accept captures before (word ++ wall) offset, next s = none := by
  intro word
  induction word with
  | nil =>
    intro before offset all s hs
    -- At the wall the run ends, and what follows stops there.
    have here : next ⟨before, wall, offset, captures⟩ = none := h before [] offset captures all
    cases wall with
    | nil =>
      rw [List.nil_append, Cursor.runEnds, List.mem_singleton] at hs
      rw [hs]
      exact here
    | cons c wall =>
      have stop : ¬ accept c = true := fun opened => by
        have outside := closed c rfl
        rw [part c opened] at outside
        exact Bool.noConfusion outside
      rw [List.nil_append, Cursor.runEnds, if_neg stop, List.mem_singleton] at hs
      rw [hs]
      exact here
  | cons c word ih =>
    intro before offset all s hs
    rw [List.cons_append, Cursor.runEnds, List.mem_cons] at hs
    rcases hs with rfl | hs
    · exact h before (c :: word) offset captures all
    · split at hs
      · exact ih (fun d hd => all d (List.mem_cons_of_mem _ hd)) s hs
      · cases hs

/-- The search stops at a wall whose character is not of the class. -/
theorem Stops.one (h : Stops inside wall next) (part : ∀ c, accept c = true → inside c = true)
    (closed : ∀ c ∈ wall.head?, inside c = false) :
    Stops inside wall ((Pattern.one accept).follow next) := by
  intro before word offset captures all
  cases word with
  | nil =>
    refine Rejects.one (fun c hc => ?_) before offset captures next
    apply Bool.eq_false_iff.2
    intro opened
    have outside := closed c hc
    rw [part c opened] at outside
    exact Bool.noConfusion outside
  | cons c word =>
    rw [List.cons_append, follow_one_cons]
    split
    · exact h _ word _ _ fun d hd => all d (List.mem_cons_of_mem _ hd)
    · rfl

/-- So it does before a word without the characters of the wall. -/
theorem Stops.exactly (h : Stops inside wall next) {text : List Char}
    (part : ∀ c ∈ text, inside c = true) (closed : ∀ c ∈ wall.head?, inside c = false) :
    Stops inside wall ((Pattern.exactly text).follow next) := by
  intro before word offset captures all
  by_cases here : text <+: word ++ wall
  · obtain ⟨tail, same⟩ := here
    obtain ⟨more, rfl⟩ : text <+: word := by
      rcases List.append_eq_append_iff.1 same with ⟨back, rfl, -⟩ | ⟨back, rfl, rest⟩
      · exact List.prefix_append _ _
      · cases back with
        | nil => exact ⟨[], by simp⟩
        | cons c back =>
          have outside := closed c (by rw [rest]; rfl)
          rw [part c (by simp)] at outside
          exact Bool.noConfusion outside
    rw [List.append_assoc, follow_exactly]
    exact h _ more _ _ fun c hc => all c (List.mem_append_right _ hc)
  · exact follow_exactly_of_not_begins here next

/-- A repetition stops if each of its items does. -/
theorem Stops.repeated (h : Stops inside wall next)
    {step : (Cursor ι → Option (Cursor ι)) → Cursor ι → Option (Cursor ι)}
    (ih : ∀ k, Stops inside wall k → Stops inside wall (step k)) (budget : List Char) :
    Stops inside wall (Pattern.repeated step next budget) := by
  induction budget with
  | nil => exact h
  | cons _ budget longer =>
    intro before word offset captures all
    have onward : Stops inside wall fun t =>
        if offset < t.offset then Pattern.repeated step next budget t else none := by
      intro before' word' offset' captures' all'
      dsimp only
      split
      · exact longer before' word' offset' captures' all'
      · rfl
    rw [Pattern.repeated, ih _ onward before word offset captures all]
    exact h before word offset captures all

/-- A pattern that takes only characters of the class does not get past the wall. -/
theorem Within.stops (h : p.Within inside) (closed : ∀ c ∈ wall.head?, inside c = false)
    (stops : Stops inside wall next) : Stops inside wall (p.follow next) := by
  induction p generalizing next with
  | one accept => exact stops.one h closed
  | exactly text => exact stops.exactly h closed
  | seq p q hp hq => exact hp h.1 (hq h.2 stops)
  | either p q hp hq =>
    intro before word offset captures all
    rw [follow_either, hp h.1 stops before word offset captures all, Option.none_or]
    exact hq h.2 stops before word offset captures all
  | optional p hp =>
    intro before word offset captures all
    rw [follow_optional, hp h stops before word offset captures all, Option.none_or]
    exact stops before word offset captures all
  | run accept =>
    intro before word offset captures all
    refine List.findSome?_eq_none_iff.2 fun s hs => ?_
    exact stops.eq_none_of_mem_runEnds h closed all s (List.mem_reverse.1 hs)
  | fewest accept =>
    intro before word offset captures all
    exact List.findSome?_eq_none_iff.2 fun s hs => stops.eq_none_of_mem_runEnds h closed all s hs
  | many p hp =>
    intro before word offset captures all
    exact stops.repeated (fun k hk => hp h hk) _ before word offset captures all
  | capture name p hp =>
    intro before word offset captures all
    refine hp h (fun before' word' offset' captures' all' => ?_) before word offset captures all
    exact stops before' word' offset' _ all'
  | wordEdge | lineStart | finish | followedBy | notFollowedBy =>
    intro before word offset captures all
    rw [follow]
    split
    all_goals first | rfl | exact stops before word offset captures all

end Stops

end InterfaceGen.Text.Pattern
