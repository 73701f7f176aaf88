import InterfaceGen.Proofs.Text.Reads
import InterfaceGen.Proofs.Text.Trimming

/-!
# What a match consists of

`Matches p word kept`: somewhere the pattern can take the word, with the captures `kept`. Which way is
preferred and what has to stand around is left out, so it holds of everything that a search finds,
`matches_of_mem_occurrences`. By induction on it, what is captured stands in the text and is made of
the characters that the pattern names.
-/

namespace InterfaceGen.Text

variable {ι : Type}

/-- The second place is behind the word, and `kept` was captured on the way to it. -/
structure Cursor.Passes (s m : Cursor ι) (word : List Char) (kept : List (ι × List Char)) :
    Prop where
  rest : s.rest = word ++ m.rest
  offset : m.offset = s.offset + word.length
  captures : m.captures = kept ++ s.captures
  before : m.before = word.getLast?.or s.before

namespace Cursor.Passes

variable {s m t : Cursor ι} {word more : List Char} {kept later : List (ι × List Char)}

theorem refl (s : Cursor ι) : s.Passes s [] [] :=
  ⟨rfl, rfl, rfl, rfl⟩

/-- One way behind another is a way over both texts. -/
theorem trans (first : s.Passes m word kept) (second : m.Passes t more later) :
    s.Passes t (word ++ more) (later ++ kept) where
  rest := by rw [first.rest, second.rest, List.append_assoc]
  offset := by rw [second.offset, first.offset, List.length_append, Nat.add_assoc]
  captures := by rw [second.captures, first.captures, List.append_assoc]
  before := by rw [second.before, first.before, Pattern.getLast?_append_or]

/-- A text that is kept is the word that was passed. -/
theorem keepSince (h : s.Passes m word kept) (name : ι) :
    s.Passes (s.keepSince name m) word ((name, word) :: kept) where
  rest := h.rest
  offset := h.offset
  captures := by
    have long : m.offset - s.offset = word.length := by
      rw [h.offset]
      omega
    rw [Cursor.keepSince, h.captures, long, h.rest, List.take_left]
    rfl
  before := h.before

end Cursor.Passes

/-- The ends of a run are behind characters of its class. -/
theorem Cursor.passes_of_mem_runEnds {accept : Char → Bool} {captures : List (ι × List Char)}
    {before : Option Char} {rest : List Char} {offset : Nat} {m : Cursor ι}
    (h : m ∈ runEnds accept captures before rest offset) :
    ∃ word, (⟨before, rest, offset, captures⟩ : Cursor ι).Passes m word [] ∧
      ∀ c ∈ word, accept c = true := by
  induction rest generalizing before offset with
  | nil =>
    obtain rfl := List.mem_singleton.1 h
    exact ⟨[], .refl _, List.forall_mem_nil _⟩
  | cons c rest ih =>
    rw [runEnds, List.mem_cons] at h
    rcases h with rfl | h
    · exact ⟨[], .refl _, List.forall_mem_nil _⟩
    · split at h
      · next accepted =>
        obtain ⟨word, ⟨behind, moved, kept, last⟩, inside⟩ := ih h
        refine ⟨c :: word, ⟨congrArg (c :: ·) behind, ?_, kept, ?_⟩,
          List.forall_mem_cons.2 ⟨accepted, inside⟩⟩
        · rw [moved, List.length_cons, Nat.add_assoc, Nat.add_comm 1]
        · rw [last, Pattern.getLast?_cons_or]
      · cases h

namespace Pattern

/-- The words that a pattern can take, each with what is captured on the way, newest first. -/
inductive Matches : Pattern ι → List Char → List (ι × List Char) → Prop where
  | one {accept : Char → Bool} {c : Char} (h : accept c = true) : Matches (one accept) [c] []
  | exactly (text : List Char) : Matches (exactly text) text []
  | seq {p q : Pattern ι} {word more : List Char} {kept later : List (ι × List Char)}
    (first : Matches p word kept) (second : Matches q more later) :
    Matches (seq p q) (word ++ more) (later ++ kept)
  | left {p q : Pattern ι} {word : List Char} {kept : List (ι × List Char)}
    (h : Matches p word kept) : Matches (either p q) word kept
  | right {p q : Pattern ι} {word : List Char} {kept : List (ι × List Char)}
    (h : Matches q word kept) : Matches (either p q) word kept
  | taken {p : Pattern ι} {word : List Char} {kept : List (ι × List Char)}
    (h : Matches p word kept) : Matches (optional p) word kept
  | omitted (p : Pattern ι) : Matches (optional p) [] []
  | run {accept : Char → Bool} {word : List Char} (h : ∀ c ∈ word, accept c = true) :
    Matches (run accept) word []
  | fewest {accept : Char → Bool} {word : List Char} (h : ∀ c ∈ word, accept c = true) :
    Matches (fewest accept) word []
  | done (p : Pattern ι) : Matches (many p) [] []
  | again {p : Pattern ι} {word more : List Char} {kept later : List (ι × List Char)}
    (first : Matches p word kept) (rest : Matches (many p) more later) :
    Matches (many p) (word ++ more) (later ++ kept)
  | capture (name : ι) {p : Pattern ι} {word : List Char} {kept : List (ι × List Char)}
    (h : Matches p word kept) : Matches (capture name p) word ((name, word) :: kept)
  | wordEdge : Matches wordEdge [] []
  | lineStart : Matches lineStart [] []
  | finish : Matches finish [] []
  | followedBy (p : Pattern ι) : Matches (followedBy p) [] []
  | notFollowedBy (p : Pattern ι) : Matches (notFollowedBy p) [] []

/-- How a sequence is put in brackets makes no difference. -/
theorem Matches.assoc {p q r : Pattern ι} {word : List Char} {kept : List (ι × List Char)}
    (h : (p ++ q ++ r).Matches word kept) : (p ++ (q ++ r)).Matches word kept := by
  cases h with
  | @seq _ _ _ _ _ last h third =>
    cases h with
    | seq first second =>
      rw [List.append_assoc, ← List.append_assoc last]
      exact .seq first (.seq second third)

/-! ## Matches that are found -/

/-- What a way of a pattern passes before something else goes on. -/
def Goes (p : Pattern ι) (next : Cursor ι → Option (Cursor ι)) (s t : Cursor ι) : Prop :=
  ∃ word kept m, s.Passes m word kept ∧ p.Matches word kept ∧ next m = some t

/-- A repetition goes on behind some of its items. -/
theorem goes_of_repeated {p : Pattern ι}
    (ih : ∀ next s t, p.follow next s = some t → p.Goes next s t)
    {next : Cursor ι → Option (Cursor ι)} {budget : List Char} {s t : Cursor ι}
    (h : repeated (fun k u => p.follow k u) next budget s = some t) :
    (many p).Goes next s t := by
  induction budget generalizing s with
  | nil => exact ⟨[], [], s, .refl s, .done p, h⟩
  | cons _ budget more =>
    rw [repeated] at h
    split at h
    · next u found =>
      obtain ⟨word, kept, m, passes, matched, onward⟩ := ih _ s u found
      dsimp only at onward
      split at onward
      · cases h
        obtain ⟨word', kept', m', passes', matched', last⟩ := more onward
        exact ⟨_, _, m', passes.trans passes', .again matched matched', last⟩
      · cases onward
    · exact ⟨[], [], s, .refl s, .done p, h⟩

/-- A search that succeeds goes over a text that matches, and goes on behind it. -/
theorem exists_matches_of_follow (p : Pattern ι) (next : Cursor ι → Option (Cursor ι))
    (s t : Cursor ι) (h : p.follow next s = some t) : p.Goes next s t := by
  -- By recursion on the pattern, for every continuation: a sequence goes on with its second part.
  induction p generalizing next s t with
  | one accept =>
    rw [follow] at h
    split at h
    · cases h
    · next c rest here =>
      split at h
      · next accepted =>
        have passes : s.Passes ⟨some c, rest, s.offset + 1, s.captures⟩ [c] [] :=
          ⟨here, rfl, rfl, rfl⟩
        exact ⟨[c], [], _, passes, .one accepted, h⟩
      · cases h
  | exactly text =>
    rw [follow, Cursor.take?] at h
    split at h
    · next here =>
      obtain ⟨rest, same⟩ := List.isPrefixOf_iff_prefix.1 here
      have passes : s.Passes ⟨text.getLast?.or s.before, s.rest.drop text.length,
          s.offset + text.length, s.captures⟩ text [] :=
        ⟨by rw [← same, List.drop_left], rfl, rfl, rfl⟩
      exact ⟨text, [], _, passes, .exactly text, h⟩
    · cases h
  | seq p q hp hq =>
    obtain ⟨word, kept, m, passes, matched, onward⟩ := hp _ s t h
    obtain ⟨word', kept', m', passes', matched', last⟩ := hq _ m t onward
    exact ⟨_, _, m', passes.trans passes', .seq matched matched', last⟩
  | either p q hp hq =>
    rw [follow] at h
    split at h
    · next u found =>
      cases h
      obtain ⟨word, kept, m, passes, matched, onward⟩ := hp _ s t found
      exact ⟨word, kept, m, passes, .left matched, onward⟩
    · obtain ⟨word, kept, m, passes, matched, onward⟩ := hq _ s t h
      exact ⟨word, kept, m, passes, .right matched, onward⟩
  | optional p hp =>
    rw [follow] at h
    split at h
    · next u found =>
      cases h
      obtain ⟨word, kept, m, passes, matched, onward⟩ := hp _ s t found
      exact ⟨word, kept, m, passes, .taken matched, onward⟩
    · exact ⟨[], [], s, .refl s, .omitted p, h⟩
  | run accept =>
    obtain ⟨m, hm, onward⟩ := List.exists_of_findSome?_eq_some h
    obtain ⟨word, passes, inside⟩ := Cursor.passes_of_mem_runEnds (List.mem_reverse.1 hm)
    exact ⟨word, [], m, passes, .run inside, onward⟩
  | fewest accept =>
    obtain ⟨m, hm, onward⟩ := List.exists_of_findSome?_eq_some h
    obtain ⟨word, passes, inside⟩ := Cursor.passes_of_mem_runEnds hm
    exact ⟨word, [], m, passes, .fewest inside, onward⟩
  | many p hp => exact goes_of_repeated hp h
  | capture name p hp =>
    obtain ⟨word, kept, m, passes, matched, onward⟩ := hp _ s t h
    exact ⟨word, _, _, passes.keepSince name, .capture name matched, onward⟩
  | wordEdge | lineStart | finish | followedBy | notFollowedBy =>
    rw [follow] at h
    split at h
    all_goals
      first
      | cases h
      | exact ⟨[], [], s, .refl s, by constructor, h⟩

/-- A run goes at least as far as to a place from which what follows matches. -/
theorem exists_follow_run {accept : Char → Bool} {next : Cursor ι → Option (Cursor ι)}
    {captures : List (ι × List Char)} {word rest : List Char}
    (inside : ∀ c ∈ word, accept c = true) (before : Option Char) (offset : Nat)
    (found : (next ⟨word.getLast?.or before, rest, offset + word.length, captures⟩).isSome) :
    ∃ m more, (⟨before, word ++ rest, offset, captures⟩ : Cursor ι).Passes m (word ++ more) [] ∧
      (next m).isSome ∧
      (run accept).follow next ⟨before, word ++ rest, offset, captures⟩ = next m := by
  have unfolded : ∀ before rest offset,
      (run accept).follow next ⟨before, rest, offset, captures⟩ =
        (Cursor.runEnds accept captures before rest offset).reverse.findSome? next :=
    fun _ _ _ => rfl
  induction word generalizing before offset with
  | nil =>
    -- The place itself is one of the ends, so one of them is found.
    have here : ⟨before, rest, offset, captures⟩ ∈
        (Cursor.runEnds accept captures before rest offset).reverse := by
      rw [List.mem_reverse]
      cases rest <;> simp [Cursor.runEnds]
    have some : ((Cursor.runEnds accept captures before rest offset).reverse.findSome? next).isSome :=
      List.findSome?_isSome_iff.2 ⟨_, here, found⟩
    obtain ⟨t, first⟩ := Option.isSome_iff_exists.1 some
    obtain ⟨m, hm, last⟩ := List.exists_of_findSome?_eq_some first
    obtain ⟨more, passes, -⟩ := Cursor.passes_of_mem_runEnds (List.mem_reverse.1 hm)
    refine ⟨m, more, passes, by rw [last]; rfl, ?_⟩
    rw [List.nil_append, unfolded, first, last]
  | cons c word ih =>
    obtain ⟨accepted, inside⟩ := List.forall_mem_cons.1 inside
    rw [getLast?_cons_or, List.length_cons, Nat.add_comm word.length, ← Nat.add_assoc] at found
    obtain ⟨m, more, ⟨behind, moved, kept, last⟩, some, same⟩ :=
      ih inside (some c) (offset + 1) found
    refine ⟨m, more, ⟨congrArg (c :: ·) behind, ?_, kept, ?_⟩, some, ?_⟩
    · simp only [moved, List.length_append, List.length_cons]
      omega
    · rw [last, List.cons_append, getLast?_cons_or]
    · rw [unfolded] at same
      rw [unfolded, List.cons_append, Cursor.runEnds, if_pos accepted, List.reverse_cons,
        List.findSome?_append, same]
      obtain ⟨t, ht⟩ := Option.isSome_iff_exists.1 some
      rw [ht, Option.some_or]

/-- Where the pattern or what follows it matches, the optional pattern does. -/
theorem isSome_follow_optional {p : Pattern ι} {next : Cursor ι → Option (Cursor ι)} {s : Cursor ι}
    (h : (p.follow next s).isSome ∨ (next s).isSome) : ((optional p).follow next s).isSome := by
  rw [follow_optional, Option.isSome_or, Bool.or_eq_true]
  exact h

/-- Nothing is captured in the pattern. -/
def Silent : Pattern ι → Prop
  | capture _ _ => False
  | seq p q | either p q => p.Silent ∧ q.Silent
  | optional p | many p => p.Silent
  | one _ | exactly _ | run _ | fewest _ | wordEdge | lineStart | finish | followedBy _
  | notFollowedBy _ => True

/-- A silent pattern captures nothing. -/
theorem Matches.eq_nil_of_silent {p : Pattern ι} {word : List Char} {kept : List (ι × List Char)}
    (h : p.Matches word kept) (silent : p.Silent) : kept = [] := by
  induction h with
  | seq _ _ first second => rw [first silent.1, second silent.2, List.append_nil]
  | left _ ih => exact ih silent.1
  | right _ ih => exact ih silent.2
  | taken _ ih => exact ih silent
  | again _ _ first rest => rw [first silent, rest silent, List.append_nil]
  | capture => exact silent.elim
  | one | exactly | run | fewest | omitted | done | wordEdge | lineStart | finish | followedBy
  | notFollowedBy => rfl

/-- A pattern that captures nothing leaves the captures as they are. -/
theorem captures_of_silent {p : Pattern ι} {s t : Cursor ι} (silent : p.Silent)
    (h : p.follow some s = some t) : t.captures = s.captures := by
  obtain ⟨word, kept, m, passes, matched, same⟩ := exists_matches_of_follow p some s t h
  cases same
  rw [passes.captures, matched.eq_nil_of_silent silent, List.nil_append]

/-- A match goes over a text that matches. -/
theorem matches_of_matchAt {p : Pattern ι} {s t : Cursor ι} (h : p.matchAt s = some t) :
    ∃ word kept, s.Passes t word kept ∧ p.Matches word kept := by
  obtain ⟨word, kept, m, passes, matched, same⟩ := exists_matches_of_follow p some s t h
  cases same
  exact ⟨word, kept, passes, matched⟩

/-- An occurrence is a match, and its text stands at its place in the text that was searched. -/
theorem matches_of_mem_piecesFrom {p : Pattern ι} {o : Occurrence ι} {skip : Nat}
    {before : Option Char} {text : List Char} {offset : Nat}
    (h : .occurrence o ∈ p.piecesFrom skip before text offset) :
    (∃ place, o.start = offset + place ∧ o.text <+: text.drop place ∧
      o.stop = o.start + o.text.length) ∧ p.Matches o.text o.captures := by
  induction text generalizing skip before offset with
  | nil => simp [piecesFrom] at h
  | cons c rest ih =>
    -- What is found behind this character stands one place further on in the whole text.
    have later : ∀ {skip before}, .occurrence o ∈ p.piecesFrom skip before rest (offset + 1) →
        (∃ place, o.start = offset + place ∧ o.text <+: (c :: rest).drop place ∧
          o.stop = o.start + o.text.length) ∧ p.Matches o.text o.captures := by
      intro skip before h
      obtain ⟨⟨place, start, there, stop⟩, matched⟩ := ih h
      exact ⟨⟨place + 1, by omega, there, stop⟩, matched⟩
    cases skip with
    | succ skip => exact later h
    | zero =>
      rw [piecesFrom] at h
      split at h
      · next t found =>
        obtain ⟨word, kept, ⟨behind, moved, captured, -⟩, matched⟩ := matches_of_matchAt found
        dsimp only at behind moved captured
        split at h
        · rcases List.mem_cons.1 h with same | h
          · cases same
            have long : t.offset - offset = word.length := by
              rw [moved]
              omega
            have text : (c :: rest).take (t.offset - offset) = word := by
              rw [long, behind, List.take_left]
            dsimp only
            rw [text, captured, List.append_nil, moved]
            exact ⟨⟨0, rfl, ⟨t.rest, behind.symm⟩, rfl⟩, matched⟩
          · exact later h
        · exact later ((List.mem_cons.1 h).resolve_left nofun)
      · exact later ((List.mem_cons.1 h).resolve_left nofun)

theorem mem_occurrences {p : Pattern ι} {text : List Char} {o : Occurrence ι} :
    o ∈ p.occurrences text ↔ .occurrence o ∈ p.pieces text := by
  rw [occurrences, List.mem_filterMap]
  constructor
  · rintro ⟨piece, member, kept⟩
    cases piece with
    | plain c => cases kept
    | occurrence other =>
      cases kept
      exact member
  · exact fun member => ⟨_, member, rfl⟩

/-- An occurrence stands at its place in the text, and matches. -/
theorem facts_of_mem_occurrences {p : Pattern ι} {o : Occurrence ι} {text : List Char}
    (h : o ∈ p.occurrences text) :
    (o.text <+: text.drop o.start ∧ o.stop = o.start + o.text.length) ∧
      p.Matches o.text o.captures := by
  obtain ⟨⟨place, start, there⟩, matched⟩ := matches_of_mem_piecesFrom (mem_occurrences.1 h)
  rw [Nat.zero_add] at start
  rw [← start] at there
  exact ⟨there, matched⟩

theorem matches_of_mem_occurrences {p : Pattern ι} {o : Occurrence ι} {text : List Char}
    (h : o ∈ p.occurrences text) : o.text <:+: text ∧ p.Matches o.text o.captures := by
  obtain ⟨⟨there, -⟩, matched⟩ := facts_of_mem_occurrences h
  exact ⟨there.isInfix.trans (List.drop_suffix _ _).isInfix, matched⟩

/-! ## Places of what is found -/

/-- What is found behind the first `skip` characters begins there at the earliest, and is not
empty. -/
theorem places_of_mem_piecesFrom {p : Pattern ι} {o : Occurrence ι} {skip : Nat}
    {before : Option Char} {text : List Char} {offset : Nat}
    (h : .occurrence o ∈ p.piecesFrom skip before text offset) :
    offset + skip ≤ o.start ∧ o.start < o.stop := by
  induction text generalizing skip before offset with
  | nil => simp [piecesFrom] at h
  | cons c rest ih =>
    cases skip with
    | succ skip =>
      have later := ih h
      omega
    | zero =>
      rw [piecesFrom] at h
      split at h
      · split at h
        · next onward =>
          rcases List.mem_cons.1 h with same | h
          · cases same
            exact ⟨Nat.le_refl _, onward⟩
          · have later := ih h
            omega
        · have later := ih ((List.mem_cons.1 h).resolve_left nofun)
          omega
      · have later := ih ((List.mem_cons.1 h).resolve_left nofun)
        omega

/-- No occurrence is empty. -/
theorem start_lt_stop_of_mem_occurrences {p : Pattern ι} {o : Occurrence ι} {text : List Char}
    (h : o ∈ p.occurrences text) : o.start < o.stop :=
  (places_of_mem_piecesFrom (mem_occurrences.1 h)).2

/-- Occurrences do not overlap, and are found from left to right. -/
theorem pairwise_piecesFrom (p : Pattern ι) (skip : Nat) (before : Option Char) (text : List Char)
    (offset : Nat) : (p.piecesFrom skip before text offset).Pairwise fun first second =>
      ∀ o o', first = .occurrence o → second = .occurrence o' → o.stop ≤ o'.start := by
  induction text generalizing skip before offset with
  | nil => simp [piecesFrom]
  | cons c rest ih =>
    have plain : ∀ (c : Char) (piece : Piece ι) (o o' : Occurrence ι),
        Piece.plain c = .occurrence o → piece = .occurrence o' → o.stop ≤ o'.start := nofun
    cases skip with
    | succ skip => exact ih skip (some c) (offset + 1)
    | zero =>
      rw [piecesFrom]
      split
      · split
        · next t found onward =>
          refine List.pairwise_cons.2 ⟨?_, ih _ _ _⟩
          rintro _ member o o' same rfl
          cases same
          have behind := (places_of_mem_piecesFrom member).1
          dsimp only
          omega
        · exact List.pairwise_cons.2 ⟨fun _ _ => plain c _, ih _ _ _⟩
      · exact List.pairwise_cons.2 ⟨fun _ _ => plain c _, ih _ _ _⟩

/-- Of two occurrences the first ends before the second begins. -/
theorem pairwise_occurrences (p : Pattern ι) (text : List Char) :
    (p.occurrences text).Pairwise fun o o' => o.stop ≤ o'.start := by
  rw [occurrences, List.pairwise_filterMap]
  refine (pairwise_piecesFrom p 0 none text 0).imp fun {first second} apart o kept o' kept' => ?_
  cases first with
  | plain => cases kept
  | occurrence =>
    cases second with
    | plain => cases kept'
    | occurrence =>
      cases kept
      cases kept'
      exact apart o o' rfl rfl

/-! ## Outside of what is found -/

/-- What is outside all occurrences stands in the text. -/
theorem mem_of_plain_mem_piecesFrom {p : Pattern ι} {d : Char} {skip : Nat}
    {before : Option Char} {text : List Char} {offset : Nat}
    (h : .plain d ∈ p.piecesFrom skip before text offset) : d ∈ text := by
  induction text generalizing skip before offset with
  | nil => simp [piecesFrom] at h
  | cons c rest ih =>
    have first : ∀ {skip before offset},
        .plain d ∈ Piece.plain c :: p.piecesFrom skip before rest offset → d ∈ c :: rest := by
      intro skip before offset h
      rcases List.mem_cons.1 h with same | h
      · cases same
        exact List.mem_cons_self ..
      · exact List.mem_cons_of_mem _ (ih h)
    cases skip with
    | succ skip => exact List.mem_cons_of_mem _ (ih h)
    | zero =>
      rw [piecesFrom] at h
      split at h
      · split at h
        · exact List.mem_cons_of_mem _ (ih ((List.mem_cons.1 h).resolve_left nofun))
        · exact first h
      · exact first h

theorem mem_of_mem_erase {p : Pattern ι} {text : List Char} {d : Char} (h : d ∈ p.erase text) :
    d ∈ text := by
  obtain ⟨piece, hp, kept⟩ := List.mem_filterMap.1 h
  cases piece with
  | plain c =>
    cases kept
    exact mem_of_plain_mem_piecesFrom hp
  | occurrence o => cases kept

/-! ## Characters of matches -/

@[simp] theorem within_append {p q : Pattern ι} {inside : Char → Bool} :
    (p ++ q).Within inside ↔ p.Within inside ∧ q.Within inside :=
  Iff.rfl

/-- All characters that are captured under a name are of the class of this name. -/
def CapturesWithin (inside : ι → Char → Bool) : Pattern ι → Prop
  | capture name p => p.Within (inside name) ∧ p.CapturesWithin inside
  | seq p q | either p q => p.CapturesWithin inside ∧ q.CapturesWithin inside
  | optional p | many p => p.CapturesWithin inside
  | one _ | exactly _ | run _ | fewest _ | wordEdge | lineStart | finish | followedBy _
  | notFollowedBy _ => True

@[simp] theorem capturesWithin_append {p q : Pattern ι} {inside : ι → Char → Bool} :
    (p ++ q).CapturesWithin inside ↔ p.CapturesWithin inside ∧ q.CapturesWithin inside :=
  Iff.rfl

@[simp] theorem capturesWithin_orElse {p q : Pattern ι} {inside : ι → Char → Bool} :
    (p <|> q).CapturesWithin inside ↔ p.CapturesWithin inside ∧ q.CapturesWithin inside :=
  Iff.rfl

namespace Matches

variable {p : Pattern ι} {word : List Char} {kept : List (ι × List Char)}

/-- All that matches keeps to the class, where all parts of the pattern do. -/
theorem within {inside : Char → Bool} (h : p.Matches word kept) (part : p.Within inside) :
    ∀ c ∈ word, inside c = true := by
  induction h with
  | one h => simpa using part _ h
  | exactly => exact part
  | seq _ _ first second =>
    exact List.forall_mem_append.2 ⟨first part.1, second part.2⟩
  | left _ ih => exact ih part.1
  | right _ ih => exact ih part.2
  | taken _ ih | capture _ _ ih => exact ih part
  | run h | fewest h => exact fun c hc => part c (h c hc)
  | again _ _ first rest => exact List.forall_mem_append.2 ⟨first part, rest part⟩
  | omitted | done | wordEdge | lineStart | finish | followedBy | notFollowedBy =>
    exact List.forall_mem_nil _

/-- All that is captured keeps to the class of its name. -/
theorem capturesWithin {inside : ι → Char → Bool} (h : p.Matches word kept)
    (part : p.CapturesWithin inside) : ∀ e ∈ kept, ∀ c ∈ e.2, inside e.1 c = true := by
  induction h with
  | seq _ _ first second => exact List.forall_mem_append.2 ⟨second part.2, first part.1⟩
  | left _ ih => exact ih part.1
  | right _ ih => exact ih part.2
  | taken _ ih => exact ih part
  | capture name h ih => exact List.forall_mem_cons.2 ⟨h.within part.1, ih part.2⟩
  | again _ _ first rest => exact List.forall_mem_append.2 ⟨rest part, first part⟩
  | one | exactly | run | fewest | omitted | done | wordEdge | lineStart | finish | followedBy
  | notFollowedBy => exact List.forall_mem_nil _

/-- What is captured stands in the word. -/
theorem isInfix_of_mem (h : p.Matches word kept) : ∀ e ∈ kept, e.2 <:+: word := by
  induction h with
  | seq _ _ first second =>
    refine List.forall_mem_append.2 ⟨fun e he => ?_, fun e he => ?_⟩
    · exact (second e he).trans (List.suffix_append _ _).isInfix
    · exact (first e he).trans (List.prefix_append _ _).isInfix
  | left _ ih | right _ ih | taken _ ih => exact ih
  | capture name h ih => exact List.forall_mem_cons.2 ⟨List.infix_rfl, ih⟩
  | again _ _ first rest =>
    refine List.forall_mem_append.2 ⟨fun e he => ?_, fun e he => ?_⟩
    · exact (rest e he).trans (List.suffix_append _ _).isInfix
    · exact (first e he).trans (List.prefix_append _ _).isInfix
  | one | exactly | run | fewest | omitted | done | wordEdge | lineStart | finish | followedBy
  | notFollowedBy => exact List.forall_mem_nil _

end Matches

/-! ## Texts that are captured -/

/-- All texts that are captured under a name are of the kind of this name. -/
def CapturesOnly (kind : ι → List Char → Prop) : Pattern ι → Prop
  | capture name p => (∀ word kept, p.Matches word kept → kind name word) ∧ p.CapturesOnly kind
  | seq p q | either p q => p.CapturesOnly kind ∧ q.CapturesOnly kind
  | optional p | many p => p.CapturesOnly kind
  | one _ | exactly _ | run _ | fewest _ | wordEdge | lineStart | finish | followedBy _
  | notFollowedBy _ => True

/-- Every match captures something under the name. -/
def AlwaysCaptures (name : ι) : Pattern ι → Prop
  | capture other p => other = name ∨ p.AlwaysCaptures name
  | seq p q => p.AlwaysCaptures name ∨ q.AlwaysCaptures name
  | either p q => p.AlwaysCaptures name ∧ q.AlwaysCaptures name
  | optional _ | many _ | one _ | exactly _ | run _ | fewest _ | wordEdge | lineStart | finish
  | followedBy _ | notFollowedBy _ => False

@[simp] theorem capturesOnly_append {p q : Pattern ι} {kind : ι → List Char → Prop} :
    (p ++ q).CapturesOnly kind ↔ p.CapturesOnly kind ∧ q.CapturesOnly kind :=
  Iff.rfl

@[simp] theorem capturesOnly_orElse {p q : Pattern ι} {kind : ι → List Char → Prop} :
    (p <|> q).CapturesOnly kind ↔ p.CapturesOnly kind ∧ q.CapturesOnly kind :=
  Iff.rfl

@[simp] theorem alwaysCaptures_append {p q : Pattern ι} {name : ι} :
    (p ++ q).AlwaysCaptures name ↔ p.AlwaysCaptures name ∨ q.AlwaysCaptures name :=
  Iff.rfl

namespace Matches

variable {p : Pattern ι} {word : List Char} {kept : List (ι × List Char)}

/-- All that is captured is of the kind of its name. -/
theorem capturesOnly {kind : ι → List Char → Prop} (h : p.Matches word kept)
    (only : p.CapturesOnly kind) : ∀ e ∈ kept, kind e.1 e.2 := by
  induction h with
  | seq _ _ first second => exact List.forall_mem_append.2 ⟨second only.2, first only.1⟩
  | left _ ih => exact ih only.1
  | right _ ih => exact ih only.2
  | taken _ ih => exact ih only
  | capture name h ih => exact List.forall_mem_cons.2 ⟨only.1 _ _ h, ih only.2⟩
  | again _ _ first rest => exact List.forall_mem_append.2 ⟨rest only, first only⟩
  | one | exactly | run | fewest | omitted | done | wordEdge | lineStart | finish | followedBy
  | notFollowedBy => exact List.forall_mem_nil _

/-- What a pattern always captures is captured in every match. -/
theorem exists_captured {name : ι} (h : p.Matches word kept) (always : p.AlwaysCaptures name) :
    ∃ captured, (name, captured) ∈ kept := by
  induction h with
  | seq _ _ first second =>
    rcases always with always | always
    · obtain ⟨captured, hm⟩ := first always
      exact ⟨captured, List.mem_append_right _ hm⟩
    · obtain ⟨captured, hm⟩ := second always
      exact ⟨captured, List.mem_append_left _ hm⟩
  | left _ ih => exact ih always.1
  | right _ ih => exact ih always.2
  | @capture other p word kept h ih =>
    rcases always with rfl | always
    · exact ⟨word, List.mem_cons_self ..⟩
    · obtain ⟨captured, hm⟩ := ih always
      exact ⟨captured, List.mem_cons_of_mem _ hm⟩
  | one | exactly | run | fewest | taken | omitted | again | done | wordEdge | lineStart | finish
  | followedBy | notFollowedBy => exact always.elim

/-- A word with a head of one class and more of another. -/
theorem isHeadedBy {first further : Char → Bool}
    (h : (Pattern.one first ++ Pattern.run further : Pattern ι).Matches word kept) :
    isHeadedBy first further word = true := by
  cases h with
  | seq head rest =>
    cases head with
    | one accepted =>
      cases rest with
      | run inside => exact isHeadedBy_iff.2 ⟨_, _, rfl, accepted, inside⟩

end Matches

section Captured

variable [BEq ι] [LawfulBEq ι] {p : Pattern ι} {o : Occurrence ι} {text captured : List Char}
  {name : ι}

theorem mem_captures (h : o.captured? name = some captured) : (name, captured) ∈ o.captures := by
  obtain ⟨before, after, same, -⟩ := List.lookup_eq_some_iff.1 h
  rw [same]
  simp

/-- What is captured is part of the text. -/
theorem isInfix_of_captured? (ho : o ∈ p.occurrences text)
    (h : o.captured? name = some captured) : captured <:+: text :=
  ((matches_of_mem_occurrences ho).2.isInfix_of_mem _ (mem_captures h)).trans
    (matches_of_mem_occurrences ho).1

/-- What an occurrence captures keeps to the class of its name. -/
theorem forall_of_captured? {inside : ι → Char → Bool} (part : p.CapturesWithin inside)
    (ho : o ∈ p.occurrences text) (h : o.captured? name = some captured) :
    ∀ c ∈ captured, inside name c = true :=
  (matches_of_mem_occurrences ho).2.capturesWithin part _ (mem_captures h)

theorem kind_of_captured? {kind : ι → List Char → Prop} (only : p.CapturesOnly kind)
    (ho : o ∈ p.occurrences text) (h : o.captured? name = some captured) : kind name captured :=
  (matches_of_mem_occurrences ho).2.capturesOnly only _ (mem_captures h)

/-- What the pattern always captures is there. -/
theorem exists_captured? (always : p.AlwaysCaptures name) (ho : o ∈ p.occurrences text) :
    ∃ captured, o.captured? name = some captured := by
  obtain ⟨captured, hm⟩ := (matches_of_mem_occurrences ho).2.exists_captured always
  have found : (o.captured? name).isSome := by
    rw [Occurrence.captured?, List.lookup_isSome_iff]
    exact ⟨_, hm, beq_self_eq_true name⟩
  exact Option.isSome_iff_exists.1 found

/-- What a match at the beginning of a text captures under a name. -/
theorem exists_captured?_of_matchStart {kind : ι → List Char → Prop} {s : Cursor ι}
    (only : p.CapturesOnly kind) (always : p.AlwaysCaptures name) (h : p.matchStart text = some s) :
    ∃ captured, s.captured? name = some captured ∧ kind name captured := by
  obtain ⟨word, kept, passes, matched⟩ := matches_of_matchAt h
  have captures : s.captures = kept := by rw [passes.captures, Cursor.start, List.append_nil]
  obtain ⟨captured, hm⟩ := matched.exists_captured always
  have found : (s.captured? name).isSome := by
    rw [Cursor.captured?, captures, List.lookup_isSome_iff]
    exact ⟨_, hm, beq_self_eq_true name⟩
  obtain ⟨captured, same⟩ := Option.isSome_iff_exists.1 found
  refine ⟨captured, same, ?_⟩
  rw [Cursor.captured?, captures] at same
  obtain ⟨before, after, rfl, -⟩ := List.lookup_eq_some_iff.1 same
  exact matched.capturesOnly only (name, captured) (by simp)

end Captured

end Pattern

end InterfaceGen.Text
