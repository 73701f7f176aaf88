import InterfaceGen.Batch.Update
import InterfaceGen.Proofs.Text.Words

/-!
# The first header of a text

`headerAt?` says without a pattern which interface a text begins with, and `firstFrom?` goes to the
first line that begins so. `first?_eq`: this is what the search for the pattern finds. A line that
does not begin like a header is passed over.
-/

namespace InterfaceGen.InterfaceHeader

open InterfaceGen.Text

/-! ## The header with which a line begins -/

/-- What stands behind a word, if the text begins with it. -/
def behind? (word text : List Char) : Option (List Char) :=
  if word.isPrefixOf text then some (text.drop word.length) else none

/-- The characters of a class with which a text begins, at least one, and what stands behind
them. -/
def runAt? (accept : Char → Bool) (text : List Char) : Option (List Char × List Char) :=
  if text.head?.any accept then some (text.takeWhile accept, text.dropWhile accept) else none

/-- The parent that is named directly behind the name of an interface. -/
def parentAt? (text : List Char) : Option (List Char) := do
  let (_, keyword) ← runAt? isBlank text
  let spaced ← behind? "extends".toList keyword
  let (_, named) ← runAt? isBlank spaced
  let (parent, _) ← runAt? isWordChar named
  return parent

/-- The interface, with its parent, whose header a text begins with. -/
def headerAt? (text : List Char) : Option (List Char × Option (List Char)) := do
  let named ← behind? "export interface ".toList text
  let (name, rest) ← runAt? isWordChar named
  return (name, parentAt? rest)

/-- The first header at the beginning of a line; `opening` says that the text begins one. -/
def firstFrom? (opening : Bool) : List Char → Option (List Char × Option (List Char))
  | [] => none
  | c :: rest => (if opening then headerAt? (c :: rest) else none).or (firstFrom? (c == '\n') rest)

/-- Something stands behind the word exactly if the text begins with it. -/
theorem behind?_eq_some_iff {word text rest : List Char} :
    behind? word text = some rest ↔ text = word ++ rest := by
  rw [behind?]
  split
  · next h =>
    obtain ⟨more, rfl⟩ := List.isPrefixOf_iff_prefix.1 h
    simp [eq_comm]
  · next h =>
    simp only [reduceCtorEq, false_iff]
    rintro rfl
    exact h (List.isPrefixOf_iff_prefix.2 (List.prefix_append _ _))

/-- The run is not empty, keeps to the class and is as long as possible. -/
theorem runAt?_eq_some_iff {accept : Char → Bool} {text word rest : List Char} :
    runAt? accept text = some (word, rest) ↔
      text = word ++ rest ∧ word ≠ [] ∧ (∀ c ∈ word, accept c = true) ∧
        ∀ c ∈ rest.head?, accept c = false := by
  constructor
  · intro h
    rw [runAt?] at h
    split at h
    · next start =>
      simp only [Option.some.injEq, Prod.mk.injEq] at h
      obtain ⟨rfl, rfl⟩ := h
      refine ⟨List.takeWhile_append_dropWhile.symm, ?_, fun c hc => ?_, fun c hc => ?_⟩
      · cases text with
        | nil => simp at start
        | cons c rest => simp_all
      · exact List.all_eq_true.1 List.all_takeWhile c hc
      · have := List.head?_dropWhile_not accept text
        simp_all
    · cases h
  · rintro ⟨rfl, nonempty, inside, outside⟩
    obtain ⟨c, word, rfl⟩ := List.exists_cons_of_ne_nil nonempty
    have start : ((c :: word ++ rest).head?.any accept) = true := by
      simpa using inside c (List.mem_cons_self ..)
    rw [runAt?, if_pos start, List.takeWhile_append_of_pos inside,
      List.dropWhile_append_of_pos inside]
    cases rest with
    | nil => simp
    | cons d rest =>
      have stop : accept d = false := outside d rfl
      simp [stop]

/-- There is no run exactly if the first character is not of the class. -/
theorem runAt?_eq_none_iff {accept : Char → Bool} {text : List Char} :
    runAt? accept text = none ↔ ∀ c ∈ text.head?, accept c = false := by
  rw [runAt?]
  cases text with
  | nil => simp
  | cons c rest => by_cases h : accept c = true <;> simp [h]

/-! ## The pattern finds the same -/

section Pattern

open Pattern

/-- What the pattern asks for behind the name. -/
def parentPattern : Pattern Part :=
  .spacing ++ (.word "extends" ++ (.spacing ++ .capture .parent (.someRun isWordChar)))

/-- The pattern without the beginning of the line. -/
def bodyPattern : Pattern Part :=
  .word "export interface " ++ (.capture .name (.someRun isWordChar) ++ .optional parentPattern)

theorem follow_pattern (next : Cursor Part → Option (Cursor Part)) (s : Cursor Part) :
    pattern.follow next s =
      if s.before.all (· == '\n') then bodyPattern.follow next s else none :=
  rfl

variable {text : List Char}

/-- The pattern of a run reads what is found as one. -/
theorem reads_run {accept : Char → Bool} {word rest : List Char}
    (h : runAt? accept text = some (word, rest)) :
    text = word ++ rest ∧ Reads (.someRun accept : Pattern Part) word rest [] := by
  obtain ⟨same, nonempty, inside, outside⟩ := runAt?_eq_some_iff.1 h
  exact ⟨same, .someRun nonempty inside outside⟩

/-- No run begins here. -/
theorem rejects_run {accept : Char → Bool} (h : runAt? accept text = none) :
    Rejects (.someRun accept : Pattern Part) text :=
  (Rejects.one (runAt?_eq_none_iff.1 h)).seq _

/-- The pattern of a word rejects a text that does not begin with it. -/
theorem rejects_behind {word : List Char} (h : behind? word text = none) (q : Pattern Part) :
    Rejects (.exactly word ++ q) text := by
  have off : ¬ word <+: text := by
    rw [behind?] at h
    split at h
    · cases h
    · next off => exact fun begins => off (List.isPrefixOf_iff_prefix.2 begins)
  exact (Rejects.of_not_begins off).seq q

/-- A parent that is named is read. -/
theorem reads_parent {parent : List Char} (h : parentAt? text = some parent) :
    ∃ word rest, text = word ++ rest ∧ Reads parentPattern word rest [(.parent, parent)] := by
  simp only [parentAt?, Option.bind_eq_bind, Option.bind_eq_some_iff, Prod.exists,
    Option.pure_def, Option.some.injEq] at h
  obtain ⟨gap, keyword, hg, spaced, hk, gap', named, hg', parent, rest, hn, rfl⟩ := h
  obtain ⟨rfl, first⟩ := reads_run hg
  obtain rfl := behind?_eq_some_iff.1 hk
  obtain ⟨rfl, second⟩ := reads_run hg'
  obtain ⟨rfl, third⟩ := reads_run hn
  refine ⟨gap ++ ("extends".toList ++ (gap' ++ parent)), rest, by simp, ?_⟩
  have whole : Reads (.someRun isBlank : Pattern Part) gap
      (("extends".toList ++ (gap' ++ parent)) ++ rest) [] := by
    simpa only [List.append_assoc] using first
  exact .bare_seq whole (.bare_seq (.exactly _) (.bare_seq second (.capture .parent third)))

/-- Where no parent is named none is read. -/
theorem rejects_parent (h : parentAt? text = none) : Rejects parentPattern text := by
  rcases hg : runAt? isBlank text with _ | ⟨gap, keyword⟩
  · exact (rejects_run hg).seq _
  obtain ⟨rfl, nonempty, inside, outside⟩ := runAt?_eq_some_iff.1 hg
  have extends_blank : ∀ c more, isBlank c = true →
      Rejects (.word "extends" ++ (.spacing ++ .capture Part.parent (.someRun isWordChar)))
        (c :: more) :=
    fun c more blank => by
      refine (Rejects.exactly (c := 'e') (fun d hd => ?_) "xtends".toList).seq _
      rw [← Option.mem_some.1 hd]
      rintro rfl
      exact absurd blank (by decide)
  refine .someRun nonempty inside outside extends_blank ?_
  rcases hk : behind? "extends".toList keyword with _ | spaced
  · exact rejects_behind hk _
  obtain rfl := behind?_eq_some_iff.1 hk
  refine .exactly_seq ?_ _
  rcases hg' : runAt? isBlank spaced with _ | ⟨gap', named⟩
  · exact (rejects_run hg').seq _
  obtain ⟨rfl, nonempty', inside', outside'⟩ := runAt?_eq_some_iff.1 hg'
  -- With the keyword and its blanks read, only the name can be missing.
  have unnamed : runAt? isWordChar named = none := by
    rw [parentAt?, hg] at h
    simpa only [Option.bind_eq_bind, Option.bind_some, hk, hg', Option.pure_def,
      Option.bind_eq_none_iff, Prod.forall, reduceCtorEq, imp_false,
      ← Option.eq_none_iff_forall_ne_some] using h
  refine .someRun nonempty' inside' outside' (fun c more blank => ?_)
    (.capture (rejects_run unnamed) _)
  refine .capture (rejects_run (runAt?_eq_none_iff.2 fun d hd => ?_)) _
  cases hd
  exact isWordChar_of_isBlank blank

/-- A header that a text begins with is read. -/
theorem reads_body {declared : List Char} {parent : Option (List Char)}
    (h : headerAt? text = some (declared, parent)) :
    ∃ word rest, text = word ++ rest ∧ word ≠ [] ∧
      Reads bodyPattern word rest ((parent.map (Part.parent, ·)).toList ++ [(.name, declared)]) := by
  simp only [headerAt?, Option.bind_eq_bind, Option.bind_eq_some_iff, Prod.exists,
    Option.pure_def, Option.some.injEq, Prod.mk.injEq] at h
  obtain ⟨named, hk, declared, behind, hn, rfl, hp⟩ := h
  obtain rfl := behind?_eq_some_iff.1 hk
  obtain ⟨rfl, first⟩ := reads_run hn
  have whole : ∀ {word rest kept}, behind = word ++ rest →
      Reads (.optional parentPattern) word rest kept →
      Reads bodyPattern ("export interface ".toList ++ (declared ++ word)) rest
        (kept ++ [(.name, declared)]) := by
    rintro word rest kept rfl second
    exact .bare_seq (.exactly _) (.seq (.capture .name first) second)
  cases parent with
  | none =>
    exact ⟨_, behind, by simp, by simp,
      whole (List.nil_append _).symm (.optional_none (rejects_parent hp))⟩
  | some parent =>
    obtain ⟨word, rest, rfl, second⟩ := reads_parent hp
    exact ⟨_, rest, by simp, by simp, whole rfl (.optional_some second)⟩

/-- Where a text does not begin with a header none is read. -/
theorem rejects_body (h : headerAt? text = none) : Rejects bodyPattern text := by
  rcases hk : behind? "export interface ".toList text with _ | named
  · exact rejects_behind hk _
  obtain rfl := behind?_eq_some_iff.1 hk
  refine .exactly_seq ?_ _
  have unnamed : runAt? isWordChar named = none := by
    rw [headerAt?, hk] at h
    simpa only [Option.bind_eq_bind, Option.bind_some, Option.pure_def, Option.bind_eq_none_iff,
      Prod.forall, reduceCtorEq, imp_false, ← Option.eq_none_iff_forall_ne_some] using h
  exact (Rejects.capture (rejects_run unnamed) _).seq _

end Pattern

/-- At the beginning of a line the pattern matches where a header stands, and captures its name and
parent. -/
theorem matchAt_pattern_of_some {before : Option Char} (opening : before.all (· == '\n') = true)
    {text declared : List Char} {parent : Option (List Char)}
    (h : headerAt? text = some (declared, parent)) (offset : Nat) :
    ∃ t, pattern.matchAt ⟨before, text, offset, []⟩ = some t ∧ offset < t.offset ∧
      t.captured? .name = some declared ∧ t.captured? .parent = parent := by
  obtain ⟨word, rest, rfl, nonempty, reads⟩ := reads_body h
  refine ⟨⟨word.getLast?.or before, rest, offset + word.length,
    (parent.map (Part.parent, ·)).toList ++ [(.name, declared)] ++ []⟩, ?_, ?_, ?_, ?_⟩
  · rw [Pattern.matchAt, follow_pattern, if_pos opening]
    exact reads before offset [] some _ rfl
  · have := List.length_pos_iff.2 nonempty
    dsimp only
    omega
  · cases parent <;> rfl
  · cases parent <;> rfl

/-- The pattern does not match where no header stands. -/
theorem matchAt_pattern_of_none {before : Option Char} {text : List Char}
    (h : before.all (· == '\n') = true → headerAt? text = none) (offset : Nat) :
    pattern.matchAt ⟨before, text, offset, []⟩ = none := by
  rw [Pattern.matchAt, follow_pattern]
  split
  · next opening => exact rejects_body (h opening) _ _ _ _
  · rfl

/-- What an occurrence says about an interface. -/
def ofPiece? : Piece Part → Option (List Char × Option (List Char))
  | .plain _ => none
  | .occurrence o => some ((o.captured? .name).getD [], o.captured? .parent)

/-- What the pattern finds first in a text is its first header. -/
theorem findSome?_piecesFrom (before : Option Char) (text : List Char) (offset : Nat) :
    (pattern.piecesFrom 0 before text offset).findSome? ofPiece? =
      firstFrom? (before.all (· == '\n')) text := by
  induction text generalizing before offset with
  | nil => rfl
  | cons c rest ih =>
    have later := ih (some c) (offset + 1)
    rw [firstFrom?]
    by_cases found : before.all (· == '\n') = true ∧ (headerAt? (c :: rest)).isSome
    · obtain ⟨opening, some⟩ := found
      obtain ⟨⟨declared, parent⟩, header⟩ := Option.isSome_iff_exists.1 some
      obtain ⟨t, here, moved, name, extended⟩ := matchAt_pattern_of_some opening header offset
      simp only [Pattern.piecesFrom, here, if_pos moved, List.findSome?_cons, ofPiece?,
        Occurrence.captured?]
      rw [if_pos opening, header, Option.some_or]
      rw [Cursor.captured?] at name extended
      rw [name, extended]
      rfl
    · have none : before.all (· == '\n') = true → headerAt? (c :: rest) = none := fun opening =>
        Option.not_isSome_iff_eq_none.1 fun some => found ⟨opening, some⟩
      simp only [Pattern.piecesFrom, matchAt_pattern_of_none none offset, List.findSome?_cons,
        ofPiece?]
      rw [later]
      split
      · next opening => rw [none opening, Option.none_or]; rfl
      · rw [Option.none_or]; rfl

/-- The interface that a text declares first is that of its first header. -/
theorem first?_eq (text : String) :
    first? text =
      (firstFrom? true text.toList).map fun h => (String.ofList h.1, h.2.map String.ofList) := by
  have found := findSome?_piecesFrom none text.toList 0
  rw [Option.all_none] at found
  rw [first?, Pattern.firstOccurrence?, Pattern.occurrences, List.head?_filterMap, ← found,
    Pattern.pieces, List.map_findSome?, List.map_findSome?]
  congr 1
  funext piece
  cases piece <;> rfl

/-! ## Lines without a header -/

/-- A header begins with the first letter of its keyword. -/
theorem headerAt?_cons {c : Char} (h : c ≠ 'e') (rest : List Char) :
    headerAt? (c :: rest) = none := by
  have off : behind? "export interface ".toList (c :: rest) = none := by
    rw [behind?, if_neg]
    rw [List.isPrefixOf_iff_prefix]
    exact fun hp => h (List.cons_prefix_cons.1 hp).1.symm
  rw [headerAt?, off]
  rfl

/-- What is left of a line that is not at its beginning is passed over. -/
theorem firstFrom?_line {line : List Char} (h : '\n' ∉ line) (rest : List Char) :
    firstFrom? false (line ++ '\n' :: rest) = firstFrom? true rest := by
  induction line with
  | nil => rfl
  | cons c line ih =>
    rw [List.mem_cons, not_or] at h
    have same : (c == '\n') = false := beq_eq_false_iff_ne.2 (Ne.symm h.1)
    rw [List.cons_append, firstFrom?, if_neg Bool.false_ne_true, Option.none_or, same, ih h.2]

/-- A line that does not begin like a header is passed over. -/
theorem firstFrom?_other {c : Char} {line : List Char} (other : c ≠ 'e') (h : '\n' ∉ c :: line)
    (rest : List Char) : firstFrom? true (c :: line ++ '\n' :: rest) = firstFrom? true rest := by
  rw [List.mem_cons, not_or] at h
  have same : (c == '\n') = false := beq_eq_false_iff_ne.2 (Ne.symm h.1)
  rw [List.cons_append, firstFrom?, if_pos rfl, headerAt?_cons other, Option.none_or, same,
    firstFrom?_line h.2]

/-- An empty line is passed over. -/
theorem firstFrom?_empty (rest : List Char) :
    firstFrom? true ('\n' :: rest) = firstFrom? true rest := by
  rw [firstFrom?, if_pos rfl, headerAt?_cons (by decide), Option.none_or]
  rfl

/-! ## Words of headers -/

/-- At least one character, all of them of words. -/
def IsWord (text : List Char) : Prop :=
  text ≠ [] ∧ ∀ c ∈ text, isWordChar c = true

/-- The name and the parent in a header are words. -/
theorem isWord_of_headerAt? {text name : List Char} {parent : Option (List Char)}
    (h : headerAt? text = some (name, parent)) : IsWord name ∧ ∀ p ∈ parent, IsWord p := by
  simp only [headerAt?, Option.bind_eq_bind, Option.bind_eq_some_iff, Prod.exists,
    Option.pure_def, Option.some.injEq, Prod.mk.injEq] at h
  obtain ⟨_, _, name, _, run, rfl, extended⟩ := h
  obtain ⟨-, nonempty, inside, -⟩ := runAt?_eq_some_iff.1 run
  refine ⟨⟨nonempty, inside⟩, fun p hp => ?_⟩
  rw [hp] at extended
  simp only [parentAt?, Option.bind_eq_bind, Option.bind_eq_some_iff, Prod.exists,
    Option.pure_def, Option.some.injEq] at extended
  obtain ⟨_, _, _, _, _, _, _, _, p, _, run, rfl⟩ := extended
  have word := runAt?_eq_some_iff.1 run
  exact ⟨word.2.1, word.2.2.1⟩

theorem isWord_of_firstFrom? {opening : Bool} {text name : List Char}
    {parent : Option (List Char)} (h : firstFrom? opening text = some (name, parent)) :
    IsWord name ∧ ∀ p ∈ parent, IsWord p := by
  induction text generalizing opening with
  | nil => cases h
  | cons c rest ih =>
    rw [firstFrom?, Option.or_eq_some_iff] at h
    rcases h with here | ⟨-, later⟩
    · split at here
      · exact isWord_of_headerAt? here
      · cases here
    · exact ih later

/-- A parent in a header is a word. -/
theorem isWord_parent {text name parent : String} (h : first? text = some (name, some parent)) :
    IsWord parent.toList := by
  rw [first?_eq, Option.map_eq_some_iff] at h
  obtain ⟨⟨declared, extended⟩, first, same⟩ := h
  simp only [Prod.mk.injEq, Option.map_eq_some_iff] at same
  obtain ⟨-, word, rfl, rfl⟩ := same
  rw [String.toList_ofList]
  exact (isWord_of_firstFrom? first).2 word rfl

end InterfaceGen.InterfaceHeader
