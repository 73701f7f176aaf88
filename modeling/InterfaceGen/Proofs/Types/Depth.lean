import InterfaceGen.Proofs.Text.Cutting
import InterfaceGen.Proofs.Types.Splitting
import Mathlib.Algebra.Ring.Int.Defs
import Mathlib.Data.List.Forall2

/-!
# The depth of brackets in a type text

The arguments of a generic type are told apart by counting angle brackets, and nobody checks that
the brackets are balanced. `net` is what a text adds to the count, and a text `IsWhole` from a depth
on which no comma of it stands outside all brackets. Whatever text is cut, its arguments have no
such comma, and all but the last close what they open: `splitArguments_areArguments`. Joining texts
of this kind is what cutting undoes: `Lists.splitArguments_eq`.
-/

namespace InterfaceGen.Types

open InterfaceGen.Text

/-- What a character adds to the depth. -/
def weight (c : Char) : Int :=
  if c = '<' then 1 else if c = '>' then -1 else 0

/-- The number of angle brackets that the text opens and does not close, which is below zero if it
closes more than it opens. -/
def net (text : List Char) : Int :=
  (text.map weight).sum

/-- No comma of the text is outside all brackets if the text begins at this depth. -/
def IsWhole (depth : Int) : List Char → Prop
  | [] => True
  | c :: rest => ¬ (c = ',' ∧ depth = 0) ∧ IsWhole (depth + weight c) rest

instance : (depth : Int) → (text : List Char) → Decidable (IsWhole depth text)
  | _, [] => .isTrue trivial
  | depth, c :: rest =>
    have := instDecidableIsWhole (depth + weight c) rest
    inferInstanceAs (Decidable (_ ∧ _))

variable {depth : Int} {text first second : List Char}

@[simp]
theorem net_nil : net [] = 0 :=
  rfl

@[simp]
theorem net_cons (c : Char) (text : List Char) : net (c :: text) = weight c + net text := by
  simp [net]

/-- What two texts add to the depth is summed. -/
@[simp]
theorem net_append (first second : List Char) : net (first ++ second) = net first + net second := by
  simp [net]

@[simp]
theorem isWhole_nil : IsWhole depth [] :=
  trivial

@[simp]
theorem isWhole_cons {c : Char} :
    IsWhole depth (c :: text) ↔ ¬ (c = ',' ∧ depth = 0) ∧ IsWhole (depth + weight c) text :=
  Iff.rfl

/-- The second text begins at the depth that the first one leaves. -/
@[simp]
theorem isWhole_append :
    IsWhole depth (first ++ second) ↔ IsWhole depth first ∧ IsWhole (depth + net first) second := by
  induction first generalizing depth with
  | nil => simp
  | cons c first ih =>
    rw [List.cons_append, isWhole_cons, isWhole_cons, ih, net_cons, and_assoc, Int.add_assoc]

/-! ## Texts without brackets and commas -/

/-- The character is neither an angle bracket nor a comma. -/
def IsFlat (c : Char) : Prop :=
  c ≠ '<' ∧ c ≠ '>' ∧ c ≠ ','

instance : DecidablePred IsFlat :=
  fun _ => inferInstanceAs (Decidable (_ ∧ _))

theorem weight_of_isFlat {c : Char} (h : IsFlat c) : weight c = 0 := by
  unfold weight
  rw [if_neg h.1, if_neg h.2.1]

theorem isFlat_of_isNameChar {c : Char} (h : isNameChar c = true) : IsFlat c :=
  ⟨ne_of_isNameChar h rfl, ne_of_isNameChar h rfl, ne_of_isNameChar h rfl⟩

theorem isFlat_of_isBlank {c : Char} (h : isBlank c = true) : IsFlat c := by
  refine ⟨?_, ?_, ?_⟩ <;> (rintro rfl; exact absurd h (by decide))

/-- A text without brackets and commas leaves the depth as it was. -/
theorem net_of_isFlat (h : ∀ c ∈ text, IsFlat c) : net text = 0 := by
  induction text with
  | nil => rfl
  | cons c text ih =>
    obtain ⟨here, later⟩ := List.forall_mem_cons.1 h
    rw [net_cons, weight_of_isFlat here, ih later, Int.add_zero]

theorem isWhole_of_isFlat (h : ∀ c ∈ text, IsFlat c) : IsWhole depth text := by
  induction text generalizing depth with
  | nil => exact isWhole_nil
  | cons c text ih =>
    obtain ⟨here, later⟩ := List.forall_mem_cons.1 h
    exact ⟨fun comma => here.2.2 comma.1, ih later⟩

/-- Trimming takes away no bracket. -/
@[simp]
theorem net_trim (text : List Char) : net (trim text) = net text := by
  obtain ⟨before, after, blankBefore, blankAfter, -, same⟩ := exists_trim text
  have total := congrArg net same
  rw [net_append, net_append, net_of_isFlat fun c hc => isFlat_of_isBlank (blankBefore c hc),
    net_of_isFlat fun c hc => isFlat_of_isBlank (blankAfter c hc)] at total
  omega

/-- It brings no comma out of them either. -/
theorem IsWhole.trim (h : IsWhole depth text) : IsWhole depth (trim text) := by
  obtain ⟨before, after, blankBefore, -, -, same⟩ := exists_trim text
  rw [same, isWhole_append, isWhole_append,
    net_of_isFlat fun c hc => isFlat_of_isBlank (blankBefore c hc), Int.add_zero] at h
  exact h.2.1

/-- A name and the blanks behind it. -/
theorem isFlat_of_mem_front {container gap : List Char}
    (name : ∀ c ∈ container, isNameChar c = true) (blank : ∀ c ∈ gap, isBlank c = true) :
    ∀ c ∈ container ++ gap, IsFlat c := by
  intro c hc
  rcases List.mem_append.1 hc with hc | hc
  · exact isFlat_of_isNameChar (name c hc)
  · exact isFlat_of_isBlank (blank c hc)

/-- Neither a flat text in front nor a pair of brackets adds anything. -/
theorem net_brackets (flat : ∀ c ∈ first, IsFlat c) :
    net (first ++ '<' :: (text ++ ['>'])) = net text := by
  have opening : weight '<' = 1 := rfl
  have closing : net ['>'] = -1 := rfl
  rw [net_append, net_of_isFlat flat, net_cons, net_append, opening, closing]
  omega

/-- Behind a bracket the text is one bracket deeper. -/
theorem IsWhole.inside (flat : ∀ c ∈ first, IsFlat c)
    (h : IsWhole depth (first ++ '<' :: (text ++ second))) : IsWhole (depth + 1) text := by
  rw [isWhole_append, net_of_isFlat flat, Int.add_zero] at h
  exact (isWhole_append.1 h.2.2).1

/-! ## Cutting -/

/-- A step counts the character, and cuts at a comma outside all brackets. -/
theorem argumentStep_eq (depth : Int) (c : Char) :
    argumentStep depth c = (depth + weight c, if c = ',' ∧ depth = 0 then .cut else .keep) := by
  unfold argumentStep weight
  by_cases opening : c = '<'
  · subst opening
    simp
  · by_cases closing : c = '>'
    · subst closing
      simp [Int.sub_eq_add_neg]
    · by_cases comma : c = ',' ∧ depth = 0
      · simp [comma]
      · simp [opening, closing, comma]

/-- The cutter passes a whole text and is then as deep as the text leaves it. -/
theorem cutBy_append (h : IsWhole depth text) (rest : List Char) :
    cutBy argumentStep depth (text ++ rest) =
      text.foldr prepend (cutBy argumentStep (depth + net text) rest) := by
  induction text generalizing depth with
  | nil => simp
  | cons c text ih =>
    obtain ⟨here, later⟩ := isWhole_cons.1 h
    rw [List.cons_append, cutBy, argumentStep_eq, if_neg here, net_cons, ← Int.add_assoc]
    exact congrArg (prepend c) (ih later)

/-- A whole text is one piece. -/
theorem cutBy_of_isWhole (h : IsWhole depth text) : cutBy argumentStep depth text = [text] := by
  have whole := cutBy_append h []
  rwa [List.append_nil, cutBy, foldr_prepend, List.append_nil] at whole

/-- A comma behind a text that closes what is open ends a piece. -/
theorem cutBy_comma (h : IsWhole depth text) (closed : depth + net text = 0) (rest : List Char) :
    cutBy argumentStep depth (text ++ ',' :: rest) = text :: cutBy argumentStep 0 rest := by
  have cut : cutBy argumentStep 0 (',' :: rest) = [] :: cutBy argumentStep 0 rest := by
    rw [cutBy, argumentStep_eq, if_pos ⟨rfl, rfl⟩]
    rfl
  rw [cutBy_append h, closed, cut, foldr_prepend, List.append_nil]

/-- Pieces as the cutter leaves them that begins at this depth: each is whole, and all but the last
close what is open. -/
inductive AreCut : Int → List (List Char) → Prop where
  | last {depth : Int} {piece : List Char} (whole : IsWhole depth piece) : AreCut depth [piece]
  | cons {depth : Int} {piece : List Char} {pieces : List (List Char)} (whole : IsWhole depth piece)
    (closed : depth + net piece = 0) (rest : AreCut 0 pieces) : AreCut depth (piece :: pieces)

theorem AreCut.prepend {c : Char} {pieces : List (List Char)} (kept : ¬ (c = ',' ∧ depth = 0))
    (h : AreCut (depth + weight c) pieces) : AreCut depth (prepend c pieces) := by
  cases h with
  | last whole => exact .last ⟨kept, whole⟩
  | cons whole closed rest =>
    refine .cons ⟨kept, whole⟩ ?_ rest
    rw [net_cons]
    omega

/-- Whatever text it goes through, the cutter leaves pieces of this kind. -/
theorem areCut_cutBy (text : List Char) : ∀ depth, AreCut depth (cutBy argumentStep depth text) := by
  induction text with
  | nil => exact fun _ => .last isWhole_nil
  | cons c text ih =>
    intro depth
    rw [cutBy, argumentStep_eq]
    by_cases comma : c = ',' ∧ depth = 0
    · obtain ⟨rfl, rfl⟩ := comma
      exact .cons isWhole_nil rfl (ih _)
    · rw [if_neg comma]
      exact (ih _).prepend comma

/-- Joined with commas, the pieces are the text again. -/
theorem intercalate_cut (depth : Int) (text : List Char) :
    [','].intercalate (cutBy argumentStep depth text) = text := by
  refine intercalate_cutBy (fun state c cut => ?_) (fun state c => ?_) text depth
  · rw [argumentStep_eq] at cut
    by_cases comma : c = ',' ∧ state = 0
    · exact comma.1
    · rw [if_neg comma] at cut
      cases cut
  · rw [argumentStep_eq]
    dsimp only
    split <;> exact nofun

/-- A row adds the sum of what its pieces add. -/
theorem net_intercalate {separator : List Char} (flat : net separator = 0)
    (pieces : List (List Char)) :
    net (separator.intercalate pieces) = (pieces.map net).sum := by
  induction pieces with
  | nil => rfl
  | cons piece pieces ih =>
    cases pieces with
    | nil => simp
    | cons next pieces =>
      rw [List.intercalate_cons_cons, net_append, net_append, flat, ih, Int.add_zero]
      rfl

/-- Inside brackets the commas between the pieces are none outside all brackets. -/
theorem isWhole_intercalate (inside : depth ≠ 0) {pieces : List (List Char)}
    (whole : ∀ piece ∈ pieces, IsWhole depth piece)
    (closed : ∀ piece ∈ pieces.dropLast, net piece = 0) :
    IsWhole depth ([',', ' '].intercalate pieces) := by
  induction pieces with
  | nil => exact isWhole_nil
  | cons piece pieces ih =>
    obtain ⟨here, later⟩ := List.forall_mem_cons.1 whole
    cases pieces with
    | nil =>
      rw [List.intercalate_singleton]
      exact here
    | cons next pieces =>
      obtain ⟨closes, rest⟩ := List.forall_mem_cons.1 closed
      have gap : IsWhole depth [',', ' '] := by simp [inside]
      have flat : net [',', ' '] = 0 := rfl
      rw [List.intercalate_cons_cons, isWhole_append, isWhole_append, net_append, closes, flat,
        Int.add_zero, Int.add_zero, Int.add_zero]
      exact ⟨⟨here, gap⟩, ih later rest⟩

/-! ## Arguments -/

/-- Texts as they are cut out of one: each is whole, and all but the last close what they open. -/
structure AreArguments (texts : List (List Char)) : Prop where
  whole : ∀ text ∈ texts, IsWhole 0 text
  closed : ∀ text ∈ texts.dropLast, net text = 0

/-- Pieces that are cut from depth zero on are arguments. -/
theorem areArguments_of_areCut {pieces : List (List Char)} (h : AreCut 0 pieces) :
    AreArguments pieces := by
  induction pieces with
  | nil => exact ⟨nofun, nofun⟩
  | cons piece pieces ih =>
    cases h with
    | last whole => exact ⟨by simpa using whole, nofun⟩
    | cons whole closed rest =>
      obtain ⟨wholes, closeds⟩ := ih rest
      refine ⟨List.forall_mem_cons.2 ⟨whole, wholes⟩, ?_⟩
      have more : pieces ≠ [] := by
        rintro rfl
        cases rest
      rw [List.dropLast_cons_of_ne_nil more]
      exact List.forall_mem_cons.2 ⟨by omega, closeds⟩

/-- A piece is whole from any depth that the whole text is whole from. -/
theorem AreCut.isWhole {pieces : List (List Char)} (h : AreCut 0 pieces)
    (joined : IsWhole depth ([','].intercalate pieces)) : ∀ piece ∈ pieces, IsWhole depth piece := by
  induction pieces with
  | nil => exact nofun
  | cons piece pieces ih =>
    cases h with
    | last whole => simpa using joined
    | cons whole closed rest =>
      obtain ⟨next, more, rfl⟩ : ∃ next more, pieces = next :: more := by
        cases rest <;> exact ⟨_, _, rfl⟩
      rw [List.intercalate_cons_cons, isWhole_append, isWhole_append, net_append] at joined
      have shifted : depth + (net piece + net [',']) = depth := by
        have comma : net [','] = 0 := rfl
        omega
      rw [shifted] at joined
      exact List.forall_mem_cons.2 ⟨joined.1.1, ih rest joined.2⟩

/-- What is left when a row is tidied are its pieces without the blanks around them. -/
theorem mem_tidy {pieces : List (List Char)} {piece : List Char} (h : piece ∈ tidy pieces) :
    ∃ p ∈ pieces, trim p = piece := by
  apply List.mem_map.1
  unfold tidy at h
  dsimp only at h
  split at h
  · exact List.dropLast_subset _ h
  · exact h

/-- The same is true of the pieces before the last one. -/
theorem mem_dropLast_tidy {pieces : List (List Char)} {piece : List Char}
    (h : piece ∈ (tidy pieces).dropLast) : ∃ p ∈ pieces.dropLast, trim p = piece := by
  apply List.mem_map.1
  rw [List.map_dropLast]
  unfold tidy at h
  dsimp only at h
  split at h
  · exact List.dropLast_subset _ h
  · exact h

/-- Tidying drops at most a text that opens and closes nothing. -/
theorem sum_net_tidy (pieces : List (List Char)) :
    ((tidy pieces).map net).sum = (pieces.map net).sum := by
  have trimmed : ((pieces.map trim).map net).sum = (pieces.map net).sum := by
    simp [Function.comp_def]
  unfold tidy
  dsimp only
  split
  · next last =>
    rw [← trimmed, ← List.dropLast_append_getLast? [] last, List.map_append, List.sum_append]
    simp
  · exact trimmed

/-- Whatever text is split, no argument has a comma outside its brackets, and all but the last close
what they open. -/
theorem splitArguments_areArguments (text : List Char) : AreArguments (splitArguments text) where
  whole argument member := by
    obtain ⟨piece, listed, rfl⟩ := mem_tidy member
    exact ((areArguments_of_areCut (areCut_cutBy text 0)).whole piece listed).trim
  closed argument member := by
    obtain ⟨piece, listed, rfl⟩ := mem_dropLast_tidy member
    rw [net_trim]
    exact (areArguments_of_areCut (areCut_cutBy text 0)).closed piece listed

/-- An argument is whole wherever the text is. -/
theorem IsWhole.of_mem_splitArguments (h : IsWhole depth text) {argument : List Char}
    (member : argument ∈ splitArguments text) : IsWhole depth argument := by
  obtain ⟨piece, listed, rfl⟩ := mem_tidy member
  rw [← intercalate_cut 0 text] at h
  exact ((areCut_cutBy text 0).isWhole h piece listed).trim

/-- No bracket is lost when a text is split. -/
theorem sum_net_splitArguments (text : List Char) :
    ((splitArguments text).map net).sum = net text := by
  have comma : net [','] = 0 := rfl
  have joined := net_intercalate comma (cutBy argumentStep 0 text)
  rw [splitArguments, sum_net_tidy, ← joined, intercalate_cut]

/-! ## Joining -/

/-- Cutting undoes joining, for pieces as the cutter leaves them. -/
theorem AreCut.cutBy_intercalate {pieces : List (List Char)} (h : AreCut depth pieces) :
    cutBy argumentStep depth ([','].intercalate pieces) = pieces := by
  induction h with
  | last whole => rw [List.intercalate_singleton, cutBy_of_isWhole whole]
  | @cons depth piece pieces whole closed rest ih =>
    obtain ⟨next, more, rfl⟩ : ∃ next more, pieces = next :: more := by
      cases rest <;> exact ⟨_, _, rfl⟩
    rw [List.intercalate_cons_cons, List.append_assoc, List.singleton_append,
      cutBy_comma whole closed, ih]

/-- The space behind a comma as part of the next piece. -/
theorem intercalate_spaced (text : List Char) (texts : List (List Char)) :
    [',', ' '].intercalate (text :: texts) = [','].intercalate (text :: texts.map (' ' :: ·)) := by
  induction texts generalizing text with
  | nil => rfl
  | cons next texts ih =>
    rw [List.intercalate_cons_cons, ih, List.map_cons, List.intercalate_cons_cons]
    cases texts with
    | nil => simp
    | cons after texts => simp [List.intercalate_cons_cons]

theorem AreArguments.tail {text : List Char} {texts : List (List Char)}
    (h : AreArguments (text :: texts)) : AreArguments texts where
  whole other member := h.whole other (List.mem_cons_of_mem _ member)
  closed other member := by
    apply h.closed other
    have more : texts ≠ [] := by
      rintro rfl
      cases member
    rw [List.dropLast_cons_of_ne_nil more]
    exact List.mem_cons_of_mem _ member

/-- The argument with blanks around it. -/
def IsPadded (argument padded : List Char) : Prop :=
  ∃ before after, (∀ c ∈ before, isBlank c = true) ∧ (∀ c ∈ after, isBlank c = true) ∧
    padded = before ++ (argument ++ after)

/-- The text is the row of the arguments, with commas between them and blanks around them. -/
def Lists (text : List Char) (arguments : List (List Char)) : Prop :=
  ∃ padded, List.Forall₂ IsPadded arguments padded ∧ text = [','].intercalate padded

namespace IsPadded

variable {argument padded : List Char}

/-- Trimming undoes the padding of an argument. -/
theorem trim_eq (h : IsPadded argument padded) (trimmed : IsTrimmed argument) :
    trim padded = argument := by
  obtain ⟨before, after, blankBefore, blankAfter, rfl⟩ := h
  by_cases filled : argument = []
  · subst filled
    exact trim_blanks (List.forall_mem_append.2 ⟨blankBefore, blankAfter⟩)
  · exact trim_surrounded blankBefore blankAfter trimmed filled

/-- Padding does not change the depth. -/
theorem net_eq (h : IsPadded argument padded) : net padded = net argument := by
  obtain ⟨before, after, blankBefore, blankAfter, rfl⟩ := h
  rw [net_append, net_append, net_of_isFlat fun c hc => isFlat_of_isBlank (blankBefore c hc),
    net_of_isFlat fun c hc => isFlat_of_isBlank (blankAfter c hc), Int.zero_add, Int.add_zero]

theorem isWhole (h : IsPadded argument padded) (whole : IsWhole depth argument) :
    IsWhole depth padded := by
  obtain ⟨before, after, blankBefore, blankAfter, rfl⟩ := h
  have flat : ∀ c ∈ before, IsFlat c := fun c hc => isFlat_of_isBlank (blankBefore c hc)
  rw [isWhole_append, isWhole_append, net_of_isFlat flat, Int.add_zero]
  exact ⟨isWhole_of_isFlat flat, whole,
    isWhole_of_isFlat fun c hc => isFlat_of_isBlank (blankAfter c hc)⟩

end IsPadded

/-- Arguments with blanks around them are pieces. -/
theorem AreArguments.areCut {texts pieces : List (List Char)} (h : AreArguments texts)
    (filled : texts ≠ []) (padded : List.Forall₂ IsPadded texts pieces) : AreCut 0 pieces := by
  induction padded with
  | nil => exact absurd rfl filled
  | @cons text piece texts pieces here later ih =>
    have whole : IsWhole 0 piece := here.isWhole (h.whole text (List.mem_cons_self ..))
    by_cases last : texts = []
    · subst last
      cases later
      exact .last whole
    · refine .cons whole ?_ (ih h.tail last)
      rw [here.net_eq, h.closed text, Int.add_zero]
      rw [List.dropLast_cons_of_ne_nil last]
      exact List.mem_cons_self ..

/-- Splitting undoes joining, whatever blanks stand next to the commas, and also where the last
argument leaves brackets open. -/
theorem Lists.splitArguments_eq {texts : List (List Char)} (listed : Lists text texts)
    (h : AreArguments texts) (trimmed : ∀ text ∈ texts, IsTrimmed text)
    (filled : ∀ text ∈ texts, text ≠ []) : splitArguments text = texts := by
  obtain ⟨pieces, padded, rfl⟩ := listed
  by_cases none : texts = []
  · subst none
    cases padded
    rfl
  · have again : pieces.map trim = texts := by
      clear none h filled
      induction padded with
      | nil => rfl
      | cons here _ ih =>
        obtain ⟨first, others⟩ := List.forall_mem_cons.1 trimmed
        rw [List.map_cons, here.trim_eq first, ih others]
    have last : texts.getLast? ≠ some [] := fun empty =>
      filled [] (List.mem_of_getLast? empty) rfl
    rw [splitArguments, (h.areCut none padded).cutBy_intercalate, tidy, again]
    exact if_neg last

/-- Splitting undoes joining with a comma and one space. -/
theorem splitArguments_join {texts : List (List Char)} (h : AreArguments texts)
    (trimmed : ∀ text ∈ texts, IsTrimmed text) (filled : ∀ text ∈ texts, text ≠ []) :
    splitArguments ([',', ' '].intercalate texts) = texts := by
  have bare : ∀ argument, IsPadded argument argument := fun argument =>
    ⟨[], [], List.forall_mem_nil _, List.forall_mem_nil _, by simp⟩
  have spaced : ∀ argument, IsPadded argument (' ' :: argument) := fun argument =>
    ⟨[' '], [], by decide, List.forall_mem_nil _, by simp⟩
  refine Lists.splitArguments_eq ?_ h trimmed filled
  cases texts with
  | nil => exact ⟨[], .nil, rfl⟩
  | cons text texts =>
    refine ⟨text :: texts.map (' ' :: ·), .cons (bare text) ?_, intercalate_spaced text texts⟩
    exact List.forall₂_map_right_iff.2 (List.forall₂_same.2 fun other _ => spaced other)

/-! ## Texts that leave the depth as it was -/

theorem KeptFrom.isWhole (h : KeptFrom depth text) : IsWhole depth text := by
  have kept := h depth (Int.le_refl depth) []
  rw [List.append_nil, cutBy, foldr_prepend, List.append_nil] at kept
  have cut := areCut_cutBy text depth
  rw [kept] at cut
  cases cut with
  | last whole => exact whole
  | cons whole closed rest => cases rest

/-- The cutter cuts at a comma behind the text, so nothing is open there. -/
theorem KeptFrom.net_eq_zero (h : KeptFrom 0 text) : net text = 0 := by
  have comma : cutBy argumentStep 0 [','] = [[], []] := rfl
  have kept := h 0 (Int.le_refl 0) [',']
  rw [comma, foldr_prepend, List.append_nil] at kept
  have cut := areCut_cutBy (text ++ [',']) 0
  rw [kept] at cut
  cases cut with
  | cons whole closed rest => rwa [Int.zero_add] at closed

/-- Texts that can stand as arguments each can stand in a row. -/
theorem areArguments_of_isArgument {texts : List (List Char)} (h : ∀ text ∈ texts, IsArgument text) :
    AreArguments texts where
  whole text member := (h text member).kept.isWhole
  closed text member := (h text (List.dropLast_subset _ member)).kept.net_eq_zero

/-- A row of such texts is split into them. -/
theorem splitArguments_intercalate {texts : List (List Char)}
    (h : ∀ text ∈ texts, IsArgument text) :
    splitArguments ([',', ' '].intercalate texts) = texts :=
  splitArguments_join (areArguments_of_isArgument h) (fun text member => (h text member).trimmed)
    fun text member => (h text member).nonempty

end InterfaceGen.Types
