import InterfaceGen.Proofs.Source.FieldSpelling
import InterfaceGen.Proofs.Source.Segments
import InterfaceGen.Source.EnumBody

/-!
# Brackets outside literals

A text is a row of string literals and other characters, `Coded`; brackets count outside the
literals only. Both walks through an enum body agree on such a text: the search for the closing
brace passes over it where its braces are balanced, and the splitter cuts nothing between brackets.
-/

namespace InterfaceGen.Source

open InterfaceGen.Text InterfaceGen.Types

/-- The text is made of string literals and, outside of them, of the characters `outside`. No
literal has two backslashes side by side, and no backslash outside stands before a literal. -/
inductive Coded : List Char → List Char → Prop where
  | nil : Coded [] []
  | literal {outside body rest : List Char} (hb : IsLiteral body) (single : ¬ ['\\', '\\'] <:+: body)
    (more : Coded outside rest) : Coded outside ('"' :: (body ++ '"' :: rest))
  | plain {c : Char} {outside rest : List Char} (unquoted : c ≠ '"')
    (apart : c = '\\' → rest.head? ≠ some '"') (more : Coded outside rest) :
    Coded (c :: outside) (c :: rest)

/-- How many brackets are open behind a text before which `depth` are, unless one is closed that is
not open. -/
def openBehind (opening closing : Char) : Nat → List Char → Option Nat
  | depth, [] => some depth
  | depth, c :: rest =>
    if c = opening then openBehind opening closing (depth + 1) rest
    else if c = closing then
      if depth = 0 then none else openBehind opening closing (depth - 1) rest
    else openBehind opening closing depth rest

/-- Outside literals, each brace that is opened is closed again. -/
def BalancesBraces (text : List Char) : Prop :=
  ∃ outside, Coded outside text ∧ openBehind '\x7b' '\x7d' 0 outside = some 0

/-- Outside literals, each parenthesis and each brace that is opened is closed again. -/
def BalancesBrackets (text : List Char) : Prop :=
  ∃ outside, Coded outside text ∧ openBehind '(' ')' 0 outside = some 0 ∧
    openBehind '\x7b' '\x7d' 0 outside = some 0

/-- Is the character without a meaning to the walks through an enum body? -/
def isIdle (c : Char) : Bool :=
  !(['"', '\\', '(', ')', '\x7b', '\x7d', ',', ';'].contains c)

/-- A text in which brackets are closed, and in which separators and literals stand between brackets
only. -/
inductive Grouped : List Char → Prop where
  | nil : Grouped []
  | idle {c : Char} {rest : List Char} (h : isIdle c = true) (more : Grouped rest) :
    Grouped (c :: rest)
  | parentheses {inner rest : List Char} (h : BalancesBrackets inner) (more : Grouped rest) :
    Grouped ('(' :: (inner ++ ')' :: rest))
  | braces {inner rest : List Char} (h : BalancesBrackets inner) (more : Grouped rest) :
    Grouped ('\x7b' :: (inner ++ '\x7d' :: rest))

/-- Characters in front that neither quote nor escape. -/
theorem Coded.run {word outside rest : List Char} (h : '"' ∉ word ∧ '\\' ∉ word)
    (more : Coded outside rest) : Coded (word ++ outside) (word ++ rest) := by
  induction word with
  | nil => exact more
  | cons c word ih =>
    simp only [List.mem_cons, not_or] at h
    exact .plain (Ne.symm h.1.1) (fun backslash => absurd backslash.symm h.2.1) (ih ⟨h.1.2, h.2.2⟩)

/-- A text without quotes and backslashes has no literals. -/
theorem Coded.of_notMem {text : List Char} (h : '"' ∉ text ∧ '\\' ∉ text) : Coded text text := by
  have whole := Coded.run h .nil
  rwa [List.append_nil] at whole

/-- An idle character is none of the marks that the scanners look for. -/
theorem ne_of_isIdle {c : Char} (h : isIdle c = true) :
    c ≠ '"' ∧ c ≠ '\\' ∧ c ≠ '(' ∧ c ≠ ')' ∧ c ≠ '\x7b' ∧ c ≠ '\x7d' ∧ c ≠ ',' ∧ c ≠ ';' := by
  simpa [isIdle] using h

theorem Grouped.of_idle {word : List Char} (h : ∀ c ∈ word, isIdle c = true) : Grouped word := by
  induction word with
  | nil => exact .nil
  | cons c word ih =>
    obtain ⟨here, later⟩ := List.forall_mem_cons.1 h
    exact .idle here (ih later)

/-- Grouped texts one after the other are grouped. -/
theorem Grouped.append {first second : List Char} (hf : Grouped first) (hs : Grouped second) :
    Grouped (first ++ second) := by
  induction hf with
  | nil => exact hs
  | idle h _ ih => exact .idle h ih
  | parentheses h _ ih => simpa using Grouped.parentheses h ih
  | braces h _ ih => simpa using Grouped.braces h ih

/-- A text that balances all brackets balances its braces. -/
theorem BalancesBrackets.braces {text : List Char} (h : BalancesBrackets text) :
    BalancesBraces text := by
  obtain ⟨outside, coded, -, braces⟩ := h
  exact ⟨outside, coded, braces⟩

/-- As many brackets are closed as opened, and no front of the text closes more than it opens. -/
structure Closes (opening closing : Char) (text : List Char) : Prop where
  even : text.count closing = text.count opening
  never : ∀ front, front <+: text → front.count closing ≤ front.count opening

section OpenBehind

variable {opening closing c : Char} {text : List Char} {depth depth' : Nat}

theorem openBehind_opening :
    openBehind opening closing depth (opening :: text) =
      openBehind opening closing (depth + 1) text := by
  rw [openBehind, if_pos rfl]

theorem openBehind_other (h : c ≠ opening ∧ c ≠ closing) :
    openBehind opening closing depth (c :: text) = openBehind opening closing depth text := by
  rw [openBehind, if_neg h.1, if_neg h.2]

/-- A word without the two marks opens and closes nothing. -/
theorem openBehind_append {word : List Char} (first : opening ∉ word) (last : closing ∉ word) :
    openBehind opening closing depth (word ++ text) = openBehind opening closing depth text := by
  induction word with
  | nil => rfl
  | cons c word ih =>
    simp only [List.mem_cons, not_or] at first last
    rw [List.cons_append, openBehind_other ⟨Ne.symm first.1, Ne.symm last.1⟩, ih first.2 last.2]

/-- A bracket is closed only where one is open. -/
theorem openBehind_closing (differ : closing ≠ opening)
    (h : openBehind opening closing depth (closing :: text) = some depth') :
    ∃ less, depth = less + 1 ∧ openBehind opening closing less text = some depth' := by
  rw [openBehind, if_neg differ, if_pos rfl] at h
  cases depth with
  | zero => cases h
  | succ less => exact ⟨less, rfl, h⟩

/-- Further brackets that are open before a text are open behind it. -/
theorem openBehind_add (differ : closing ≠ opening) (more : Nat)
    (h : openBehind opening closing depth text = some depth') :
    openBehind opening closing (depth + more) text = some (depth' + more) := by
  induction text generalizing depth with
  | nil =>
    cases h
    rfl
  | cons c text ih =>
    by_cases opens : c = opening
    · subst opens
      rw [openBehind_opening] at h ⊢
      rw [Nat.add_right_comm]
      exact ih h
    by_cases closes : c = closing
    · subst closes
      obtain ⟨less, rfl, rest⟩ := openBehind_closing differ h
      have later := ih rest
      rw [openBehind, if_neg differ, if_pos rfl, if_neg (by omega)]
      rwa [Nat.add_right_comm, Nat.add_sub_cancel]
    · rw [openBehind_other ⟨opens, closes⟩] at h ⊢
      exact ih h

/-- The fronts of a text are the empty one and those with its first character. -/
theorem forall_prefix_cons {α : Type} {x : α} {xs : List α} {property : List α → Prop} :
    (∀ front, front <+: x :: xs → property front) ↔
      property [] ∧ ∀ front, front <+: xs → property (x :: front) := by
  constructor
  · exact fun all => ⟨all [] List.nil_prefix, fun front h => all _ ((List.prefix_cons_inj x).2 h)⟩
  · rintro ⟨none, later⟩ front h
    obtain rfl | ⟨front, rfl, behind⟩ := List.prefix_cons_iff.1 h
    · exact none
    · exact later front behind

/-- In every front of the text at most as many are closed as were open and opened. -/
theorem openBehind_eq_some_iff (differ : closing ≠ opening) :
    openBehind opening closing depth text = some depth' ↔
      depth' + text.count closing = depth + text.count opening ∧
        ∀ front, front <+: text → front.count closing ≤ depth + front.count opening := by
  induction text generalizing depth with
  | nil => simp [openBehind, eq_comm]
  | cons c text ih =>
    rw [forall_prefix_cons]
    by_cases opens : c = opening
    · subst opens
      have more : ∀ count, depth + 1 + count = depth + (count + 1) := by omega
      rw [openBehind_opening, ih]
      simp [List.count_cons_of_ne (Ne.symm differ), more]
    by_cases closes : c = closing
    · subst closes
      cases depth with
      | zero =>
        rw [openBehind, if_neg differ, if_pos rfl, if_pos rfl]
        refine iff_of_false nofun fun ⟨_, _, never⟩ => ?_
        have first := never [] List.nil_prefix
        simp [List.count_cons_of_ne differ] at first
      | succ less =>
        rw [openBehind, if_neg differ, if_pos rfl, if_neg (by omega), Nat.add_sub_cancel, ih]
        have more : ∀ count, less + 1 + count = less + count + 1 := by omega
        simp [List.count_cons_of_ne differ, more, ← Nat.add_assoc]
    · rw [openBehind_other ⟨opens, closes⟩, ih]
      simp [List.count_cons_of_ne opens, List.count_cons_of_ne closes]

/-- Brackets close exactly if the counter never runs out and none is open in the end. -/
theorem closes_iff (differ : closing ≠ opening) :
    Closes opening closing text ↔ openBehind opening closing 0 text = some 0 := by
  simp only [openBehind_eq_some_iff differ, Nat.zero_add]
  exact ⟨fun ⟨even, never⟩ => ⟨even, never⟩, fun ⟨even, never⟩ => ⟨even, never⟩⟩

end OpenBehind

/-! ## Blanked texts -/

namespace Literal

/-- Any character but a quote is kept by blanking. -/
theorem blankChars_cons {c : Char} (h : c ≠ '"') (rest : List Char) :
    blankChars (c :: rest) = c :: blankChars rest := by
  rw [blankChars, if_neg h]

theorem blankChars_append {word : List Char} (h : '"' ∉ word) (rest : List Char) :
    blankChars (word ++ rest) = word ++ blankChars rest := by
  induction word with
  | nil => rfl
  | cons c word ih =>
    rw [List.mem_cons, not_or] at h
    rw [List.cons_append, blankChars_cons (Ne.symm h.1), ih h.2, List.cons_append]

/-- A text without quotes stays as it is. -/
theorem blankChars_of_notMem {text : List Char} (h : '"' ∉ text) : blankChars text = text := by
  have same := blankChars_append h []
  rwa [List.append_nil, blankChars, List.append_nil] at same

end Literal

/-- What may stand in a string literal on one line. -/
theorem IsLiteral.isQuoted {body : List Char} (h : IsLiteral body) : IsQuoted '"' false body := by
  induction h with
  | nil => exact .nil
  | plain h _ ih => exact .plain h ih
  | escaped h _ ih => exact .escaped (fun feed => absurd feed h) ih

/-- The contents of a literal are blanked, and its quotes are kept. -/
theorem Literal.blankChars_quoted {body : List Char} (h : IsQuoted '"' false body)
    (rest : List Char) :
    blankChars ('"' :: (body ++ '"' :: rest)) =
      '"' :: (List.replicate body.length ' ' ++ '"' :: blankChars rest) := by
  have scanned : scan '"' false (body ++ '"' :: rest) = some (body ++ ['"'], rest) :=
    h.scan (by decide) rest
  rw [blankChars, if_pos rfl]
  split
  · next inside after found =>
    rw [scanned] at found
    cases found
    simp
  · next found =>
    rw [scanned] at found
    cases found

theorem Literal.blankChars_literal {body : List Char} (h : IsLiteral body) (rest : List Char) :
    blankChars ('"' :: (body ++ '"' :: rest)) =
      '"' :: (List.replicate body.length ' ' ++ '"' :: blankChars rest) :=
  blankChars_quoted h.isQuoted rest

/-! ## The search for the closing brace -/

namespace EnumBody

/-- The search goes over any character but a brace. -/
theorem closingOffset?_other {c : Char} (h : c ≠ '\x7b' ∧ c ≠ '\x7d') (depth : Nat)
    (rest : List Char) :
    closingOffset? depth (c :: rest) = (closingOffset? depth rest).map (· + 1) := by
  cases depth <;> simp [closingOffset?, h]

/-- It goes over a row of spaces. -/
theorem closingOffset?_blanks (count depth : Nat) (rest : List Char) :
    closingOffset? depth (List.replicate count ' ' ++ rest) =
      (closingOffset? depth rest).map (· + count) := by
  induction count with
  | zero => simp
  | succ count ih =>
    rw [List.replicate_succ, List.cons_append, closingOffset?_other (by decide), ih]
    simp [Option.map_map, Function.comp_def, Nat.add_assoc]

/-- The search goes over the text, with so many braces open before it and behind it. -/
def Passes (depth : Nat) (text : List Char) (depth' : Nat) : Prop :=
  ∀ rest, closingOffset? depth (Literal.blankChars (text ++ rest)) =
    (closingOffset? depth' (Literal.blankChars rest)).map (· + text.length)

namespace Passes

variable {d d' d'' : Nat}

theorem nil (d : Nat) : Passes d [] d := by
  intro rest
  simp

/-- The search goes over two texts one after the other. -/
theorem append {first second : List Char} (hf : Passes d first d') (hs : Passes d' second d'') :
    Passes d (first ++ second) d'' := by
  intro rest
  rw [List.append_assoc, hf, hs, Option.map_map, List.length_append]
  congr 1
  funext n
  simp only [Function.comp_apply]
  omega

theorem cons {c : Char} {text : List Char} (hc : Passes d [c] d') (h : Passes d' text d'') :
    Passes d (c :: text) d'' :=
  hc.append h

theorem opening (d : Nat) : Passes d ['\x7b'] (d + 1) := by
  intro rest
  rw [List.singleton_append, Literal.blankChars_cons (by decide), closingOffset?]
  rfl

theorem closing (d : Nat) : Passes (d + 1) ['\x7d'] d := by
  intro rest
  rw [List.singleton_append, Literal.blankChars_cons (by decide), closingOffset?]
  rfl

theorem other {c : Char} (unquoted : c ≠ '"') (h : c ≠ '\x7b' ∧ c ≠ '\x7d') (d : Nat) :
    Passes d [c] d := by
  intro rest
  rw [List.singleton_append, Literal.blankChars_cons unquoted, closingOffset?_other h]
  rfl

/-- The search goes over a literal, whatever stands in it. -/
theorem literal {body : List Char} (h : IsLiteral body) (d : Nat) :
    Passes d ('"' :: (body ++ ['"'])) d := by
  intro rest
  rw [List.cons_append, List.append_assoc, List.singleton_append, Literal.blankChars_literal h,
    closingOffset?_other (by decide), closingOffset?_blanks, closingOffset?_other (by decide)]
  simp only [Option.map_map, List.length_cons, List.length_append, List.length_nil]
  congr 1
  funext n
  simp only [Function.comp_apply]
  omega

/-- The search follows the braces outside of the literals. -/
theorem of_coded {outside text : List Char} (h : Coded outside text)
    (braces : openBehind '\x7b' '\x7d' d outside = some d') : Passes d text d' := by
  induction h generalizing d with
  | nil =>
    cases braces
    exact nil _
  | @literal outside body rest hb _ _ ih =>
    have whole := (literal hb d).append (ih braces)
    rwa [List.cons_append, List.append_assoc, List.singleton_append] at whole
  | @plain c outside rest unquoted _ _ ih =>
    by_cases opens : c = '\x7b'
    · subst opens
      rw [openBehind_opening] at braces
      exact (opening d).cons (ih braces)
    by_cases closes : c = '\x7d'
    · subst closes
      obtain ⟨less, rfl, rest⟩ := openBehind_closing (by decide) braces
      exact (closing less).cons (ih rest)
    · rw [openBehind_other ⟨opens, closes⟩] at braces
      exact (other unquoted ⟨opens, closes⟩ d).cons (ih braces)

/-- It goes over a text with balanced braces. -/
theorem of_balancesBraces {text : List Char} (h : BalancesBraces text) (d : Nat) :
    Passes d text d := by
  obtain ⟨outside, coded, braces⟩ := h
  have here := openBehind_add (by decide) d braces
  rw [Nat.zero_add] at here
  exact of_coded coded here

/-- It goes over a grouped text. -/
theorem of_grouped {text : List Char} (h : Grouped text) (d : Nat) : Passes d text d := by
  induction h with
  | nil => exact nil d
  | idle h _ ih =>
    obtain ⟨unquoted, -, -, -, brace, brace', -⟩ := ne_of_isIdle h
    exact (other unquoted ⟨brace, brace'⟩ d).cons ih
  | parentheses h _ ih =>
    have mark : ∀ {c}, c = '(' ∨ c = ')' → Passes d [c] d := by
      rintro c (rfl | rfl) <;> exact other (by decide) (by decide) d
    exact (mark (.inl rfl)).cons ((of_balancesBraces h.braces d).append ((mark (.inr rfl)).cons ih))
  | braces h _ ih =>
    exact (opening d).cons ((of_balancesBraces h.braces _).append ((closing d).cons ih))

end Passes

theorem place_natCast (length offset : Nat) : place length offset = offset := by
  simp [place]
  omega

/-- The body begins behind the first brace that the blanked text has from the offset on. -/
theorem find?_of_drop {text : String} {offset : Nat} {before inner : List Char}
    (scan : (Literal.blankChars text.toList).drop offset = before ++ '\x7b' :: inner)
    (closed : '\x7b' ∉ before) :
    find? text offset = (closingOffset? 0 inner).map fun length =>
      String.ofList ((text.toList.drop (offset + before.length + 1)).take length) := by
  have other : ∀ c ∈ before, (decide (c ≠ '\x7b')) = true := by
    intro c hc
    rw [decide_eq_true_eq]
    rintro rfl
    exact closed hc
  have first : (before ++ '\x7b' :: inner).takeWhile (· ≠ '\x7b') = before := by
    rw [List.takeWhile_append_of_pos other]
    simp
  rw [find?]
  simp only [place_natCast, scan, first, List.drop_left]

/-- Behind a header, the body is found from the brace on that opens it in the blanked text. -/
theorem find?_at {front clause inner front' clause' inner' : List Char} {text : String}
    (same : text.toList = front ++ (clause ++ '\x7b' :: inner))
    (blank : Literal.blankChars text.toList = front' ++ (clause' ++ '\x7b' :: inner'))
    (long : front'.length = front.length) (long' : clause'.length = clause.length)
    (closed : '\x7b' ∉ clause') :
    find? text front.length =
      (closingOffset? 0 inner').map fun length => String.ofList (inner.take length) := by
  have behind : text.toList.drop (front.length + clause'.length + 1) = inner := by
    have front' : front ++ (clause ++ '\x7b' :: inner) = (front ++ (clause ++ ['\x7b'])) ++ inner := by
      simp
    rw [same, front', List.drop_left' (by simp [long', Nat.add_assoc])]
  have scan : (Literal.blankChars text.toList).drop front.length = clause' ++ '\x7b' :: inner' := by
    rw [blank, List.drop_left' long]
  rw [find?_of_drop scan closed, behind]

/-! ## The splitter -/

/-- The splitter goes over the text from one state to the other and cuts nothing. -/
def Keeps (state : SplitState) (text : List Char) (state' : SplitState) : Prop :=
  ∀ rest, cutBy (splitStep true) state (text ++ rest) =
    text.foldr prepend (cutBy (splitStep true) state' rest)

/-- Characters that are kept stand in front of the first piece. -/
theorem foldr_prepend (text : List Char) (piece : List Char) (pieces : List (List Char)) :
    text.foldr prepend (piece :: pieces) = (text ++ piece) :: pieces := by
  induction text with
  | nil => rfl
  | cons c text ih =>
    rw [List.foldr_cons, ih]
    rfl

/-- Outside literals and at this depth of brackets, not behind a backslash. -/
def SplitState.at (depth : Nat) : SplitState :=
  ⟨depth, false, false⟩

section Step

variable {c : Char} {escaped : Bool} {depth : Nat}

theorem splitStep_quote (depth : Int) (inLiteral : Bool) :
    splitStep true ⟨depth, inLiteral, false⟩ '"' = (⟨depth, !inLiteral, false⟩, .keep) := by
  simp [splitStep]

/-- Inside a literal everything is kept. -/
theorem splitStep_literal (h : c = '"' → escaped = true) (depth : Int) :
    splitStep true ⟨depth, true, escaped⟩ c = (⟨depth, true, c == '\\'⟩, .keep) := by
  have inside : ¬ (c = '"' ∧ (!escaped) = true) := by
    rintro ⟨quote, fresh⟩
    rw [h quote] at fresh
    cases fresh
  rw [splitStep, if_neg inside, if_pos rfl]

theorem splitStep_opening (h : c = '(' ∨ c = '\x7b') :
    splitStep true ⟨depth, false, escaped⟩ c = (.at (depth + 1), .keep) := by
  rcases h with rfl | rfl <;> simp [splitStep, SplitState.at]

theorem splitStep_closing (h : c = ')' ∨ c = '\x7d') :
    splitStep true ⟨(depth + 1 : Nat), false, escaped⟩ c = (.at depth, .keep) := by
  rcases h with rfl | rfl <;> simp [splitStep, SplitState.at]

/-- A separator between brackets is none. -/
theorem splitStep_between (unquoted : c ≠ '"') (opening : c ≠ '(' ∧ c ≠ '\x7b')
    (closing : c ≠ ')' ∧ c ≠ '\x7d') :
    splitStep true ⟨(depth + 1 : Nat), false, escaped⟩ c =
      (⟨(depth + 1 : Nat), false, c == '\\'⟩, .keep) := by
  have deep : ((depth + 1 : Nat) : Int) ≠ 0 := by omega
  simp only [splitStep, unquoted, opening, closing, deep, false_and, and_false, or_self,
    Bool.false_eq_true, if_false]

/-- Idle characters are kept outside of literals. -/
theorem splitStep_idle (h : isIdle c = true) (depth : Nat) :
    splitStep true (.at depth) c = (.at depth, .keep) := by
  simp [splitStep, SplitState.at, ne_of_isIdle h]

end Step

namespace Keeps

variable {s s' s'' : SplitState}

theorem nil (s : SplitState) : Keeps s [] s :=
  fun _ => rfl

/-- Two texts that are kept are kept one after the other. -/
theorem append {first second : List Char} (hf : Keeps s first s') (hs : Keeps s' second s'') :
    Keeps s (first ++ second) s'' := by
  intro rest
  rw [List.append_assoc, hf, hs, List.foldr_append]

theorem cons {c : Char} {text : List Char} (h : splitStep true s c = (s', .keep))
    (more : Keeps s' text s'') : Keeps s (c :: text) s'' := by
  intro rest
  rw [List.cons_append, cutBy, h]
  dsimp only
  rw [more, List.foldr_cons]

/-- The rest of a literal. -/
theorem literalEnd {body : List Char} (h : IsLiteral body) (single : ¬ ['\\', '\\'] <:+: body)
    (depth : Int) : Keeps ⟨depth, true, false⟩ (body ++ ['"']) ⟨depth, false, false⟩ := by
  induction h with
  | nil => exact cons (splitStep_quote depth true) (nil _)
  | @plain c rest h _ ih =>
    have later := ih fun inside => single (inside.trans (List.suffix_cons c rest).isInfix)
    have here := @splitStep_literal c false (fun quote => absurd quote h.1) depth
    rw [beq_false_of_ne h.2.1] at here
    exact cons here later
  | @escaped c rest h _ ih =>
    have later := ih fun inside => single (inside.trans
      ((List.suffix_cons c rest).trans (List.suffix_cons _ _)).isInfix)
    have other : c ≠ '\\' := by
      rintro rfl
      exact single (List.prefix_append ['\\', '\\'] rest).isInfix
    have behind := @splitStep_literal c true (fun _ => rfl) depth
    rw [beq_false_of_ne other] at behind
    exact cons (splitStep_literal (fun quote => absurd quote (by decide)) depth) (cons behind later)

/-- Between brackets nothing is cut. The text is followed by a closing bracket, and no quote follows
where the character before is a backslash. -/
theorem of_coded {outside text : List Char} (h : Coded outside text) {p b p' b' : Nat}
    (parentheses : openBehind '(' ')' p outside = some p')
    (braces : openBehind '\x7b' '\x7d' b outside = some b') {closing : Char}
    (bracket : closing = ')' ∨ closing = '\x7d') {escaped : Bool}
    (apart : escaped = true → text.head? ≠ some '"') :
    Keeps ⟨(p + b + 1 : Nat), false, escaped⟩ (text ++ [closing]) (.at (p' + b')) := by
  induction h generalizing p b escaped with
  | nil =>
    cases parentheses
    cases braces
    exact cons (splitStep_closing bracket) (nil _)
  | @literal outside body rest hb single _ ih =>
    have fresh : escaped = false := by
      cases escaped
      · rfl
      · exact absurd rfl (apart rfl)
    subst fresh
    have later := ih parentheses braces fun (off : false = true) => by cases off
    have whole := cons (splitStep_quote _ false) ((literalEnd hb single _).append later)
    rw [List.append_assoc, List.singleton_append] at whole
    simpa using whole
  | @plain c outside rest unquoted apart' _ ih =>
    have behind : c ≠ '\\' → (c == '\\') = false := beq_false_of_ne
    -- Both kinds of brackets count in one depth; each bracket moves one of the two counts.
    by_cases opens : c = '('
    · subst opens
      rw [openBehind_opening] at parentheses
      rw [openBehind_other (by decide)] at braces
      have later := ih parentheses braces fun (off : false = true) => by cases off
      rw [Nat.add_right_comm p 1 b] at later
      exact cons (splitStep_opening (.inl rfl)) later
    by_cases opens' : c = '\x7b'
    · subst opens'
      rw [openBehind_other (by decide)] at parentheses
      rw [openBehind_opening] at braces
      have later := ih parentheses braces fun (off : false = true) => by cases off
      exact cons (splitStep_opening (.inr rfl)) later
    by_cases closes : c = ')'
    · subst closes
      obtain ⟨less, rfl, parentheses⟩ := openBehind_closing (by decide) parentheses
      rw [openBehind_other (by decide)] at braces
      have later := ih parentheses braces fun (off : false = true) => by cases off
      rw [Nat.add_right_comm less 1 b]
      exact cons (splitStep_closing (.inl rfl)) later
    by_cases closes' : c = '\x7d'
    · subst closes'
      obtain ⟨less, rfl, braces⟩ := openBehind_closing (by decide) braces
      rw [openBehind_other (by decide)] at parentheses
      have later := ih parentheses braces fun (off : false = true) => by cases off
      exact cons (splitStep_closing (.inr rfl)) later
    · rw [openBehind_other ⟨opens, closes⟩] at parentheses
      rw [openBehind_other ⟨opens', closes'⟩] at braces
      have later := ih parentheses braces fun (backslash : (c == '\\') = true) =>
        apart' (beq_iff_eq.1 backslash)
      exact cons (splitStep_between unquoted ⟨opens, opens'⟩ ⟨closes, closes'⟩) later

/-- From one bracket to the one that closes it. -/
theorem of_balanced {inner : List Char} (h : BalancesBrackets inner) {opening closing : Char}
    (first : opening = '(' ∨ opening = '\x7b') (last : closing = ')' ∨ closing = '\x7d') :
    Keeps (.at 0) (opening :: (inner ++ [closing])) (.at 0) := by
  obtain ⟨outside, coded, parentheses, braces⟩ := h
  exact cons (splitStep_opening first)
    (of_coded coded parentheses braces last fun off => by cases off)

/-- A grouped text is kept outside of all brackets. -/
theorem of_grouped {text : List Char} (h : Grouped text) : Keeps (.at 0) text (.at 0) := by
  induction h with
  | nil => exact nil _
  | idle h _ ih => exact cons (splitStep_idle h 0) ih
  | parentheses h _ ih =>
    have whole := (of_balanced h (.inl rfl) (.inl rfl)).append ih
    rwa [List.cons_append, List.append_assoc, List.singleton_append] at whole
  | braces h _ ih =>
    have whole := (of_balanced h (.inr rfl) (.inr rfl)).append ih
    rwa [List.cons_append, List.append_assoc, List.singleton_append] at whole

end Keeps

end EnumBody

end InterfaceGen.Source
