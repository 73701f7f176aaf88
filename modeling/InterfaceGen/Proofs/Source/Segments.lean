import InterfaceGen.Proofs.Text.Occurring
import InterfaceGen.Proofs.Text.Trimming
import InterfaceGen.Source.Comment

/-!
# Sources as literals, comments and plain runs

A source text is a row of segments: literals, comments, and runs of other characters in which no
comment begins. `Segmented segments text`: the text is written with these segments, whatever the
contents of its comments are. Stripping keeps exactly what is no comment, `strip_segmented`.
-/

namespace InterfaceGen.Source

/-- What may stand between two quotes of a literal: a backslash takes the character behind it along,
the flag says whether also a line feed. -/
inductive IsQuoted (quote : Char) (escapesBreak : Bool) : List Char → Prop where
  | nil : IsQuoted quote escapesBreak []
  | plain {c : Char} {rest : List Char} (h : c ≠ quote ∧ c ≠ '\\' ∧ c ≠ '\n')
    (more : IsQuoted quote escapesBreak rest) : IsQuoted quote escapesBreak (c :: rest)
  | escaped {c : Char} {rest : List Char} (h : c = '\n' → escapesBreak = true)
    (more : IsQuoted quote escapesBreak rest) : IsQuoted quote escapesBreak ('\\' :: c :: rest)

/-- A part of a source text; what stands in a comment is left out. -/
inductive Segment where
  /-- A string or character literal. -/
  | literal (quote : Char) (body : List Char)
  /-- Characters outside literals and comments. -/
  | plain (run : List Char)
  | lineComment
  | blockComment
  deriving DecidableEq

/-- What is left of a segment when comments are stripped. -/
def Segment.kept : Segment → List Char
  | literal quote body => quote :: (body ++ [quote])
  | plain run => run
  | lineComment => []
  | blockComment => [' ']

/-- No comment begins in the run: no slash in it stands before a slash or a star, also where the
run ends and `rest` goes on. -/
def OpensNoComment (run rest : List Char) : Prop :=
  ∀ front back, run = front ++ '/' :: back → ∀ c ∈ (back ++ rest).head?, c ≠ '/' ∧ c ≠ '*'

/-- The ways to write segments. A line comment ends before a line feed or with the text, a block
comment at the first closing mark. -/
inductive Segmented : List Segment → List Char → Prop where
  | nil : Segmented [] []
  | literal {quote : Char} {body rest : List Char} {segments : List Segment}
    (kind : quote = '"' ∨ quote = '\'') (hb : IsQuoted quote true body)
    (more : Segmented segments rest) :
    Segmented (.literal quote body :: segments) (quote :: (body ++ quote :: rest))
  | plain {run rest : List Char} {segments : List Segment}
    (unquoted : ∀ c ∈ run, c ≠ '"' ∧ c ≠ '\'') (apart : OpensNoComment run rest)
    (more : Segmented segments rest) : Segmented (.plain run :: segments) (run ++ rest)
  | lineComment {body rest : List Char} {segments : List Segment} (oneLine : '\n' ∉ body)
    (ends : ∀ c ∈ rest.head?, c = '\n') (more : Segmented segments rest) :
    Segmented (.lineComment :: segments) ('/' :: '/' :: (body ++ rest))
  | blockComment {body rest : List Char} {segments : List Segment}
    (closed : ¬ ['*', '/'] <:+: body) (more : Segmented segments rest) :
    Segmented (.blockComment :: segments) ('/' :: '*' :: (body ++ '*' :: '/' :: rest))

theorem OpensNoComment.of_notMem {run : List Char} (h : '/' ∉ run) (rest : List Char) :
    OpensNoComment run rest :=
  fun _ _ same => absurd (same ▸ by simp) h

/-- A run opens no comment if its first character does not, nor does the rest. -/
theorem opensNoComment_cons {c : Char} {run rest : List Char} :
    OpensNoComment (c :: run) rest ↔
      (c = '/' → ∀ d ∈ (run ++ rest).head?, d ≠ '/' ∧ d ≠ '*') ∧ OpensNoComment run rest := by
  constructor
  · refine fun h => ⟨?_, fun front back same => h (c :: front) back (congrArg (c :: ·) same)⟩
    rintro rfl
    exact h [] run rfl
  · rintro ⟨here, later⟩ front back same
    cases front with
    | nil =>
      obtain ⟨slash, rfl⟩ := List.cons.inj same
      exact here slash
    | cons d front => exact later front back (List.cons.inj same).2

/-! ## What is read of a segment -/

/-- A literal is read through its closing quote. -/
theorem IsQuoted.scan {quote : Char} {escapesBreak : Bool} {body : List Char}
    (h : IsQuoted quote escapesBreak body) (mark : quote ≠ '\\') (rest : List Char) :
    Literal.scan quote escapesBreak (body ++ quote :: rest) = some (body ++ [quote], rest) := by
  induction h with
  | nil => simp [Literal.scan, mark]
  | plain h _ ih => simp [Literal.scan, h, ih]
  | @escaped c _ h _ ih =>
    have allowed : ¬ (c = '\n' ∧ escapesBreak = false) := fun off => by
      rw [h off.1] at off
      exact Bool.noConfusion off.2
    simp [Literal.scan, allowed, ih]

namespace Comment

variable {rest : List Char}

/-- A block comment is read through its first closing mark. -/
theorem afterBlock?_closed {body : List Char} (closed : ¬ ['*', '/'] <:+: body)
    (rest : List Char) : afterBlock? (body ++ '*' :: '/' :: rest) = some rest := by
  induction body with
  | nil => rfl
  | cons c body ih =>
    have later := ih fun inside => closed (inside.trans (List.suffix_cons c body).isInfix)
    have early : ∀ more, c = '*' → body ++ '*' :: '/' :: rest = '/' :: more → False := by
      intro more star slash
      cases body with
      | nil => exact absurd (List.cons.inj slash).1 (by decide)
      | cons d body =>
        rw [star, (List.cons.inj slash).1] at closed
        exact closed (List.prefix_append ['*', '/'] body).isInfix
    rw [List.cons_append, afterBlock?.eq_3 _ _ early]
    exact later

/-- A line comment is removed up to the end of its line. -/
theorem stripChars_lineComment {body : List Char} (oneLine : '\n' ∉ body)
    (ends : ∀ c ∈ rest.head?, c = '\n') :
    stripChars ('/' :: '/' :: (body ++ rest)) = stripChars rest := by
  have inside : ∀ c ∈ body, (decide (c ≠ '\n')) = true := by
    intro c hc
    rw [decide_eq_true_eq]
    rintro rfl
    exact oneLine hc
  have behind : rest.dropWhile (· ≠ '\n') = rest := by
    cases rest with
    | nil => rfl
    | cons c rest => simp [ends c rfl]
  rw [stripChars, List.dropWhile_append_of_pos inside, behind]

/-- A block comment leaves a space. -/
theorem stripChars_blockComment {body : List Char} (closed : ¬ ['*', '/'] <:+: body)
    (rest : List Char) :
    stripChars ('/' :: '*' :: (body ++ '*' :: '/' :: rest)) = ' ' :: stripChars rest := by
  rw [stripChars]
  split
  · next after found =>
    rw [afterBlock?_closed closed] at found
    rw [Option.some.inj found]
  · next found =>
    rw [afterBlock?_closed closed] at found
    cases found

/-- A literal is kept, whatever stands in it. -/
theorem stripChars_literal {quote : Char} {body : List Char} (kind : quote = '"' ∨ quote = '\'')
    (h : IsQuoted quote true body) (rest : List Char) :
    stripChars (quote :: (body ++ quote :: rest)) = quote :: (body ++ [quote]) ++ stripChars rest := by
  have mark : quote ≠ '\\' ∧ quote ≠ '/' := by
    rcases kind with rfl | rfl <;> decide
  rw [stripChars]
  · rw [if_pos kind]
    split
    · next inside after found =>
      rw [h.scan mark.1] at found
      obtain ⟨rfl, rfl⟩ := Prod.mk.inj (Option.some.inj found)
      rfl
    · next found =>
      rw [h.scan mark.1] at found
      cases found
  all_goals exact fun _ slash => absurd slash mark.2

/-- So is a run that opens no comment. -/
theorem stripChars_plain {run : List Char} (unquoted : ∀ c ∈ run, c ≠ '"' ∧ c ≠ '\'')
    (apart : OpensNoComment run rest) : stripChars (run ++ rest) = run ++ stripChars rest := by
  induction run with
  | nil => rfl
  | cons c run ih =>
    obtain ⟨opened, apart⟩ := opensNoComment_cons.1 apart
    have later := ih (fun d hd => unquoted d (List.mem_cons_of_mem _ hd)) apart
    have here : ∀ d more, c = '/' → run ++ rest = d :: more → d ≠ '/' ∧ d ≠ '*' :=
      fun d more slash same => opened slash d (by rw [same]; rfl)
    have unquotedHere : ¬ (c = '"' ∨ c = '\'') := by
      rw [not_or]
      exact unquoted c (List.mem_cons_self ..)
    rw [List.cons_append, stripChars]
    · rw [if_neg unquotedHere, later]
      rfl
    · exact fun more slash same => (here _ more slash same).1 rfl
    · exact fun more slash same => (here _ more slash same).2 rfl

end Comment

/-! ## Stripped texts -/

section Stripped

variable {segments : List Segment} {text : List Char}

/-- What is left of a text is what is left of its segments. -/
theorem Segmented.stripChars (h : Segmented segments text) :
    Comment.stripChars text = segments.flatMap Segment.kept := by
  induction h with
  | nil => simp [Comment.stripChars]
  | literal kind hb _ ih =>
    rw [Comment.stripChars_literal kind hb, ih]
    rfl
  | plain unquoted apart _ ih =>
    rw [Comment.stripChars_plain unquoted apart, ih]
    rfl
  | lineComment oneLine ends _ ih =>
    rw [Comment.stripChars_lineComment oneLine ends, ih]
    rfl
  | blockComment closed _ ih =>
    rw [Comment.stripChars_blockComment closed, ih]
    rfl

/-- The segment without a comment that is left of a segment. -/
def Segment.bare : Segment → Segment
  | lineComment => plain []
  | blockComment => plain [' ']
  | segment => segment

theorem Segment.kept_bare (segment : Segment) : segment.bare.kept = segment.kept := by
  cases segment <;> rfl

/-- What is left begins as the text does, unless that begins with a slash. -/
theorem Segmented.head?_kept (h : Segmented segments text) (solid : ∀ c ∈ text.head?, c ≠ '/') :
    (segments.flatMap Segment.kept).head? = text.head? := by
  induction h with
  | nil | literal => rfl
  | @plain run rest segments _ _ _ ih =>
    cases run with
    | nil => exact ih solid
    | cons => rfl
  | lineComment | blockComment => exact absurd rfl (solid '/' rfl)

/-- Only the character behind the run counts, and a slash stands there behind no slash. -/
theorem OpensNoComment.congr {run rest other : List Char} (h : OpensNoComment run rest)
    (same : (∀ c ∈ rest.head?, c ≠ '/') → other.head? = rest.head?) :
    OpensNoComment run other := by
  intro front back split c hc
  cases back with
  | nil =>
    have behind := h front [] split
    rw [List.nil_append] at behind hc
    rw [same fun d hd => (behind d hd).1] at hc
    exact behind c hc
  | cons d back => exact h front (d :: back) split c hc

/-- What is left of segments is made of segments without a comment. -/
theorem Segmented.bare (h : Segmented segments text) :
    Segmented (segments.map Segment.bare) (segments.flatMap Segment.kept) := by
  induction h with
  | nil => exact .nil
  | @literal quote body rest segments kind hb _ ih =>
    have written := Segmented.literal kind hb ih
    have same : quote :: (body ++ quote :: segments.flatMap Segment.kept) =
        (Segment.literal quote body :: segments).flatMap Segment.kept := by
      simp [Segment.kept]
    rwa [same] at written
  | plain unquoted apart more ih => exact .plain unquoted (apart.congr more.head?_kept) ih
  | lineComment _ _ _ ih =>
    exact @Segmented.plain [] _ _ (List.forall_mem_nil _) (.of_notMem List.not_mem_nil _) ih
  | blockComment _ _ ih =>
    exact @Segmented.plain [' '] _ _ (by simp) (.of_notMem (by decide) _) ih

end Stripped

/-- Literals and plain runs are kept, a block comment leaves a space and a line comment nothing,
whatever stands in them; and there is no comment left to strip. -/
theorem strip_segmented {segments : List Segment} {text : String}
    (h : Segmented segments text.toList) :
    Comment.strip text = String.ofList (segments.flatMap Segment.kept) ∧
      Comment.strip (Comment.strip text) = Comment.strip text := by
  have once : Comment.strip text = String.ofList (segments.flatMap Segment.kept) := by
    rw [Comment.strip, h.stripChars]
  have same : (segments.map Segment.bare).flatMap Segment.kept = segments.flatMap Segment.kept := by
    rw [List.flatMap_map]
    exact congrArg (List.flatMap · segments) (funext Segment.kept_bare)
  refine ⟨once, ?_⟩
  rw [once, Comment.strip, String.toList_ofList, h.bare.stripChars, same]

/-- Literals with comment marks in them, and comments with quotes in them. -/
def mixedSegments : List Segment :=
  [.plain "a = ".toList, .literal '"' "/* //".toList, .plain (' ' :: '/' :: " 2; ".toList),
    .lineComment, .plain "\nb = ".toList, .literal '\'' "\\'".toList, .plain ";".toList,
    .blockComment, .plain "c".toList]

/-- The text of these segments. -/
def mixedText : String :=
  "a = \"/* //\" / 2; // it's \"\nb = '\\'';/* \" // '/c**/c"

theorem segmented_mixedText : Segmented mixedSegments mixedText.toList := by
  have marks : IsQuoted '"' true "/* //".toList := by
    repeat refine .plain (by decide) ?_
    exact .nil
  have quote : IsQuoted '\'' true "\\'".toList := .escaped (by decide) .nil
  have last : Segmented [.plain "c".toList] ("c".toList ++ []) :=
    .plain (by decide) (.of_notMem (by decide) _) .nil
  have block := @Segmented.blockComment " \" // '/c*".toList _ _
    (Text.occurs_eq_false_iff.1 (by decide)) last
  have semicolon := @Segmented.plain ";".toList _ _ (by decide) (.of_notMem (by decide) _) block
  have second := @Segmented.plain "\nb = ".toList _ _ (by decide) (.of_notMem (by decide) _)
    (.literal (.inr rfl) quote semicolon)
  have line := @Segmented.lineComment " it's \"".toList _ _ (by decide) (by simp) second
  have slash : ∀ rest, OpensNoComment ('/' :: " 2; ".toList) rest := fun rest =>
    opensNoComment_cons.2 ⟨fun _ => by rintro d ⟨⟩; decide, .of_notMem (by decide) _⟩
  have divided : ∀ rest, OpensNoComment (' ' :: '/' :: " 2; ".toList) rest := fun rest =>
    opensNoComment_cons.2 ⟨fun same => absurd same (by decide), slash rest⟩
  exact @Segmented.plain "a = ".toList _ _ (by decide) (.of_notMem (by decide) _)
    (.literal (.inl rfl) marks (.plain (by decide) (divided _) line))

/-- The comments are removed, the literals are kept, and there is no comment left. -/
theorem strip_mixedText :
    Segmented mixedSegments mixedText.toList ∧
      Comment.strip mixedText = "a = \"/* //\" / 2; \nb = '\\''; c" ∧
      Comment.strip (Comment.strip mixedText) = Comment.strip mixedText := by
  obtain ⟨once, twice⟩ := strip_segmented segmented_mixedText
  exact ⟨segmented_mixedText, once, twice⟩

end InterfaceGen.Source
