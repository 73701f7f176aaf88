import InterfaceGen.Proofs.Source.FieldReading
import InterfaceGen.Proofs.Text.Scanning
import Mathlib.Data.List.Forall2

/-!
# The two passes over a class

The first pass finds the declarations that name a property, the second one all declarations. Between
its occurrences neither finds anything: the first needs a naming annotation, the second the word
`private` as a whole.
-/

namespace InterfaceGen.Source

open InterfaceGen.Text InterfaceGen.Text.Pattern InterfaceGen.Types InterfaceGen.Source.Annotation
open FieldList (Part naming annotatedField plainField comma)

variable {ι : Type} {word rest : List Char}

/-! ## The pass for all declarations -/

theorem isWordChar_of_mem_privateWord : ∀ c ∈ privateWord, isWordChar c = true := by
  decide

/-- The word `private` does not stand in the text as a whole. -/
def Quiet (text : List Char) : Prop :=
  ¬ HoldsWord privateWord text

namespace Quiet

/-- Quiet texts that are apart are quiet together. -/
theorem append {first second : List Char} (hf : Quiet first) (hs : Quiet second)
    (edge : EndsApart first ∨ BeginsApart second) : Quiet (first ++ second) :=
  not_holdsWord_append isWordChar_of_mem_privateWord hf hs edge

theorem of_forall (h : ∀ c ∈ word, isWordChar c = false) : Quiet word :=
  not_holdsWord_of_forall (by decide) isWordChar_of_mem_privateWord h

theorem blank (h : AreBlank word) : Quiet word :=
  of_forall fun c hc => isWordChar_of_isBlank (h c hc)

theorem blank_append (hb : AreBlank word) (h : Quiet rest) : Quiet (word ++ rest) :=
  append (blank hb) h (.inl (.blank hb))

/-- Any other word is quiet. -/
theorem of_word (letters : ∀ c ∈ word, isWordChar c = true) (other : word ≠ privateWord) :
    Quiet word :=
  not_holdsWord_of_word letters other

theorem cons {c : Char} (mark : isWordChar c = false) (h : Quiet word) : Quiet (c :: word) := by
  have single : ∀ d ∈ [c], isWordChar d = false := by
    intro d hd
    rw [List.mem_singleton.1 hd]
    exact mark
  have ends : EndsApart [c] := by
    intro d hd
    cases hd
    exact mark
  exact append (of_forall single) h (.inl ends)

end Quiet

theorem ArgumentName.quiet {name : List Char} (h : ArgumentName name) : Quiet name := by
  cases h with
  | none => exact .of_forall (List.forall_mem_nil _)
  | @value before after hb ha =>
    have behind : Quiet (before ++ '=' :: after) :=
      .blank_append hb (.cons (by decide) (.blank ha))
    refine .append (.of_word (by decide) (by decide)) behind (.inr ?_)
    exact beginsApart_append hb (head?_other (by decide) _)

/-- A naming annotation is quiet. -/
theorem Naming.quiet {literal text : List Char} (h : Naming literal text) : Quiet text := by
  cases h with
  | @intro before behind name arguments _ _ lacks hb hb' hn _ lacks' =>
    have closed : Quiet [')'] := .of_forall (by decide)
    have last : Quiet (arguments ++ [')']) :=
      .append lacks' closed (.inr (head?_other (by decide) _))
    have quoted : Quiet ('"' :: (literal ++ '"' :: (arguments ++ [')']))) :=
      .cons (by decide) (.append lacks (.cons (by decide) last) (.inr (head?_other (by decide) _)))
    have named : Quiet (behind ++ (name ++ '"' :: (literal ++ '"' :: (arguments ++ [')'])))) :=
      .blank_append hb' (.append hn.quiet quoted (.inr (head?_other (by decide) _)))
    have opened := Quiet.blank_append hb (.cons (c := '(') (by decide) named)
    have letters : Quiet "JsonProperty".toList := .of_word (by decide) (by decide)
    have keyword : Quiet "@JsonProperty".toList := .cons (by decide) letters
    exact .append keyword opened (.inr (beginsApart_append hb (head?_other (by decide) _)))

theorem Annotations.endsApart {text : List Char} (h : Annotations text) : EndsApart text := by
  induction h with
  | nil => exact .nil
  | @bare name gap more _ hg apart _ ih =>
    have behind : EndsApart (gap ++ more) := (EndsApart.blank hg).append ih
    rw [← List.cons_append]
    exact behind.append_left (by simpa [or_iff_not_imp_left] using apart)
  | @call name gap arguments behind more _ _ _ _ _ hb _ ih =>
    have last : EndsApart ([')'] ++ (behind ++ more)) :=
      (EndsApart.concat (by decide) []).append ((EndsApart.blank hb).append ih)
    have same : '@' :: (name ++ (gap ++ '(' :: (arguments ++ ')' :: (behind ++ more)))) =
        ('@' :: (name ++ (gap ++ '(' :: arguments))) ++ ([')'] ++ (behind ++ more)) := by simp
    rw [same]
    exact last.append_left (by simp)

/-- Annotations are quiet. -/
theorem Annotations.quiet {text : List Char} (h : Annotations text) : Quiet text := by
  induction h with
  | nil => exact .of_forall (List.forall_mem_nil _)
  | @bare name gap more h hg apart annotations ih =>
    have behind : Quiet (gap ++ more) := .blank_append hg ih
    have parted := annotations.beginsApart hg apart []
    rw [List.append_nil] at parted
    exact .cons (by decide) (.append (.of_word h.letters h.notPrivate) behind (.inr parted))
  | @call name gap arguments behind more h hg _ _ lacks hb _ ih =>
    have last : Quiet (behind ++ more) := .blank_append hb ih
    have closed : Quiet (arguments ++ ')' :: (behind ++ more)) :=
      .append lacks (.cons (by decide) last) (.inr (head?_other (by decide) _))
    have opened : Quiet (gap ++ '(' :: (arguments ++ ')' :: (behind ++ more))) :=
      .blank_append hg (.cons (by decide) closed)
    refine .cons (by decide) (.append (.of_word h.letters h.notPrivate) opened (.inr ?_))
    exact beginsApart_append hg (head?_other (by decide) _)

theorem Naming.nonempty {literal text : List Char} (h : Naming literal text) : text ≠ [] := by
  cases h
  exact List.cons_ne_nil _ _

theorem Naming.endsApart {literal text : List Char} (h : Naming literal text) :
    EndsApart text := by
  cases h with
  | @intro before behind name arguments =>
    have closed : EndsApart (arguments ++ [')']) := .concat (by decide) _
    have same : "@JsonProperty".toList ++ (before ++ '(' :: (behind ++ (name ++
        '"' :: (literal ++ '"' :: (arguments ++ [')']))))) =
        ("@JsonProperty".toList ++ (before ++ '(' :: (behind ++ (name ++
          '"' :: (literal ++ ['"']))))) ++ (arguments ++ [')']) := by simp
    rw [same]
    exact closed.append_left (by simp)

/-- A declaration is what stands before the word `private`, which does not hold it, and the rest. -/
theorem FieldDeclaration.Written.parts {d : FieldDeclaration} {text : List Char}
    (h : d.Written text) : ∃ front core, text = front ++ core ∧ Quiet front ∧ EndsApart front ∧
      Core d.type d.first d.others core := by
  cases h with
  | @annotated literal naming gap annotations core type n h hg ha hc =>
    have behind : Quiet (gap ++ annotations) := .blank_append hg ha.quiet
    refine ⟨naming ++ (gap ++ annotations), core, by simp, ?_, ?_, hc⟩
    · exact .append h.quiet behind (.inl h.endsApart)
    · exact h.endsApart.append ((EndsApart.blank hg).append ha.endsApart)
  | @plain annotations core type n others ha hc =>
    exact ⟨annotations, core, rfl, ha.quiet, ha.endsApart, hc⟩

/-- The core of a declaration begins with its modifier. -/
theorem Core.head {type : JavaType} {first : FieldName} {others : List FieldName}
    {text : List Char} (h : Core type first others text) (rest : List Char) :
    (text ++ rest).head? = some 'p' := by
  cases h
  rfl

/-- It ends with its semicolon, and so in no word. -/
theorem Core.endsApart {type : JavaType} {first : FieldName} {others : List FieldName}
    {text : List Char} (h : Core type first others text) : EndsApart text := by
  cases h
  intro c hc
  simp only [List.getLast?_append] at hc
  cases hc
  decide

/-- The names of a declaration that need not name a property. -/
def nameList : Pattern Part :=
  .name ++ .many (comma ++ .name)

theorem plainField_follow : plainField.follow = (.wordEdge ++ corePattern nameList).follow :=
  rfl

/-- The search for all declarations goes over a text that does not hold the word `private`. -/
theorem yields_plain_quiet {kept : List (List (Part × List Char))} (h : Yields plainField rest kept)
    (quiet : Quiet word) (ends : EndsApart word) : Yields plainField (word ++ rest) kept := by
  refine h.free ends fun front back same nonempty before offset => ?_
  -- What stands before the place is part of the text too: the word may not begin within another.
  rw [same] at quiet ends
  have ends' : EndsApart back := by
    intro c hc
    refine ends c ?_
    rw [List.getLast?_append, Option.mem_def.1 hc]
    rfl
  rw [matchAt, plainField_follow]
  exact follow_wordEdge_word isWordChar_of_mem_privateWord (by decide) (LeavesWord.spacing.seq _)
    quiet ends' nonempty before offset [] some

/-- What the second pass keeps of a declaration. -/
def KeptPlain (d : FieldDeclaration) (kept : List (Part × List Char)) : Prop :=
  ∃ spelled further, d.type.Spelling spelled ∧ FurtherNames d.others further ∧
    kept = [(.names, d.first.chars ++ further), (.type, spelled)]

/-- The plain pattern finds a declaration as it is written, and goes on behind it. -/
theorem FieldDeclaration.Written.yields_plain {d : FieldDeclaration} {text : List Char}
    {kept : List (List (Part × List Char))} (h : d.Written text)
    (later : Yields plainField rest kept) :
    ∃ first, KeptPlain d first ∧ Yields plainField (text ++ rest) (first :: kept) := by
  obtain ⟨front, core, rfl, quiet, ends, h⟩ := h.parts
  obtain ⟨spelled, further, spelling, names, reads⟩ :=
    h.reads (readsNames_list d.first d.others) within_list rest
  refine ⟨_, ⟨spelled, further, spelling, names, rfl⟩, ?_⟩
  rw [List.append_assoc]
  refine yields_plain_quiet (later.occurrence ?_ h.endsApart ?_) quiet ends
  · rintro rfl
    exact nomatch h.head []
  · intro before offset start
    have edge : Cursor.atWordEdge (ι := Part) ⟨before, core ++ rest, offset, []⟩ = true := by
      rw [Cursor.atWordEdge, start, h.head rest]
      decide
    rw [matchAt, plainField_follow, follow_seq, follow_wordEdge, if_pos edge]
    apply reads
    rw [List.append_nil]

/-- So it is for all members of a class, one after the other. -/
theorem Members.yields_plain {ds : List FieldDeclaration} {text : List Char} (h : Members ds text)
    (later : Yields plainField rest []) :
    ∃ kept, List.Forall₂ KeptPlain ds kept ∧ Yields plainField (text ++ rest) kept := by
  induction h with
  | nil hg => exact ⟨[], .nil, yields_plain_quiet later (.blank hg) (.blank hg)⟩
  | @cons d ds gap text more hg h members ih =>
    obtain ⟨kept, all, yields⟩ := ih
    obtain ⟨first, one, whole⟩ := h.yields_plain yields
    refine ⟨first :: kept, .cons one all, ?_⟩
    rw [List.append_assoc, List.append_assoc]
    exact yields_plain_quiet whole (.blank hg) (.blank hg)

/-- A class is a header, in which neither pass finds anything, its members and a brace. -/
theorem ClassText.parts {ds : List FieldDeclaration} {text : List Char} (h : ClassText ds text) :
    ∃ header members, text = header ++ (members ++ ['\x7d']) ∧ Quiet header ∧ EndsApart header ∧
      '@' ∉ header ∧ Members ds members := by
  cases h with
  | @intro gap behind members n hg apart notPrivate hb hm =>
    have letters : ∀ c ∈ n.chars, isNameChar c = true := fun _ => n.isNameChar_of_mem
    have named : Quiet n.chars :=
      .of_word (fun c hc => isWordChar_of_isNameChar (letters c hc)) notPrivate
    have opened : Quiet (n.chars ++ (behind ++ ['\x7b'])) := by
      refine .append named (.blank_append hb (.of_forall (by decide))) (.inr ?_)
      exact beginsApart_append hb (head?_other (by decide) _)
    have spaced : Quiet (gap ++ (n.chars ++ (behind ++ ['\x7b']))) :=
      .blank_append hg opened
    have keyword : Quiet "class".toList := .of_word (by decide) (by decide)
    have start : BeginsApart (gap ++ (n.chars ++ (behind ++ ['\x7b']))) :=
      beginsApart_blank hg apart _
    have plain : '@' ∉ "class".toList ++ (gap ++ (n.chars ++ (behind ++ ['\x7b']))) := by
      have gapPlain : '@' ∉ gap := notMem_of_forall hg (by decide)
      have behindPlain : '@' ∉ behind := notMem_of_forall hb (by decide)
      have namePlain : '@' ∉ n.chars := notMem_of_forall letters (by decide)
      simp [gapPlain, behindPlain, namePlain]
    have ends : EndsApart ("class".toList ++ (gap ++ (n.chars ++ (behind ++ ['\x7b'])))) := by
      rw [← List.append_assoc gap, ← List.append_assoc (gap ++ n.chars), ← List.append_assoc]
      exact .concat (by decide) _
    exact ⟨_, members, by simp, .append keyword spaced (.inr start), ends, plain, hm⟩

/-- The second pass over a class finds each declaration. -/
theorem ClassText.yields_plain {ds : List FieldDeclaration} {text : List Char}
    (h : ClassText ds text) :
    ∃ kept, List.Forall₂ KeptPlain ds kept ∧ Yields plainField text kept := by
  obtain ⟨header, members, rfl, quiet, ends, -, h⟩ := h.parts
  have closed : Yields plainField (['\x7d'] ++ []) [] :=
    yields_plain_quiet (.nil _) (.of_forall (by decide)) (.concat (by decide) [])
  obtain ⟨kept, all, yields⟩ := h.yields_plain closed
  exact ⟨kept, all, yields_plain_quiet yields quiet ends⟩

/-! ## The pass for declarations that name a property -/

theorem annotatedField_follow :
    annotatedField.follow = (naming ++ (.many annotation ++ corePattern .name)).follow :=
  rfl

/-- What the first pass keeps of a declaration. -/
def KeptAnnotated (d : FieldDeclaration) (kept : List (Part × List Char)) : Prop :=
  d.others = [] ∧ ∃ literal spelled, d.literal = some literal ∧ d.type.Spelling spelled ∧
    kept = [(.names, d.first.chars), (.type, spelled), (.literal, literal)]

/-- The word that each naming annotation begins with. -/
def namingWord : List Char := "@JsonProperty".toList

theorem rejects_annotatedField_of_not_begins (h : ¬ namingWord <+: rest) :
    Rejects annotatedField rest := by
  have off : Rejects (.word "@JsonProperty" : Pattern Part) rest := .of_not_begins h
  intro before offset captures next
  rw [annotatedField_follow]
  exact (((((((((off.seq _).seq _).seq _).seq _).seq _).seq _).seq _).seq _).seq _) before offset
    captures next

/-- No annotated field begins without the mark of annotations. -/
theorem rejects_annotatedField (h : ∀ c ∈ rest.head?, c ≠ '@') : Rejects annotatedField rest := by
  obtain ⟨word, same⟩ : ∃ word, namingWord = '@' :: word := ⟨_, rfl⟩
  refine rejects_annotatedField_of_not_begins ?_
  rw [same]
  rintro ⟨more, rfl⟩
  exact h '@' rfl rfl

/-- None begins within a text that has no such mark. -/
theorem rejectsWithin_of_notMem (h : '@' ∉ word) : RejectsWithin annotatedField word rest := by
  intro back nonempty suffix
  obtain ⟨c, back, rfl⟩ := List.exists_cons_of_ne_nil nonempty
  refine rejects_annotatedField (head?_ne ?_ _)
  rintro rfl
  exact h (suffix.subset (List.mem_cons_self ..))

/-- An annotation of another name is none that names a property. -/
theorem rejects_other_annotation {name : List Char} (h : IsAnnotationName name)
    (outside : BeginsApart rest) : Rejects annotatedField ('@' :: (name ++ rest)) := by
  have leaves : LeavesWord (.blanks ++ .word "(" : Pattern Part) := by
    intro before c more offset captures next _ letter
    have solid : ∀ d ∈ (c :: more).head?, isBlank d = false ∧ d ≠ '(' := by
      intro d hd
      cases hd
      refine ⟨isBlank_of_isWordChar letter, ?_⟩
      rintro rfl
      exact absurd letter (by decide)
    exact rejects_blanks_word (c := '(') rfl (by decide) (List.forall_mem_nil _) solid _ _ _ _
  have other : Rejects (.exactly "JsonProperty".toList ++ (.blanks ++ .word "(") : Pattern Part)
      (name ++ rest) :=
    .of_other_word (by decide) (by decide) h.letters outside h.other leaves
  have keyword : Rejects (.exactly "@JsonProperty".toList ++ (.blanks ++ .word "(") : Pattern Part)
      ('@' :: (name ++ rest)) :=
    other.exactly_cons_seq '@'
  intro before offset captures next
  rw [annotatedField_follow]
  exact ((((((keyword.seq _).seq _).seq _).seq _).seq _).seq _) before offset captures next

/-- None begins within annotations that name nothing. -/
theorem Annotations.rejectsWithin {text : List Char} (h : Annotations text) (rest : List Char) :
    RejectsWithin annotatedField text rest := by
  induction h with
  | nil => exact rejectsWithin_of_notMem List.not_mem_nil
  | @bare name gap more h hg apart annotations ih =>
    have plain : '@' ∉ name ++ gap := by
      have namePlain : '@' ∉ name := notMem_of_forall h.letters (by decide)
      have gapPlain : '@' ∉ gap := notMem_of_forall hg (by decide)
      simp [namePlain, gapPlain]
    refine .cons ?_ ?_
    · rw [List.append_assoc, List.append_assoc]
      exact rejects_other_annotation h (annotations.beginsApart hg apart rest)
    · rw [← List.append_assoc]
      exact (rejectsWithin_of_notMem plain).append ih
  | @call name gap arguments behind more h hg _ plain _ hb annotations ih =>
    have plain' : '@' ∉ name ++ (gap ++ '(' :: (arguments ++ ')' :: behind)) := by
      have namePlain : '@' ∉ name := notMem_of_forall h.letters (by decide)
      have gapPlain : '@' ∉ gap := notMem_of_forall hg (by decide)
      have behindPlain : '@' ∉ behind := notMem_of_forall hb (by decide)
      simp [namePlain, gapPlain, plain, behindPlain]
    have same : name ++ (gap ++ '(' :: (arguments ++ ')' :: (behind ++ more))) =
        (name ++ (gap ++ '(' :: (arguments ++ ')' :: behind))) ++ more := by simp
    refine .cons ?_ ?_
    · rw [List.append_assoc, List.append_assoc]
      exact rejects_other_annotation h (beginsApart_append hg (head?_other (by decide) _))
    · rw [same]
      exact (rejectsWithin_of_notMem plain').append ih

theorem Modifiers.notMem {text : List Char} (h : Modifiers text) : '@' ∉ text := by
  induction h with
  | nil => exact List.not_mem_nil
  | @cons word gap more h hg _ _ ih =>
    have wordPlain : '@' ∉ word := notMem_of_forall (isWordChar_of_mem_modifier h).2 (by decide)
    have gapPlain : '@' ∉ gap := notMem_of_forall hg (by decide)
    simp [wordPlain, gapPlain, ih]

theorem FurtherNames.notMem {names : List FieldName} {text : List Char}
    (h : FurtherNames names text) : '@' ∉ text := by
  induction h with
  | nil => exact List.not_mem_nil
  | @cons n names before behind more hb hb' _ ih =>
    have beforePlain : '@' ∉ before := notMem_of_forall hb (by decide)
    have behindPlain : '@' ∉ behind := notMem_of_forall hb' (by decide)
    have namePlain : '@' ∉ n.chars := notMem_of_forall (isNameChar_of_mem n) (by decide)
    simp [beforePlain, behindPlain, namePlain, ih]

/-- The core of a declaration has no mark of annotations. -/
theorem Core.notMem {type : JavaType} {first : FieldName} {others : List FieldName}
    {text : List Char} (h : Core type first others text) : '@' ∉ text := by
  cases h with
  | @intro gap modifiers spelled space further tail value hg _ hm ht _ hs _ hn hb hv =>
    have gapPlain : '@' ∉ gap := notMem_of_forall hg (by decide)
    have typePlain : '@' ∉ spelled := notMem_of_forall ht.isTypeChar (by decide)
    have spacePlain : '@' ∉ space := notMem_of_forall hs (by decide)
    have namePlain : '@' ∉ first.chars := notMem_of_forall (isNameChar_of_mem first) (by decide)
    have tailPlain : '@' ∉ tail := notMem_of_forall hb (by decide)
    have valuePlain : '@' ∉ value := by
      cases hv with
      | none => exact List.not_mem_nil
      | value _ plain => simp [plain]
    have keyword : '@' ∉ privateWord := by decide
    simp [keyword, gapPlain, hm.notMem, typePlain, spacePlain, namePlain, hn.notMem, tailPlain,
      valuePlain]

/-- The first pass goes over a text in which it finds nothing. -/
theorem yields_annotated_within {kept : List (List (Part × List Char))}
    (h : Yields annotatedField rest kept) (off : RejectsWithin annotatedField word rest)
    (ends : EndsApart word) : Yields annotatedField (word ++ rest) kept :=
  h.free ends fun front back same nonempty _ _ =>
    off back nonempty ⟨front, same.symm⟩ _ _ _ _

theorem yields_annotated_blank {kept : List (List (Part × List Char))}
    (h : Yields annotatedField rest kept) (blank : AreBlank word) :
    Yields annotatedField (word ++ rest) kept :=
  yields_annotated_within h (rejectsWithin_of_notMem (notMem_of_forall blank (by decide)))
    (.blank blank)

/-- A declaration that names a property is found, any other one is not. -/
theorem FieldDeclaration.Written.yields_annotated {d : FieldDeclaration} {text : List Char}
    {kept : List (List (Part × List Char))} (h : d.Written text)
    (later : Yields annotatedField rest kept) :
    (d.isAnnotated = false ∧ Yields annotatedField (text ++ rest) kept) ∨
      d.isAnnotated = true ∧ ∃ first, KeptAnnotated d first ∧
        Yields annotatedField (text ++ rest) (first :: kept) := by
  cases h with
  | @plain annotations core type n others ha hc =>
    -- No annotation of a plain declaration names a property, and behind them there is none.
    refine .inl ⟨rfl, yields_annotated_within later ?_ ?_⟩
    · exact (ha.rejectsWithin _).append (rejectsWithin_of_notMem hc.notMem)
    · exact ha.endsApart.append hc.endsApart
  | @annotated literal naming' gap annotations core type n h hg ha hc =>
    obtain ⟨spelled, further, spelling, names, reads⟩ :=
      hc.reads (readsNames_single n) within_name rest
    cases names
    rw [List.append_nil] at reads
    have solid : ∀ c ∈ ((annotations ++ core) ++ rest).head?, isBlank c = false := by
      rw [List.append_assoc]
      refine ha.head (by decide) fun c hc' => ?_
      rw [hc.head rest] at hc'
      cases hc'
      decide
    have whole : Reads (naming ++ (.many annotation ++ corePattern .name))
        ((naming' ++ gap) ++ (annotations ++ core)) rest
        [(.names, n.chars), (.type, spelled), (.literal, literal)] :=
      .seq (h.reads hg solid) (.bare_seq (.many (ha.repeats (hc.head rest))) reads)
    rw [List.append_assoc] at whole
    refine .inr ⟨rfl, _, ⟨rfl, literal, spelled, rfl, spelling, rfl⟩, later.occurrence ?_ ?_ ?_⟩
    · exact List.append_ne_nil_of_left_ne_nil h.nonempty _
    · exact h.endsApart.append
        ((EndsApart.blank hg).append (ha.endsApart.append hc.endsApart))
    · intro before offset _
      rw [matchAt, annotatedField_follow]
      apply whole
      rw [List.append_nil]

/-- The annotated pattern finds the declarations with a naming annotation among the members, in
their order. -/
theorem Members.yields_annotated {ds : List FieldDeclaration} {text : List Char}
    (h : Members ds text) (later : Yields annotatedField rest []) :
    ∃ kept, List.Forall₂ KeptAnnotated (ds.filter (·.isAnnotated)) kept ∧
      Yields annotatedField (text ++ rest) kept := by
  induction h with
  | nil hg => exact ⟨[], .nil, yields_annotated_blank later hg⟩
  | @cons d ds gap text more hg h members ih =>
    obtain ⟨kept, all, yields⟩ := ih
    rw [List.append_assoc, List.append_assoc]
    rcases h.yields_annotated yields with ⟨plain, whole⟩ | ⟨annotated, first, one, whole⟩
    · rw [List.filter_cons_of_neg (by simp [plain])]
      exact ⟨kept, all, yields_annotated_blank whole hg⟩
    · rw [List.filter_cons_of_pos annotated]
      exact ⟨first :: kept, .cons one all, yields_annotated_blank whole hg⟩

/-- The first pass over a class finds each declaration that names a property. -/
theorem ClassText.yields_annotated {ds : List FieldDeclaration} {text : List Char}
    (h : ClassText ds text) :
    ∃ kept, List.Forall₂ KeptAnnotated (ds.filter (·.isAnnotated)) kept ∧
      Yields annotatedField text kept := by
  obtain ⟨header, members, rfl, -, ends, plain, h⟩ := h.parts
  have closed : Yields annotatedField (['\x7d'] ++ []) [] :=
    yields_annotated_within (.nil _) (rejectsWithin_of_notMem (by decide)) (.concat (by decide) [])
  obtain ⟨kept, all, yields⟩ := h.yields_annotated closed
  exact ⟨kept, all, yields_annotated_within yields (rejectsWithin_of_notMem plain) ends⟩

end InterfaceGen.Source
