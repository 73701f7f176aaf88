import InterfaceGen.Proofs.Source.EnumHeader
import InterfaceGen.Proofs.Text.Cutting
import InterfaceGen.Proofs.Text.Occurring

/-!
# How the header of a class is read

The header of a class as it is written: the name, type parameters, and the extended class with
type arguments or anything else behind it. The parameters are skipped up to their first closing
bracket, so what is extended is read where no bracket closes within them, and no brace opens:
`signature_classHeader`.
-/

namespace InterfaceGen.Source

open InterfaceGen.Text InterfaceGen.Text.Pattern InterfaceGen.Types

/-! ## Ways to write the header -/

/-- Type parameters with what stands between their brackets, or nothing. Nothing is asked of the
parameters but that `extends` follows no bracket that closes in them. -/
inductive TypeParameters : List Char → List Char → Prop where
  | none : TypeParameters [] []
  | some {gap inner : List Char} (hg : AreBlank gap)
    (closing : ∀ front back, inner = front ++ '>' :: back → ¬ "extends".toList <+: trimLeft back) :
    TypeParameters inner (gap ++ '<' :: (inner ++ ['>']))

/-- The segments of a package, each with its dot. -/
inductive Qualifier : List Char → Prop where
  | nil : Qualifier []
  | cons {segment rest : List Char} (h : isHeadedBy isNameStart isNameChar segment = true)
    (more : Qualifier rest) : Qualifier (segment ++ '.' :: rest)

/-- What stands behind the name and the parameters: the extended class, whose type arguments and
whatever else are the rest, or something that extends no class. -/
inductive Extension : Option (List Char) → List Char → Prop where
  | none {rest : List Char} (plain : ¬ "extends".toList <+: trimLeft rest)
    (bare : ∀ c ∈ (trimLeft rest).head?, c ≠ '<') : Extension none rest
  | some {gap gap' qualifier name rest : List Char} (hg : AreBlank gap) (apart : gap ≠ [])
    (hg' : AreBlank gap') (apart' : gap' ≠ []) (hq : Qualifier qualifier)
    (hn : isHeadedBy Char.isUpper isNameChar name = true)
    (ends : ∀ c ∈ rest.head?, isNameChar c = false ∧ c ≠ '.') :
    Extension (some name)
      (gap ++ ("extends".toList ++ (gap' ++ ((qualifier ++ name) ++ rest))))

/-- The header of a class, from its keyword on, and anything behind it. -/
inductive ClassHeader (name inner : List Char) (supertype : Option (List Char)) :
    List Char → Prop where
  | intro {gap parameters extension : List Char} (hg : AreBlank gap) (apart : gap ≠ [])
    (hn : isHeadedBy Char.isUpper isNameChar name = true) (hp : TypeParameters inner parameters)
    (he : Extension supertype extension)
    (ends : ∀ c ∈ (parameters ++ extension).head?, isNameChar c = false) :
    ClassHeader name inner supertype
      ("class".toList ++ (gap ++ (name ++ (parameters ++ extension))))

namespace Header

/-- Does the text begin with the keyword of a declaration, blanks and a capital? -/
def beginsHeader (text : List Char) : Bool :=
  keywords.any fun keyword =>
    keyword.isPrefixOf text && (text.drop keyword.length).head?.any isBlank &&
      (trimLeft (text.drop keyword.length)).head?.any Char.isUpper

/-- The places in a text where the header of a class or enum begins with its keyword. -/
def places (text : List Char) : List Nat :=
  (List.range text.length).filter fun n =>
    !((text.take n).getLast?.any isWordChar) && beginsHeader (text.drop n)

variable {name inner header rest : List Char} {supertype : Option (List Char)}

/-! ## Reading the extended class -/

theorem Qualifier.isHeadedBy {qualifier : List Char} (h : Qualifier qualifier)
    (hn : isHeadedBy Char.isUpper isNameChar name = true) :
    Text.isHeadedBy isNameStart (fun c => isNameChar c || c == '.') (qualifier ++ name) = true := by
  induction h with
  | nil =>
    obtain ⟨c, more, rfl, head, tail⟩ := isHeadedBy_iff.1 hn
    exact isHeadedBy_iff.2 ⟨c, more, rfl, isNameStart_of_isUpper head, fun d hd => by simp [tail d hd]⟩
  | @cons segment rest hs _ ih =>
    obtain ⟨c, more, rfl, head, tail⟩ := isHeadedBy_iff.1 hs
    have later := forall_of_isHeadedBy ih fun c start => by simp [isNameChar_of_isNameStart start]
    refine isHeadedBy_iff.2 ⟨c, more ++ '.' :: (rest ++ name), by simp, head, ?_⟩
    rw [List.forall_mem_append, List.forall_mem_cons]
    exact ⟨fun d hd => by simp [tail d hd], by simp, later⟩

/-- The simple name of a qualified one stands behind the last dot. -/
theorem simpleName?_qualified {qualifier : List Char} (h : Qualifier qualifier)
    (hn : isHeadedBy Char.isUpper isNameChar name = true) :
    simpleName? (String.ofList (qualifier ++ name)) = some (String.ofList name) := by
  have within := isNameChar_of_className hn
  have trimmed : IsTrimmed name := isTrimmed_of_forall fun c hc => isBlank_of_isNameChar (within c hc)
  have last : (cutAt '.' (qualifier ++ name)).getLast? = some name := by
    induction h with
    | nil =>
      rw [List.nil_append, cutAt_of_notMem (notMem_of_forall within (by decide)),
        List.getLast?_singleton]
    | @cons segment rest hs _ ih =>
      have letters : ∀ c ∈ segment, isNameChar c = true :=
        forall_of_isHeadedBy hs fun _ => isNameChar_of_isNameStart
      rw [List.append_assoc, List.cons_append,
        cutAt_append_cons (notMem_of_forall letters (by decide)), List.getLast?_cons, ih]
      rfl
  rw [simpleName?, String.toList_ofList, last]
  simp only [isClassName_of_isTrimmed trimmed, hn, if_true]

/-- What the pattern keeps of an extended class. -/
def keptParent (parent : Option (List Char)) : List (Part × List Char) :=
  parent.toList.map (Part.supertype, ·)

/-- The extended class is read with the qualifiers of its name. -/
theorem exists_reads_extension {extension : List Char} (h : Extension supertype extension) :
    ∃ word rest parent, extension = word ++ rest ∧
      Reads (.optional extensionPattern) word rest (keptParent parent) ∧
      (parent.map String.ofList).bind simpleName? = supertype.map String.ofList := by
  cases h with
  | none plain => exact ⟨[], _, none, rfl, .optional_none (rejects_extensionPattern plain), rfl⟩
  | @some gap gap' qualifier name rest hg apart hg' apart' hq hn ends =>
    have headed := Qualifier.isHeadedBy hq hn
    refine ⟨gap ++ ("extends".toList ++ (gap' ++ (qualifier ++ name))), rest, some (qualifier ++ name),
      by simp only [List.append_assoc], .optional_some ?_, simpleName?_qualified hq hn⟩
    obtain ⟨c, more, same, start, further⟩ := isHeadedBy_iff.1 headed
    have solid : isBlank c = false := isBlank_of_isNameChar (isNameChar_of_isNameStart start)
    have word : Reads (.one isNameStart ++ .run fun c => isNameChar c || c == '.' : Pattern Part)
        (c :: more) rest [] := by
      refine .seq (.one start) (.run further fun d hd => ?_)
      simp [ends d hd]
    have second : Reads (.spacing ++ .capture Part.supertype
        (.one isNameStart ++ .run fun c => isNameChar c || c == '.')) (gap' ++ c :: more) rest
        [(Part.supertype, c :: more)] :=
      .bare_seq (reads_spacing hg' apart' (head?_other solid _)) (.capture Part.supertype word)
    have first : Reads (.spacing : Pattern Part) gap
        ("extends".toList ++ (gap' ++ c :: more) ++ rest) [] :=
      reads_spacing hg apart (head?_other (c := 'e') (by decide) _)
    rw [same]
    exact .assoc (.assoc (.bare_seq first (.bare_seq (.exactly _) second)))

/-! ## Skipping the parameters -/

/-- Blanks are trimmed before what is none, whatever is behind it. -/
theorem trimLeft_append_cons {c : Char} (solid : isBlank c = false) (text more : List Char) :
    trimLeft (text ++ c :: more) = trimLeft text ++ c :: more := by
  rw [trimLeft, List.dropWhile_append]
  split
  · next none =>
    rw [List.isEmpty_iff] at none
    rw [trimLeft, none, List.nil_append]
    exact trimLeft_of_head (head?_other solid more)
  · rfl

/-- Parameters are read up to the first bracket that closes. -/
theorem reads_parametersPattern {gap front : List Char} (hg : AreBlank gap) (closes : '>' ∉ front)
    (opens : '\x7b' ∉ front) :
    Reads parametersPattern (gap ++ ('<' :: (front ++ ['>']))) rest [] := by
  have inside : ∀ c ∈ front, (c != '\x7b') = true := by
    intro c hc
    rw [bne_iff_ne]
    rintro rfl
    exact opens hc
  have blanks : Reads (.blanks : Pattern Part) gap (['<'] ++ (front ++ ['>']) ++ rest) [] :=
    reads_blanks hg (head?_other (c := '<') (by decide) _)
  exact .assoc (.assoc (.seq blanks (.seq (.exactly ['<']) (.fewest_mark inside closes))))

/-- Parameters are not read where a brace opens in them before a bracket closes. -/
theorem rejects_parametersPattern_brace {gap front : List Char} (hg : AreBlank gap)
    (closes : '>' ∉ front) :
    Rejects parametersPattern (gap ++ '<' :: (front ++ '\x7b' :: rest)) := by
  have mark : Rejects (.word "<" ++ (.fewest (· != '\x7b') ++ .word ">") : Pattern Part)
      ('<' :: (front ++ '\x7b' :: rest)) :=
    .exactly_seq (.fewest_mark closes (by decide) (by decide)) ['<']
  refine Rejects.assoc (.assoc (.run hg (head?_other (by decide) _) (fun c more blank => ?_) mark))
  refine (rejects_word (c := '<') rfl (head?_ne ?_ more)).seq _
  rintro rfl
  exact absurd blank (by decide)

/-- No parameters begin where the extension of a class stands. -/
theorem Extension.bare {extension : List Char} (h : Extension supertype extension) :
    ∀ c ∈ (trimLeft extension).head?, c ≠ '<' := by
  cases h with
  | none _ bare => exact bare
  | some hg =>
    rw [trimLeft_append hg]
    exact head?_ne (by decide) _

/-- The first bracket that closes in the parameters, or brace that opens, decides what is read. -/
theorem exists_reads_tail {parameters extension : List Char} (hp : TypeParameters inner parameters)
    (he : Extension supertype extension) :
    ∃ word rest parent, parameters ++ extension = word ++ rest ∧
      Reads (.optional parametersPattern ++ .optional extensionPattern) word rest
        (keptParent parent) ∧
      (parent.map String.ofList).bind simpleName? =
        if '>' ∈ inner ∨ '\x7b' ∈ inner then none else supertype.map String.ofList := by
  have bare : Rejects parametersPattern extension := rejects_parametersPattern (Extension.bare he)
  obtain ⟨word, rest, parent, rfl, reads, last⟩ := exists_reads_extension he
  cases hp with
  | none => exact ⟨word, rest, parent, rfl, .bare_seq (.optional_none bare) reads, by simpa using last⟩
  | @some gap inner hg closing =>
    -- The parameters are read up to the first closing bracket, but not over an opening brace.
    cases first : inner.find? fun c => c == '>' || c == '\x7b' with
    | none =>
      have plain : '>' ∉ inner ∧ '\x7b' ∉ inner := by
        rw [List.find?_eq_none] at first
        exact ⟨fun hm => first _ hm rfl, fun hm => first _ hm rfl⟩
      refine ⟨gap ++ '<' :: (inner ++ ['>']) ++ word, rest, parent, by simp,
        .bare_seq (.optional_some (reads_parametersPattern hg plain.1 plain.2)) reads, ?_⟩
      rw [last, if_neg (by simp [plain])]
    | some c =>
      obtain ⟨mark, front, back, rfl, before⟩ := List.find?_eq_some_iff_append.1 first
      have closes : '>' ∉ front := fun hm => absurd (before _ hm) (by decide)
      have opens : '\x7b' ∉ front := fun hm => absurd (before _ hm) (by decide)
      have marked : c = '>' ∨ c = '\x7b' := by simpa using mark
      rcases marked with rfl | rfl
      · have unextended : ¬ "extends".toList <+: trimLeft (back ++ '>' :: (word ++ rest)) := by
          rw [trimLeft_append_cons (by decide), isPrefix_append_cons_iff (by decide)]
          exact closing front back rfl
        refine ⟨gap ++ '<' :: (front ++ ['>']), back ++ '>' :: (word ++ rest), none, by simp, ?_,
          by simp⟩
        rw [← List.append_nil (gap ++ _)]
        exact .seq (.optional_some (reads_parametersPattern hg closes opens))
          (.optional_none (rejects_extensionPattern unextended))
      · have unread : Rejects parametersPattern
            (gap ++ '<' :: (front ++ '\x7b' :: (back ++ '>' :: (word ++ rest)))) :=
          rejects_parametersPattern_brace hg closes
        have unextended : ¬ "extends".toList <+:
            trimLeft (gap ++ '<' :: (front ++ '\x7b' :: (back ++ '>' :: (word ++ rest)))) := by
          rw [trimLeft_append hg]
          exact fun h => absurd (List.cons_prefix_cons.1 h).1 (by decide)
        refine ⟨[], gap ++ '<' :: (front ++ '\x7b' :: (back ++ '>' :: (word ++ rest))), none, by simp,
          ?_, by simp⟩
        show Reads _ ([] ++ []) _ ([] ++ [])
        exact .seq (.optional_none unread) (.optional_none (rejects_extensionPattern unextended))

/-! ## Reading the header -/

/-- What the pattern keeps of the header of a class. -/
def keptParts (name : List Char) (parent : Option (List Char)) : List (Part × List Char) :=
  keptParent parent ++ [(Part.name, name), (Part.kind, "class".toList)]

/-- A class header is read with its name, and with its supertype unless a bracket closes or a brace
opens within the parameters. -/
theorem exists_reads_classHeader (h : ClassHeader name inner supertype header) :
    ∃ word rest parent, header = word ++ rest ∧ word ≠ [] ∧
      Reads keywordPattern word rest (keptParts name parent) ∧
      (parent.map String.ofList).bind simpleName? =
        if '>' ∈ inner ∨ '\x7b' ∈ inner then none else supertype.map String.ofList := by
  cases h with
  | @intro gap parameters extension hg apart hn hp he ends =>
    obtain ⟨word, rest, parent, same, reads, last⟩ := exists_reads_tail hp he
    rw [same] at ends
    exact ⟨"class".toList ++ (gap ++ (name ++ word)), rest, parent, by simp [same], by simp,
      reads_keywordPattern hg apart hn (List.mem_cons_self ..) reads ends, last⟩

/-! ## Finding the header -/

/-- A keyword with a gap and an upper case letter behind it begins a header. -/
theorem beginsHeader_append {keyword gap more : List Char} {c : Char} (hk : keyword ∈ keywords)
    (hg : AreBlank gap) (apart : gap ≠ []) (upper : c.isUpper = true) :
    beginsHeader (keyword ++ (gap ++ c :: more)) = true := by
  have solid : isBlank c = false :=
    isBlank_of_isNameChar (isNameChar_of_isNameStart (isNameStart_of_isUpper upper))
  have capital : trimLeft (gap ++ c :: more) = c :: more := by
    rw [trimLeft_append hg, trimLeft_of_head (head?_other solid more)]
  have blank : (gap ++ c :: more).head?.any isBlank = true := by
    obtain ⟨b, gap, rfl⟩ := List.exists_cons_of_ne_nil apart
    exact hg b (List.mem_cons_self ..)
  have here : keyword.isPrefixOf (keyword ++ (gap ++ c :: more)) = true :=
    List.isPrefixOf_iff_prefix.2 (List.prefix_append _ _)
  refine List.any_eq_true.2 ⟨keyword, hk, ?_⟩
  rw [here, List.drop_left, blank, capital, List.head?_cons, Option.any_some, upper]
  rfl

/-- The kind of a header is one of the keywords. -/
theorem mem_keywords {word : List Char} {kept : List (Part × List Char)}
    (h : (.word "class" <|> .word "enum" : Pattern Part).Matches word kept) : word ∈ keywords := by
  cases h with
  | left h => cases h with | exactly => exact List.mem_cons_self ..
  | right h => cases h with | exactly => exact List.mem_cons_of_mem _ (List.mem_singleton_self _)

theorem begins_keyword {keyword : List Char} (hk : keyword ∈ keywords) (more : List Char) :
    (keyword ++ more).head?.any isWordChar = true := by
  simp only [keywords, List.mem_cons, List.not_mem_nil, or_false] at hk
  rcases hk with rfl | rfl <;> rfl

/-- What is matched begins with a keyword, blanks and a capital. -/
theorem exists_keyword {word : List Char} {kept : List (Part × List Char)}
    (h : keywordPattern.Matches word kept) :
    ∃ keyword ∈ keywords, ∃ gap c more,
      word = keyword ++ (gap ++ c :: more) ∧ AreBlank gap ∧ gap ≠ [] ∧ c.isUpper = true := by
  cases h with
  | seq keyword behind =>
    cases keyword with
    | capture _ keyword =>
      cases behind with
      | seq spacing behind =>
        cases behind with
        | seq capital tail =>
          cases capital with
          | capture _ name =>
            obtain ⟨c, more, rfl, upper, -⟩ := isHeadedBy_iff.1 name.isHeadedBy
            obtain ⟨blank, apart⟩ := areBlank_of_matches spacing
            exact ⟨_, mem_keywords keyword, _, c, _, rfl, blank, apart, upper⟩

theorem silent_modifier {words : Pattern Part} (h : words.Silent) : (modifier words).Silent :=
  ⟨⟨trivial, h⟩, trivial, trivial⟩

/-- The modifiers capture nothing. -/
theorem silent_modifiers : modifiers.Silent :=
  ⟨silent_modifier ⟨trivial, trivial, trivial⟩, silent_modifier ⟨trivial, trivial⟩,
    silent_modifier trivial⟩

/-- A header begins at a place where no word goes on. -/
theorem mem_places_iff {front back : List Char} :
    front.length ∈ places (front ++ back) ↔
      back ≠ [] ∧ front.getLast?.any isWordChar = false ∧ beginsHeader back = true := by
  simp [places, List.length_pos_iff]

/-- Every match in a text goes through a place where a header begins. -/
theorem exists_mem_places {front back : List Char} {t : Cursor Part}
    (h : pattern.matchAt (placed front back) = some t) :
    ∃ passed rest, back = passed ++ rest ∧ (front ++ passed).length ∈ places (front ++ back) ∧
      keywordPattern.follow some (placed (front ++ passed) rest) = some t := by
  rw [matchAt, follow_pattern, follow_seq] at h
  obtain ⟨passed, kept, m, passes, matched, onward⟩ := exists_matches_of_follow _ _ _ _ h
  rw [matched.eq_nil_of_silent silent_modifiers] at passes
  have split : back = passed ++ m.rest := passes.rest
  -- The modifiers capture nothing, so behind them a match goes on as if it began there.
  have place : m = placed (front ++ passed) m.rest := by
    cases m
    obtain ⟨-, offset, captures, before⟩ := passes
    dsimp only [placed] at offset captures before ⊢
    rw [offset, captures, before, List.getLast?_append, List.length_append]
    rfl
  rw [place] at onward
  replace onward : (if (placed (front ++ passed) m.rest).atWordEdge then
      keywordPattern.follow some (placed (front ++ passed) m.rest) else none) = some t := onward
  split at onward
  · next edge =>
    obtain ⟨word, kept', u, passes', matched', -⟩ := exists_matches_of_follow _ _ _ _ onward
    obtain ⟨keyword, hk, gap, c, more, rfl, hg, apart, upper⟩ := exists_keyword matched'
    have begins : m.rest = keyword ++ (gap ++ c :: (more ++ u.rest)) := by
      simpa [placed] using passes'.rest
    have header : beginsHeader m.rest = true := begins ▸ beginsHeader_append hk hg apart upper
    have letter : m.rest.head?.any isWordChar = true := by
      rw [begins]
      exact begins_keyword hk _
    refine ⟨passed, m.rest, split, ?_, onward⟩
    rw [split, ← List.append_assoc, mem_places_iff]
    refine ⟨by simp [begins], ?_, header⟩
    rw [placed, Cursor.atWordEdge, letter] at edge
    simpa using edge
  · cases onward

/-- The modifiers before a header may all be missing. -/
theorem isSome_matchAt {front back : List Char} {t : Cursor Part}
    (outside : front.getLast?.any isWordChar = false)
    (letter : back.head?.any isWordChar = true)
    (h : keywordPattern.follow some (placed front back) = some t) :
    (pattern.matchAt (placed front back)).isSome := by
  have edge : (placed front back : Cursor Part).atWordEdge = true := by
    rw [placed, Cursor.atWordEdge, outside, letter]
    rfl
  have keyword : ((.wordEdge ++ keywordPattern).follow some (placed front back)).isSome := by
    rw [follow_seq, follow_wordEdge, if_pos edge, h]
    rfl
  rw [matchAt, follow_pattern]
  exact isSome_follow_optional (.inr (isSome_follow_optional (.inr
    (isSome_follow_optional (.inr keyword)))))

/-- In a text with one header all matches end where this header does, and capture its parts. -/
theorem exists_matchesAcross {front : List Char} (h : ClassHeader name inner supertype header)
    (only : places (front ++ header) = [front.length]) :
    ∃ stop parent, MatchesAcross pattern (front ++ header) front.length stop
        (keptParts name parent) ∧
      (pattern.matchAt (placed front header)).isSome ∧
      (parent.map String.ofList).bind simpleName? =
        if '>' ∈ inner ∨ '\x7b' ∈ inner then none else supertype.map String.ofList := by
  have letter : header.head?.any isWordChar = true := by
    cases h
    exact begins_keyword (List.mem_cons_self ..) _
  obtain ⟨word, rest, parent, rfl, nonempty, reads, last⟩ := exists_reads_classHeader h
  have found : keywordPattern.follow some (placed front (word ++ rest)) =
      some ⟨word.getLast?.or front.getLast?, rest, front.length + word.length,
        keptParts name parent ++ []⟩ :=
    reads _ _ _ _ _ rfl
  have here : front.length ∈ places (front ++ (word ++ rest)) := by
    rw [only]
    exact List.mem_singleton_self _
  obtain ⟨-, outside, -⟩ := mem_places_iff.1 here
  refine ⟨front.length + word.length, parent, ?_, ?_, last⟩
  · intro front' back t same matched
    -- The match goes through the only place there is, and from it on it is the one that is read.
    obtain ⟨passed, rest', rfl, place, onward⟩ := exists_mem_places matched
    rw [← same, only, List.mem_singleton] at place
    rw [← List.append_assoc front'] at same
    obtain ⟨rfl, rfl⟩ := List.append_inj same place.symm
    rw [found] at onward
    cases onward
    refine ⟨by simp, ?_, rfl, by simp⟩
    have := List.length_pos_iff.2 nonempty
    omega
  · exact isSome_matchAt outside letter found

/-- The parts that are captured are found by their names. -/
theorem lookup_keptParts (name : List Char) (parent : Option (List Char)) :
    (keptParts name parent).lookup Part.kind = some "class".toList ∧
      (keptParts name parent).lookup Part.name = some name ∧
      (keptParts name parent).lookup Part.supertype = parent := by
  cases parent <;> exact ⟨rfl, rfl, rfl⟩

/-- Where a header begins in one place only, the class header that stands there is all that is
found. -/
theorem exists_findAll_classHeader {text : String} {front : List Char}
    (h : ClassHeader name inner supertype header)
    (same : Literal.blankChars text.toList = front ++ header)
    (only : places (front ++ header) = [front.length]) :
    ∃ found, findAll text = [found] ∧ found.kind = .classKind ∧ found.name = String.ofList name ∧
      found.supertype.bind simpleName? =
        if '>' ∈ inner ∨ '\x7b' ∈ inner then none else supertype.map String.ofList := by
  obtain ⟨stop, parent, across, here, last⟩ := exists_matchesAcross h only
  obtain ⟨o, occurrences, captures⟩ := List.map_eq_singleton_iff.1 (across.map_captures here)
  obtain ⟨kind, named, extended⟩ := lookup_keptParts name parent
  rw [← captures] at kind named extended
  refine ⟨ofOccurrence o, by rw [findAll, same, occurrences, List.map_singleton], ?_, ?_, ?_⟩
  · rw [ofOccurrence, Occurrence.captured?, kind]
    rfl
  · rw [ofOccurrence, Occurrence.captured?, Occurrence.captured?, named]
    rfl
  · simp only [ofOccurrence, Occurrence.captured?, extended, last]

end Header

/-- The header of a class in a text without another header is read with its name and with the simple
name of the class that it extends, unless a bracket closes or a brace opens between the brackets of
its type parameters: then nothing is extended. -/
theorem signature_classHeader {types : TypeSystem} {text : String}
    {name inner front header : List Char} {supertype : Option (List Char)}
    (h : ClassHeader name inner supertype header)
    (valid : types.isDeclarationName (String.ofList name) = true)
    (same : Literal.blankChars text.toList = front ++ header)
    (only : Header.places (front ++ header) = [front.length]) :
    signature text types = .ok ⟨.classKind, String.ofList name,
      if '>' ∈ inner ∨ '\x7b' ∈ inner then none else supertype.map String.ofList⟩ := by
  obtain ⟨found, all, kind, named, parent⟩ := Header.exists_findAll_classHeader h same only
  have kept : (Header.findAll text).filter (fun h => types.isDeclarationName h.name) = [found] := by
    rw [all, List.filter_singleton, named, valid]
    rfl
  rw [signature]
  simp only [kept, List.getLast?_singleton, Header.signature, kind, named, parent, if_true]

/-- A page with parameters has a class header, where behind none of their closing brackets an
extension begins. -/
theorem classHeader_page {inner qualifier rest header : List Char}
    (same : header = "class Page<".toList ++
      (inner ++ ("> extends ".toList ++ (qualifier ++ ("Base".toList ++ rest)))))
    (closing : ∀ front back, inner = front ++ '>' :: back → ¬ "extends".toList <+: trimLeft back)
    (hq : Qualifier qualifier) (ends : ∀ c ∈ rest.head?, isNameChar c = false ∧ c ≠ '.') :
    ClassHeader "Page".toList inner (some "Base".toList) header := by
  have blank : AreBlank [' '] := by simp [AreBlank, isBlank]
  have apart : [' '] ≠ [] := List.cons_ne_nil _ _
  have parameters : TypeParameters inner ([] ++ '<' :: (inner ++ ['>'])) :=
    .some (List.forall_mem_nil _) closing
  have extension : Extension (some "Base".toList) ([' '] ++ ("extends".toList ++ ([' '] ++
      ((qualifier ++ "Base".toList) ++ rest)))) :=
    .some blank apart blank apart hq (by decide) ends
  have whole : header = "class".toList ++ ([' '] ++ ("Page".toList ++
      (([] ++ '<' :: (inner ++ ['>'])) ++ ([' '] ++ ("extends".toList ++ ([' '] ++
        ((qualifier ++ "Base".toList) ++ rest))))))) := by
    simp [same]
  rw [whole]
  exact .intro blank apart (by decide) parameters extension (head?_other (c := '<') (by decide) _)

/-- The header of a class with a bound of a parameter, and a qualified name behind `extends`. -/
def pageText : String :=
  "class Page<K extends Number> extends com.acme.Base<K> \x7b\x7d"

/-- The supertype of the page is found behind its parameters. -/
theorem signature_classHeader_page :
    TypeSystem.standard.isDeclarationName "Page" = true ∧
      Header.places ("final ".toList ++ pageText.toList) = [6] ∧
      signature ("final " ++ pageText) .standard = .ok ⟨.classKind, "Page", some "Base"⟩ := by
  have qualifier : Qualifier ("com".toList ++ '.' :: ("acme".toList ++ '.' :: [])) :=
    .cons (by decide) (.cons (by decide) .nil)
  have closing : ∀ front back, "K extends Number".toList = front ++ '>' :: back →
      ¬ "extends".toList <+: trimLeft back := by
    intro front back same
    have closed : '>' ∈ "K extends Number".toList := by simp [same]
    exact absurd closed (by decide)
  have header : ClassHeader "Page".toList "K extends Number".toList (some "Base".toList)
      pageText.toList :=
    @classHeader_page _ _ "<K> \x7b\x7d".toList _ (by decide) closing qualifier (by decide)
  have same : Literal.blankChars ("final " ++ pageText).toList =
      "final ".toList ++ pageText.toList := by
    rw [String.toList_append]
    exact Literal.blankChars_of_notMem (by decide)
  have valid : TypeSystem.standard.isDeclarationName (String.ofList "Page".toList) = true := by
    decide
  have only : Header.places ("final ".toList ++ pageText.toList) = [6] := by decide +kernel
  have found := signature_classHeader header valid same only
  exact ⟨by decide, only, found.trans (by decide)⟩

/-- The header of a class with a bound that has type arguments itself. -/
def nestedText : String :=
  "class Page<T extends Comparable<T>> extends Base \x7b\x7d"

/-- The bracket of the bound is taken for the end of the parameters, and the extended class is
lost. -/
theorem signature_nestedBound :
    ClassHeader "Page".toList "T extends Comparable<T>".toList (some "Base".toList)
        nestedText.toList ∧
      TypeSystem.standard.isDeclarationName "Page" = true ∧
      Header.places nestedText.toList = [0] ∧
      signature nestedText .standard = .ok ⟨.classKind, "Page", none⟩ := by
  have closing : ∀ front back, "T extends Comparable<T".toList ++ ['>'] = front ++ '>' :: back →
      ¬ "extends".toList <+: trimLeft back := by
    intro front back same
    obtain ⟨-, -, rfl⟩ := (List.append_cons_inj_of_notMem (by decide) List.not_mem_nil).1 same
    decide
  have header : ClassHeader "Page".toList "T extends Comparable<T>".toList (some "Base".toList)
      nestedText.toList :=
    @classHeader_page _ [] " \x7b\x7d".toList _ (by decide) closing .nil (by decide)
  have all : Header.findAll nestedText = [⟨0, 34, .classKind, "Page", none⟩] := by
    rw [Header.findAll, Literal.blankChars_of_notMem (by decide)]
    decide +kernel
  refine ⟨header, by decide, by decide +kernel, ?_⟩
  rw [signature, all]
  decide

end InterfaceGen.Source
