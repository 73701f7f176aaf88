import InterfaceGen.Proofs.Declaration.Lines
import InterfaceGen.Proofs.Engine.Closed
import InterfaceGen.Proofs.Source.Segments

/-!
# What comments can change

Two sources that are written with the same segments differ in the contents of their comments only.
Their declarations are the same, and so is all that `explain` and `convert` answer. The marks of
what is no data container are looked for in the comments as well: the fast conversions are the same
exactly if both sources or neither of them hold one, `comments_apart_iff`.
-/

namespace InterfaceGen

open InterfaceGen.Source

namespace Source

variable {segments : List Segment} {text other : List Char}

/-- A text without characters has no comments that could have contents. -/
theorem Segmented.eq_nil (h : Segmented segments text) (empty : text = [])
    (h' : Segmented segments other) : other = [] := by
  induction h generalizing other with
  | nil =>
    cases h'
    rfl
  | plain _ _ _ ih =>
    obtain ⟨none, rest⟩ := List.append_eq_nil_iff.1 empty
    cases h' with
    | plain _ _ more => rw [none, ih rest more, List.append_nil]
  | literal | lineComment | blockComment => cases empty

end Source

namespace Engine

variable {e : Engine} {segments : List Segment} {code other : String}

/-- Sources with the same segments that are both long enough are too small only if both are
empty. -/
theorem isTooSmall_eq (h : Segmented segments code.toList) (h' : Segmented segments other.toList)
    (long : e.isShort code = false) (long' : e.isShort other = false) :
    e.isTooSmall code = e.isTooSmall other := by
  have empty : code.isEmpty = other.isEmpty := by
    rw [Bool.eq_iff_iff, String.isEmpty_iff, String.isEmpty_iff, ← String.toList_eq_nil_iff,
      ← String.toList_eq_nil_iff]
    exact ⟨fun none => h.eq_nil none h', fun none => h'.eq_nil none h⟩
  rw [isTooSmall, isTooSmall, empty, long, long']

/-- Such sources declare the same. -/
theorem declaration_eq (h : Segmented segments code.toList)
    (h' : Segmented segments other.toList) : e.declaration code = e.declaration other := by
  have stripped : Comment.strip code = Comment.strip other := by
    rw [Comment.strip, Comment.strip, h.stripChars, h'.stripChars]
  simp only [declaration, Constant.normalize, stripped]

/-- What comes of a source depends on its size and its declaration. -/
theorem explain_congr (small : e.isTooSmall code = e.isTooSmall other)
    (read : e.declaration code = e.declaration other) (location : Option String)
    (withImports : Bool) (caches : Caches) :
    e.explain code location withImports caches = e.explain other location withImports caches := by
  rw [explain_eq, explain_eq, request?, request?, conversion, conversion, small, read]

/-! ## Fast conversions -/

/-- The text of a fast conversion that passes over no source. -/
def fastOutput : Conversion → String
  | .converted output _ => output
  | failed => sentinel (failed.reason?.getD "")

/-- The sentinel in the place of what is no data container. -/
def skipped : String :=
  sentinel "Skipped: Not suitable for interface conversion"

/-- A fast conversion writes what `explain` does, unless the source is passed over. -/
theorem convertFast_answer (large : e.isTooSmall code = false) (location : Option String)
    (caches : Caches) :
    (e.convertFast code location caches).1 =
      if isSkipped code then skipped
      else fastOutput (e.explain code location location.isSome caches).1 := by
  unfold convertFast
  rw [if_neg (Bool.eq_false_iff.1 large)]
  by_cases marked : isSkipped code = true
  · rw [if_pos marked, if_pos marked]
    rfl
  · rw [if_neg marked, if_neg marked]
    cases outcome : e.explain code location location.isSome caches with
    | mk conversion after =>
      rw [bind_eq outcome]
      cases conversion <;> rfl

/-- A line that begins with a letter begins no comment. -/
theorem head?_unlines {line : String} {lines : List String} {c : Char} {rest : List Char}
    (h : line.toList = c :: rest) : (unlines (line :: lines)).toList.head? = some c := by
  rw [unlines_cons, h]
  rfl

/-- What is written begins with the first letter of `import` or of `export`. -/
theorem head?_write (imports : List Import) (d : Declaration) :
    (write imports d).toList.head? = some 'i' ∨ (write imports d).toList.head? = some 'e' := by
  cases d with
  | dataClass name supertype fields =>
    cases imports with
    | nil => exact .inr (head?_unlines (Interface.header_toList _))
    | cons i imports => exact .inl (head?_unlines i.statement_toList)
  | enumeration enum =>
    have header : ("export enum " ++ enum.name ++ " \x7b").toList =
        'e' :: ("xport enum ".toList ++ (enum.name.toList ++ " \x7b".toList)) := by
      simp only [String.toList_append, List.append_assoc]
      rfl
    exact .inr (head?_unlines header)

/-- A sentinel tells its reason. -/
theorem sentinel_inj {reason other : String} (h : sentinel reason = sentinel other) :
    reason = other := by
  have same := congrArg String.toList h
  simp only [sentinel, String.toList_append, List.append_assoc] at same
  exact String.toList_inj.1 (List.append_cancel_right (List.append_cancel_left same))

/-- No failure is told like the sentinel of what is passed over. -/
theorem head?_message (failure : Failure) : failure.message.toList.head? ≠ some 'S' := by
  cases failure with
  | noDeclaration | openEnumBody => decide
  | noEnum name =>
    rw [Failure.message, String.toList_append]
    exact fun same => absurd (Option.some.inj same) (by decide)
  | invalidName kind name =>
    simp only [Failure.message, String.toList_append, List.append_assoc]
    exact fun same => absurd (Option.some.inj same) (by decide)

/-- No source is explained by the sentinel of what is no data container. -/
theorem fastOutput_ne_skipped (large : e.isTooSmall code = false) (location : Option String)
    (withImports : Bool) (caches : Caches) :
    fastOutput (e.explain code location withImports caches).1 ≠ skipped := by
  rw [explain_eq, conversion, if_neg (Bool.eq_false_iff.1 large)]
  cases e.declaration code with
  | error failure =>
    intro same
    have reason : failure.message = "Skipped: Not suitable for interface conversion" :=
      sentinel_inj same
    exact head?_message failure (by rw [reason]; decide)
  | ok declaration =>
    intro same
    have first : skipped.toList.head? = some '/' := by decide
    rw [← same] at first
    rcases head?_write (e.resolveIf (e.request? code location withImports) caches).1 declaration
      with letter | letter
    · exact absurd (letter.symm.trans first) (by decide)
    · exact absurd (letter.symm.trans first) (by decide)

/-- Two sources with one declaration are converted to the same text by the fast conversion exactly if
it passes over both or neither of them. -/
theorem convertFast_eq_iff (small : e.isTooSmall code = e.isTooSmall other)
    (large : e.isTooSmall code = false) (read : e.declaration code = e.declaration other)
    (location : Option String) (caches : Caches) :
    (e.convertFast code location caches).1 = (e.convertFast other location caches).1 ↔
      isSkipped code = isSkipped other := by
  have explained := explain_congr small read location location.isSome caches
  have written := fastOutput_ne_skipped large location location.isSome caches
  rw [convertFast_answer large, convertFast_answer (small ▸ large), ← explained]
  cases isSkipped code <;> cases isSkipped other
  · simp
  · simp [written]
  · simp [written.symm]
  · simp

/-- Whatever stands in the comments of a source, a fresh engine explains and converts it in the same
way. The fast conversion may pass over one of two such sources and not over the other; that is the
only difference it makes. -/
theorem comments_apart_iff (e : Engine) {segments : List Segment} {code other : String}
    (h : Segmented segments code.toList) (h' : Segmented segments other.toList)
    (long : e.isShort code = false) (long' : e.isShort other = false) (location : Option String) :
    (∀ withImports, (e.explain code location withImports .empty).1 =
        (e.explain other location withImports .empty).1) ∧
      (e.convert code location .empty).1 = (e.convert other location .empty).1 ∧
      ((e.convertFast code location .empty).1 = (e.convertFast other location .empty).1 ↔
        isSkipped code = isSkipped other) := by
  have small := isTooSmall_eq h h' long long'
  have read : e.declaration code = e.declaration other := declaration_eq h h'
  have explained : ∀ withImports, (e.explain code location withImports .empty).1 =
      (e.explain other location withImports .empty).1 :=
    fun withImports => by rw [explain_congr small read]
  refine ⟨explained, ?_, ?_⟩
  · show e.fresh code location = e.fresh other location
    rw [fresh_eq_explain, fresh_eq_explain, explained]
  · cases size : e.isTooSmall code with
    | true =>
      -- Such a source is empty, and so is the other.
      have empty : code.toList = [] := by
        rw [isTooSmall, long, Bool.or_false, String.isEmpty_iff] at size
        rw [size, String.toList_empty]
      have same : code = other := String.toList_inj.1 (empty.trans (h.eq_nil empty h').symm)
      subst same
      exact iff_of_true rfl rfl
    | false => exact convertFast_eq_iff small size read location .empty

/-- A class with one field. -/
def pointSource : String :=
  "class Point \x7b private int x; \x7d "

/-- A class and a comment behind it. -/
def commentedSource (mark : String) : String :=
  pointSource ++ ("//" ++ mark)

/-- The class and the comment, as segments. -/
def commentedSegments : List Segment :=
  [.plain pointSource.toList, .lineComment]

/-- Any mark on one line makes such a comment. -/
theorem segmented_commentedSource {mark : String} (oneLine : '\n' ∉ mark.toList) :
    Segmented commentedSegments (commentedSource mark).toList := by
  have comment := @Segmented.lineComment mark.toList [] [] oneLine (fun _ hc => nomatch hc) .nil
  have whole := @Segmented.plain pointSource.toList _ _ (by decide +kernel)
    (.of_notMem (by decide +kernel) _) comment
  rw [commentedSource, String.toList_append, String.toList_append]
  rwa [List.append_nil] at whole

/-- A mark of tests in the comment changes nothing in `explain` and `convert`, and quotes in it
change nothing in the fast conversion. -/
theorem comments_apart_point :
    (standard.explain (commentedSource "a") none true .empty).1 =
        (standard.explain (commentedSource "@Test") none true .empty).1 ∧
      (standard.convert (commentedSource "a") none .empty).1 =
        (standard.convert (commentedSource "@Test") none .empty).1 ∧
      (standard.convertFast (commentedSource "a") none .empty).1 =
        (standard.convertFast (commentedSource "'b\"") none .empty).1 := by
  have apart : ∀ mark : String, '\n' ∉ mark.toList → standard.isShort (commentedSource mark) = false →
      _ := fun mark oneLine long =>
    comments_apart_iff standard (@segmented_commentedSource "a" (by decide))
      (segmented_commentedSource oneLine) (by decide +kernel) long none
  obtain ⟨explained, converted, -⟩ := apart "@Test" (by decide) (by decide +kernel)
  obtain ⟨-, -, iff⟩ := apart "'b\"" (by decide) (by decide +kernel)
  exact ⟨explained true, converted, iff.2 (by decide +kernel)⟩

/-- The fast conversion looks for its marks in comments too. -/
theorem convertFast_of_comments :
    Segmented commentedSegments (commentedSource "a").toList ∧
      Segmented commentedSegments (commentedSource "@Test").toList ∧
      standard.isShort (commentedSource "a") = false ∧
      standard.isShort (commentedSource "@Test") = false ∧
      (standard.convertFast (commentedSource "a") none .empty).1 =
        "export interface Point \x7b\n  x?: number;\n\x7d\n" ∧
      (standard.convertFast (commentedSource "@Test") none .empty).1 =
        "// Skipped: Not suitable for interface conversion\n" := by
  refine ⟨segmented_commentedSource (by decide), segmented_commentedSource (by decide), ?_⟩
  decide +kernel

end Engine

end InterfaceGen
