import InterfaceGen.Proofs.Declaration.Reader
import InterfaceGen.Proofs.Engine.Locations
import InterfaceGen.Proofs.Engine.Reading

/-!
# The first header of a converted source

The second pass over written interfaces looks for the first header of each text. What an engine
writes for a class has its own header there, whatever imports stand before it and whatever
properties follow; what it writes for an enum has none. For no line before the header begins with
the letter that headers begin with, also where the name of an import ends with a line feed.
-/

namespace InterfaceGen

open InterfaceGen.Text

/-! ## Texts that the search goes over -/

namespace InterfaceHeader

/-- A line feed with the first letter of a header behind it. -/
def lineOpening : List Char :=
  ['\n', 'e']

/-- A text on one line has no line that begins like a header behind its first. -/
theorem occurs_lineOpening_of_notMem {text : List Char} (h : '\n' ∉ text) :
    occurs lineOpening text = false :=
  occurs_of_notMem (List.mem_cons_self ..) h

/-- The search goes over a text none of whose lines begins like a header. -/
theorem firstFrom?_passes {text : List Char} {opening : Bool}
    (start : opening = true → text.head? ≠ some 'e') (inner : occurs lineOpening text = false)
    (rest : List Char) : firstFrom? opening (text ++ '\n' :: rest) = firstFrom? true rest := by
  induction text generalizing opening with
  | nil =>
    rw [List.nil_append, firstFrom?, headerAt?_cons (by decide), ite_self, Option.none_or]
    rfl
  | cons c text ih =>
    have here : (if opening then headerAt? (c :: (text ++ '\n' :: rest)) else none) = none := by
      split
      · next on =>
        apply headerAt?_cons
        rintro rfl
        exact start on rfl
      · rfl
    have apart : ¬ lineOpening <:+: c :: text := occurs_eq_false_iff.1 inner
    have next : (c == '\n') = true → text.head? ≠ some 'e' := by
      intro feed begins
      obtain ⟨more, rfl⟩ := List.head?_eq_some_iff.1 begins
      rw [beq_iff_eq.1 feed] at apart
      exact apart (List.prefix_append lineOpening more).isInfix
    have later : occurs lineOpening text = false :=
      occurs_eq_false_iff.2 fun there => apart (there.trans (List.suffix_cons c text).isInfix)
    rw [List.cons_append, firstFrom?, here, Option.none_or, ih next later]

/-- The search goes over lines none of which begins like a header. -/
theorem firstFrom?_unlines {lines : List String}
    (h : ∀ l ∈ lines, l.toList.head? ≠ some 'e' ∧ occurs lineOpening l.toList = false)
    (rest : List Char) :
    firstFrom? true ((unlines lines).toList ++ rest) = firstFrom? true rest := by
  induction lines with
  | nil => rfl
  | cons l lines ih =>
    obtain ⟨⟨start, inner⟩, later⟩ := List.forall_mem_cons.1 h
    rw [unlines_cons, List.append_assoc, List.cons_append, firstFrom?_passes (fun _ => start) inner,
      ih later]

/-- A class name may end with a line feed, but nothing of the name is behind it. -/
theorem occurs_lineOpening_className {name : List Char} (h : isClassName name = true) :
    occurs lineOpening name = false := by
  have solid : ∀ {text : List Char}, isHeadedBy Char.isUpper isNameChar text = true →
      '\n' ∉ text := fun headed feed => absurd (isNameChar_of_className headed _ feed) (by decide)
  rw [isClassName, withoutFinalBreak] at h
  by_cases feed : name.getLast? = some '\n'
  · rw [if_pos feed] at h
    obtain ⟨front, rfl⟩ := List.getLast?_eq_some_iff.1 feed
    rw [List.dropLast_concat] at h
    rw [occurs_concat (by decide) (by decide), occurs_lineOpening_of_notMem (solid h)]
  · rw [if_neg feed] at h
    exact occurs_lineOpening_of_notMem (solid h)

end InterfaceHeader

open InterfaceHeader

/-! ## Imports -/

/-- The statement of an import has no such line if its name and path have none. -/
theorem Import.occurs_statement {i : Import} (name : occurs lineOpening i.name.toList = false)
    (path : occurs lineOpening i.path.toList = false) :
    occurs lineOpening i.statement.toList = false := by
  have parts : i.statement.toList = "import \x7b".toList ++ ' ' :: (i.name.toList ++ ' ' ::
      ("\x7d from ".toList ++ '\'' :: (i.path.toList ++ '\'' :: [';']))) := by
    simp [statement_toList]
  have opening : occurs lineOpening "import \x7b".toList = false := by decide
  have middle : occurs lineOpening "\x7d from ".toList = false := by decide
  have closing : occurs lineOpening [';'] = false := by decide
  rw [parts, occurs_append_cons (by decide) (by decide), occurs_append_cons (by decide) (by decide),
    occurs_append_cons (by decide) (by decide), occurs_append_cons (by decide) (by decide),
    opening, name, middle, path, closing]
  rfl

/-- No statement of the list has a line that begins like a header. -/
def PassesImports (imports : List Import) : Prop :=
  ∀ i ∈ imports, occurs lineOpening i.statement.toList = false

/-- The search goes over the imports in front of a declaration. -/
theorem firstFrom?_prologue {imports : List Import} (h : PassesImports imports)
    (rest : List Char) :
    firstFrom? true ((prologue imports).toList ++ rest) = firstFrom? true rest := by
  apply firstFrom?_unlines
  rw [importLines]
  split
  · exact List.forall_mem_nil _
  · refine List.forall_mem_append.2 ⟨fun l hl => ?_, by simp; decide⟩
    obtain ⟨i, hi, rfl⟩ := List.mem_map.1 hl
    refine ⟨?_, h i hi⟩
    simp [Import.statement_toList]

/-- The path to a location without a line break has none. -/
theorem Location.feed_notMem_importPath (current : Option String) {target : String}
    (h : '\n' ∉ target.toList) : '\n' ∉ (importPath current target).toList := by
  intro feed
  rcases Location.mem_importPath feed with dot | slash | inside
  · exact absurd dot (by decide)
  · exact absurd slash (by decide)
  · exact h inside

namespace TypeSystem

variable {types : TypeSystem}

/-- A path is the name, or a registered location that is climbed to. -/
theorem occurs_path_importOf (registered : ∀ entry ∈ types.registry, '\n' ∉ entry.2.toList)
    {name : String} (named : occurs lineOpening name.toList = false) (location : Option String) :
    occurs lineOpening (types.importOf location name).path.toList = false := by
  have beside : occurs lineOpening ("./" ++ name).toList = false := by
    rw [String.toList_append]
    show occurs lineOpening ('.' :: '/' :: name.toList) = false
    rw [occurs_cons (by decide) (by decide), occurs_cons (by decide) (by decide), named]
  cases known : types.locationOf? name with
  | none => simpa only [importOf, known] using beside
  | some target =>
    have line : '\n' ∉ target.toList := by
      obtain ⟨before, after, same, -⟩ := List.lookup_eq_some_iff.1 known
      exact registered (name, target) (by simp [same])
    cases location with
    | none => simpa only [importOf, known] using beside
    | some current =>
      simp only [importOf, known]
      split
      · exact occurs_lineOpening_of_notMem (Location.feed_notMem_importPath _ line)
      · exact beside

/-- Resolved imports have no such line, where no registered location has a line break. -/
theorem passesImports_imports (registered : ∀ entry ∈ types.registry, '\n' ∉ entry.2.toList)
    {dependencies : List String} (named : ∀ n ∈ dependencies, occurs lineOpening n.toList = false)
    (location : Option String) : PassesImports (types.imports dependencies location) := by
  intro i hi
  obtain ⟨name, hn, rfl⟩ := List.mem_map.1 hi
  have given := named name (List.mem_filter.1 (List.mem_eraseDups.1 hn)).1
  refine Import.occurs_statement ?_ (occurs_path_importOf registered given location)
  rw [importOf_name]
  exact given

end TypeSystem

/-! ## Lines of enums -/

namespace Enumeration

/-- The lines between the braces of an enum begin with a space. -/
theorem head?_innerLines {constants : List Constant} :
    ∀ l ∈ innerLines constants, l.toList.head? = some ' ' := by
  have entry : ∀ (c : Constant) (more : List Char), (c.entry.toList ++ more).head? = some ' ' := by
    intro c more
    simp [Constant.entry_toList]
  have lines : ∀ l ∈ constantLines constants, l.toList.head? = some ' ' := by
    induction constants with
    | nil => exact List.forall_mem_nil _
    | cons c others ih =>
      cases others with
      | nil => simpa [constantLines] using entry c []
      | cons d others =>
        rw [Constant.constantLines_cons]
        refine List.forall_mem_cons.2 ⟨?_, ih⟩
        rw [String.toList_append]
        exact entry c _
  rw [innerLines]
  split
  · simp
  · exact lines

end Enumeration

namespace Engine

variable {e : Engine} {code : String}

/-- No dependency of a declaration that was read has such a line. -/
theorem occurs_dependency {d : Declaration} (read : e.declaration code = .ok d) :
    ∀ n ∈ e.dependencies d, occurs lineOpening n.toList = false := by
  intro n hn
  cases d with
  | enumeration enum => exact absurd hn List.not_mem_nil
  | dataClass name supertype fields =>
    rcases ((e.dependencies_dataClass name supertype fields).2 n hn).2.2 with parent | ⟨className, -⟩
    · have word := (words_of_declaration read).2 n parent
      exact occurs_lineOpening_of_notMem (feed_notMem_of_isWord word)
    · exact occurs_lineOpening_className className

/-! ## What is written -/

/-- What is written for a class has the header of the class first. -/
theorem first?_dataClass {imports : List Import} (passed : PassesImports imports) {name : String}
    {supertype : Option String} {fields : List Field}
    (read : e.declaration code = .ok (.dataClass name supertype fields)) :
    first? (write imports (.dataClass name supertype fields)) = some (name, supertype) := by
  obtain ⟨word, parent⟩ := words_of_declaration read
  have own := Interface.first?_render (i := ⟨name, supertype, fields.map (·.toProperty)⟩) word parent
  rw [first?_eq] at own ⊢
  rw [write_dataClass, String.toList_append, firstFrom?_prologue passed]
  exact own

/-- What is written for an enum has no header, if no literal has a line break. -/
theorem first?_enumeration {enum : Enumeration} (plain : enum.IsPlain) (imports : List Import) :
    first? (write imports (.enumeration enum)) = none := by
  -- The first line begins with the letter of a header and goes on as none.
  let line := "xport enum ".toList ++ (enum.name.toList ++ " \x7b".toList)
  have oneLine : '\n' ∉ line := by
    simp [line, feed_notMem_of_isWord plain.name]
  have other : ∀ rest, headerAt? ('e' :: (line ++ rest)) = none := by
    intro rest
    have off : behind? "export interface ".toList ('e' :: (line ++ rest)) = none :=
      behind?_eq_none (c := 'i') 7 (by decide) (by simp [line])
    rw [headerAt?, off]
    rfl
  have lines : ∀ l ∈ Enumeration.innerLines enum.constants ++ ["\x7d"],
      l.toList.head? ≠ some 'e' ∧ occurs lineOpening l.toList = false := by
    refine List.forall_mem_append.2 ⟨fun l hl => ⟨?_, ?_⟩, by simp; decide⟩
    · rw [Enumeration.head?_innerLines l hl]
      decide
    · exact occurs_lineOpening_of_notMem (Enumeration.feed_notMem_innerLines plain.constants l hl)
  have text : enum.render.toList = 'e' :: (line ++ '\n' ::
      ((unlines (Enumeration.innerLines enum.constants ++ ["\x7d"])).toList ++ [])) := by
    rw [Enumeration.render_eq, List.cons_append, unlines_cons, Enumeration.header_toList,
      List.append_nil]
    rfl
  have unfound : firstFrom? true enum.render.toList = none := by
    rw [text, firstFrom?, if_pos rfl, other, Option.none_or]
    show firstFrom? false _ = none
    rw [firstFrom?_line oneLine, firstFrom?_unlines lines]
    rfl
  rw [first?_eq]
  show (firstFrom? true enum.render.toList).map _ = none
  rw [unfound, Option.map_none]

/-! ## What is remembered -/

/-- No remembered statement has a line that begins like a header. -/
def RemembersPassing (memo : Memo (List Import)) : Prop :=
  ∀ key imports, memo.peek? key = some imports → PassesImports imports

/-- Imports are asked for the dependencies of the declaration that was read. -/
theorem exists_declaration_of_request? {location : Option String} {withImports : Bool}
    {request : List String × Option String}
    (h : e.request? code location withImports = some request) :
    ∃ d, e.declaration code = .ok d ∧ request = (e.dependencies d, location) := by
  unfold request? at h
  split at h
  · cases h
  · split at h
    · cases h
    · next d read =>
      split at h
      · cases h
        exact ⟨d, read, rfl⟩
      · cases h

/-- What a call asks the resolver for has no line that begins like a header, unless the call names it
so. -/
theorem occurs_resolved? {caches : Caches} {call : Call} {request : List String × Option String}
    (h : e.resolved? caches call = some request)
    (asked : ∀ dependencies location, call = .resolveImports dependencies location →
      ∀ name ∈ dependencies, '\n' ∉ name.toList) :
    ∀ n ∈ request.1, occurs lineOpening n.toList = false := by
  have explained : ∀ {code location withImports},
      e.request? code location withImports = some request →
        ∀ n ∈ request.1, occurs lineOpening n.toList = false := by
    intro code location withImports h
    obtain ⟨d, read, rfl⟩ := exists_declaration_of_request? h
    exact occurs_dependency read
  cases call with
  | resolveImports dependencies location =>
    cases h
    exact fun n hn => occurs_lineOpening_of_notMem (asked dependencies location rfl n hn)
  | convert | convertFast | explain =>
    simp only [resolved?, Option.bind_eq_some_iff] at h
    obtain ⟨⟨_, _, _⟩, -, h⟩ := h
    exact explained h

section Registered

variable (registered : ∀ entry ∈ e.types.registry, '\n' ∉ entry.2.toList)

include registered

/-- One call of the resolver keeps the memo free of statements that look like headers. -/
theorem Resolves.remembersPassing {request : Option (List String × Option String)}
    {memo after : Memo (List Import)} (h : e.Resolves request memo after)
    (named : ∀ r ∈ request, ∀ n ∈ r.1, occurs lineOpening n.toList = false)
    (before : RemembersPassing memo) : RemembersPassing after := by
  cases h with
  | silent | hit => exact before
  | @stored request _ missed =>
    intro key imports found
    by_cases same : key = TypeSystem.importsKey request.1 request.2
    · subst same
      rw [Memo.peek?_insert_self] at found
      cases found
      exact TypeSystem.passesImports_imports registered (named request rfl) request.2
    · rw [Memo.peek?_insert_of_ne _ _ same] at found
      exact before key imports found

/-- No session of conversions ever remembers a statement that looks like a header. -/
theorem remembersPassing_finish {calls : List Call}
    (asked : ∀ dependencies location, .resolveImports dependencies location ∈ calls →
      ∀ name ∈ dependencies, '\n' ∉ name.toList)
    {caches : Caches} (before : RemembersPassing caches.imports) :
    RemembersPassing (e.finish caches calls).imports := by
  induction calls generalizing caches with
  | nil => exact before
  | cons call calls ih =>
    refine ih (fun dependencies location later => asked dependencies location
      (List.mem_cons_of_mem _ later)) ?_
    refine (e.perform_resolves caches call).remembersPassing registered (fun request h => ?_) before
    refine occurs_resolved? h fun dependencies location same => asked dependencies location ?_
    rw [same]
    exact List.mem_cons_self ..

/-- What is resolved, from the memo or anew, has no statement that looks like a header. -/
theorem passesImports_resolveIf {caches : Caches} (remembered : RemembersPassing caches.imports)
    {request : Option (List String × Option String)}
    (named : ∀ r ∈ request, ∀ n ∈ r.1, occurs lineOpening n.toList = false) :
    PassesImports (e.resolveIf request caches).1 := by
  cases request with
  | none => exact List.forall_mem_nil _
  | some request =>
    show PassesImports (e.types.resolve request.1 request.2 caches.imports).1
    cases found : caches.imports.peek? (TypeSystem.importsKey request.1 request.2) with
    | some imports =>
      rw [resolve_of_some found]
      exact remembered _ imports found
    | none =>
      rw [resolve_of_none found]
      exact TypeSystem.passesImports_imports registered (named request rfl) request.2

/-- Whatever was converted or resolved before, the first header in what `explain` writes for a class
is that of the class with its supertype; in what it writes for an enum there is none, if no literal
has a line break. -/
theorem first?_explain {calls : List Call}
    (asked : ∀ dependencies location, .resolveImports dependencies location ∈ calls →
      ∀ name ∈ dependencies, '\n' ∉ name.toList)
    {location : Option String} {withImports : Bool} {output : String} {dependencies : List String}
    (converted : (e.explain code location withImports (e.finish .empty calls)).1 =
      .converted output dependencies) :
    ∃ s, Source.signature (Source.Constant.normalize code) e.types = .ok s ∧
      match s.kind with
      | .classKind => first? output = some (s.name, s.supertype)
      | .enumKind => ∃ constants,
          Source.enumConstants (Source.Constant.normalize code) s.name = .ok constants ∧
            ((∀ c ∈ constants, '\n' ∉ c.literal.toList) → first? output = none) := by
  have start : RemembersPassing Caches.empty.imports := fun _ _ found => nomatch found
  have remembered := remembersPassing_finish registered asked start
  have passed : PassesImports (e.resolveIf (e.request? code location withImports)
      (e.finish .empty calls)).1 := by
    refine passesImports_resolveIf registered remembered fun request h => ?_
    obtain ⟨d, read, rfl⟩ := exists_declaration_of_request? h
    exact occurs_dependency read
  rw [explain_eq, conversion] at converted
  split at converted
  · cases converted
  split at converted
  · cases converted
  next d read =>
    cases converted
    obtain ⟨s, signed, meant⟩ := exists_signature read
    refine ⟨s, signed, ?_⟩
    cases kind : s.kind with
    | classKind =>
      rw [kind] at meant
      obtain rfl := meant
      exact first?_dataClass passed read
    | enumKind =>
      rw [kind] at meant
      obtain ⟨constants, listed, rfl⟩ := meant
      refine ⟨constants, listed, fun literals => first?_enumeration ⟨?_, fun c hc => ?_⟩ _⟩
      · exact isWord_of_isHeadedBy (Source.names_of_signature signed).1
      · have name := Source.names_of_enumConstants listed c hc
        exact ⟨isWord_of_name (fun _ => isNameChar_of_isNameStart) name, literals c hc⟩

end Registered

/-- A class with a property whose name reads like a header. -/
def shadowSource : String :=
  "class Order extends Base \x7b @JsonProperty(\"export interface A extends B\") private Money a; \x7d"

/-- The field of the class. -/
def shadowFields : List Field :=
  [⟨⟨"\"export interface A extends B\"", "Money", true⟩, "Money", "a"⟩]

/-- The header of the class is found first, though the name of the property reads like one. -/
theorem first?_explain_shadow :
    ∃ output, (standard.explain shadowSource (some "shop/Order") true
        (standard.finish .empty [.resolveImports ["Money"] (some "shop/Order")])).1 =
          .converted output ["Money", "Base"] ∧
      first? output = some ("Order", some "Base") := by
  have read : standard.declaration shadowSource =
      .ok (.dataClass "Order" (some "Base") shadowFields) := by decide +kernel
  have large : standard.isTooSmall shadowSource = false := by decide +kernel
  have needed : standard.dependencies (.dataClass "Order" (some "Base") shadowFields) =
      ["Money", "Base"] := by decide +kernel
  have converted := standard.explain_eq
    (standard.finish .empty [.resolveImports ["Money"] (some "shop/Order")]) shadowSource
    (some "shop/Order") true
  rw [standard.conversion_of_read shadowSource large read, needed] at converted
  have outcome := congrArg Prod.fst converted
  have registered : ∀ entry ∈ standard.types.registry, '\n' ∉ entry.2.toList := by decide +kernel
  have asked : ∀ dependencies location, Call.resolveImports dependencies location ∈
      [Call.resolveImports ["Money"] (some "shop/Order")] → ∀ name ∈ dependencies,
        '\n' ∉ name.toList := by
    intro dependencies location inside
    cases List.mem_singleton.1 inside
    decide
  obtain ⟨s, found, header⟩ := first?_explain registered asked outcome
  obtain ⟨s', signed, meant⟩ := exists_signature read
  rw [found] at signed
  cases signed
  cases kind : s.kind with
  | classKind =>
    rw [kind] at header meant
    obtain ⟨named, parent, -⟩ := Declaration.dataClass.inj meant
    exact ⟨_, outcome, header.trans (by rw [named, parent])⟩
  | enumKind =>
    rw [kind] at meant
    obtain ⟨_, -, ⟨⟩⟩ := meant

end Engine

end InterfaceGen
