import InterfaceGen.Engine
import InterfaceGen.Proofs.Memo

/-!
# Sessions with an engine

A session is a list of calls on one engine, whose memos pass from each call to the next. What one
call does to the two memos is said here once: `perform_reads` for the memo of the conversions,
`perform_resolves` for the memo of the imports.
-/

namespace InterfaceGen.Engine

/-- A call on an engine with its arguments. -/
inductive Call where
  | convert (code : String) (location : Option String)
  | convertFast (code : String) (location : Option String)
  | explain (code : String) (location : Option String) (withImports : Bool)
  | resolveImports (dependencies : List String) (location : Option String)

/-- What a call answers. -/
inductive Answer where
  | converted (output : Option String)
  | fast (output : String)
  | explained (outcome : Conversion)
  | imports (list : List Import)

/-- A call as it happened. -/
structure Event where
  call : Call
  before : Caches
  answer : Answer
  after : Caches

/-- Answers a call. -/
def perform (e : Engine) : Call → StateM Caches Answer
  | .convert code location => return .converted (← e.convert code location)
  | .convertFast code location => return .fast (← e.convertFast code location)
  | .explain code location withImports => return .explained (← e.explain code location withImports)
  | .resolveImports dependencies location =>
    return .imports (← e.resolveImports dependencies location)

/-- What happens in a call with these memos. -/
def event (e : Engine) (caches : Caches) (call : Call) : Event :=
  let (answer, after) := e.perform call caches
  ⟨call, caches, answer, after⟩

/-- What happens in a session that begins with these memos. -/
def trace (e : Engine) : Caches → List Call → List Event
  | _, [] => []
  | caches, call :: calls => e.event caches call :: e.trace (e.event caches call).after calls

/-- The memos at the end of a session. -/
def finish (e : Engine) (caches : Caches) (calls : List Call) : Caches :=
  calls.foldl (fun caches call => (e.event caches call).after) caches

/-! ## Runs of the resolver -/

/-- What `explain` asks the resolver for, if it runs it. -/
def request? (e : Engine) (code : String) (location : Option String) (withImports : Bool) :
    Option (List String × Option String) :=
  if e.isTooSmall code then none
  else match e.declaration code with
    | .error _ => none
    | .ok declaration =>
      if withImports && !(e.dependencies declaration).isEmpty then
        some (e.dependencies declaration, location)
      else none

/-- The run of `explain` that a call makes, if it makes one: its source, its location, and whether
imports are wanted. -/
def explained? (e : Engine) (caches : Caches) : Call → Option (String × Option String × Bool)
  | .convert code location =>
    if e.isTooSmall code || caches.interfaces.contains (sourceKey code location) then none
    else some (code, location, true)
  | .convertFast code location =>
    if e.isTooSmall code || isSkipped code then none else some (code, location, location.isSome)
  | .explain code location withImports => some (code, location, withImports)
  | .resolveImports .. => none

/-- The run of the resolver that a call makes, if it makes one. -/
def resolved? (e : Engine) (caches : Caches) : Call → Option (List String × Option String)
  | .resolveImports dependencies location => some (dependencies, location)
  | call => (e.explained? caches call).bind fun (code, location, withImports) =>
    e.request? code location withImports

/-- Runs the resolver if it is asked for anything. -/
def resolveIf (e : Engine) : Option (List String × Option String) → StateM Caches (List Import)
  | none => pure []
  | some (dependencies, location) => e.resolveImports dependencies location

/-- What comes of a source when these imports are written. -/
def conversion (e : Engine) (code : String) (imports : List Import) : Conversion :=
  if e.isTooSmall code then .tooSmall
  else match e.declaration code with
    | .error failure => .unsupported failure
    | .ok declaration => .converted (write imports declaration) (e.dependencies declaration)

/-- A step of a computation on a state, and what it goes on with. -/
theorem bind_eq {σ α β : Type} {first : StateM σ α} {rest : α → StateM σ β} {before after : σ}
    {answer : α} (h : first before = (answer, after)) :
    (first >>= rest) before = rest answer after := by
  show rest (first before).1 (first before).2 = rest answer after
  rw [h]

variable (e : Engine) (caches : Caches)

/-- A source is explained with the imports that the resolver gives, if it is run. -/
theorem explain_eq (code : String) (location : Option String) (withImports : Bool) :
    e.explain code location withImports caches =
      (e.conversion code (e.resolveIf (e.request? code location withImports) caches).1,
        (e.resolveIf (e.request? code location withImports) caches).2) := by
  unfold explain conversion request?
  by_cases small : e.isTooSmall code = true
  · simp only [small, if_true]
    rfl
  · simp only [small, Bool.false_eq_true, if_false]
    cases e.declaration code with
    | error failure => rfl
    | ok declaration =>
      by_cases wanted : (withImports && !(e.dependencies declaration).isEmpty) = true
      · simp only [wanted, if_true]
        rfl
      · simp only [wanted, Bool.false_eq_true, if_false]
        rfl

theorem resolveIf_interfaces (request : Option (List String × Option String)) :
    (e.resolveIf request caches).2.interfaces = caches.interfaces := by
  cases request <;> rfl

/-- Explaining leaves the memo of the conversions as it is. -/
theorem explain_interfaces (code : String) (location : Option String) (withImports : Bool) :
    (e.explain code location withImports caches).2.interfaces = caches.interfaces := by
  rw [explain_eq]
  exact e.resolveIf_interfaces caches _

/-! ## Conversions and their memo -/

section Convert

variable {e caches} {code : String} {location : Option String}

/-- A source that is too small is not looked up. -/
theorem convert_small (small : e.isTooSmall code = true) :
    e.convert code location caches = (none, caches) := by
  unfold convert
  rw [if_pos small]
  rfl

/-- A conversion that is remembered is answered as it was. -/
theorem convert_hit (large : e.isTooSmall code = false) {output : String}
    (found : caches.interfaces.peek? (sourceKey code location) = some output) :
    e.convert code location caches =
      (some output, { caches with interfaces := caches.interfaces.hit }) := by
  have answer : remembered? (sourceKey code location) caches =
      (some output, { caches with interfaces := caches.interfaces.hit }) := by
    rw [remembered?, Memo.get?_of_some found]
  unfold convert
  rw [if_neg (Bool.eq_false_iff.1 large)]
  exact bind_eq answer

variable {imports : List Import} {after : Caches}

/-- Any other source is converted, and its text is remembered if there is one. -/
theorem convert_miss (large : e.isTooSmall code = false)
    (missed : caches.interfaces.peek? (sourceKey code location) = none)
    (resolved : e.resolveIf (e.request? code location true)
      { caches with interfaces := caches.interfaces.miss } = (imports, after)) :
    e.convert code location caches =
      match (e.conversion code imports).output? with
      | none => (none, after)
      | some output =>
        (some output,
          { after with
            interfaces := caches.interfaces.miss.insert (sourceKey code location) output }) := by
  have answer : remembered? (sourceKey code location) caches =
      (none, { caches with interfaces := caches.interfaces.miss }) := by
    rw [remembered?, Memo.get?_of_none missed]
  have explained := e.explain_eq { caches with interfaces := caches.interfaces.miss } code location true
  rw [resolved] at explained
  have same := e.resolveIf_interfaces { caches with interfaces := caches.interfaces.miss }
    (e.request? code location true)
  rw [resolved] at same
  unfold convert
  rw [if_neg (Bool.eq_false_iff.1 large)]
  refine (bind_eq answer).trans ((bind_eq explained).trans ?_)
  cases written : (e.conversion code imports).output? with
  | none => rfl
  | some output =>
    have stored : remember (sourceKey code location) output after =
        (output, { after with
          interfaces := caches.interfaces.miss.insert (sourceKey code location) output }) := by
      -- Explaining leaves the memo of the interfaces alone, so the key is still new.
      have new : after.interfaces.peek? (sourceKey code location) = none := by
        rw [same]
        exact missed
      rw [remember, Memo.put_of_none output new, same]
    exact bind_eq stored

end Convert

/-- The cases of a call as far as the memo of the conversions goes: only `convert` looks a key up,
and only where it looked in vain and wrote something is an entry added. -/
inductive Reads (e : Engine) : Call → Memo String → Answer → Memo String → Prop where
  | other {call : Call} {memo : Memo String} {answer : Answer}
    (h : ∀ code location, call ≠ .convert code location) : Reads e call memo answer memo
  | small {code : String} {location : Option String} {memo : Memo String}
    (h : e.isTooSmall code = true) : Reads e (.convert code location) memo (.converted none) memo
  | hit {code : String} {location : Option String} {memo : Memo String} {output : String}
    (large : e.isTooSmall code = false)
    (found : memo.peek? (sourceKey code location) = some output) :
    Reads e (.convert code location) memo (.converted (some output)) memo.hit
  | failed {code : String} {location : Option String} {memo : Memo String}
    (large : e.isTooSmall code = false)
    (missed : memo.peek? (sourceKey code location) = none) :
    Reads e (.convert code location) memo (.converted none) memo.miss
  | stored {code : String} {location : Option String} {memo : Memo String} (output : String)
    (large : e.isTooSmall code = false)
    (missed : memo.peek? (sourceKey code location) = none) :
    Reads e (.convert code location) memo (.converted (some output))
      (memo.miss.insert (sourceKey code location) output)

/-- A fast conversion remembers what `explain` does, unless the source is too small or passed
over. -/
theorem convertFast_caches (e : Engine) (caches : Caches) (code : String)
    (location : Option String) :
    (e.convertFast code location caches).2 =
      if e.isTooSmall code || isSkipped code then caches
      else (e.explain code location location.isSome caches).2 := by
  unfold convertFast
  by_cases small : e.isTooSmall code = true
  · simp only [small, if_true, Bool.true_or]
    rfl
  · by_cases skipped : isSkipped code = true
    · simp only [small, skipped, Bool.or_true, if_true]
      rfl
    · simp only [small, skipped, Bool.or_false, Bool.false_eq_true, if_false]
      cases outcome : e.explain code location location.isSome caches with
      | mk conversion after =>
        rw [bind_eq outcome]
        cases conversion <;> rfl

/-- What a conversion looks up and stores. -/
theorem convert_reads (e : Engine) (caches : Caches) (code : String) (location : Option String) :
    e.Reads (.convert code location) caches.interfaces
      (.converted (e.convert code location caches).1)
      (e.convert code location caches).2.interfaces := by
  cases small : e.isTooSmall code with
  | true =>
    rw [convert_small small]
    exact .small small
  | false =>
    cases found : caches.interfaces.peek? (sourceKey code location) with
    | some output =>
      rw [convert_hit small found]
      exact .hit small found
    | none =>
      have same := e.resolveIf_interfaces { caches with interfaces := caches.interfaces.miss }
        (e.request? code location true)
      cases resolved : e.resolveIf (e.request? code location true)
          { caches with interfaces := caches.interfaces.miss } with
      | mk imports after =>
        rw [resolved] at same
        rw [convert_miss small found resolved]
        cases written : (e.conversion code imports).output? with
        | none =>
          show e.Reads _ _ _ after.interfaces
          rw [same]
          exact .failed small found
        | some output => exact .stored output small found

/-- Every call treats the memo of the conversions in one of these ways. -/
theorem perform_reads (e : Engine) (caches : Caches) (call : Call) :
    e.Reads call caches.interfaces (e.event caches call).answer
      (e.event caches call).after.interfaces := by
  cases call with
  | convert code location => exact e.convert_reads caches code location
  | convertFast code location =>
    have same : (e.event caches (.convertFast code location)).after.interfaces = caches.interfaces := by
      show (e.convertFast code location caches).2.interfaces = caches.interfaces
      rw [convertFast_caches]
      split
      · rfl
      · exact e.explain_interfaces caches code location _
    rw [same]
    exact .other (by rintro _ _ ⟨⟩)
  | explain code location withImports =>
    have same : (e.event caches (.explain code location withImports)).after.interfaces =
        caches.interfaces := e.explain_interfaces caches code location withImports
    rw [same]
    exact .other (by rintro _ _ ⟨⟩)
  | resolveImports dependencies location => exact .other (by rintro _ _ ⟨⟩)

/-! ## The memo of the imports -/

section Resolve

variable {types : TypeSystem} {dependencies : List String} {location : Option String}
  {memo : Memo (List Import)}

/-- Imports that are remembered are given again. -/
theorem resolve_of_some {imports : List Import}
    (found : memo.peek? (TypeSystem.importsKey dependencies location) = some imports) :
    types.resolve dependencies location memo = (imports, memo.hit) := by
  unfold TypeSystem.resolve
  exact bind_eq (Memo.get?_of_some found)

/-- Other imports are resolved and remembered. -/
theorem resolve_of_none
    (missed : memo.peek? (TypeSystem.importsKey dependencies location) = none) :
    types.resolve dependencies location memo =
      (types.imports dependencies location,
        memo.miss.insert (TypeSystem.importsKey dependencies location)
          (types.imports dependencies location)) := by
  unfold TypeSystem.resolve
  refine (bind_eq (Memo.get?_of_none missed)).trans ?_
  exact bind_eq (Memo.put_of_none (m := memo.miss) (types.imports dependencies location) missed)

end Resolve

/-- The memo of the imports after a run of the resolver, if there is one. -/
def resolvedMemo (e : Engine) (memo : Memo (List Import)) :
    Option (List String × Option String) → Memo (List Import)
  | none => memo
  | some (dependencies, location) => (e.types.resolve dependencies location memo).2

/-- A run of the resolver changes the memo of the imports in this way. -/
theorem resolveIf_imports (e : Engine) (caches : Caches)
    (request : Option (List String × Option String)) :
    (e.resolveIf request caches).2.imports = e.resolvedMemo caches.imports request := by
  cases request <;> rfl

/-- So does `explain`, for the request that it makes. -/
theorem explain_imports (e : Engine) (caches : Caches) (code : String) (location : Option String)
    (withImports : Bool) :
    (e.explain code location withImports caches).2.imports =
      e.resolvedMemo caches.imports (e.request? code location withImports) := by
  rw [explain_eq]
  exact e.resolveIf_imports caches _

/-- A conversion runs the resolver where it is not answered from the memo. -/
theorem resolved?_convert (e : Engine) (caches : Caches) (code : String)
    (location : Option String) :
    e.resolved? caches (.convert code location) =
      if e.isTooSmall code || caches.interfaces.contains (sourceKey code location) then none
      else e.request? code location true := by
  show (Option.bind (if _ then _ else _) _) = _
  split <;> rfl

/-- A fast conversion runs it where there is a location and the source is not passed over. -/
theorem resolved?_convertFast (e : Engine) (caches : Caches) (code : String)
    (location : Option String) :
    e.resolved? caches (.convertFast code location) =
      if e.isTooSmall code || isSkipped code then none
      else e.request? code location location.isSome := by
  show (Option.bind (if _ then _ else _) _) = _
  split <;> rfl

theorem convert_imports (e : Engine) (caches : Caches) (code : String) (location : Option String) :
    (e.convert code location caches).2.imports =
      e.resolvedMemo caches.imports (e.resolved? caches (.convert code location)) := by
  rw [resolved?_convert, Memo.contains]
  cases small : e.isTooSmall code with
  | true =>
    rw [convert_small small]
    rfl
  | false =>
    cases found : caches.interfaces.peek? (sourceKey code location) with
    | some output =>
      rw [convert_hit small found]
      rfl
    | none =>
      have memo := e.resolveIf_imports { caches with interfaces := caches.interfaces.miss }
        (e.request? code location true)
      cases resolved : e.resolveIf (e.request? code location true)
          { caches with interfaces := caches.interfaces.miss } with
      | mk imports after =>
        rw [resolved] at memo
        rw [convert_miss small found resolved]
        refine Eq.trans ?_ memo
        split <;> rfl

/-- Every call changes the memo of the imports as the run of the resolver in it does. -/
theorem perform_imports (e : Engine) (caches : Caches) (call : Call) :
    (e.event caches call).after.imports =
      e.resolvedMemo caches.imports (e.resolved? caches call) := by
  cases call with
  | convert code location => exact e.convert_imports caches code location
  | convertFast code location =>
    show (e.convertFast code location caches).2.imports = _
    rw [convertFast_caches, resolved?_convertFast]
    split
    · rfl
    · exact e.explain_imports caches code location _
  | explain code location withImports => exact e.explain_imports caches code location withImports
  | resolveImports dependencies location => rfl

/-- The cases of a call as far as the memo of the imports goes: a run of the resolver looks its key
up and adds an entry where it looked in vain. -/
inductive Resolves (e : Engine) :
    Option (List String × Option String) → Memo (List Import) → Memo (List Import) → Prop where
  | silent {memo : Memo (List Import)} : Resolves e none memo memo
  | hit {request : List String × Option String} {memo : Memo (List Import)} {imports : List Import}
    (found : memo.peek? (TypeSystem.importsKey request.1 request.2) = some imports) :
    Resolves e (some request) memo memo.hit
  | stored {request : List String × Option String} {memo : Memo (List Import)}
    (missed : memo.peek? (TypeSystem.importsKey request.1 request.2) = none) :
    Resolves e (some request) memo
      (memo.miss.insert (TypeSystem.importsKey request.1 request.2)
        (e.types.imports request.1 request.2))

/-- Every call treats this memo in one of these ways. -/
theorem perform_resolves (e : Engine) (caches : Caches) (call : Call) :
    e.Resolves (e.resolved? caches call) caches.imports (e.event caches call).after.imports := by
  rw [perform_imports]
  cases e.resolved? caches call with
  | none => exact .silent
  | some request =>
    show e.Resolves _ _ (e.types.resolve request.1 request.2 caches.imports).2
    cases found : caches.imports.peek? (TypeSystem.importsKey request.1 request.2) with
    | some imports =>
      rw [resolve_of_some found]
      exact .hit found
    | none =>
      rw [resolve_of_none found]
      exact .stored found

end InterfaceGen.Engine
