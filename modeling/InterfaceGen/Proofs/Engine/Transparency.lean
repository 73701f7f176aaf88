import InterfaceGen.Proofs.Engine.Invariants
import InterfaceGen.Proofs.Engine.Reading
import Mathlib.Data.List.Induction

/-!
# When memos change no answer

Keys are fingerprints, and different requests may share one. An answer from a memo is therefore the
answer of a fresh engine exactly where no two requests of the session clash: `transparent_iff`
names the two clashes that can be told from the answers, one in each memo.
-/

namespace InterfaceGen.Engine

/-- The answer of a fresh engine. -/
def fresh (e : Engine) (code : String) (location : Option String) : Option String :=
  (e.convert code location .empty).1

/-- The runs of the resolver in a session, in order. -/
def requests (e : Engine) (caches : Caches) (calls : List Call) :
    List (List String × Option String) :=
  (e.trace caches calls).filterMap fun event => e.resolved? event.before event.call

/-- Do two runs of the resolver share their key? -/
def sharesKey (first second : List String × Option String) : Bool :=
  TypeSystem.importsKey first.1 first.2 == TypeSystem.importsKey second.1 second.2

/-- A property of each conversion in a session, given the calls before it. -/
def AtConversions (property : List Call → String → Option String → Prop) (calls : List Call) :
    Prop :=
  ∀ before code location rest, calls = before ++ .convert code location :: rest →
    property before code location

/-- Does a conversion after these calls answer as a fresh engine does? -/
def AnswersFresh (e : Engine) (before : List Call) (code : String) (location : Option String) :
    Prop :=
  (e.convert code location (e.finish .empty before)).1 = e.fresh code location

/-- No earlier request of the session clashes with a conversion. -/
structure NoClash (e : Engine) (before : List Call) (code : String) (location : Option String) :
    Prop where
  /-- What was converted under the same key is the text of this source too. -/
  sources : e.isTooSmall code = false → ∀ code' location', .convert code' location' ∈ before →
    sourceKey code' location' = sourceKey code location →
    ∀ output, e.fresh code' location' = some output → e.fresh code location = some output
  /-- A source that is converted anew is the same text with the imports that the first run of the
  resolver under the key of its own imports left. -/
  imports : (∀ code' location', .convert code' location' ∈ before →
      sourceKey code' location' = sourceKey code location → e.fresh code' location' = none) →
    ∀ request, e.request? code location true = some request →
    ∀ first, (e.requests .empty before).find? (sharesKey request) = some first →
      (e.conversion code (e.types.imports first.1 first.2)).output? = e.fresh code location

/-- Every conversion of the session answers as a fresh engine does. -/
def Transparent (e : Engine) (calls : List Call) : Prop :=
  AtConversions e.AnswersFresh calls

/-- No two requests of the session clash. -/
def ClashFree (e : Engine) (calls : List Call) : Prop :=
  AtConversions e.NoClash calls

/-- The property holds of one more call if it holds before, and of the call if that is a
conversion. -/
theorem atConversions_concat {property : List Call → String → Option String → Prop}
    {calls : List Call} {call : Call} :
    AtConversions property (calls ++ [call]) ↔ AtConversions property calls ∧
      ∀ code location, call = .convert code location → property calls code location := by
  constructor
  · intro h
    constructor
    · rintro before code location rest rfl
      exact h before code location (rest ++ [call]) (by simp)
    · rintro code location rfl
      exact h calls code location [] rfl
  · rintro ⟨earlier, last⟩ before code location rest same
    cases rest using List.reverseRecOn with
    | nil =>
      obtain ⟨rfl, rfl⟩ := List.append_inj' same rfl |>.imp_right List.singleton_inj.1
      exact last code location rfl
    | append_singleton rest final =>
      rw [← List.cons_append, ← List.append_assoc] at same
      obtain ⟨rfl, -⟩ := List.append_inj' same rfl
      exact earlier before code location rest rfl

variable {e : Engine} {caches : Caches}

/-! ## What the memos hold -/

theorem finish_concat (e : Engine) (caches : Caches) (calls : List Call) (call : Call) :
    e.finish caches (calls ++ [call]) = (e.event (e.finish caches calls) call).after := by
  rw [finish, List.foldl_append]
  rfl

theorem trace_concat (e : Engine) (call : Call) : ∀ calls caches,
    e.trace caches (calls ++ [call]) =
      e.trace caches calls ++ [e.event (e.finish caches calls) call] := by
  intro calls
  induction calls with
  | nil => exact fun _ => rfl
  | cons first calls ih =>
    intro caches
    exact congrArg (e.event caches first :: ·) (ih _)

theorem requests_concat (e : Engine) (caches : Caches) (calls : List Call) (call : Call) :
    e.requests caches (calls ++ [call]) =
      e.requests caches calls ++ (e.resolved? (e.finish caches calls) call).toList := by
  rw [requests, trace_concat, List.filterMap_append, requests]
  congr 1

/-- A run of the resolver fills the entry of its key, if there is none. -/
theorem Resolves.peek? {run : Option (List String × Option String)} {memo after : Memo (List Import)}
    (h : e.Resolves run memo after) (request : List String × Option String) :
    after.peek? (TypeSystem.importsKey request.1 request.2) =
      (memo.peek? (TypeSystem.importsKey request.1 request.2)).or
        ((run.toList.find? (sharesKey request)).map fun first =>
          e.types.imports first.1 first.2) := by
  cases h with
  | silent => exact Option.or_none.symm
  | @hit run _ imports found =>
    rw [Option.toList_some, List.find?_singleton]
    split
    · next shared =>
      rw [beq_iff_eq.1 shared, found]
      exact found
    · exact Option.or_none.symm
  | @stored run _ missed =>
    rw [Option.toList_some, List.find?_singleton]
    split
    · next shared =>
      rw [beq_iff_eq.1 shared, missed]
      exact Memo.peek?_insert_self _ _ _
    · next differ =>
      have other : TypeSystem.importsKey request.1 request.2 ≠ TypeSystem.importsKey run.1 run.2 :=
        fun same => differ (beq_iff_eq.2 same)
      rw [Option.map_none, Option.or_none]
      exact Memo.peek?_insert_of_ne _ _ other

/-- The first run of the resolver under a key fills its entry. -/
theorem peek?_imports_finish (e : Engine) (request : List String × Option String)
    (calls : List Call) :
    (e.finish .empty calls).imports.peek? (TypeSystem.importsKey request.1 request.2) =
      ((e.requests .empty calls).find? (sharesKey request)).map fun first =>
        e.types.imports first.1 first.2 := by
  induction calls using List.reverseRecOn with
  | nil => rfl
  | append_singleton calls call ih =>
    have run := e.perform_resolves (e.finish .empty calls) call
    rw [finish_concat, requests_concat, run.peek?, ih, List.find?_append, Option.map_or]

/-- The text that a conversion by a fresh engine would leave under the key. -/
def writes? (e : Engine) (key : String) : Call → Option String
  | .convert code location =>
    if sourceKey code location = key then e.fresh code location else none
  | _ => none

/-- A call that answers as a fresh engine does fills the entry of its key, if there is none. -/
theorem Reads.peek? {call : Call} {memo after : Memo String} {answer : Answer}
    (h : e.Reads call memo answer after)
    (honest : ∀ code location, call = .convert code location →
      answer = .converted (e.fresh code location)) (key : String) :
    after.peek? key = (memo.peek? key).or (e.writes? key call) := by
  have text : ∀ {code location output}, call = .convert code location →
      answer = .converted output → e.writes? key call =
        if sourceKey code location = key then output else none := by
    rintro code location output rfl rfl
    have same : output = e.fresh code location := Answer.converted.inj (honest code location rfl)
    rw [writes?, same]
  -- Only `stored` leaves a new text; what a hit finds is known already.
  cases h with
  | other h =>
    have silent : e.writes? key call = none := by
      cases call with
      | convert code location => exact absurd rfl (h code location)
      | _ => rfl
    rw [silent, Option.or_none]
  | small => rw [text rfl rfl, ite_self, Option.or_none]
  | failed =>
    rw [text rfl rfl, ite_self, Option.or_none]
    rfl
  | @hit code location _ output large found =>
    rw [text rfl rfl]
    split
    · next same =>
      rw [← same, found]
      exact found
    · exact Option.or_none.symm
  | @stored code location _ output large missed =>
    rw [text rfl rfl]
    split
    · next same =>
      rw [← same, missed]
      exact Memo.peek?_insert_self _ _ _
    · next differ =>
      rw [Option.or_none]
      exact Memo.peek?_insert_of_ne _ _ (Ne.symm differ)

/-- As long as all conversions answer as fresh engines do, the first text under a key fills its
entry. -/
theorem peek?_interfaces_finish {calls : List Call} (h : e.Transparent calls) (key : String) :
    (e.finish .empty calls).interfaces.peek? key = calls.findSome? (e.writes? key) := by
  induction calls using List.reverseRecOn with
  | nil => rfl
  | append_singleton calls call ih =>
    obtain ⟨earlier, last⟩ := atConversions_concat.1 h
    have read := e.perform_reads (e.finish .empty calls) call
    have honest : ∀ code location, call = .convert code location →
        (e.event (e.finish .empty calls) call).answer = .converted (e.fresh code location) := by
      rintro code location rfl
      exact congrArg Answer.converted (last code location rfl)
    rw [finish_concat, read.peek? honest, ih earlier, List.findSome?_append, List.findSome?_singleton]

/-! ## One conversion -/

variable {code : String} {location : Option String}

theorem fresh_small (small : e.isTooSmall code = true) : e.fresh code location = none := by
  rw [fresh, convert_small small]

/-- A conversion that is not remembered is made with the imports that the resolver gives. -/
theorem convert_miss_answer (large : e.isTooSmall code = false)
    (missed : caches.interfaces.peek? (sourceKey code location) = none) :
    (e.convert code location caches).1 =
      (e.conversion code (e.resolveIf (e.request? code location true)
        { caches with interfaces := caches.interfaces.miss }).1).output? := by
  cases resolved : e.resolveIf (e.request? code location true)
      { caches with interfaces := caches.interfaces.miss } with
  | mk imports after =>
    rw [convert_miss large missed resolved]
    split
    · next none => exact none.symm
    · next output some => exact some.symm

/-- The resolver gives what is remembered, or else the imports of the request. -/
theorem resolveIf_answer (e : Engine) (caches : Caches) (request : List String × Option String) :
    (e.resolveIf (some request) caches).1 =
      (caches.imports.peek? (TypeSystem.importsKey request.1 request.2)).getD
        (e.types.imports request.1 request.2) := by
  show (e.types.resolve request.1 request.2 caches.imports).1 = _
  cases found : caches.imports.peek? (TypeSystem.importsKey request.1 request.2) with
  | some imports =>
    rw [resolve_of_some found]
    rfl
  | none =>
    rw [resolve_of_none found]
    rfl

/-- Where no imports are asked for, a fresh engine writes none. -/
theorem fresh_of_request_none (large : e.isTooSmall code = false)
    (none : e.request? code location true = none) :
    e.fresh code location = (e.conversion code []).output? := by
  rw [fresh, convert_miss_answer large rfl, none]
  rfl

/-- Otherwise it writes the imports that are asked for. -/
theorem fresh_of_request (large : e.isTooSmall code = false) {request : List String × Option String}
    (asked : e.request? code location true = some request) :
    e.fresh code location =
      (e.conversion code (e.types.imports request.1 request.2)).output? := by
  rw [fresh, convert_miss_answer large rfl, asked, resolveIf_answer]
  rfl

/-- No session removes or changes a conversion that is remembered. -/
theorem keeps_finish (e : Engine) : ∀ (calls : List Call) (caches : Caches),
    caches.interfaces.Keeps (e.finish caches calls).interfaces := by
  intro calls
  induction calls with
  | nil => exact fun _ => .refl _
  | cons call calls ih =>
    intro caches
    exact (e.perform_reads caches call).keeps.trans (ih _)

/-- What an earlier conversion answered is there for the next one. -/
theorem known_of_mem {before : List Call} (h : e.Transparent before) {output : String}
    (member : .convert code location ∈ before) (converted : e.fresh code location = some output) :
    (e.finish .empty before).interfaces.peek? (sourceKey code location) = some output := by
  obtain ⟨earlier, later, rfl⟩ := List.append_of_mem member
  have read := e.perform_reads (e.finish .empty earlier) (.convert code location)
  have answer : (e.event (e.finish .empty earlier) (.convert code location)).answer =
      .converted (some output) := by
    rw [← converted]
    exact congrArg Answer.converted (h earlier code location later rfl)
  rw [answer] at read
  have whole : e.finish .empty (earlier ++ .convert code location :: later) =
      e.finish (e.event (e.finish .empty earlier) (.convert code location)).after later := by
    rw [finish, List.foldl_append]
    rfl
  rw [whole]
  exact e.keeps_finish later _ _ _ read.known.2

/-- Nothing is left under a key if no conversion under it has a text. -/
theorem findSome?_writes_eq_none {before : List Call} {key : String} :
    before.findSome? (e.writes? key) = none ↔
      ∀ code location, .convert code location ∈ before → sourceKey code location = key →
        e.fresh code location = none := by
  rw [List.findSome?_eq_none_iff]
  constructor
  · intro silent code location member same
    have text := silent _ member
    rwa [writes?, if_pos same] at text
  · intro silent call member
    cases call with
    | convert code location =>
      rw [writes?]
      split
      · next same => exact silent code location member same
      · rfl
    | _ => rfl

/-- What is left under a key is the text of a conversion under it. -/
theorem exists_of_findSome?_writes {before : List Call} {key output : String}
    (h : before.findSome? (e.writes? key) = some output) :
    ∃ code location, .convert code location ∈ before ∧ sourceKey code location = key ∧
      e.fresh code location = some output := by
  obtain ⟨call, member, text⟩ := List.exists_of_findSome?_eq_some h
  cases call with
  | convert code location =>
    rw [writes?] at text
    split at text
    · next same => exact ⟨code, location, member, same, text⟩
    · exact nomatch text
  | _ => exact nomatch text

/-- A remembered text is the right answer where the sources that share its key do not clash. -/
theorem answersFresh_of_known {before : List Call} (h : e.Transparent before)
    (large : e.isTooSmall code = false) {output : String}
    (found : (e.finish .empty before).interfaces.peek? (sourceKey code location) = some output) :
    e.AnswersFresh before code location ↔ e.NoClash before code location := by
  have memo := peek?_interfaces_finish h (sourceKey code location)
  rw [found] at memo
  obtain ⟨code', location', member, same, converted⟩ := exists_of_findSome?_writes memo.symm
  rw [AnswersFresh, convert_hit large found]
  constructor
  · intro (answer : some output = e.fresh code location)
    constructor
    · intro _ other place member' same' output' converted'
      have known := known_of_mem h member' converted'
      rw [same', found] at known
      rw [← answer, known]
    · intro silent
      rw [silent code' location' member same] at converted
      exact nomatch converted
  · intro clear
    exact (clear.sources large code' location' member same output converted).symm

/-- A source that is converted anew is converted with its imports, or with those that are remembered
under their key. -/
theorem answersFresh_of_unknown {before : List Call} (h : e.Transparent before)
    (large : e.isTooSmall code = false)
    (missed : (e.finish .empty before).interfaces.peek? (sourceKey code location) = none) :
    e.AnswersFresh before code location ↔ e.NoClash before code location := by
  have memo := peek?_interfaces_finish h (sourceKey code location)
  rw [missed] at memo
  have silent := findSome?_writes_eq_none.1 memo.symm
  have sources : e.isTooSmall code = false → ∀ code' location', .convert code' location' ∈ before →
      sourceKey code' location' = sourceKey code location →
      ∀ output, e.fresh code' location' = some output → e.fresh code location = some output := by
    intro _ code' location' member same output converted
    rw [silent code' location' member same] at converted
    exact nomatch converted
  rw [AnswersFresh, convert_miss_answer large missed]
  cases asked : e.request? code location true with
  | none =>
    rw [fresh_of_request_none large asked]
    refine iff_of_true rfl ⟨sources, fun _ request some => ?_⟩
    exact nomatch asked.symm.trans some
  | some request =>
    rw [resolveIf_answer]
    show (e.conversion code (((e.finish .empty before).imports.peek? _).getD _)).output? = _ ↔ _
    rw [peek?_imports_finish]
    -- The imports are those of the first run of the resolver under the same key, if there was one.
    cases ran : (e.requests .empty before).find? (sharesKey request) with
    | none =>
      refine iff_of_true (fresh_of_request large asked).symm ⟨sources, fun _ other same first run => ?_⟩
      obtain rfl := Option.some.inj (asked.symm.trans same)
      exact nomatch ran.symm.trans run
    | some run =>
      constructor
      · intro answer
        refine ⟨sources, fun _ other same first found => ?_⟩
        obtain rfl := Option.some.inj (asked.symm.trans same)
        obtain rfl := Option.some.inj (ran.symm.trans found)
        exact answer
      · intro clear
        exact clear.imports silent request asked run ran

/-- Where all conversions so far answered as fresh engines do, the next one does exactly where
nothing clashes with it. -/
theorem answersFresh_iff {before : List Call} (h : e.Transparent before) (code : String)
    (location : Option String) :
    e.AnswersFresh before code location ↔ e.NoClash before code location := by
  cases small : e.isTooSmall code with
  | true =>
    rw [AnswersFresh, convert_small small, fresh_small small]
    refine iff_of_true rfl ⟨fun large => ?_, fun _ request asked => ?_⟩
    · rw [small] at large
      exact nomatch large
    · rw [request?, if_pos small] at asked
      exact nomatch asked
  | false =>
    cases found : (e.finish .empty before).interfaces.peek? (sourceKey code location) with
    | some output => exact answersFresh_of_known h small found
    | none => exact answersFresh_of_unknown h small found

/-- A session on shared memos answers every conversion as a fresh engine does if and only if no two
of its requests clash. -/
theorem transparent_iff (e : Engine) (calls : List Call) :
    e.Transparent calls ↔ e.ClashFree calls := by
  induction calls using List.reverseRecOn with
  | nil =>
    have none : ∀ property, AtConversions property [] := by
      intro property before code location rest same
      exact absurd same.symm (by simp)
    exact iff_of_true (none _) (none _)
  | append_singleton calls call ih =>
    rw [Transparent, ClashFree, atConversions_concat, atConversions_concat]
    constructor
    · rintro ⟨earlier, last⟩
      exact ⟨ih.1 earlier, fun code location same =>
        (answersFresh_iff earlier code location).1 (last code location same)⟩
    · rintro ⟨earlier, last⟩
      have transparent := ih.2 earlier
      exact ⟨transparent, fun code location same =>
        (answersFresh_iff transparent code location).2 (last code location same)⟩

/-! ## A clash -/

/-- The source of one class and nothing more: no comments, constants or literals and no fields. -/
structure IsBareClass (types : TypeSystem) (code name : String) (start stop : Nat) : Prop where
  comments : Source.Comment.strip code = code
  constants : Source.Constant.strip code = code
  literals : Source.Literal.blankChars code.toList = code.toList
  header : (Source.Header.pattern.occurrences code.toList).map Source.Header.ofOccurrence =
    [⟨start, stop, .classKind, name, none⟩]
  valid : types.isDeclarationName name = true
  fields : Source.FieldList.ofText code types = []

namespace IsBareClass

variable {name : String} {start stop : Nat}

/-- It declares the class without a supertype and without fields. -/
theorem declaration_eq (h : IsBareClass e.types code name start stop) :
    e.declaration code = .ok (.dataClass name none []) := by
  have normalized : Source.Constant.normalize code = code := by
    rw [Source.Constant.normalize, h.comments, h.constants]
  have signed : Source.signature (Source.Constant.normalize code) e.types =
      .ok ⟨.classKind, name, none⟩ := by
    rw [normalized]
    simp only [Source.signature, Source.Header.findAll, h.literals, h.header, List.filter, h.valid]
    rfl
  rw [declaration_of_class signed rfl, h.comments, h.fields]

/-- A fresh engine writes the empty interface, wherever the source is. -/
theorem fresh_eq (h : IsBareClass e.types code name start stop) (large : e.isTooSmall code = false)
    (location : Option String) :
    e.fresh code location = some (write [] (.dataClass name none [])) := by
  have none : e.request? code location true = none := by
    simp only [request?, large, Bool.false_eq_true, if_false, h.declaration_eq]
    rfl
  rw [fresh_of_request_none large none]
  simp only [conversion, large, Bool.false_eq_true, if_false, h.declaration_eq]
  rfl

end IsBareClass

/-- A source that shares its key with the one of another name. -/
def bareSource (name : String) : String :=
  "public class " ++ name ++ " \x7b int width; \x7d"

/-- Both sources are of this kind. -/
theorem isBareClass_bareSource {name : String} (h : name = "Aa" ∨ name = "BB") :
    IsBareClass .standard (bareSource name) name 0 15 where
  comments := by rcases h with rfl | rfl <;> cbv
  constants := by rcases h with rfl | rfl <;> decide +kernel
  literals := by rcases h with rfl | rfl <;> cbv
  header := by rcases h with rfl | rfl <;> decide +kernel
  valid := by rcases h with rfl | rfl <;> decide
  fields := by rcases h with rfl | rfl <;> decide +kernel

/-- The texts `Aa` and `BB` have one fingerprint, and so have sources that differ in them only. -/
theorem not_transparent_standard : ¬ standard.Transparent
    [.convert (bareSource "Aa") none, .convert (bareSource "BB") none] := by
  intro transparent
  have first := (isBareClass_bareSource (.inl rfl)).fresh_eq (e := standard) (by decide +kernel) none
  have second := (isBareClass_bareSource (.inr rfl)).fresh_eq (e := standard) (by decide +kernel) none
  have session : standard.Transparent
      ([.convert (bareSource "Aa") none] ++ [.convert (bareSource "BB") none]) := transparent
  have before := (atConversions_concat.1 session).1
  have clear := (answersFresh_iff before _ none).1 (transparent [_] _ none [] rfl)
  have shared : sourceKey (bareSource "Aa") none = sourceKey (bareSource "BB") none := by
    decide +kernel
  have same := clear.sources (by decide +kernel) _ none (List.mem_singleton_self _) shared _ first
  rw [second] at same
  exact absurd same (by decide +kernel)

end InterfaceGen.Engine
