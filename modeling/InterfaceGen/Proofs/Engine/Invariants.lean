import InterfaceGen.Proofs.Engine.Session

/-!
# What holds of the memos throughout a session

Each law of a session follows from what one call does: entries stay, the memo of the conversions
gains one only where `convert` looked in vain and wrote something, and the counts tell how often
each memo was asked. `session_laws` puts them together for every session that begins with nothing
remembered.
-/

namespace InterfaceGen.Engine

/-- Does the call look a key up in the memo of the conversions? -/
def looksUp (e : Engine) : Call → Bool
  | .convert code _ => !e.isTooSmall code
  | _ => false

/-- Does the call look up a key that the memo does not know? -/
def missesIn (e : Engine) (memo : Memo String) : Call → Bool
  | .convert code location => !e.isTooSmall code && !memo.contains (sourceKey code location)
  | _ => false

/-- Was nothing converted? -/
def Answer.isUnconverted : Answer → Bool
  | .converted none => true
  | _ => false

/-- Did `convert` look in vain? -/
def Event.missed (e : Engine) (event : Event) : Bool :=
  e.missesIn event.before.interfaces event.call

/-- Did the call run the resolver? -/
def Event.resolved (e : Engine) (event : Event) : Bool :=
  (e.resolved? event.before event.call).isSome

/-- The laws of a session that begins with nothing remembered. -/
structure SessionLaws (e : Engine) (calls : List Call) : Prop where
  /-- What `convert` once answered with a text, it always answers with that text. -/
  repeated : (e.trace .empty calls).Pairwise fun first later =>
    ∀ code location output, first.call = .convert code location →
      later.call = .convert code location → first.answer = .converted (some output) →
      later.answer = .converted (some output)
  /-- No call removes or changes an entry. -/
  kept : ∀ event ∈ e.trace .empty calls,
    event.before.interfaces.Keeps event.after.interfaces ∧
      event.before.imports.Keeps event.after.imports
  /-- Conversions are remembered by `convert` only, where it looked in vain and wrote something. -/
  gained : ∀ event ∈ e.trace .empty calls,
    event.after.interfaces.entries = event.before.interfaces.entries ∨
      ∃ code location output, event.call = .convert code location ∧ event.missed e = true ∧
        event.answer = .converted (some output) ∧
        event.after.interfaces.entries =
          (sourceKey code location, output) :: event.before.interfaces.entries
  interfaceLookups :
    (e.finish .empty calls).interfaces.hits + (e.finish .empty calls).interfaces.misses =
      calls.countP e.looksUp
  interfaceSize :
    (e.finish .empty calls).interfaces.size +
        (e.trace .empty calls).countP (fun event => event.missed e && event.answer.isUnconverted) =
      (e.finish .empty calls).interfaces.misses
  importsSize :
    (e.finish .empty calls).imports.size = (e.finish .empty calls).imports.misses
  importsLookups :
    (e.finish .empty calls).imports.hits + (e.finish .empty calls).imports.misses =
      (e.trace .empty calls).countP (·.resolved e)

/-! ## One call -/

namespace Reads

variable {e : Engine} {call : Call} {memo after : Memo String} {answer : Answer}

/-- No call removes or changes a conversion that is remembered. -/
theorem keeps (h : e.Reads call memo answer after) : memo.Keeps after := by
  cases h with
  | other | small => exact .refl _
  | hit => exact .hit _
  | failed => exact .miss _
  | stored output large missed => exact (Memo.Keeps.miss _).trans (.insert output missed)

/-- An entry is added by `convert` alone, for the key that it missed, with the text that it
answers. -/
theorem gains (h : e.Reads call memo answer after) :
    after.entries = memo.entries ∨ ∃ code location output, call = .convert code location ∧
      e.missesIn memo call = true ∧ answer = .converted (some output) ∧
      after.entries = (sourceKey code location, output) :: memo.entries := by
  cases h with
  | @stored code location _ output large missed =>
    refine .inr ⟨code, location, output, rfl, ?_, rfl, rfl⟩
    rw [missesIn, large, Memo.contains, missed]
    rfl
  | _ => exact .inl rfl

/-- No other call looks anything up. -/
theorem silent_of_other (memo : Memo String) (h : ∀ code location, call ≠ .convert code location) :
    e.looksUp call = false ∧ e.missesIn memo call = false := by
  cases call with
  | convert code location => exact absurd rfl (h code location)
  | _ => exact ⟨rfl, rfl⟩

/-- A hit or a miss is counted for each look-up. -/
theorem lookups (h : e.Reads call memo answer after) :
    after.hits + after.misses = memo.hits + memo.misses + if e.looksUp call then 1 else 0 := by
  cases h with
  | other h =>
    rw [(silent_of_other memo h).1]
    rfl
  | small small =>
    rw [looksUp, small]
    rfl
  | hit large =>
    rw [looksUp, large]
    show memo.hits + 1 + memo.misses = memo.hits + memo.misses + 1
    omega
  | failed large | stored _ large =>
    rw [looksUp, large]
    show memo.hits + (memo.misses + 1) = memo.hits + memo.misses + 1
    omega

/-- A look-up in vain adds an entry unless nothing was converted. -/
theorem sizes (h : e.Reads call memo answer after) :
    after.misses + memo.size = memo.misses + after.size +
      if e.missesIn memo call && answer.isUnconverted then 1 else 0 := by
  cases h with
  | other h =>
    rw [(silent_of_other memo h).2]
    rfl
  | small small =>
    rw [missesIn, small]
    rfl
  | hit large found =>
    rw [missesIn, Memo.contains, found, Bool.and_comm]
    rfl
  | failed large missed =>
    rw [missesIn, large, Memo.contains, missed]
    show memo.misses + 1 + memo.size = memo.misses + memo.size + 1
    omega
  | stored output large missed =>
    rw [missesIn, large, Memo.contains, missed]
    show memo.misses + 1 + memo.size = memo.misses + (memo.size + 1) + 0
    omega

/-- What a conversion answered is remembered afterwards. -/
theorem known {code : String} {location : Option String} {output : String}
    (h : e.Reads (.convert code location) memo (.converted (some output)) after) :
    e.isTooSmall code = false ∧ after.peek? (sourceKey code location) = some output := by
  cases h with
  | other h => exact absurd rfl (h code location)
  | hit large found => exact ⟨large, found⟩
  | stored output large missed => exact ⟨large, Memo.peek?_insert_self _ _ _⟩

end Reads

namespace Resolves

variable {e : Engine} {request : Option (List String × Option String)}
  {memo after : Memo (List Import)}

/-- Nor does it remove or change imports. -/
theorem keeps (h : e.Resolves request memo after) : memo.Keeps after := by
  cases h with
  | silent => exact .refl _
  | hit => exact .hit _
  | stored missed => exact (Memo.Keeps.miss _).trans (.insert _ missed)

/-- A hit or a miss is counted for each request. -/
theorem lookups (h : e.Resolves request memo after) :
    after.hits + after.misses = memo.hits + memo.misses + if request.isSome then 1 else 0 := by
  cases h with
  | silent => rfl
  | hit =>
    show memo.hits + 1 + memo.misses = memo.hits + memo.misses + 1
    omega
  | stored =>
    show memo.hits + (memo.misses + 1) = memo.hits + memo.misses + 1
    omega

/-- Each look-up in vain adds an entry. -/
theorem sizes (h : e.Resolves request memo after) :
    after.misses + memo.size = memo.misses + after.size := by
  cases h with
  | silent | hit => rfl
  | stored =>
    show memo.misses + 1 + memo.size = memo.misses + (memo.size + 1)
    omega

end Resolves

variable {e : Engine} {caches : Caches}

/-- A conversion that is remembered is answered from the memo. -/
theorem answer_of_known {code : String} {location : Option String} {output : String}
    (large : e.isTooSmall code = false)
    (found : caches.interfaces.peek? (sourceKey code location) = some output) :
    (e.event caches (.convert code location)).answer = .converted (some output) := by
  show Answer.converted (e.convert code location caches).1 = _
  rw [convert_hit large found]

/-! ## Whole sessions -/

/-- Counts that move with the events of one kind: `left` runs ahead of `right` by one at each. -/
theorem count_trace (left right : Caches → Nat) (counted : Event → Bool)
    (step : ∀ caches call, left (e.event caches call).after + right caches =
      left caches + right (e.event caches call).after +
        if counted (e.event caches call) then 1 else 0) :
    ∀ calls caches, left (e.finish caches calls) + right caches =
      left caches + right (e.finish caches calls) + (e.trace caches calls).countP counted := by
  intro calls
  induction calls with
  | nil => exact fun _ => rfl
  | cons call calls ih =>
    intro caches
    have first := step caches call
    have rest := ih (e.event caches call).after
    show left (e.finish (e.event caches call).after calls) + right caches =
      left caches + right (e.finish (e.event caches call).after calls) +
        (e.event caches call :: e.trace (e.event caches call).after calls).countP counted
    rw [List.countP_cons]
    omega

/-- A law of each single call holds throughout a session. -/
theorem forall_trace {law : Event → Prop} (h : ∀ caches call, law (e.event caches call)) :
    ∀ calls caches, ∀ event ∈ e.trace caches calls, law event := by
  intro calls
  induction calls with
  | nil => exact fun _ _ member => nomatch member
  | cons call calls ih =>
    intro caches event member
    rcases List.mem_cons.1 member with rfl | member
    · exact h caches call
    · exact ih _ event member

/-- It is answered so throughout a session. -/
theorem answer_of_known_trace {code : String} {location : Option String} {output : String}
    (large : e.isTooSmall code = false) : ∀ calls caches,
    caches.interfaces.peek? (sourceKey code location) = some output →
      ∀ event ∈ e.trace caches calls, event.call = .convert code location →
        event.answer = .converted (some output) := by
  intro calls
  induction calls with
  | nil => exact fun _ _ _ member => nomatch member
  | cons call calls ih =>
    intro caches found event member same
    rcases List.mem_cons.1 member with rfl | member
    · obtain rfl : call = .convert code location := same
      exact answer_of_known large found
    · have kept := (e.perform_reads caches call).keeps _ _ found
      exact ih _ kept event member same

/-- What `convert` once answered with a text, it answers with that text later on. -/
theorem repeated_trace : ∀ calls caches,
    (e.trace caches calls).Pairwise fun first later =>
      ∀ code location output, first.call = .convert code location →
        later.call = .convert code location → first.answer = .converted (some output) →
        later.answer = .converted (some output) := by
  intro calls
  induction calls with
  | nil => exact fun _ => .nil
  | cons call calls ih =>
    intro caches
    refine List.pairwise_cons.2 ⟨?_, ih _⟩
    intro later member code location output same again answered
    obtain rfl : call = .convert code location := same
    have read := e.perform_reads caches (.convert code location)
    rw [answered] at read
    obtain ⟨large, found⟩ := read.known
    exact answer_of_known_trace large calls _ found later member again

/-- A session consists of its calls, in their order. -/
theorem map_call_trace : ∀ calls caches, (e.trace caches calls).map (·.call) = calls := by
  intro calls
  induction calls with
  | nil => exact fun _ => rfl
  | cons call calls ih =>
    intro caches
    exact congrArg (call :: ·) (ih _)

/-- Hits and misses together are the calls that look something up. -/
theorem interfaceLookups_trace (calls : List Call) :
    (e.finish .empty calls).interfaces.hits + (e.finish .empty calls).interfaces.misses =
      calls.countP e.looksUp := by
  have counts := count_trace (e := e) (fun caches => caches.interfaces.hits + caches.interfaces.misses)
    (fun _ => 0) (fun event => e.looksUp event.call)
    (fun caches call => (e.perform_reads caches call).lookups) calls .empty
  have all : (e.trace .empty calls).countP (fun event => e.looksUp event.call) =
      calls.countP e.looksUp := by
    conv => rhs; rw [← e.map_call_trace calls .empty, List.countP_map]
    rfl
  rw [all] at counts
  exact counts.trans (Nat.zero_add _)

/-- The laws hold of every session, whatever keys the calls share. -/
theorem session_laws (e : Engine) (calls : List Call) : SessionLaws e calls where
  repeated := repeated_trace calls .empty
  kept := forall_trace (fun caches call =>
    ⟨(e.perform_reads caches call).keeps, (e.perform_resolves caches call).keeps⟩) calls .empty
  gained := forall_trace (fun caches call => (e.perform_reads caches call).gains) calls .empty
  interfaceLookups := interfaceLookups_trace calls
  interfaceSize := by
    have counts := count_trace (fun caches => caches.interfaces.misses)
      (fun caches => caches.interfaces.size)
      (fun event => event.missed e && event.answer.isUnconverted)
      (fun caches call => (e.perform_reads caches call).sizes) calls .empty
    have start : Caches.empty.interfaces.size = 0 ∧ Caches.empty.interfaces.misses = 0 := ⟨rfl, rfl⟩
    omega
  importsSize := by
    have counts := count_trace (fun caches => caches.imports.misses)
      (fun caches => caches.imports.size) (fun _ => false)
      (fun caches call => (e.perform_resolves caches call).sizes) calls .empty
    rw [List.countP_false] at counts
    exact (counts.trans (Nat.zero_add _)).symm
  importsLookups := by
    have counts := count_trace (fun caches => caches.imports.hits + caches.imports.misses)
      (fun _ => 0) (·.resolved e) (fun caches call =>
        (e.perform_resolves caches call).lookups) calls .empty
    exact counts.trans (Nat.zero_add _)

end InterfaceGen.Engine
