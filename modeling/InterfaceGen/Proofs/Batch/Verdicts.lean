import InterfaceGen.Proofs.Batch.Runs

/-!
# Verdicts

What becomes of a source depends on what is read from it, on the mode and on what the engine
remembers, not on where an output is put: `verdict`. Of several sources the engine remembers what came
before, in their order: `getElem?_verdicts`. In a fast run it remembers nothing: `verdicts_fast`.
-/

namespace InterfaceGen

namespace Engine

/-- What an answer of the engine means: a text to be written, or why there is none. -/
def judged : Option String → Except String String
  | none => .error "No content: nothing to convert"
  | some text =>
    if isSentinel (some text) then .error ("No content: " ++ sentinelReason text) else .ok text

/-- A text is to be written exactly if it is the answer and no sentinel. -/
theorem judged_eq_ok_iff {answer : Option String} {text : String} :
    judged answer = .ok text ↔ answer = some text ∧ isSentinel (some text) = false := by
  cases answer with
  | none => simp [judged]
  | some other =>
    unfold judged
    dsimp only
    constructor
    · intro h
      split at h
      · cases h
      · next content =>
        cases h
        exact ⟨rfl, Bool.eq_false_iff.2 content⟩
    · rintro ⟨same, content⟩
      cases same
      exact if_neg (Bool.eq_false_iff.1 content)

/-- What is to be written for a source from which this was read, or why there is nothing. -/
def verdict (e : Engine) (mode : Mode) (f : SourceFile) :
    Except ReadError String → StateM Caches (Except String String)
  | .error error => return .error error.message
  | .ok code => do
    if e.isShort code then
      return .error "Too small"
    return judged (← e.run mode code f.location)

/-- The verdicts on sources, one after the other. -/
def verdicts (e : Engine) (mode : Mode) (t : FileTree) (files : List SourceFile) :
    StateM Caches (List (Except String String)) :=
  files.mapM fun f => e.verdict mode f (t.readText f.fullPath)

/-- The source is read, is long enough, and the engine makes this text of it, no sentinel. -/
def Gives (e : Engine) (mode : Mode) (t : FileTree) (f : SourceFile) (caches : Caches)
    (text : String) : Prop :=
  ∃ code, t.readText f.fullPath = .ok code ∧ e.isShort code = false ∧
    (e.run mode code f.location caches).1 = some text ∧ isSentinel (some text) = false

variable {e : Engine} {mode : Mode} {t : FileTree} {f : SourceFile} {files : List SourceFile}
  {caches middle after : Caches} {code text : String}

/-! ## One source -/

/-- A short source is refused, and nothing is remembered. -/
theorem verdict_of_isShort (small : e.isShort code = true) :
    e.verdict mode f (.ok code) caches = (.error "Too small", caches) := by
  unfold verdict
  dsimp only
  rw [if_pos small]
  rfl

/-- On any other source the verdict is what the engine's answer means. -/
theorem verdict_of_run {answer : Option String} (large : e.isShort code = false)
    (ran : e.run mode code f.location caches = (answer, after)) :
    e.verdict mode f (.ok code) caches = (judged answer, after) := by
  unfold verdict
  dsimp only
  rw [if_neg (Bool.eq_false_iff.1 large)]
  exact bind_eq ran

/-- A text is to be written exactly where the engine makes one that is no sentinel. -/
theorem verdict_eq_ok_iff :
    (e.verdict mode f (t.readText f.fullPath) caches).1 = .ok text ↔
      e.Gives mode t f caches text := by
  unfold Gives
  cases t.readText f.fullPath with
  | error error =>
    constructor
    · intro h
      cases h
    · rintro ⟨code, read, -⟩
      cases read
  | ok code =>
    cases large : e.isShort code with
    | true => simp [verdict_of_isShort large, large]
    | false =>
      cases ran : e.run mode code f.location caches with
      | mk answer after =>
        rw [verdict_of_run large ran, judged_eq_ok_iff]
        simp [large, ran]

/-! ## Several sources -/

@[simp] theorem verdicts_nil : e.verdicts mode t [] caches = ([], caches) := rfl

/-- The first verdict leaves the caches in which the others are found. -/
theorem verdicts_cons (f : SourceFile) (files : List SourceFile) (caches : Caches) :
    e.verdicts mode t (f :: files) caches =
      let first := e.verdict mode f (t.readText f.fullPath) caches
      let later := e.verdicts mode t files first.2
      (first.1 :: later.1, later.2) := by
  unfold verdicts
  rw [List.mapM_cons]
  rfl

/-- There is one verdict for each source. -/
theorem length_verdicts (files : List SourceFile) (caches : Caches) :
    (e.verdicts mode t files caches).1.length = files.length := by
  induction files generalizing caches with
  | nil => rfl
  | cons f files ih =>
    rw [verdicts_cons, List.length_cons]
    exact congrArg (· + 1) (ih _)

/-- The verdict on a source, with what the engine remembers of those before. -/
theorem getElem?_verdicts {i : Nat} (hi : files[i]? = some f) :
    (e.verdicts mode t files caches).1[i]? =
      some (e.verdict mode f (t.readText f.fullPath)
        (e.verdicts mode t (files.take i) caches).2).1 := by
  induction files generalizing caches i with
  | nil => cases hi
  | cons g files ih =>
    rw [verdicts_cons]
    cases i with
    | zero =>
      obtain rfl := Option.some.inj hi
      rfl
    | succ i =>
      rw [List.take_succ_cons, verdicts_cons]
      exact ih hi

/-! ## Fast runs -/

/-- The verdict in a fast run. -/
def fastVerdict (e : Engine) : Except ReadError String → Except String String
  | .error error => .error error.message
  | .ok code => if e.isShort code then .error "Too small" else judged (some (e.fastText code))

/-- A fast verdict depends on what is read alone, and the caches stay as they are. -/
theorem verdict_fast (content : Except ReadError String) :
    e.verdict .fast f content caches = (e.fastVerdict content, caches) := by
  cases content with
  | error error => rfl
  | ok code =>
    unfold fastVerdict
    dsimp only
    cases large : e.isShort code with
    | true => exact verdict_of_isShort large
    | false =>
      have ran : e.run .fast code f.location caches = (some (e.fastText code), caches) :=
        bind_eq (e.convertFast_none code caches)
      exact verdict_of_run large ran

/-- So it is for all sources of a fast run. -/
theorem verdicts_fast : e.verdicts .fast t files caches =
    (files.map fun f => e.fastVerdict (t.readText f.fullPath), caches) := by
  induction files with
  | nil => rfl
  | cons f files ih =>
    rw [verdicts_cons]
    dsimp only
    rw [verdict_fast, ih, List.map_cons]

end Engine

end InterfaceGen
