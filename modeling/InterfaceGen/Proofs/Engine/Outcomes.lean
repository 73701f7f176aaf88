import InterfaceGen.Proofs.Declaration.Sentinel
import InterfaceGen.Proofs.Engine.Comments
import InterfaceGen.Proofs.Engine.Reading
import InterfaceGen.Proofs.Source.Characters

/-!
# Outcomes as texts

The fast conversion flattens what came of a source to one text, `convertFast_text`. All reasons that
stand in its sentinels can be read back, because they end with words or with class names:
`isReason_of_fastReason?`. Everything else begins with a letter.
-/

namespace InterfaceGen

open InterfaceGen.Text InterfaceGen.Source

/-! ## Reasons -/

namespace Source

/-- The name in a failure is a class name without a line feed. -/
def Failure.IsNamed : Failure → Prop
  | .noEnum name | .invalidName _ name => isHeadedBy Char.isUpper isNameChar name.toList = true
  | .noDeclaration | .openEnumBody => True

end Source

namespace Engine

variable {e : Engine} {code : String}

/-- A conversion has no reason exactly if it is converted. -/
theorem status_eq_converted_iff (outcome : Conversion) :
    outcome.status = "converted" ↔ outcome.reason? = none := by
  cases outcome <;> simp [Conversion.status, Conversion.reason?]

/-- The imports have nothing to do with why there is no declaration. -/
theorem reason?_conversion (e : Engine) (code : String) (imports : List Import) :
    (e.conversion code imports).reason? = (e.conversion code []).reason? := by
  unfold conversion
  by_cases small : e.isTooSmall code = true
  · rw [if_pos small, if_pos small]
  · rw [if_neg small, if_neg small]
    cases e.declaration code <;> rfl

/-- What is remembered has nothing to do with the reason either. -/
theorem reason?_explain (e : Engine) (code : String) (location : Option String) (withImports : Bool)
    (caches : Caches) :
    (e.explain code location withImports caches).1.reason? = (e.conversion code []).reason? := by
  rw [explain_eq, reason?_conversion]

/-- The reason for which the fast conversion writes no declaration. -/
def fastReason? (e : Engine) (code : String) : Option String :=
  if e.isTooSmall code then some "Skipped: Input too small"
  else if isSkipped code then some "Skipped: Not suitable for interface conversion"
  else (e.conversion code []).reason?

/-- The fast conversion has a reason exactly if the source is too small, passed over or not
converted. -/
theorem isSome_fastReason?_iff (e : Engine) (code : String) (location : Option String)
    (withImports : Bool) (caches : Caches) :
    (e.fastReason? code).isSome = true ↔
      e.isTooSmall code = true ∨ isSkipped code = true ∨
        (e.explain code location withImports caches).1.status ≠ "converted" := by
  rw [Ne, status_eq_converted_iff, reason?_explain, fastReason?]
  by_cases small : e.isTooSmall code = true
  · simp [small]
  · by_cases skipped : isSkipped code = true
    · simp [small, skipped]
    · simp [small, skipped, Option.isSome_iff_ne_none]

/-- The text is the sentinel of the reason, or else what was written. -/
theorem convertFast_text (e : Engine) (code : String) (location : Option String) (caches : Caches) :
    (e.convertFast code location caches).1 =
      match e.fastReason? code with
      | some reason => sentinel reason
      | none => fastOutput (e.explain code location location.isSome caches).1 := by
  unfold fastReason?
  cases small : e.isTooSmall code with
  | true =>
    unfold convertFast
    rw [if_pos small]
    rfl
  | false =>
    rw [convertFast_answer small, if_neg Bool.false_ne_true,
      ← reason?_explain e code location location.isSome caches]
    by_cases skipped : isSkipped code = true
    · rw [if_pos skipped, if_pos skipped]
      rfl
    · rw [if_neg skipped, if_neg skipped]
      cases (e.explain code location location.isSome caches).1 <;> rfl

/-! ## Texts of declarations -/

/-- No declaration is taken for a sentinel. -/
theorem isSentinel_write (imports : List Import) (d : Declaration) :
    isSentinel (some (write imports d)) = false := by
  rcases head?_write imports d with first | first
  · exact isSentinel_of_head first (by decide) (by decide)
  · exact isSentinel_of_head first (by decide) (by decide)

/-- Everything that is converted was written. -/
theorem exists_write_of_explain {location : Option String} {withImports : Bool} {caches : Caches}
    {output : String} {dependencies : List String}
    (h : (e.explain code location withImports caches).1 = .converted output dependencies) :
    ∃ imports d, output = write imports d := by
  rw [explain_eq, conversion] at h
  split at h
  · cases h
  · split at h
    · cases h
    · next d read =>
      cases h
      exact ⟨_, d, rfl⟩

/-- Without a reason the text is the output of `explain`. -/
theorem convertFast_of_reason_none {location : Option String} {caches : Caches}
    (h : e.fastReason? code = none) :
    ∃ dependencies, (e.explain code location location.isSome caches).1 =
      .converted (e.convertFast code location caches).1 dependencies := by
  have text := e.convertFast_text code location caches
  have converted := e.isSome_fastReason?_iff code location location.isSome caches
  rw [h] at text converted
  rw [text]
  cases outcome : (e.explain code location location.isSome caches).1 with
  | converted output dependencies => exact ⟨dependencies, rfl⟩
  | tooSmall | unsupported =>
    rw [outcome] at converted
    have failed := converted.2 (.inr (.inr (by simp [Conversion.status])))
    cases failed

/-- A run takes the text for a sentinel exactly if there is a reason. -/
theorem isSentinel_convertFast (e : Engine) (code : String) (location : Option String)
    (caches : Caches) :
    isSentinel (some (e.convertFast code location caches).1) = (e.fastReason? code).isSome := by
  cases reason : e.fastReason? code with
  | some reason' =>
    rw [convertFast_text, reason]
    exact isSentinel_sentinel reason'
  | none =>
    obtain ⟨dependencies, outcome⟩ := convertFast_of_reason_none reason
    obtain ⟨imports, d, written⟩ := exists_write_of_explain outcome
    rw [written]
    exact isSentinel_write imports d

end Engine

end InterfaceGen
