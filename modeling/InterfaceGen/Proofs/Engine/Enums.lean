import InterfaceGen.Proofs.Engine.Reading
import InterfaceGen.Proofs.Engine.Session
import InterfaceGen.Proofs.Source.LastHeader
import InterfaceGen.Proofs.Source.Offsets

/-!
# Outcomes of enums

The signature of an enum and its constants come from one header, so an engine never misses the enum
that it has a signature of. It writes the enum, unless the braces behind this header are missing or
not closed: `enumLaws`.
-/

namespace InterfaceGen.Engine

open InterfaceGen.Source

/-- What comes of an enum with this header. -/
inductive EnumOutcome (text : String) (h : Header) : Conversion → Prop where
  | written {body : String} {before inner after : List Char}
    (framed : EnumBody.Framed text h.stop body before inner after) :
    EnumOutcome text h (.converted (Enumeration.render ⟨h.name, EnumBody.constants body⟩) [])
  | unread (opened : EnumBody.IsOpen text h.stop) : EnumOutcome text h (.unsupported .openEnumBody)

/-- What an engine does with the enums among its sources. -/
structure EnumLaws (e : Engine) : Prop where
  /-- The signature of an enum and its constants come from one header. -/
  settled : ∀ text s, signature text e.types = .ok s → s.kind = .enumKind →
    ∃ h : Header, h.Settles text e.types s
  /-- No source is without the enum of its signature. -/
  present : ∀ code location withImports caches name,
    (e.explain code location withImports caches).1 ≠ .unsupported (.noEnum name)
  /-- An enum is written, or else its braces are missing or not closed. -/
  outcome : ∀ code s h, e.isTooSmall code = false →
    Header.Settles h (Constant.normalize code) e.types s →
      ∀ location withImports caches outcome after,
        e.explain code location withImports caches = (outcome, after) ↔
          after = caches ∧ EnumOutcome (Constant.normalize code) h outcome

/-- The conversion of an enum of which these constants are read. -/
def enumConversion (name : String) : Except Failure (List Constant) → Conversion
  | .ok constants => .converted (Enumeration.render ⟨name, constants⟩) []
  | .error failure => .unsupported failure

/-- The outcomes are those that reading the constants of the header leads to. -/
theorem enumOutcome_iff {text : String} {h : Header} {outcome : Conversion} :
    EnumOutcome text h outcome ↔ enumConversion h.name (h.constants text) = outcome := by
  rw [Header.constants]
  constructor
  · intro came
    cases came with
    | written framed =>
      rw [EnumBody.find?_eq_some_iff.2 ⟨_, _, _, framed⟩]
      rfl
    | unread opened =>
      rw [EnumBody.find?_eq_none_iff.2 opened]
      rfl
  · rintro rfl
    cases found : EnumBody.find? text h.stop with
    | none => exact .unread (EnumBody.find?_eq_none_iff.1 found)
    | some body =>
      obtain ⟨before, inner, after, framed⟩ := EnumBody.find?_eq_some_iff.1 found
      exact .written framed

variable {e : Engine} {code : String} {s : Signature}

/-- Imports are neither looked up nor written for an enum. -/
theorem explain_of_enum (large : e.isTooSmall code = false)
    (signed : signature (Constant.normalize code) e.types = .ok s) (kind : s.kind = .enumKind)
    (location : Option String) (withImports : Bool) (caches : Caches) :
    e.explain code location withImports caches =
      (enumConversion s.name (enumConstants (Constant.normalize code) s.name), caches) := by
  rw [explain_eq, request?, conversion, large, declaration_of_enum signed kind]
  cases enumConstants (Constant.normalize code) s.name with
  | error failure => rfl
  | ok constants => cases withImports <;> rfl

/-- A declaration never fails because the enum of its signature is missing. -/
theorem declaration_ne_noEnum (name : String) : e.declaration code ≠ .error (.noEnum name) := by
  intro missed
  have reads := e.readsAs_declaration code
  rw [missed] at reads
  cases reads with
  | unsigned signed => exact signature_ne_noEnum name signed
  | unread signed kind read =>
    obtain ⟨h, settles⟩ := exists_settles signed kind
    rw [settles.constants] at read
    exact h.constants_ne_noEnum _ name read

/-- The laws hold of every engine: an enum is written from the header of its signature, or its
braces are missing or not closed. -/
theorem enumLaws (e : Engine) : EnumLaws e where
  settled := fun text s => exists_settles
  present := by
    intro code location withImports caches name missed
    rw [explain_eq, conversion] at missed
    split at missed
    · cases missed
    · split at missed
      · next failure read =>
        cases missed
        exact declaration_ne_noEnum name read
      · cases missed
  outcome := by
    intro code s h large settles location withImports caches outcome after
    have named : h.name = s.name := settles.named.holds.2
    rw [explain_of_enum large settles.signature_eq settles.kind_eq, settles.constants, ← named,
      enumOutcome_iff, Prod.mk.injEq]
    exact ⟨fun ⟨same, kept⟩ => ⟨kept.symm, same⟩, fun ⟨kept, same⟩ => ⟨same, kept.symm⟩⟩

/-- Two enums of one name with a class between them, a brace in a literal, and at the end a header
with a reserved name. -/
def revisedSource : String :=
  "enum Level \x7b OLD \x7d class Helper \x7b \x7d enum Level \x7b LOW(\"\x7d\"), HIGH \x7d " ++
    "class Static \x7b \x7d"

/-- The second enum is written. -/
theorem enumLaws_revised :
    ∃ h : Header, h.Settles revisedSource .standard ⟨.enumKind, "Level", none⟩ ∧
      (h.start, h.stop) = (36, 46) ∧ standard.explain revisedSource none true .empty =
        (.converted "export enum Level \x7b\n  LOW = \"\x7d\",\n  HIGH = \"high\"\n\x7d\n" [],
          .empty) := by
  have plain : Constant.normalize revisedSource = revisedSource := by decide +kernel
  have last : Header.IsLast revisedSource (TypeSystem.standard.isDeclarationName ·.name = true)
      ⟨36, 46, .enumKind, "Level", none⟩ := Header.isLast_of_getLast? (by decide +kernel)
  have signed : signature revisedSource .standard = .ok ⟨.enumKind, "Level", none⟩ :=
    signature_eq_ok_iff.2 ⟨_, last, rfl⟩
  obtain ⟨h, settles⟩ := (enumLaws standard).settled _ _ signed rfl
  obtain rfl := last.unique settles.valid
  refine ⟨_, settles, rfl, ?_⟩
  have framed : EnumBody.Framed revisedSource 46 " LOW(\"\x7d\"), HIGH " [' ']
      " LOW(\" \"), HIGH ".toList " class Static \x7b \x7d".toList :=
    ⟨by decide +kernel, by decide, (closes_iff (by decide)).2 (by decide), by decide,
      by decide +kernel⟩
  have written := EnumOutcome.written (h := ⟨36, 46, .enumKind, "Level", none⟩) framed
  rw [← plain] at settles written
  rw [((enumLaws standard).outcome _ _ _ (by decide +kernel) settles none true .empty _ _).2
    ⟨rfl, written⟩]
  congr 2

/-- A brace in a literal closes nothing. -/
example : enumConstants "enum Level \x7b LOW(\"\x7d\"), HIGH" "Level" = .error .openEnumBody := by
  decide +kernel

end InterfaceGen.Engine
