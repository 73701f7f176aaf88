import InterfaceGen.Proofs.Text.Matches
import InterfaceGen.Source.EnumBody

/-!
# The last header

Headers stand one behind the other, so of those with a property one is the last: `Header.IsLast`.
The signature of a text comes from the last header with a valid name, `signature_eq_ok_iff`, and
constants from the last header of an enum of a given name, `enumConstants_of_isLast`. For the name
in a signature both are one header: `exists_settles`.
-/

namespace InterfaceGen.Source

open InterfaceGen.Text

namespace Header

variable {text : String} {h h' : Header} {p q : Header → Prop}

/-- Of two headers the first ends before the second begins. -/
theorem pairwise_findAll (text : String) :
    (findAll text).Pairwise fun h h' => h.stop ≤ h'.start :=
  List.pairwise_map.2 (pattern.pairwise_occurrences _)

/-- A header is not empty. -/
theorem start_lt_stop (hm : h ∈ findAll text) : h.start < h.stop := by
  obtain ⟨o, ho, rfl⟩ := List.mem_map.1 hm
  exact Pattern.start_lt_stop_of_mem_occurrences ho

/-- The header is one of those with the property, and all others of them end before it begins. -/
structure IsLast (text : String) (p : Header → Prop) (h : Header) : Prop where
  found : h ∈ findAll text
  holds : p h
  last : ∀ h' ∈ findAll text, p h' → h' = h ∨ h'.stop ≤ h.start

namespace IsLast

/-- No two headers are each behind the other. -/
theorem unique (first : IsLast text p h) (second : IsLast text p h') : h' = h := by
  rcases first.last h' second.found second.holds with same | before
  · exact same
  rcases second.last h first.found first.holds with same | before'
  · exact same.symm
  · have long := start_lt_stop first.found
    have long' := start_lt_stop second.found
    omega

/-- The last of many headers is the last of any part of them that it belongs to. -/
theorem of_imp (last : IsLast text p h) (imp : ∀ h', q h' → p h') (holds : q h) :
    IsLast text q h where
  found := last.found
  holds := holds
  last := fun h' hm hq => last.last h' hm (imp h' hq)

end IsLast

theorem isLast_of_getLast? {accept : Header → Bool}
    (kept : ((findAll text).filter accept).getLast? = some h) :
    IsLast text (accept · = true) h := by
  obtain ⟨front, whole⟩ := List.getLast?_eq_some_iff.1 kept
  have mem : ∀ h', h' ∈ front ++ [h] ↔ h' ∈ findAll text ∧ accept h' = true := fun h' => by
    rw [← whole, List.mem_filter]
  have ordered := (pairwise_findAll text).filter accept
  rw [whole] at ordered
  have behind := (List.pairwise_append.1 ordered).2.2
  obtain ⟨found, holds⟩ := (mem h).1 (List.mem_append_right _ (List.mem_singleton_self h))
  refine ⟨found, holds, fun h' hm accepted => ?_⟩
  rcases List.mem_append.1 ((mem h').2 ⟨hm, accepted⟩) with earlier | same
  · exact .inr (behind h' earlier h (List.mem_singleton_self h))
  · exact .inl (List.mem_singleton.1 same)

/-- The last header with a property is told by its place alone. -/
theorem getLast?_filter_eq_some_iff {accept : Header → Bool} :
    ((findAll text).filter accept).getLast? = some h ↔ IsLast text (accept · = true) h := by
  refine ⟨isLast_of_getLast?, fun last => ?_⟩
  have nonempty : (findAll text).filter accept ≠ [] :=
    List.ne_nil_of_mem (List.mem_filter.2 ⟨last.found, last.holds⟩)
  have kept := List.getLast?_eq_some_getLast nonempty
  rw [kept, (isLast_of_getLast? kept).unique last]

end Header

/-! ## Signatures -/

section Signature

variable {text : String} {types : TypeSystem} {s : Signature}

/-- The signature is what the last header with a valid name says. -/
theorem signature_eq_ok_iff : signature text types = .ok s ↔
    ∃ h, Header.IsLast text (types.isDeclarationName ·.name = true) h ∧ h.signature = s := by
  simp only [← Header.getLast?_filter_eq_some_iff]
  rw [signature]
  cases ((Header.findAll text).filter fun h => types.isDeclarationName h.name).getLast? with
  | some h => simp
  | none =>
    dsimp only
    cases (Header.findAll text).getLast? <;> simp

/-- Which enums there are does not matter to the signature. -/
theorem signature_ne_noEnum (name : String) : signature text types ≠ .error (.noEnum name) := by
  rw [signature]
  split
  · nofun
  · split <;> nofun

end Signature

/-! ## Constants -/

/-- The constants between the braces behind a header. -/
def Header.constants (text : String) (h : Header) : Except Failure (List Constant) :=
  match EnumBody.find? text h.stop with
  | none => .error .openEnumBody
  | some body => .ok (EnumBody.constants body)

/-- The constants of a header never fail because an enum is missing. -/
theorem Header.constants_ne_noEnum (text : String) (h : Header) (name : String) :
    h.constants text ≠ .error (.noEnum name) := by
  rw [constants]
  split <;> nofun

/-- The constants are those behind the last header of an enum of the name. -/
theorem enumConstants_of_isLast {text name : String} {h : Header}
    (last : Header.IsLast text (fun h => h.kind = .enumKind ∧ h.name = name) h) :
    enumConstants text name = h.constants text := by
  have kept : ((Header.findAll text).filter fun h => h.kind = .enumKind && h.name = name).getLast? =
      some h :=
    Header.getLast?_filter_eq_some_iff.2 (by simpa using last)
  simp only [enumConstants, kept]
  rfl

/-! ## Signatures of enums -/

/-- The signature of an enum and its constants come from this header. -/
structure Header.Settles (h : Header) (text : String) (types : TypeSystem) (s : Signature) :
    Prop where
  /-- It is the last header with a valid name. -/
  valid : IsLast text (types.isDeclarationName ·.name = true) h
  signature : h.signature = s
  /-- It is the last header of an enum of the name in the signature. -/
  named : IsLast text (fun h => h.kind = .enumKind ∧ h.name = s.name) h
  constants : enumConstants text s.name = h.constants text

variable {text : String} {types : TypeSystem} {s : Signature}

/-- Each header with the name of a valid one is valid. So the last valid header is the last of its
name. -/
theorem exists_settles (signed : signature text types = .ok s) (kind : s.kind = .enumKind) :
    ∃ h : Header, h.Settles text types s := by
  obtain ⟨h, last, rfl⟩ := signature_eq_ok_iff.1 signed
  have named : Header.IsLast text (fun h' => h'.kind = .enumKind ∧ h'.name = h.name) h := by
    refine last.of_imp ?_ ⟨kind, rfl⟩
    rintro h' ⟨-, same⟩
    rw [same]
    exact last.holds
  exact ⟨h, last, rfl, named, enumConstants_of_isLast named⟩

namespace Header.Settles

variable {h : Header}

/-- The header that settles a text gives its signature. -/
theorem signature_eq (settles : h.Settles text types s) : Source.signature text types = .ok s :=
  signature_eq_ok_iff.2 ⟨h, settles.valid, settles.signature⟩

theorem kind_eq (settles : h.Settles text types s) : s.kind = .enumKind := by
  rw [← settles.signature]
  exact settles.named.holds.1

end Header.Settles

end InterfaceGen.Source
