import InterfaceGen.Engine

/-!
# What is read of a source

A source is read by its signature: a class with its fields, an enum with its constants. One lemma
for each kind of signature says what the declaration is, and `readsAs_declaration` goes back from
what came of it to the signature.
-/

namespace InterfaceGen.Engine

open InterfaceGen.Source

variable {e : Engine} {code : String} {s : Signature}

/-- Without a signature there is no declaration. -/
theorem declaration_of_error {failure : Failure}
    (signed : signature (Constant.normalize code) e.types = .error failure) :
    e.declaration code = .error failure := by
  simp only [declaration, signed]
  rfl

/-- A class has the fields of the text without comments. -/
theorem declaration_of_class (signed : signature (Constant.normalize code) e.types = .ok s)
    (kind : s.kind = .classKind) :
    e.declaration code =
      .ok (.dataClass s.name s.supertype (FieldList.ofText (Comment.strip code) e.types)) := by
  simp only [declaration, signed, bind, Except.bind, kind]
  rfl

/-- An enum has the constants of the normalized text. -/
theorem declaration_of_enum (signed : signature (Constant.normalize code) e.types = .ok s)
    (kind : s.kind = .enumKind) :
    e.declaration code =
      (enumConstants (Constant.normalize code) s.name).map (.enumeration ⟨s.name, ·⟩) := by
  simp only [declaration, signed, bind, Except.bind, kind]
  rfl

/-- What can come of reading a source, by the kind of its signature. -/
inductive ReadsAs (e : Engine) (code : String) : Except Failure Declaration → Prop where
  | unsigned {failure : Failure}
    (signed : signature (Constant.normalize code) e.types = .error failure) :
    ReadsAs e code (.error failure)
  | dataClass {s : Signature} (signed : signature (Constant.normalize code) e.types = .ok s)
    (kind : s.kind = .classKind) :
    ReadsAs e code
      (.ok (.dataClass s.name s.supertype (FieldList.ofText (Comment.strip code) e.types)))
  | unread {s : Signature} {failure : Failure}
    (signed : signature (Constant.normalize code) e.types = .ok s) (kind : s.kind = .enumKind)
    (read : enumConstants (Constant.normalize code) s.name = .error failure) :
    ReadsAs e code (.error failure)
  | enumeration {s : Signature} {constants : List Constant}
    (signed : signature (Constant.normalize code) e.types = .ok s) (kind : s.kind = .enumKind)
    (read : enumConstants (Constant.normalize code) s.name = .ok constants) :
    ReadsAs e code (.ok (.enumeration ⟨s.name, constants⟩))

/-- Every source is read in one of these ways. -/
theorem readsAs_declaration (e : Engine) (code : String) : e.ReadsAs code (e.declaration code) := by
  cases signed : signature (Constant.normalize code) e.types with
  | error failure =>
    rw [declaration_of_error signed]
    exact .unsigned signed
  | ok s =>
    cases kind : s.kind with
    | classKind =>
      rw [declaration_of_class signed kind]
      exact .dataClass signed kind
    | enumKind =>
      rw [declaration_of_enum signed kind]
      cases read : enumConstants (Constant.normalize code) s.name with
      | error failure => exact .unread signed kind read
      | ok constants => exact .enumeration signed kind read

/-- What is read of a source is what its signature says. -/
theorem exists_signature {d : Declaration} (read : e.declaration code = .ok d) :
    ∃ s, signature (Constant.normalize code) e.types = .ok s ∧
      match s.kind with
      | .classKind =>
        d = .dataClass s.name s.supertype (FieldList.ofText (Comment.strip code) e.types)
      | .enumKind => ∃ constants, enumConstants (Constant.normalize code) s.name = .ok constants ∧
          d = .enumeration ⟨s.name, constants⟩ := by
  have reads := e.readsAs_declaration code
  rw [read] at reads
  cases reads with
  | dataClass signed kind => exact ⟨_, signed, by rw [kind]⟩
  | enumeration signed kind list =>
    refine ⟨_, signed, ?_⟩
    rw [kind]
    exact ⟨_, list, rfl⟩

/-- A class that is read has the name and the supertype of the signature, and the fields of the text
without comments. -/
theorem signature_of_declaration {name : String} {supertype : Option String} {fields : List Field}
    (read : e.declaration code = .ok (.dataClass name supertype fields)) :
    ∃ s, signature (Constant.normalize code) e.types = .ok s ∧ s.name = name ∧
      s.supertype = supertype ∧ fields = FieldList.ofText (Comment.strip code) e.types := by
  have reads := e.readsAs_declaration code
  rw [read] at reads
  cases reads with
  | dataClass signed kind => exact ⟨_, signed, rfl, rfl, rfl⟩

end InterfaceGen.Engine
