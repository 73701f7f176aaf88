import InterfaceGen.Proofs.Types.Layers

/-!
# Names that stand in a type text

Whatever a type text looks like, a walk through it notes nothing but names that stand in it as whole
words: `notesWords`. So do the walks through the two texts of each field (`exists_noted_fields`), and
a declaration has each of its dependencies once.
-/

namespace InterfaceGen.Types

open InterfaceGen.Text TypeSystem

variable {types : TypeSystem}

/-- A walk through the text notes names of whole words in it, always the same ones. -/
def NotesWords (types : TypeSystem) (text : List Char) : Prop :=
  ∃ names : List String, (∀ n ∈ names, IsPiece n.toList text) ∧
    ∀ known, types.collectPlain text known = names.foldl types.note known

/-- A walk through pieces of a text notes words of the text if each of its walks notes words. -/
theorem notesWords_each {texts : List (List Char)} {text : List Char}
    (h : ∀ t ∈ texts, IsPiece t text ∧ NotesWords types t) :
    ∃ names : List String, (∀ n ∈ names, IsPiece n.toList text) ∧
      ∀ known, types.collectEach texts known = names.foldl types.note known := by
  induction texts with
  | nil => exact ⟨[], List.forall_mem_nil _, fun _ => rfl⟩
  | cons t texts ih =>
    obtain ⟨piece, names, inside, noted⟩ := h t (by simp)
    obtain ⟨names', inside', noted'⟩ := ih fun u hu => h u (List.mem_cons_of_mem _ hu)
    refine ⟨names ++ names', ?_, fun known => ?_⟩
    · intro n hn
      rcases List.mem_append.1 hn with hn | hn
      · exact (inside n hn).trans piece
      · exact inside' n hn
    · rw [List.foldl_append, ← noted, ← noted']
      rfl

/-- Every walk notes whole words of its text, by induction on the parts. -/
theorem notesWords (types : TypeSystem) (text : List Char) : NotesWords types text := by
  induction text using IsPart.induction with
  | step text ih =>
    have each : ∀ part ∈ (types.visit text).parts, IsPiece part text ∧ NotesWords types part :=
      fun part member => ⟨(isPart_of_mem_visit member).piece, ih part (isPart_of_mem_visit member)⟩
    obtain ⟨names, inside, noted⟩ := notesWords_each each
    refine ⟨(types.visit text).noted.toList ++ names, fun n hn => ?_, fun known => ?_⟩
    · rcases List.mem_append.1 hn with here | later
      · exact isPiece_of_noted (Option.mem_toList.1 here)
      · exact inside n later
    · rw [collectPlain_visit, noted, List.foldl_append, noteVisited_eq]

/-- The name stands as a whole word in the type text, wildcards replaced. -/
def Mentions (type name : String) : Prop :=
  IsPiece name.toList (Wildcard.stripChars type.toList)

/-- The walks through the two texts of each field note names of whole words in these texts. -/
theorem exists_noted_fields (types : TypeSystem) (fields : List (String × String)) :
    ∃ names : List String, (∀ n ∈ names, ∃ f ∈ fields, Mentions f.1 n ∨ Mentions f.2 n) ∧
      ∀ known, fields.foldl (fun known f =>
          types.collectDependencies f.2 (types.collectDependencies f.1 known)) known =
        names.foldl types.note known := by
  induction fields with
  | nil => exact ⟨[], List.forall_mem_nil _, fun _ => rfl⟩
  | cons f fields ih =>
    obtain ⟨mapped, inMapped, notedMapped⟩ := notesWords types (Wildcard.stripChars f.1.toList)
    obtain ⟨declared, inDeclared, notedDeclared⟩ :=
      notesWords types (Wildcard.stripChars f.2.toList)
    obtain ⟨others, inOthers, notedOthers⟩ := ih
    refine ⟨mapped ++ declared ++ others, ?_, fun known => ?_⟩
    · intro n hn
      rcases List.mem_append.1 hn with hn | hn
      · refine ⟨f, List.mem_cons_self .., ?_⟩
        exact (List.mem_append.1 hn).imp (inMapped n) (inDeclared n)
      · obtain ⟨g, hg, mentioned⟩ := inOthers n hn
        exact ⟨g, List.mem_cons_of_mem _ hg, mentioned⟩
    · rw [List.foldl_cons, notedOthers, collectDependencies, collectDependencies, notedMapped,
        notedDeclared, List.foldl_append, List.foldl_append]

/-- A declaration has each of its dependencies once. -/
theorem nodup_declarationDependencies (types : TypeSystem) (fields : List (String × String))
    (supertype : Option String) : (types.declarationDependencies fields supertype).Nodup := by
  obtain ⟨names, -, noted⟩ := exists_noted_fields types fields
  have nodup : (names.foldl types.note []).Nodup := nodup_foldl_note List.nodup_nil
  unfold declarationDependencies
  simp only [noted]
  cases supertype with
  | none => exact nodup
  | some name =>
    dsimp only
    split
    · exact nodup
    · exact nodup_record nodup name

end InterfaceGen.Types
