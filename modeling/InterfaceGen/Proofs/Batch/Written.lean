import InterfaceGen.Proofs.Batch.Update
import InterfaceGen.Proofs.Declaration.Lines
import InterfaceGen.Proofs.Engine.Reading
import InterfaceGen.Proofs.Source.Characters

/-!
# Written interfaces as they are read

The first header of a written interface is its own, `first?_render`. It holds no import where the
names of its properties hold none, `holdsImport_render`, and no carriage return where the source has
none.
-/

namespace InterfaceGen

open InterfaceGen.Text InterfaceGen.Types

namespace InterfaceHeader

theorem isWord_of_name {first : Char → Bool} (part : ∀ c, first c = true → isNameChar c = true)
    {text : List Char} (h : isHeadedBy first isNameChar text = true) : IsWord text := by
  refine ⟨?_, fun c hc => isWordChar_of_isNameChar (forall_of_isHeadedBy h part c hc)⟩
  rintro rfl
  cases h

/-- A class name is a word. -/
theorem isWord_of_isHeadedBy {text : List Char}
    (h : isHeadedBy Char.isUpper isNameChar text = true) : IsWord text :=
  isWord_of_name (fun _ upper => isNameChar_of_isNameStart (isNameStart_of_isUpper upper)) h

/-- A word is read as a run up to the character behind it. -/
theorem runAt?_word {word rest : List Char} (h : IsWord word) {c : Char}
    (other : isWordChar c = false) : runAt? isWordChar (word ++ c :: rest) = some (word, c :: rest) :=
  runAt?_eq_some_iff.2 ⟨rfl, h.1, h.2, fun _ hd => Option.some.inj hd ▸ other⟩

theorem runAt?_space {text : List Char} (h : ∀ c ∈ text.head?, isBlank c = false) :
    runAt? isBlank (' ' :: text) = some ([' '], text) :=
  runAt?_eq_some_iff.2 ⟨rfl, List.cons_ne_nil _ _, by decide, h⟩

theorem parentAt?_none (rest : List Char) : parentAt? (' ' :: '\x7b' :: rest) = none := by
  rw [parentAt?, runAt?_space (by simp; decide)]
  rfl

/-- The parent between spaces is read back. -/
theorem parentAt?_some {parent : List Char} (h : IsWord parent) (rest : List Char) :
    parentAt? (' ' :: ("extends".toList ++ ' ' :: (parent ++ ' ' :: rest))) = some parent := by
  have behind : behind? "extends".toList ("extends".toList ++ ' ' :: (parent ++ ' ' :: rest)) =
      some (' ' :: (parent ++ ' ' :: rest)) := behind?_eq_some_iff.2 rfl
  have first : runAt? isBlank (' ' :: ("extends".toList ++ ' ' :: (parent ++ ' ' :: rest))) =
      some ([' '], "extends".toList ++ ' ' :: (parent ++ ' ' :: rest)) := by
    refine runAt?_space fun c hc => ?_
    have same : 'e' = c := by simpa using hc
    rw [← same]
    decide
  have second : runAt? isBlank (' ' :: (parent ++ ' ' :: rest)) =
      some ([' '], parent ++ ' ' :: rest) := by
    refine runAt?_space fun c hc => ?_
    obtain ⟨d, more, rfl⟩ := List.exists_cons_of_ne_nil h.1
    have same : d = c := by simpa using hc
    exact same ▸ isBlank_of_isWordChar (h.2 d (List.mem_cons_self ..))
  have third : runAt? isWordChar (parent ++ ' ' :: rest) = some (parent, ' ' :: rest) :=
    runAt?_word h (by decide)
  simp only [parentAt?, first, behind, second, third, Option.bind_eq_bind, Option.bind_some,
    Option.pure_def]

end InterfaceHeader

namespace Property

variable {p : Property}

/-- The line of a property does not begin an import, where neither its name nor its type does. -/
theorem occurs_line (name : occurs importBrace p.externalName.toList = false)
    (type : IsInert p.mappedType.toList) : occurs importBrace p.line.toList = false := by
  have marked : occurs importBrace
      (p.externalName.toList ++ if p.isOptional then ['?'] else []) = false := by
    split
    · rw [occurs_concat (by decide) (by decide), name]
    · rw [List.append_nil, name]
  have typed : occurs importBrace (p.mappedType.toList ++ [';']) = false := by
    rw [occurs_concat (by decide) (by decide), type.noImport]
  rw [line_toList, occurs_append_cons (by decide) (by decide),
    occurs_cons (by decide) (by decide), occurs_cons (by decide) (by decide), marked,
    occurs_cons (by decide) (by decide), typed]
  rfl

theorem cr_notMem_line (name : '\r' ∉ p.externalName.toList) (type : IsInert p.mappedType.toList) :
    '\r' ∉ p.line.toList := by
  have type := type.noReturn
  cases optional : p.isOptional <;> simp [line_toList, optional, name, type]

end Property

namespace Interface

open InterfaceHeader

variable {i : Interface}

theorem render_nil (i : Interface) :
    i.render [] = unlines (i.header :: (i.properties.map Property.line ++ ["\x7d"])) :=
  rfl

theorem ne_empty_of_isWord {text : String} (h : IsWord text.toList) : text ≠ "" := by
  rintro rfl
  exact h.1 rfl

/-- The line that opens an interface is read, whatever follows. -/
theorem headerAt?_header (name : IsWord i.name.toList) (parent : ∀ p ∈ i.parent, IsWord p.toList)
    (rest : List Char) :
    headerAt? (i.header.toList ++ rest) = some (i.name.toList, i.parent.map String.toList) := by
  have opening : ∀ more : List Char, parentAt? (' ' :: more) = i.parent.map String.toList →
      headerAt? ("export interface ".toList ++ (i.name.toList ++ ' ' :: more)) =
        some (i.name.toList, i.parent.map String.toList) := by
    intro more same
    have named : behind? "export interface ".toList
        ("export interface ".toList ++ (i.name.toList ++ ' ' :: more)) =
          some (i.name.toList ++ ' ' :: more) := behind?_eq_some_iff.2 rfl
    have run : runAt? isWordChar (i.name.toList ++ ' ' :: more) =
        some (i.name.toList, ' ' :: more) := runAt?_word name (by decide)
    simp only [headerAt?, named, run, same, Option.bind_eq_bind, Option.bind_some, Option.pure_def]
  rw [header_toList]
  simp only [List.append_assoc]
  cases extended : i.parent with
  | none =>
    rw [extended] at opening
    rw [extension_of_none extended]
    exact opening ('\x7b' :: rest) (parentAt?_none _)
  | some p =>
    have word := parent p extended
    rw [extended] at opening
    rw [extension_of_some extended (ne_empty_of_isWord word)]
    exact opening ("extends".toList ++ ' ' :: (p.toList ++ ' ' :: '\x7b' :: rest))
      (parentAt?_some word _)

/-- A written interface begins with its header. -/
theorem headerAt?_render (name : IsWord i.name.toList)
    (parent : ∀ p ∈ i.parent, IsWord p.toList) :
    headerAt? (i.render []).toList = some (i.name.toList, i.parent.map String.toList) := by
  rw [render_nil, unlines_cons]
  exact headerAt?_header name parent _

/-- The first header of a written interface is its own. -/
theorem first?_render (name : IsWord i.name.toList) (parent : ∀ p ∈ i.parent, IsWord p.toList) :
    first? (i.render []) = some (i.name, i.parent) := by
  have here := headerAt?_render name parent
  have first : firstFrom? true (i.render []).toList = headerAt? (i.render []).toList := by
    cases text : (i.render []).toList with
    | nil =>
      rw [text] at here
      cases here
    | cons c rest =>
      rw [text] at here
      rw [firstFrom?, if_pos rfl, here, Option.some_or]
  rw [first?_eq, first, here]
  simp [Option.map_map, Function.comp_def]

/-- No mark but the brace is in a header. -/
theorem notMem_header (name : IsWord i.name.toList) (parent : ∀ p ∈ i.parent, IsWord p.toList)
    {c : Char} (other : isWordChar c = false) (space : c ≠ ' ') (brace : c ≠ '\x7b') :
    c ∉ i.header.toList := by
  have outside : ∀ {text : List Char}, (∀ d ∈ text, isWordChar d = true ∨ d = ' ' ∨ d = '\x7b') →
      c ∉ text := by
    intro text inside hm
    rcases inside c hm with word | same | same
    · rw [word] at other
      cases other
    · exact space same
    · exact brace same
  have word : ∀ {text : List Char}, IsWord text → c ∉ text := fun h =>
    outside fun d hd => .inl (h.2 d hd)
  have opening : c ∉ "export interface ".toList := outside (by simp; decide)
  have keyword : c ∉ " extends ".toList := outside (by simp; decide)
  have closing : c ∉ " \x7b".toList := outside (by simp)
  have extended : c ∉ i.extension := by
    cases parented : i.parent with
    | none =>
      rw [extension_of_none parented]
      exact List.not_mem_nil
    | some p =>
      have named := parent p parented
      rw [extension_of_some parented (ne_empty_of_isWord named), List.mem_append, not_or]
      exact ⟨keyword, word named⟩
  simp only [header_toList, List.mem_append, opening, word name, extended, closing, or_self,
    not_false_eq_true]

section Render

variable (name : IsWord i.name.toList) (parent : ∀ p ∈ i.parent, IsWord p.toList)
  (types : ∀ p ∈ i.properties, IsInert p.mappedType.toList)

include name parent types

/-- A written interface holds no import where its properties have no name that begins one. -/
theorem holdsImport_render
    (names : ∀ p ∈ i.properties, occurs importBrace p.externalName.toList = false)
    {imported : String} (plain : IsOneLine imported) :
    FileTree.holdsImport imported (i.render []).toList = false := by
  have spelled : (FileTree.importOpening imported).toList =
      importBrace ++ (' ' :: imported.toList ++ [' ', '\x7d']) := by
    unfold FileTree.importOpening importBrace
    rw [String.toList_append, String.toList_append]
    simp
  have begins : importBrace <+: (FileTree.importOpening imported).toList :=
    spelled ▸ List.prefix_append _ _
  have closing : '\x7d' ∈ (FileTree.importOpening imported).toList := by
    rw [spelled]
    simp
  have opening : 'i' ∈ (FileTree.importOpening imported).toList := begins.subset (by decide)
  have feed : '\n' ∉ (FileTree.importOpening imported).toList := by
    have inside : '\n' ∉ imported.toList := fun hm => (plain _ hm).1 rfl
    have brace : '\n' ∉ importBrace := by decide
    rw [spelled]
    simp [inside, brace]
  rw [FileTree.holdsImport, render_nil]
  refine occurs_unlines (List.ne_nil_of_mem opening) feed (List.forall_mem_cons.2 ⟨?_, ?_⟩)
  · exact occurs_of_notMem closing (notMem_header name parent (by decide) (by decide) (by decide))
  · refine List.forall_mem_append.2 ⟨fun l hl => ?_, fun l hl => ?_⟩
    · obtain ⟨p, hp, rfl⟩ := List.mem_map.1 hl
      exact occurs_of_isPrefix begins (Property.occurs_line (names p hp) (types p hp))
    · rw [List.mem_singleton.1 hl]
      exact occurs_of_notMem opening (by decide)

/-- A written interface holds a carriage return only in the names of its properties. -/
theorem cr_notMem_render (names : ∀ p ∈ i.properties, '\r' ∉ p.externalName.toList) :
    '\r' ∉ (i.render []).toList := by
  rw [render_nil]
  refine notMem_unlines (by decide) (List.forall_mem_cons.2 ⟨?_, ?_⟩)
  · exact notMem_header name parent (by decide) (by decide) (by decide)
  · refine List.forall_mem_append.2 ⟨fun l hl => ?_, fun l hl => ?_⟩
    · obtain ⟨p, hp, rfl⟩ := List.mem_map.1 hl
      exact Property.cr_notMem_line (names p hp) (types p hp)
    · rw [List.mem_singleton.1 hl]
      decide

end Render

end Interface

/-! ## What an engine writes -/

namespace Engine

variable {e : Engine} {code name : String} {supertype : Option String} {fields : List Field}

/-- The names in a header that is written are words. -/
theorem words_of_declaration (read : e.declaration code = .ok (.dataClass name supertype fields)) :
    InterfaceHeader.IsWord name.toList ∧
      ∀ p ∈ supertype, InterfaceHeader.IsWord p.toList := by
  obtain ⟨s, signed, rfl, rfl, -⟩ := signature_of_declaration read
  obtain ⟨own, parent⟩ := Source.names_of_signature signed
  exact ⟨InterfaceHeader.isWord_of_isHeadedBy own,
    fun p hp => InterfaceHeader.isWord_of_isHeadedBy (parent p hp)⟩

theorem isTame_of_isTypeChar {c : Char}
    (h : c = ' ' ∨ Source.FieldList.isTypeChar c = true ∧ isBlank c = false) : IsTame c := by
  rcases h with rfl | ⟨part, solid⟩
  · decide
  · refine ⟨?_, ?_, ?_⟩
    · rintro rfl
      exact absurd solid (by decide)
    · rintro rfl
      exact absurd solid (by decide)
    · rintro rfl
      exact absurd part (by decide)

/-- Types and names of the properties that are written. -/
theorem properties_of_declaration
    (table : ∀ entry ∈ e.types.mapping, IsInert entry.2.toList) (plain : '\r' ∉ code.toList)
    (read : e.declaration code = .ok (.dataClass name supertype fields)) :
    ∀ f ∈ fields, IsInert f.mappedType.toList ∧ '\r' ∉ f.externalName.toList := by
  obtain ⟨-, -, -, -, rfl⟩ := signature_of_declaration read
  intro f hf
  refine ⟨?_, fun hm => ?_⟩
  · rw [Source.FieldList.mappedType_of_mem hf]
    exact isInert_mapType table fun c hc =>
      isTame_of_isTypeChar (Source.FieldList.char_of_mem_declaredType hf hc)
  · rcases Source.FieldList.char_of_mem_externalName hf hm with inside | quote | letter
    · rw [Source.Comment.strip, String.toList_ofList] at inside
      rcases Source.Comment.mem_of_mem_stripChars inside with there | space
      · exact plain there
      · exact absurd space (by decide)
    · exact absurd quote (by decide)
    · exact absurd letter (by decide)

end Engine

end InterfaceGen
