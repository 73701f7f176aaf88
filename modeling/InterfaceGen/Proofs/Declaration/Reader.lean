import InterfaceGen.Proofs.Batch.Written
import InterfaceGen.Proofs.Source.Segments

/-!
# Reading written declarations back

A reader for what the printer writes, line by line: from the text of an interface with its imports,
or of an enum, it finds the declaration again, `read?_text`. So no two plain declarations are
written in the same way.
-/

namespace InterfaceGen

open InterfaceGen.Text InterfaceGen.InterfaceHeader

/-! ## Plain declarations -/

namespace Import

/-- An import of a word from a path of one line. -/
structure IsPlain (i : Import) : Prop where
  name : IsWord i.name.toList
  path : '\n' ∉ i.path.toList

end Import

/-- The name of a property: a word, or a string literal on one line. -/
inductive IsPropertyName : List Char → Prop where
  | bare {name : List Char} (h : IsWord name) : IsPropertyName name
  | quoted {body : List Char} (h : Source.IsQuoted '"' false body) :
    IsPropertyName ('"' :: (body ++ ['"']))

namespace Property

/-- A property whose type has no line break. -/
structure IsPlain (p : Property) : Prop where
  name : IsPropertyName p.externalName.toList
  type : '\n' ∉ p.mappedType.toList

end Property

namespace Interface

/-- An interface with words as its names. -/
structure IsPlain (i : Interface) : Prop where
  name : IsWord i.name.toList
  parent : ∀ p ∈ i.parent, IsWord p.toList
  properties : ∀ p ∈ i.properties, p.IsPlain

end Interface

namespace Constant

/-- A constant whose literal has no line break. -/
structure IsPlain (c : Constant) : Prop where
  name : IsWord c.name.toList
  literal : '\n' ∉ c.literal.toList

end Constant

namespace Enumeration

/-- An enum with a word as its name, and plain constants. -/
structure IsPlain (e : Enumeration) : Prop where
  name : IsWord e.name.toList
  constants : ∀ c ∈ e.constants, c.IsPlain

end Enumeration

/-- What is written into one file. -/
inductive Written where
  | interface (imports : List Import) (i : Interface)
  | enumeration (e : Enumeration)
  deriving DecidableEq, Repr

namespace Written

def text : Written → String
  | interface imports i => i.render imports
  | enumeration e => e.render

def IsPlain : Written → Prop
  | interface imports i => (∀ j ∈ imports, j.IsPlain) ∧ i.IsPlain
  | enumeration e => e.IsPlain

end Written

/-! ## The reader -/

/-- What stands before an ending, if the text has it. -/
def before? (ending text : List Char) : Option (List Char) :=
  (behind? ending.reverse text.reverse).map List.reverse

/-- The lines of a text whose last line is ended. -/
def endedLines (text : List Char) : List (List Char) :=
  (cutAt '\n' text).dropLast

/-- The lines before the closing brace, if it is the last line. -/
def inner? (lines : List (List Char)) : Option (List (List Char)) :=
  if lines.getLast? = some ['\x7d'] then some lines.dropLast else none

namespace Import

def read? (line : List Char) : Option Import := do
  let named ← behind? "import \x7b ".toList line
  let (name, rest) ← runAt? isWordChar named
  let located ← behind? " \x7d from '".toList rest
  let path ← before? "';".toList located
  return ⟨String.ofList name, String.ofList path⟩

/-- The imports that the lines begin with, and the lines behind them. -/
def leading : List (List Char) → List Import × List (List Char)
  | [] => ([], [])
  | line :: rest =>
    match read? line with
    | some i => (i :: (leading rest).1, (leading rest).2)
    | none => ([], line :: rest)

end Import

namespace Property

/-- The name that a text begins with, and what stands behind it. -/
def nameAt? (text : List Char) : Option (List Char × List Char) :=
  if text.head? = some '"' then
    (Source.Literal.scan '"' false text.tail).map fun (body, rest) => ('"' :: body, rest)
  else runAt? isWordChar text

def read? (line : List Char) : Option Property := do
  let named ← behind? "  ".toList line
  let (name, marked) ← nameAt? named
  let isOptional := marked.head? == some '?'
  let typed ← behind? ": ".toList (if isOptional then marked.tail else marked)
  let type ← before? ";".toList typed
  return ⟨String.ofList name, String.ofList type, isOptional⟩

end Property

namespace Interface

def read? : List (List Char) → Option Interface
  | [] => none
  | header :: rest => do
    let (name, parent) ← headerAt? header
    let lines ← inner? rest
    let properties ← lines.mapM Property.read?
    return ⟨String.ofList name, parent.map String.ofList, properties⟩

end Interface

namespace Constant

/-- The constant of a line; a comma separates it from the next. -/
def read? (ending line : List Char) : Option Constant := do
  let named ← behind? "  ".toList line
  let (name, rest) ← runAt? isWordChar named
  let quoted ← behind? " = \"".toList rest
  let literal ← before? ending quoted
  return ⟨String.ofList name, String.ofList literal⟩

def readAll? : List (List Char) → Option (List Constant)
  | [] => some []
  | [last] => (read? "\"".toList last).map ([·])
  | line :: rest => do
    let c ← read? "\",".toList line
    let others ← readAll? rest
    return c :: others

end Constant

namespace Enumeration

/-- The line that stands for no constants. -/
def emptyLine : List Char :=
  "  // No enum values found".toList

/-- The constants between the braces. -/
def constants? (lines : List (List Char)) : Option (List Constant) :=
  if lines = [emptyLine] then some [] else Constant.readAll? lines

def read? : List (List Char) → Option Enumeration
  | [] => none
  | header :: rest => do
    let named ← behind? "export enum ".toList header
    let name ← before? " \x7b".toList named
    let lines ← inner? rest
    let constants ← constants? lines
    return ⟨String.ofList name, constants⟩

end Enumeration

namespace Written

/-- The declaration that a text writes. -/
def read? (text : String) : Option Written :=
  let lines := endedLines text.toList
  match Enumeration.read? lines with
  | some e => some (enumeration e)
  | none =>
    let (imports, rest) := Import.leading lines
    (Interface.read? (if imports.isEmpty then rest else rest.tail)).map (interface imports)

end Written

/-! ## Parts of lines -/

@[simp]
theorem behind?_append (word rest : List Char) : behind? word (word ++ rest) = some rest :=
  behind?_eq_some_iff.2 rfl

/-- A text that differs from a word at one place does not begin with it. -/
theorem behind?_eq_none {word text : List Char} {c : Char} (i : Nat) (own : word[i]? = some c)
    (other : text[i]? ≠ some c) : behind? word text = none := by
  rw [Option.eq_none_iff_forall_ne_some]
  rintro rest begins
  rw [behind?_eq_some_iff.1 begins, List.getElem?_append_left
    (List.getElem?_eq_some_iff.1 own).1] at other
  exact other own

/-- What stands before the ending is found. -/
@[simp]
theorem before?_append (text ending : List Char) : before? ending (text ++ ending) = some text := by
  rw [before?, List.reverse_append, behind?_append, Option.map_some, List.reverse_reverse]

@[simp]
theorem inner?_append (lines : List (List Char)) : inner? (lines ++ [['\x7d']]) = some lines := by
  rw [inner?, if_pos List.getLast?_concat, List.dropLast_concat]

/-- Lines without a line feed are read back. -/
theorem endedLines_unlines {lines : List String} (h : ∀ l ∈ lines, '\n' ∉ l.toList) :
    endedLines (unlines lines).toList = lines.map String.toList := by
  have cut : cutAt '\n' (unlines lines).toList = lines.map String.toList ++ [[]] := by
    induction lines with
    | nil => rfl
    | cons l lines ih =>
      rw [unlines_cons, cutAt_append_cons (h l (List.mem_cons_self ..)),
        ih fun m hm => h m (List.mem_cons_of_mem _ hm)]
      rfl
  rw [endedLines, cut, List.dropLast_concat]

/-- A list is read back if each item is. -/
theorem mapM_read?_map {α : Type} {write : α → List Char} {read? : List Char → Option α}
    {items : List α} (h : ∀ a ∈ items, read? (write a) = some a) :
    (items.map write).mapM read? = some items := by
  induction items with
  | nil => rfl
  | cons a items ih =>
    rw [List.map_cons, List.mapM_cons, h a (List.mem_cons_self ..),
      ih fun b hb => h b (List.mem_cons_of_mem _ hb)]
    rfl

theorem feed_notMem_of_isWord {word : List Char} (h : IsWord word) : '\n' ∉ word := fun hm =>
  absurd (h.2 _ hm) (by decide)

/-- A literal without a line break of its own stands on one line. -/
theorem Source.IsQuoted.feed_notMem {quote : Char} {body : List Char}
    (h : IsQuoted quote false body) : '\n' ∉ body := by
  induction h with
  | nil => exact List.not_mem_nil
  | plain h _ ih => simp [h.2.2.symm, ih]
  | @escaped c _ h _ ih =>
    have solid : c ≠ '\n' := fun feed => absurd (h feed) Bool.false_ne_true
    simp [solid.symm, ih]

theorem IsPropertyName.feed_notMem {name : List Char} (h : IsPropertyName name) : '\n' ∉ name := by
  cases h with
  | bare word => exact feed_notMem_of_isWord word
  | quoted literal =>
    have body := literal.feed_notMem
    simp [body]

/-! ## Imports -/

namespace Import

variable {i : Import}

/-- A plain import is read back from its statement. -/
theorem read?_statement (h : i.IsPlain) : read? i.statement.toList = some i := by
  have run : runAt? isWordChar (i.name.toList ++ (" \x7d from '".toList ++
      (i.path.toList ++ ['\'', ';']))) = some (i.name.toList, " \x7d from '".toList ++
        (i.path.toList ++ ['\'', ';'])) := runAt?_word h.name (by decide)
  have path : before? "';".toList (i.path.toList ++ ['\'', ';']) = some i.path.toList :=
    before?_append ..
  simp only [read?, statement_toList, behind?_append, run, path, Option.bind_eq_bind,
    Option.bind_some, Option.pure_def, String.ofList_toList]

theorem feed_notMem_statement (h : i.IsPlain) : '\n' ∉ i.statement.toList := by
  have opening : '\n' ∉ "import \x7b ".toList := by decide
  have middle : '\n' ∉ " \x7d from '".toList := by decide
  have closing : '\n' ∉ ['\'', ';'] := by decide
  simp only [statement_toList, List.mem_append, opening, feed_notMem_of_isWord h.name, middle,
    h.path, closing, or_self, not_false_eq_true]

/-- An import opens no enum. -/
theorem behind?_statement (i : Import) (rest : List Char) :
    behind? "export enum ".toList (i.statement.toList ++ rest) = none :=
  behind?_eq_none (c := 'e') 0 (by decide) (by simp [statement_toList])

/-- All imports at the beginning are read, up to a line that is none. -/
theorem leading_statements {imports : List Import} (h : ∀ i ∈ imports, i.IsPlain)
    {line : List Char} (other : read? line = none) (rest : List (List Char)) :
    leading (imports.map (·.statement.toList) ++ line :: rest) = (imports, line :: rest) := by
  induction imports with
  | nil => rw [List.map_nil, List.nil_append, leading, other]
  | cons i imports ih =>
    rw [List.map_cons, List.cons_append, leading, read?_statement (h i (List.mem_cons_self ..)),
      ih fun j hj => h j (List.mem_cons_of_mem _ hj)]

end Import

/-! ## Interfaces -/

namespace Property

variable {p : Property}

/-- The name of a property is read up to the character behind it. -/
theorem nameAt?_append {name : List Char} (h : IsPropertyName name) {c : Char}
    (other : isWordChar c = false) (rest : List Char) :
    nameAt? (name ++ c :: rest) = some (name, c :: rest) := by
  cases h with
  | bare word =>
    have unquoted : (name ++ c :: rest).head? ≠ some '"' := by
      obtain ⟨d, more, rfl⟩ := List.exists_cons_of_ne_nil word.1
      intro quote
      have letter := word.2 d (List.mem_cons_self ..)
      rw [Option.some.inj quote] at letter
      exact absurd letter (by decide)
    rw [nameAt?, if_neg unquoted, runAt?_word word other]
  | @quoted body quoted =>
    have scanned : Source.Literal.scan '"' false (body ++ '"' :: c :: rest) =
        some (body ++ ['"'], c :: rest) := quoted.scan (by decide) _
    rw [nameAt?, List.cons_append, List.append_assoc, List.singleton_append, List.head?_cons,
      if_pos rfl, List.tail_cons, scanned]
    rfl

/-- A plain property is read back from its line. -/
theorem read?_line (h : p.IsPlain) : read? p.line.toList = some p := by
  have named : ∀ {c : Char}, isWordChar c = false → ∀ rest,
      nameAt? (p.externalName.toList ++ c :: rest) = some (p.externalName.toList, c :: rest) :=
    fun other rest => nameAt?_append h.name other rest
  have type : before? ";".toList (p.mappedType.toList ++ [';']) = some p.mappedType.toList :=
    before?_append ..
  have typed : behind? ": ".toList (':' :: ' ' :: (p.mappedType.toList ++ [';'])) =
      some (p.mappedType.toList ++ [';']) := behind?_append ..
  have indented : ∀ text, behind? "  ".toList (' ' :: ' ' :: text) = some text :=
    behind?_append "  ".toList
  have marked : ∀ c text, ((c :: text : List Char).head? == some '?') = (c == '?') :=
    fun c text => rfl
  have colon : (':' == '?') = false := by decide
  have question : ('?' == '?') = true := by decide
  rw [read?, line_toList, List.cons_append, List.cons_append, indented]
  cases optional : p.isOptional with
  | false =>
    have same : (⟨p.externalName, p.mappedType, false⟩ : Property) = p := by rw [← optional]
    simp only [Bool.false_eq_true, if_false, List.append_nil, Option.bind_eq_bind,
      Option.bind_some, named (c := ':') (by decide), marked, colon, typed, type, Option.pure_def,
      String.ofList_toList, same]
  | true =>
    have same : (⟨p.externalName, p.mappedType, true⟩ : Property) = p := by rw [← optional]
    simp only [if_true, List.append_assoc, List.singleton_append, Option.bind_eq_bind,
      Option.bind_some, named (c := '?') (by decide), marked, question, List.tail_cons, typed, type,
      Option.pure_def, String.ofList_toList, same]

theorem feed_notMem_line (h : p.IsPlain) : '\n' ∉ p.line.toList := by
  have name : '\n' ∉ p.externalName.toList := h.name.feed_notMem
  cases optional : p.isOptional <;> simp [line_toList, optional, name, h.type]

end Property

namespace Interface

variable {i : Interface}

theorem feed_notMem_header (h : i.IsPlain) : '\n' ∉ i.header.toList :=
  notMem_header h.name h.parent (by decide) (by decide) (by decide)

/-- A plain interface is read back from its lines. -/
theorem read?_lines (h : i.IsPlain) :
    read? (i.header.toList :: (i.properties.map (·.line.toList) ++ [['\x7d']])) = some i := by
  have header : headerAt? i.header.toList = some (i.name.toList, i.parent.map String.toList) := by
    have opening := headerAt?_header h.name h.parent []
    rwa [List.append_nil] at opening
  have properties : (i.properties.map (·.line.toList)).mapM Property.read? = some i.properties :=
    mapM_read?_map fun p hp => Property.read?_line (h.properties p hp)
  have parent : (i.parent.map String.toList).map String.ofList = i.parent := by
    simp [Option.map_map, Function.comp_def]
  simp only [read?, header, inner?_append, properties, parent, Option.bind_eq_bind,
    Option.bind_some, Option.pure_def, String.ofList_toList]

/-- The line that opens an interface is no import. -/
theorem importRead?_header (i : Interface) : Import.read? i.header.toList = none := by
  have other : behind? "import \x7b ".toList i.header.toList = none :=
    behind?_eq_none (c := 'i') 0 (by decide) (by simp [header_toList])
  rw [Import.read?, other]
  rfl

/-- The line that opens an interface opens no enum. -/
theorem behind?_header (i : Interface) (rest : List Char) :
    behind? "export enum ".toList (i.header.toList ++ rest) = none :=
  behind?_eq_none (c := 'e') 7 (by decide) (by simp [header_toList])

end Interface

/-! ## Enums -/

namespace Constant

variable {c : Constant}

theorem entry_toList (c : Constant) :
    c.entry.toList = "  ".toList ++ (c.name.toList ++ (" = \"".toList ++ (c.literal.toList ++
      "\"".toList))) := by
  simp only [entry, String.toList_append, List.append_assoc]

/-- A constant is read from its entry, and from its entry with a comma. -/
theorem read?_entry (h : c.IsPlain) (separator : List Char) :
    read? ("\"".toList ++ separator) (c.entry.toList ++ separator) = some c := by
  have run : ∀ rest, runAt? isWordChar (c.name.toList ++ (" = \"".toList ++ rest)) =
      some (c.name.toList, " = \"".toList ++ rest) := fun rest => runAt?_word h.name (by decide)
  simp only [read?, entry_toList, List.append_assoc, behind?_append, run, before?_append,
    Option.bind_eq_bind, Option.bind_some, Option.pure_def, String.ofList_toList]

theorem constantLines_cons (c d : Constant) (others : List Constant) :
    constantLines (c :: d :: others) = (c.entry ++ ",") :: constantLines (d :: others) :=
  rfl

theorem constantLines_ne_nil {constants : List Constant} (h : constants ≠ []) :
    constantLines constants ≠ [] := by
  match constants, h with
  | [_], _ | _ :: _ :: _, _ => exact List.cons_ne_nil _ _

/-- Plain constants are read back from their lines, commas and all. -/
theorem readAll?_lines {constants : List Constant} (h : ∀ c ∈ constants, c.IsPlain) :
    readAll? ((constantLines constants).map String.toList) = some constants := by
  induction constants with
  | nil => rfl
  | cons c others ih =>
    have first := h c (List.mem_cons_self ..)
    cases others with
    | nil =>
      have last := read?_entry first []
      rw [List.append_nil, List.append_nil] at last
      rw [constantLines, List.map_singleton, readAll?, last]
      rfl
    | cons d others =>
      have line : read? "\",".toList (c.entry ++ ",").toList = some c := by
        rw [String.toList_append]
        exact read?_entry first [',']
      have later := ih fun d hd => h d (List.mem_cons_of_mem _ hd)
      have further : (constantLines (d :: others)).map String.toList ≠ [] := fun none =>
        constantLines_ne_nil (List.cons_ne_nil _ _) (List.map_eq_nil_iff.1 none)
      rw [constantLines_cons, List.map_cons, readAll?.eq_3 _ _ further, line, later]
      rfl

theorem feed_notMem_entry (h : c.IsPlain) : '\n' ∉ c.entry.toList := by
  have name := feed_notMem_of_isWord h.name
  simp [entry_toList, name, h.literal]

/-- The lines of plain constants are each one line. -/
theorem feed_notMem_constantLines {constants : List Constant} (h : ∀ c ∈ constants, c.IsPlain) :
    ∀ l ∈ constantLines constants, '\n' ∉ l.toList := by
  induction constants with
  | nil => exact fun l hl => by cases hl
  | cons c others ih =>
    have first := feed_notMem_entry (h c (List.mem_cons_self ..))
    cases others with
    | nil =>
      rw [constantLines]
      simpa using first
    | cons d others =>
      rw [constantLines_cons]
      refine List.forall_mem_cons.2 ⟨?_, ih fun d hd => h d (List.mem_cons_of_mem _ hd)⟩
      rw [String.toList_append, List.mem_append, not_or]
      exact ⟨first, by decide⟩

end Constant

namespace Enumeration

variable {e : Enumeration}

theorem header_toList (name : String) :
    ("export enum " ++ name ++ " \x7b").toList =
      "export enum ".toList ++ (name.toList ++ " \x7b".toList) := by
  simp only [String.toList_append, List.append_assoc]

/-- The lines between the braces. -/
def innerLines (constants : List Constant) : List String :=
  if constants.isEmpty then ["  // No enum values found"] else constantLines constants

/-- An enum is written as its header, the lines of its constants and the closing brace. -/
theorem render_eq (e : Enumeration) :
    e.render = unlines (("export enum " ++ e.name ++ " \x7b") :: innerLines e.constants ++
      ["\x7d"]) :=
  rfl

/-- The lines between the braces are each one line. -/
theorem feed_notMem_innerLines {constants : List Constant} (h : ∀ c ∈ constants, c.IsPlain) :
    ∀ l ∈ innerLines constants, '\n' ∉ l.toList := by
  rw [innerLines]
  split
  · decide +kernel
  · exact Constant.feed_notMem_constantLines h

/-- No entry looks like the line that stands for no constants. -/
theorem entry_ne_emptyLine {c : Constant} (h : c.IsPlain) (separator : List Char) :
    c.entry.toList ++ separator ≠ emptyLine := by
  obtain ⟨letter, more, name⟩ := List.exists_cons_of_ne_nil h.name.1
  have word : isWordChar letter = true := h.name.2 letter (by simp [name])
  intro same
  have marked : emptyLine[2]? = some '/' := by decide
  rw [← same, Constant.entry_toList, name] at marked
  have slash : letter = '/' := by simpa using marked
  rw [slash] at word
  exact absurd word (by decide)

/-- The constants are read back from the lines between the braces, also if there are none. -/
theorem constants?_innerLines {constants : List Constant} (h : ∀ c ∈ constants, c.IsPlain) :
    constants? ((innerLines constants).map String.toList) = some constants := by
  cases constants with
  | nil => exact if_pos rfl
  | cons c others =>
    have filled : innerLines (c :: others) = constantLines (c :: others) := rfl
    have first := entry_ne_emptyLine (h c (List.mem_cons_self ..))
    have other : (constantLines (c :: others)).map String.toList ≠ [emptyLine] := by
      cases others with
      | nil =>
        intro same
        rw [constantLines, List.map_singleton, List.singleton_inj,
          ← List.append_nil c.entry.toList] at same
        exact first [] same
      | cons d others =>
        rw [Constant.constantLines_cons, List.map_cons, String.toList_append]
        exact fun same => first _ (List.cons.inj same).1
    rw [filled, constants?, if_neg other, Constant.readAll?_lines h]

/-- A plain enum is read back from its lines. -/
theorem read?_lines (h : e.IsPlain) :
    read? (("export enum " ++ e.name ++ " \x7b").toList ::
      ((innerLines e.constants).map String.toList ++ [['\x7d']])) = some e := by
  simp only [read?, header_toList, behind?_append, before?_append, inner?_append,
    constants?_innerLines h.constants, Option.bind_eq_bind, Option.bind_some, Option.pure_def,
    String.ofList_toList]

/-- Only a line that begins with the words of an enum opens one. -/
theorem read?_eq_none {header : List Char} (h : behind? "export enum ".toList header = none)
    (rest : List (List Char)) : read? (header :: rest) = none := by
  rw [read?, h]
  rfl

end Enumeration

/-! ## Texts -/

namespace Written

/-- The lines of a written interface: imports, header, properties and the closing brace. -/
theorem lines_interface {imports : List Import} {i : Interface}
    (h : (interface imports i).IsPlain) :
    endedLines (i.render imports).toList = (importLines imports).map String.toList ++
      i.header.toList :: (i.properties.map (·.line.toList) ++ [['\x7d']]) := by
  have prologue : ∀ l ∈ importLines imports, '\n' ∉ l.toList := by
    rw [importLines]
    split
    · exact fun l hl => by cases hl
    · refine List.forall_mem_append.2 ⟨fun l hl => ?_, fun l hl => ?_⟩
      · obtain ⟨j, hj, rfl⟩ := List.mem_map.1 hl
        exact Import.feed_notMem_statement (h.1 j hj)
      · rw [List.mem_singleton.1 hl]
        exact List.not_mem_nil
  have lines : ∀ l ∈ importLines imports ++ i.header :: i.properties.map Property.line ++ ["\x7d"],
      '\n' ∉ l.toList := by
    refine List.forall_mem_append.2 ⟨List.forall_mem_append.2 ⟨prologue,
      List.forall_mem_cons.2 ⟨Interface.feed_notMem_header h.2, fun l hl => ?_⟩⟩, fun l hl => ?_⟩
    · obtain ⟨p, hp, rfl⟩ := List.mem_map.1 hl
      exact Property.feed_notMem_line (h.2.properties p hp)
    · rw [List.mem_singleton.1 hl]
      decide
  rw [Interface.render, endedLines_unlines lines]
  simp

/-- The lines of a written enum: header, constants and the closing brace. -/
theorem lines_enumeration {e : Enumeration} (h : e.IsPlain) :
    endedLines e.render.toList = ("export enum " ++ e.name ++ " \x7b").toList ::
      ((Enumeration.innerLines e.constants).map String.toList ++ [['\x7d']]) := by
  have header : '\n' ∉ ("export enum " ++ e.name ++ " \x7b").toList := by
    have name := feed_notMem_of_isWord h.name
    simp [name]
  have inner := Enumeration.feed_notMem_innerLines h.constants
  have lines : ∀ l ∈ ("export enum " ++ e.name ++ " \x7b") :: Enumeration.innerLines e.constants ++
      ["\x7d"], '\n' ∉ l.toList :=
    List.forall_mem_append.2 ⟨List.forall_mem_cons.2 ⟨header, inner⟩, by decide⟩
  rw [Enumeration.render_eq, endedLines_unlines lines]
  simp

/-- The imports are read back from their lines, and the header comes next. -/
theorem leading_importLines {imports : List Import} (h : ∀ j ∈ imports, j.IsPlain)
    {header : List Char} (other : Import.read? header = none) (rest : List (List Char)) :
    ∃ behind, Import.leading ((importLines imports).map String.toList ++ header :: rest) =
        (imports, behind) ∧
      (if imports.isEmpty then behind else behind.tail) = header :: rest := by
  cases imports with
  | nil => exact ⟨header :: rest, Import.leading_statements h other rest, rfl⟩
  | cons j imports =>
    have empty : Import.read? [] = none := by decide
    have found := Import.leading_statements h empty (header :: rest)
    refine ⟨[] :: header :: rest, ?_, rfl⟩
    rw [← found, importLines]
    simp [Function.comp_def]

/-- No interface begins like an enum. -/
theorem behind?_render (imports : List Import) (i : Interface) :
    behind? "export enum ".toList (i.render imports).toList = none := by
  cases imports with
  | nil =>
    rw [Interface.render_nil, unlines_cons]
    exact i.behind?_header _
  | cons j imports =>
    have first : (i.render (j :: imports)).toList = j.statement.toList ++ '\n' ::
        (unlines (imports.map Import.statement ++ [""] ++ i.header ::
          i.properties.map Property.line ++ ["\x7d"])).toList := unlines_cons ..
    rw [first]
    exact j.behind?_statement _

/-- What is written is read back. -/
theorem read?_text {w : Written} (h : w.IsPlain) : read? w.text = some w := by
  cases w with
  | enumeration e =>
    have own : Enumeration.read? (endedLines e.render.toList) = some e := by
      rw [lines_enumeration h, Enumeration.read?_lines h]
    rw [read?, text]
    simp only [own]
  | interface imports i =>
    have lines := lines_interface h
    have other : Enumeration.read? (endedLines (i.render imports).toList) = none := by
      rw [lines]
      cases imports with
      | nil => exact Enumeration.read?_eq_none (by simpa using i.behind?_header []) _
      | cons j imports => exact Enumeration.read?_eq_none (by simpa using j.behind?_statement []) _
    obtain ⟨behind, leading, unprologued⟩ :=
      leading_importLines h.1 (Interface.importRead?_header i)
        (i.properties.map (·.line.toList) ++ [['\x7d']])
    rw [read?, text]
    simp only [other]
    rw [lines, leading]
    dsimp only
    rw [unprologued, Interface.read?_lines h.2]
    rfl

/-- The text of a plain declaration determines it, with its imports, and no interface is written like
an enum. -/
theorem determined_by_text :
    (∀ w : Written, w.IsPlain → read? w.text = some w) ∧
      (∀ v w : Written, v.IsPlain → w.IsPlain → v.text = w.text → v = w) ∧
      ∀ imports i e, (interface imports i).text ≠ (enumeration e).text := by
  refine ⟨fun w => read?_text, fun v w hv hw same => ?_, fun imports i e same => ?_⟩
  · have read := read?_text hv
    rw [same, read?_text hw] at read
    exact (Option.some.inj read).symm
  · have opening : behind? "export enum ".toList (enumeration e).text.toList ≠ none := by
      rw [text, Enumeration.render_eq, List.cons_append, unlines_cons, Enumeration.header_toList,
        List.append_assoc, behind?_append]
      exact Option.some_ne_none _
    rw [← same] at opening
    exact opening (behind?_render imports i)

/-- An interface with imports, a name between quotes and types with marks of their own. -/
def circle : Written :=
  .interface [⟨"Shape", "./Shape"⟩, ⟨"Unit", "../base/Unit"⟩]
    ⟨"Circle", some "Shape",
      [⟨"\"r\\\"?: x\"", "Record<string, Unit[]> | undefined", true⟩,
        ⟨"tags", "\x7b [key: string]: A; \x7d", false⟩]⟩

/-- An enum with marks in one literal and nothing in the other. -/
def state : Written :=
  .enumeration ⟨"State", [⟨"OPEN", "a\\\", b"⟩, ⟨"CLOSED", ""⟩]⟩

/-- Both are read back. -/
theorem read?_circle : read? circle.text = some circle ∧ read? state.text = some state := by
  have quoted : IsPropertyName "\"r\\\"?: x\"".toList := by
    have body : Source.IsQuoted '"' false ['r', '\\', '"', '?', ':', ' ', 'x'] :=
      .plain (by decide) (.escaped (by decide) (.plain (by decide) (.plain (by decide)
        (.plain (by decide) (.plain (by decide) .nil)))))
    have same : "\"r\\\"?: x\"".toList = '"' :: (['r', '\\', '"', '?', ':', ' ', 'x'] ++ ['"']) :=
      by decide
    rw [same]
    exact .quoted body
  have interface : circle.IsPlain := by
    refine ⟨List.forall_mem_cons.2 ⟨⟨⟨by decide, by decide⟩, by decide⟩,
      List.forall_mem_singleton.2 ⟨⟨by decide, by decide⟩, by decide⟩⟩, ⟨by decide, by decide⟩, ?_,
      List.forall_mem_cons.2 ⟨⟨quoted, by decide +kernel⟩,
        List.forall_mem_singleton.2 ⟨.bare ⟨by decide, by decide⟩, by decide +kernel⟩⟩⟩
    rintro p ⟨⟩
    exact ⟨by decide, by decide⟩
  have enumeration : state.IsPlain :=
    ⟨⟨by decide, by decide⟩, List.forall_mem_cons.2 ⟨⟨⟨by decide, by decide⟩, by decide⟩,
      List.forall_mem_singleton.2 ⟨⟨by decide, by decide⟩, by decide⟩⟩⟩
  exact ⟨determined_by_text.1 _ interface, determined_by_text.1 _ enumeration⟩

end Written

end InterfaceGen
