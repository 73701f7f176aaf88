import InterfaceGen.Declaration.Printer
import InterfaceGen.Proofs.Text.Occurring

/-!
# Lines of written declarations

The characters of written lines and of single lines, and what does not occur in them.
-/

namespace InterfaceGen

open InterfaceGen.Text

/-- The lines of two lists stand behind each other. -/
theorem unlines_append (lines more : List String) :
    unlines (lines ++ more) = unlines lines ++ unlines more := by
  simp [unlines, String.join_append]

/-- The first line is ended, and the others stand behind it. -/
theorem unlines_cons (line : String) (lines : List String) :
    (unlines (line :: lines)).toList = line.toList ++ '\n' :: (unlines lines).toList := by
  simp [unlines, String.toList_append]

/-- A word on one line that is in no line is not in the text. -/
theorem occurs_unlines {word : List Char} (nonempty : word ≠ []) (line : '\n' ∉ word)
    {lines : List String} (h : ∀ l ∈ lines, occurs word l.toList = false) :
    occurs word (unlines lines).toList = false := by
  induction lines with
  | nil => exact occurs_eq_false_iff.2 fun there => nonempty (List.infix_nil.1 there)
  | cons l lines ih =>
    rw [unlines_cons, occurs_append_cons line nonempty, h l (List.mem_cons_self ..),
      ih fun m hm => h m (List.mem_cons_of_mem _ hm)]
    rfl

theorem notMem_unlines {c : Char} (feed : c ≠ '\n') {lines : List String}
    (h : ∀ l ∈ lines, c ∉ l.toList) : c ∉ (unlines lines).toList := by
  induction lines with
  | nil => exact List.not_mem_nil
  | cons l lines ih =>
    rw [unlines_cons, List.mem_append, List.mem_cons, not_or, not_or]
    exact ⟨h l (List.mem_cons_self ..), feed, ih fun m hm => h m (List.mem_cons_of_mem _ hm)⟩

theorem Import.statement_toList (i : Import) :
    i.statement.toList = "import \x7b ".toList ++ (i.name.toList ++ (" \x7d from '".toList ++
      (i.path.toList ++ ['\'', ';']))) := by
  simp [statement, String.toList_append]

theorem Property.line_toList (p : Property) :
    p.line.toList = (' ' :: ' ' :: (p.externalName.toList ++ if p.isOptional then ['?'] else [])) ++
      ':' :: (' ' :: (p.mappedType.toList ++ [';'])) := by
  cases optional : p.isOptional <;> simp [line, optional, String.toList_append]

/-- What extends the name in the header of an interface. -/
def Interface.extension (i : Interface) : List Char :=
  match i.parent with
  | some parent => if parent = "" then [] else " extends ".toList ++ parent.toList
  | none => []

theorem Interface.extension_of_none {i : Interface} (h : i.parent = none) : i.extension = [] := by
  rw [extension, h]

/-- A parent is named behind the keyword. -/
theorem Interface.extension_of_some {i : Interface} {parent : String} (h : i.parent = some parent)
    (nonempty : parent ≠ "") : i.extension = " extends ".toList ++ parent.toList := by
  rw [extension, h]
  exact if_neg nonempty

/-- The header in parts: keyword, name, extension and brace. -/
theorem Interface.header_toList (i : Interface) :
    i.header.toList = "export interface ".toList ++ (i.name.toList ++ (i.extension ++
      " \x7b".toList)) := by
  have opened : ∀ middle : String, ("export interface " ++ i.name ++ middle ++ " \x7b").toList =
      "export interface ".toList ++ (i.name.toList ++ (middle.toList ++ " \x7b".toList)) := by
    intro middle
    simp only [String.toList_append, List.append_assoc]
  unfold header extension
  rw [opened]
  cases i.parent with
  | none => rfl
  | some parent =>
    dsimp only
    by_cases empty : parent = ""
    · rw [if_pos empty, if_pos empty]
      rfl
    · rw [if_neg empty, if_neg empty, String.toList_append]

end InterfaceGen
