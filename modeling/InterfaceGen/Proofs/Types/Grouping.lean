import InterfaceGen.Proofs.Types.Grammar
import InterfaceGen.Proofs.Types.References

/-!
# How mapped types are read back

A mapped type is a text, and the grammar groups it by its own rules. An array suffix binds to the
operand before it, so behind a union it belongs to the last part of the union alone. `readTree` is
what the text of a translation is read as, and it is the translation itself exactly where no array
has an optional type as its element: `reads_mapType_iff`.
-/

namespace InterfaceGen.Types

open InterfaceGen.Text InterfaceGen.Types.Grammar

namespace Grammar.TypeTree

/-- The type of an absent value. -/
def absent : TypeTree :=
  .reference "undefined" []

def isUnion : TypeTree → Bool
  | .union _ _ => true
  | _ => false

/-- The type with an array suffix behind its text: in a union the suffix belongs to the last part. -/
def suffixed : TypeTree → TypeTree
  | .union left right => .union left (.array right)
  | t => .array t

/-- Only a union is not wrapped as a whole. -/
theorem suffixed_of_not_union {t : TypeTree} (h : t.isUnion = false) : t.suffixed = .array t := by
  cases t with
  | union left right => exact nomatch h
  | reference | array | index => rfl

/-- A suffix makes an array of the whole type exactly if this is no union. -/
theorem suffixed_eq_array_iff {t u : TypeTree} :
    t.suffixed = .array u ↔ t = u ∧ t.isUnion = false := by
  cases t with
  | union left right => exact ⟨fun same => (nomatch same), fun both => (nomatch both.2)⟩
  | reference | array | index =>
    exact ⟨fun same => ⟨TypeTree.array.inj same, rfl⟩, fun both => congrArg TypeTree.array both.1⟩

end Grammar.TypeTree

mutual

/-- The type as the grammar has it: an optional type is a union with `undefined`. -/
def TargetType.tree : TargetType → TypeTree
  | .reference name => .reference name []
  | .generic name arguments => .reference name arguments.trees
  | .array element => .array element.tree
  | .optional value => .union value.tree .absent
  | .index key value => .index key.tree value.tree

def TargetTypes.trees : TargetTypes → List TypeTree
  | .last t => [t.tree]
  | .cons t rest => t.tree :: rest.trees

end

mutual

/-- What the text of the type is read as. -/
def TargetType.readTree : TargetType → TypeTree
  | .reference name => .reference name []
  | .generic name arguments => .reference name arguments.readTrees
  | .array element => element.readTree.suffixed
  | .optional value => .union value.readTree .absent
  | .index key value => .index key.readTree value.readTree

def TargetTypes.readTrees : TargetTypes → List TypeTree
  | .last t => [t.readTree]
  | .cons t rest => t.readTree :: rest.readTrees

end

def TargetType.isOptional : TargetType → Bool
  | .optional _ => true
  | _ => false

mutual

/-- No array in the type has an optional type as its element. -/
def TargetType.KeepsGroups : TargetType → Prop
  | .reference _ => True
  | .generic _ arguments => arguments.KeepsGroups
  | .array element => element.isOptional = false ∧ element.KeepsGroups
  | .optional value => value.KeepsGroups
  | .index key value => key.KeepsGroups ∧ value.KeepsGroups

def TargetTypes.KeepsGroups : TargetTypes → Prop
  | .last t => t.KeepsGroups
  | .cons t rest => t.KeepsGroups ∧ rest.KeepsGroups

end

/-! ## Where the two groupings agree -/

/-- The unions among the trees are the optional types. -/
theorem TargetType.isUnion_tree (t : TargetType) : t.tree.isUnion = t.isOptional := by
  cases t <;> rfl

mutual

/-- A type is read as it was meant exactly if it keeps its groups. -/
theorem TargetType.readTree_eq_tree_iff : (t : TargetType) → (t.readTree = t.tree ↔ t.KeepsGroups)
  | .reference _ => iff_of_true rfl trivial
  | .generic name arguments => by
    simp only [TargetType.readTree, TargetType.tree, TargetType.KeepsGroups,
      TypeTree.reference.injEq, true_and]
    exact arguments.readTrees_eq_trees_iff
  | .array element => by
    rw [TargetType.readTree, TargetType.tree, TargetType.KeepsGroups,
      TypeTree.suffixed_eq_array_iff, ← element.readTree_eq_tree_iff, and_comm]
    refine and_congr_left fun same => ?_
    rw [same, element.isUnion_tree]
  | .optional value => by
    simp only [TargetType.readTree, TargetType.tree, TargetType.KeepsGroups,
      TypeTree.union.injEq, and_true]
    exact value.readTree_eq_tree_iff
  | .index key value => by
    simp only [TargetType.readTree, TargetType.tree, TargetType.KeepsGroups, TypeTree.index.injEq]
    exact and_congr key.readTree_eq_tree_iff value.readTree_eq_tree_iff

theorem TargetTypes.readTrees_eq_trees_iff :
    (as : TargetTypes) → (as.readTrees = as.trees ↔ as.KeepsGroups)
  | .last t => by
    simp only [TargetTypes.readTrees, TargetTypes.trees, TargetTypes.KeepsGroups,
      List.cons.injEq, and_true]
    exact t.readTree_eq_tree_iff
  | .cons t rest => by
    simp only [TargetTypes.readTrees, TargetTypes.trees, TargetTypes.KeepsGroups, List.cons.injEq]
    exact and_congr t.readTree_eq_tree_iff rest.readTrees_eq_trees_iff

end

/-! ## The tokens of a text -/

mutual

/-- The tokens that the text of a type is made of. -/
def TargetType.row : TargetType → List Lexeme
  | .reference name => [.word name.toList]
  | .generic name arguments => .word name.toList :: .mark '<' :: (arguments.row ++ [.mark '>'])
  | .array element => element.row ++ [.mark '[', .mark ']']
  | .optional value => value.row ++ [.mark '|', .word "undefined".toList]
  | .index key value =>
    .mark '\x7b' :: .mark '[' :: .word "key".toList :: .mark ':' ::
      (key.row ++ .mark ']' :: .mark ':' :: (value.row ++ [.mark '\x7d']))

def TargetTypes.row : TargetTypes → List Lexeme
  | .last t => t.row
  | .cons t rest => t.row ++ .mark ',' :: rest.row

end

/-- No name goes on at the beginning of the text. -/
def ClosesWord (rest : List Char) : Prop :=
  ∀ c ∈ rest.head?, isNameChar c = false

/-- A word is one token, up to where no name goes on. -/
theorem tokensFrom_word {name rest : List Char} (h : ∀ c ∈ name, isNameChar c = true)
    (closes : ClosesWord rest) (word : List Char) (nonempty : word ++ name ≠ []) :
    tokensFrom word (name ++ rest) = .word (word ++ name) :: tokensFrom [] rest := by
  induction name generalizing word with
  | nil =>
    rw [List.append_nil] at nonempty ⊢
    cases rest with
    | nil => rw [List.nil_append, tokensFrom, wordLexeme, if_neg nonempty]; rfl
    | cons c rest =>
      have other : ¬ isNameChar c = true := Bool.eq_false_iff.1 (closes c rfl)
      have word' : wordLexeme word = [.word word] := if_neg nonempty
      rw [List.nil_append, tokensFrom, tokensFrom, if_neg other, if_neg other, word']
      split <;> rfl
  | cons c name ih =>
    have here : isNameChar c = true := h c (List.mem_cons_self ..)
    rw [List.cons_append, tokensFrom, if_pos here,
      ih (fun d hd => h d (List.mem_cons_of_mem _ hd)) (word ++ [c]) (by simp), List.append_assoc]
    rfl

theorem IsName.tokensFrom {name : String} (named : IsName name) {rest : List Char}
    (closes : ClosesWord rest) :
    tokensFrom [] (name.toList ++ rest) = .word name.toList :: tokensFrom [] rest :=
  tokensFrom_word (fun _ hc => named.identifier.isNameChar_of_mem hc) closes []
    named.identifier.chars_ne_nil

theorem closesWord_cons {c : Char} (h : isNameChar c = false) (rest : List Char) :
    ClosesWord (c :: rest) := by
  intro d hd
  cases hd
  exact h

mutual

/-- The text of a type is cut into the tokens of the type, whatever closes its last word. -/
theorem TargetType.tokensFrom_text : (t : TargetType) → t.WellNamed → ∀ {rest : List Char},
    ClosesWord rest → tokensFrom [] (t.text.toList ++ rest) = t.row ++ tokensFrom [] rest
  | .reference _, named, _, closes => IsName.tokensFrom named closes
  | .generic name arguments, named, rest, _ => by
    have text : (TargetType.generic name arguments).text.toList ++ rest =
        name.toList ++ '<' :: (arguments.text.toList ++ '>' :: rest) := by
      simp [TargetType.text, String.toList_append]
    have inside := arguments.tokensFrom_text named.2 (closesWord_cons (c := '>') rfl rest)
    rw [text, named.1.tokensFrom (closesWord_cons rfl _)]
    show _ :: .mark '<' :: tokensFrom [] (arguments.text.toList ++ '>' :: rest) = _
    rw [inside, TargetType.row]
    simp only [List.cons_append, List.append_assoc]
    rfl
  | .array element, named, rest, _ => by
    have text : (TargetType.array element).text.toList ++ rest =
        element.text.toList ++ '[' :: ']' :: rest := by
      simp [TargetType.text, String.toList_append]
    have inside := element.tokensFrom_text named (closesWord_cons (c := '[') rfl (']' :: rest))
    rw [text, inside, TargetType.row, List.append_assoc]
    rfl
  | .optional value, named, rest, closes => by
    have text : (TargetType.optional value).text.toList ++ rest =
        value.text.toList ++ ' ' :: '|' :: ' ' :: ("undefined".toList ++ rest) := by
      simp [TargetType.text, String.toList_append]
    have inside := value.tokensFrom_text named
      (closesWord_cons (c := ' ') rfl ('|' :: ' ' :: ("undefined".toList ++ rest)))
    have behind : tokensFrom [] ("undefined".toList ++ rest) =
        .word "undefined".toList :: tokensFrom [] rest :=
      tokensFrom_word (by decide) closes [] (by decide)
    rw [text, inside, TargetType.row, List.append_assoc]
    show _ ++ .mark '|' :: tokensFrom [] ("undefined".toList ++ rest) = _
    rw [behind]
    rfl
  | .index key value, named, rest, _ => by
    have text : (TargetType.index key value).text.toList ++ rest =
        "\x7b [key: ".toList ++ (key.text.toList ++
          ']' :: ':' :: ' ' :: (value.text.toList ++ ' ' :: '\x7d' :: rest)) := by
      simp [TargetType.text, String.toList_append]
    have first := key.tokensFrom_text named.1
      (closesWord_cons (c := ']') rfl (':' :: ' ' :: (value.text.toList ++ ' ' :: '\x7d' :: rest)))
    have second := value.tokensFrom_text named.2
      (closesWord_cons (c := ' ') rfl ('\x7d' :: rest))
    rw [text]
    -- The marks and the fixed word before the key are read one by one.
    show .mark '\x7b' :: .mark '[' :: .word "key".toList :: .mark ':' ::
      tokensFrom [] (key.text.toList ++ _) = _
    rw [first]
    show _ :: _ :: _ :: _ :: (key.row ++ .mark ']' :: .mark ':' ::
      tokensFrom [] (value.text.toList ++ _)) = _
    rw [second, TargetType.row]
    simp only [List.cons_append, List.append_assoc]
    rfl

theorem TargetTypes.tokensFrom_text : (as : TargetTypes) → as.WellNamed → ∀ {rest : List Char},
    ClosesWord rest → tokensFrom [] (as.text.toList ++ rest) = as.row ++ tokensFrom [] rest
  | .last t, named, rest, closes => t.tokensFrom_text named closes
  | .cons t more, named, rest, closes => by
    have text : (TargetTypes.cons t more).text.toList ++ rest =
        t.text.toList ++ ',' :: ' ' :: (more.text.toList ++ rest) := by
      simp [TargetTypes.text, String.toList_append]
    have first := t.tokensFrom_text named.1
      (closesWord_cons (c := ',') rfl (' ' :: (more.text.toList ++ rest)))
    have second := more.tokensFrom_text named.2 closes
    rw [text, first, TargetTypes.row, List.append_assoc]
    show _ ++ .mark ',' :: tokensFrom [] (more.text.toList ++ rest) = _
    rw [second]
    rfl

end

/-- With nothing behind it the tokens of the type are all there are. -/
theorem TargetType.tokens_text {t : TargetType} (named : t.WellNamed) :
    tokens t.text.toList = t.row := by
  have closes : ClosesWord [] := fun _ hc => nomatch hc
  have whole := t.tokensFrom_text named closes
  rw [List.append_nil] at whole
  exact whole.trans (List.append_nil _)

/-! ## What the tokens are read as -/

/-- A row is an operand that is no union, or a union to which an operand was joined last. -/
inductive Ends : List Lexeme → TypeTree → Prop where
  | operand {row : List Lexeme} {t : TypeTree} (h : Derives .operand row t)
    (single : t.isUnion = false) : Ends row t
  | union {row next : List Lexeme} {a b : TypeTree} (left : Derives .whole row a)
    (right : Derives .operand next b) : Ends (row ++ .mark '|' :: next) (.union a b)

/-- Either way the row is a whole type. -/
theorem Ends.whole {row : List Lexeme} {t : TypeTree} (h : Ends row t) : Derives .whole row t := by
  cases h with
  | operand h _ => exact .single h
  | union left right => exact .union left right

/-- An array suffix goes to the last operand. -/
theorem Ends.suffixed {row : List Lexeme} {t : TypeTree} (h : Ends row t) :
    Ends (row ++ [.mark '[', .mark ']']) t.suffixed := by
  cases h with
  | operand h single =>
    rw [TypeTree.suffixed_of_not_union single]
    exact .operand (.array h) rfl
  | union left right =>
    rw [List.append_assoc]
    exact .union left (.array right)

/-- A word alone is an operand. -/
theorem derives_name (name : String) :
    Derives .operand [.word name.toList] (.reference name []) := by
  have named := Derives.name name.toList
  rwa [String.ofList_toList] at named

mutual

/-- The tokens of a type are read as its tree, by induction on the type. -/
theorem TargetType.ends_row : (t : TargetType) → Ends t.row t.readTree
  | .reference name => .operand (derives_name name) rfl
  | .generic name arguments => .operand (.generic (arguments.opened_row name)) rfl
  | .array element => element.ends_row.suffixed
  | .optional value => .union value.ends_row.whole (derives_name "undefined")
  | .index key value => .operand (.index "key".toList key.ends_row.whole value.ends_row.whole) rfl

/-- The tokens of arguments are read as their trees behind an opening bracket. -/
theorem TargetTypes.opened_row : (as : TargetTypes) → (name : String) →
    Derives .opened (.word name.toList :: .mark '<' :: as.row) (.reference name as.readTrees)
  | .last t, name => by
    have opened := Derives.first name.toList t.ends_row.whole
    rwa [String.ofList_toList] at opened
  | .cons t rest, name => by
    have opened := Derives.first name.toList t.ends_row.whole
    rw [String.ofList_toList] at opened
    exact rest.further_row opened

/-- More arguments behind those that were read. -/
theorem TargetTypes.further_row : (as : TargetTypes) → ∀ {front : List Lexeme} {name : String}
    {before : List TypeTree}, Derives .opened front (.reference name before) →
    Derives .opened (front ++ .mark ',' :: as.row) (.reference name (before ++ as.readTrees))
  | .last t, _, _, _, opened => .further opened t.ends_row.whole
  | .cons t rest, front, name, before, opened => by
    have both := rest.further_row (.further opened t.ends_row.whole)
    rw [List.append_assoc, List.append_assoc] at both
    exact both

end

/-- The text of a translation has one reading. -/
theorem TargetType.reads_text_iff {t : TargetType} (named : t.WellNamed) {u : TypeTree} :
    Reads t.text u ↔ u = t.readTree := by
  have reads : Reads t.text t.readTree := by
    rw [Reads, tokens_text named]
    exact t.ends_row.whole
  constructor
  · exact fun h => h.unique reads
  · rintro rfl
    exact reads

/-- The mapped text of a type has exactly one reading, and it is the structural translation of the
type if and only if no array in the translation has an optional type as its element. -/
theorem reads_mapType_iff (types : TypeSystem) (maps : types.MapsToNames) (t : JavaType) :
    (∃! u, Reads (types.mapType t.toString) u) ∧
      (Reads (types.mapType t.toString) (t.translation types).tree ↔
        (t.translation types).KeepsGroups) := by
  have named := t.wellNamed_translation maps
  rw [t.mapType_toString]
  constructor
  · exact ⟨_, (TargetType.reads_text_iff named).2 rfl,
      fun u hu => (TargetType.reads_text_iff named).1 hu⟩
  · rw [TargetType.reads_text_iff named, ← TargetType.readTree_eq_tree_iff]
    exact eq_comm

/-- The type `Optional<Map<String, List<Item[]>>>`, which is kept as it is. -/
def JavaType.optionalMapOfLists : JavaType :=
  .generic ⟨"Optional".toList, Eq.refl true⟩ (.last (.exactly
    (.generic ⟨"Map".toList, Eq.refl true⟩
      (.cons (.exactly (.name ⟨"String".toList, Eq.refl true⟩)) (.last (.exactly
        (.generic ⟨"List".toList, Eq.refl true⟩ (.last (.exactly
          (.array (.name ⟨"Item".toList, Eq.refl true⟩)))))))))))

/-- No array in its translation holds an optional type, and so it is read as the translation. -/
theorem reads_optionalMapOfLists :
    TypeSystem.standard.MapsToNames ∧
      Reads (TypeSystem.standard.mapType JavaType.optionalMapOfLists.toString)
        (.union (.index (.reference "string" []) (.array (.array (.reference "Item" [])))) .absent) := by
  have maps := isPlain_standard.mapsToNames
  have shape : JavaType.optionalMapOfLists.translation .standard =
      .optional (.index (.reference "string") (.array (.array (.reference "Item")))) := rfl
  obtain ⟨-, iff⟩ := reads_mapType_iff .standard maps JavaType.optionalMapOfLists
  rw [shape] at iff
  exact ⟨maps, iff.2 ⟨trivial, rfl, rfl, trivial⟩⟩

/-- The type `List<Optional<String>>`. -/
def JavaType.listOfOptionals : JavaType :=
  .generic ⟨"List".toList, Eq.refl true⟩ (.last (.exactly
    (.generic ⟨"Optional".toList, Eq.refl true⟩ (.last (.exactly
      (.name ⟨"String".toList, Eq.refl true⟩))))))

/-- A list of optional texts is read as a text or a list of absent values. -/
theorem listOfOptionals_regrouped :
    TypeSystem.standard.mapType JavaType.listOfOptionals.toString = "string | undefined[]" ∧
      (JavaType.listOfOptionals.translation .standard).tree =
        .array (.union (.reference "string" []) .absent) ∧
      Reads "string | undefined[]" (.union (.reference "string" []) (.array .absent)) ∧
      ¬ Reads "string | undefined[]" (.array (.union (.reference "string" []) .absent)) := by
  have shape : JavaType.listOfOptionals.translation .standard =
      .array (.optional (.reference "string")) := rfl
  have text : (TargetType.array (.optional (.reference "string"))).text = "string | undefined[]" := by
    decide
  have read : ∀ u, Reads "string | undefined[]" u ↔
      u = .union (.reference "string" []) (.array .absent) := by
    intro u
    have named : (TargetType.array (.optional (.reference "string"))).WellNamed := by
      show isHeadedBy _ _ _ = true
      decide
    rw [← text]
    exact TargetType.reads_text_iff named
  refine ⟨?_, by rw [shape]; rfl, (read _).2 rfl, fun grouped => ?_⟩
  · rw [JavaType.mapType_toString, shape]
    exact text
  · exact nomatch (read _).1 grouped

end InterfaceGen.Types
