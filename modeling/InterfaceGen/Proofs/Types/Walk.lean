import InterfaceGen.Proofs.Types.Target
import InterfaceGen.Types.Dependencies

/-!
# Walking through the text of a type

A walk through a text notes class names that are not built in. Through the canonical text of a
declared type it notes the names in the type; through the text of a translation it notes the names
outside unions and index signatures, which it passes over.
-/

namespace InterfaceGen.TypeSystem

open InterfaceGen.Text InterfaceGen.Types

variable (types : TypeSystem)

/-- Does a declaration that refers to this name depend on it? -/
def isDependency (name : String) : Bool :=
  isClassName name.toList && !types.isBuiltIn name

/-- The names with one more, if it is a dependency that is not among them. -/
def note (known : List String) (name : String) : List String :=
  if types.isDependency name then record known name else known

theorem mem_record {known : List String} {name n : String} :
    n ∈ record known name ↔ n ∈ known ∨ n = name := by
  rw [record]
  split
  · next present =>
    constructor
    · exact .inl
    · rintro (old | rfl)
      · exact old
      · exact List.contains_iff_mem.1 present
  · rw [List.mem_append, List.mem_singleton]

theorem nodup_record {known : List String} (h : known.Nodup) (name : String) :
    (record known name).Nodup := by
  rw [record]
  split
  · exact h
  · next absent =>
    rw [List.contains_iff_mem] at absent
    rw [List.nodup_append]
    refine ⟨h, List.pairwise_singleton _ name, ?_⟩
    rintro a ha b hb rfl
    exact absent (List.mem_singleton.1 hb ▸ ha)

variable {types}

/-- Noting adds the name if it is a dependency. -/
theorem mem_note {known : List String} {name n : String} :
    n ∈ types.note known name ↔ n ∈ known ∨ n = name ∧ types.isDependency n = true := by
  rw [note]
  split
  · next dependency =>
    rw [mem_record]
    constructor
    · exact Or.imp_right fun same => ⟨same, same ▸ dependency⟩
    · exact Or.imp_right And.left
  · next other =>
    constructor
    · exact .inl
    · rintro (old | ⟨rfl, dependency⟩)
      · exact old
      · exact absurd dependency other

/-- Noting names adds those among them that are dependencies. -/
theorem mem_foldl_note {names known : List String} {n : String} :
    n ∈ names.foldl types.note known ↔ n ∈ known ∨ n ∈ names ∧ types.isDependency n = true := by
  induction names generalizing known with
  | nil => simp
  | cons name names ih =>
    rw [List.foldl_cons, ih, mem_note, List.mem_cons, or_assoc, or_and_right]

/-- Each of them is noted once. -/
theorem nodup_foldl_note {names known : List String} (h : known.Nodup) :
    (names.foldl types.note known).Nodup := by
  induction names generalizing known with
  | nil => exact h
  | cons name names ih =>
    refine ih ?_
    rw [note]
    split
    · exact nodup_record h name
    · exact h

/-! ## One layer of a walk -/

/-- A walk through several texts, one after the other. -/
def collectEach (types : TypeSystem) (texts : List (List Char)) (known : List String) :
    List String :=
  texts.foldl (fun known text => types.collectPlain text known) known

theorem foldl_attach_collectPlain (texts : List (List Char)) (known : List String) :
    texts.attach.foldl (fun known text => types.collectPlain text.1 known) known =
      types.collectEach texts known :=
  List.foldl_attach (f := fun known text => types.collectPlain text known)

/-- The walk through a text, layer by layer. -/
theorem collectPlain_eq (text : List Char) (known : List String) :
    types.collectPlain text known =
      if (trim text).isEmpty ∨ types.isBuiltIn (String.ofList (trim text)) then known
      else match arrayElement? (trim text) with
        | some element => types.collectPlain element known
        | none =>
          if '<' ∈ trim text then
            match generic? (trim text) with
            | some (container, arguments) =>
              types.collectEach (splitArguments arguments)
                (types.note known (String.ofList container))
            | none => known
          else if ',' ∈ trim text then
            types.collectEach (cutAt ',' (trim text)) known
          else types.note known (String.ofList (trim text)) := by
  rw [collectPlain]
  split
  · rfl
  · next closed =>
    split
    · next element ha => simp only [ha]
    · next ha =>
      simp only [ha]
      split
      · split
        · next container arguments hg =>
          simp only [hg, note, isDependency, String.toList_ofList, Bool.and_eq_true]
          exact foldl_attach_collectPlain _ _
        · next hg => simp only [hg]
      · split
        · exact foldl_attach_collectPlain _ _
        -- A name that is built in was left out at the beginning.
        · have unknown : types.isBuiltIn (String.ofList (trim text)) = false :=
            Bool.eq_false_iff.2 fun known => closed (.inr known)
          simp only [note, isDependency, String.toList_ofList, unknown, Bool.not_false, Bool.and_true]

/-- A built-in name is made of name characters. -/
theorem IsPlain.isBuiltIn_eq_false (plain : types.IsPlain) {text : List Char} {c : Char}
    (hc : c ∈ text) (other : isNameChar c = false) :
    types.isBuiltIn (String.ofList text) = false := by
  apply Bool.eq_false_iff.2
  intro known
  have name := plain.isName known
  have inside : c ∈ name.identifier.chars := by
    show c ∈ (String.ofList text).toList
    rwa [String.toList_ofList]
  exact ne_of_isNameChar (name.identifier.isNameChar_of_mem inside) other rfl

/-- One layer of the walk through a text that can be an argument. -/
theorem collectPlain_of_isArgument {text : List Char} (h : IsArgument text)
    (new : types.isBuiltIn (String.ofList text) = false) (known : List String) :
    types.collectPlain text known =
      match arrayElement? text with
      | some element => types.collectPlain element known
      | none =>
        if '<' ∈ text then
          match generic? text with
          | some (container, arguments) =>
            types.collectEach (splitArguments arguments)
              (types.note known (String.ofList container))
          | none => known
        else if ',' ∈ text then types.collectEach (cutAt ',' text) known
        else types.note known (String.ofList text) := by
  have open' : ¬ (text.isEmpty = true ∨ types.isBuiltIn (String.ofList text) = true) := by
    rw [new, List.isEmpty_iff]
    rintro (empty | builtIn)
    · exact h.nonempty empty
    · exact Bool.noConfusion builtIn
  rw [collectPlain_eq, trim_of_isTrimmed h.trimmed, if_neg open']

/-- A name is noted. -/
theorem collectPlain_name (n : Identifier) (known : List String) :
    types.collectPlain n.chars known = types.note known n.toString := by
  by_cases builtIn : types.isBuiltIn n.toString = true
  · have other : types.isDependency n.toString = false := by
      rw [isDependency, builtIn, Bool.not_true, Bool.and_false]
    rw [collectPlain_eq, trim_of_isTrimmed n.isArgument.trimmed, if_pos (.inr builtIn), note, other]
    rfl
  · have new := Bool.eq_false_iff.2 builtIn
    have absent : ∀ c, isNameChar c = false → c ∉ n.chars := by
      intro c other hc
      exact ne_of_isNameChar (n.isNameChar_of_mem hc) other rfl
    rw [collectPlain_of_isArgument n.isArgument new, n.arrayElement?_chars]
    simp only [if_neg (absent '<' rfl), if_neg (absent ',' rfl)]
    rfl

/-- In an array the element is walked through. -/
theorem collectPlain_array (plain : types.IsPlain) {element : List Char} (h : IsArgument element)
    (known : List String) :
    types.collectPlain (element ++ ['[', ']']) known = types.collectPlain element known := by
  have inside : '[' ∈ element ++ ['[', ']'] := by simp
  have new := plain.isBuiltIn_eq_false inside rfl
  rw [collectPlain_of_isArgument h.array new, arrayElement?_append]

/-- In a generic type the container is noted, and the arguments are walked through. -/
theorem collectPlain_generic (plain : types.IsPlain) (container : Identifier)
    {texts : List (List Char)} (nonempty : texts ≠ []) (h : ∀ text ∈ texts, IsArgument text)
    (known : List String) :
    types.collectPlain (container.chars ++ '<' :: ([',', ' '].intercalate texts ++ ['>'])) known =
      types.collectEach texts (types.note known container.toString) := by
  have opened : '<' ∈ container.chars ++ '<' :: ([',', ' '].intercalate texts ++ ['>']) := by simp
  have new := plain.isBuiltIn_eq_false opened rfl
  rw [collectPlain_of_isArgument (container.isArgument_generic h) new,
    arrayElement?_generic, container.generic?_generic nonempty h]
  simp only [if_pos opened, splitArguments_intercalate h]
  rfl

/-- The walk passes over a text that is no name, no array and no generic type. -/
theorem collectPlain_opaque (plain : types.IsPlain) {text : List Char} (h : IsTarget text)
    {c : Char} (hc : c ∈ text) (other : isNameChar c = false) (array : arrayElement? text = none)
    (generic : generic? text = none) (known : List String) :
    types.collectPlain text known = known := by
  have new := plain.isBuiltIn_eq_false hc other
  rw [collectPlain_of_isArgument h.toIsArgument new, array, generic]
  by_cases opened : '<' ∈ text
  · simp only [if_pos opened]
  · have comma : ',' ∉ text := fun hm => opened (h.bracketed hm)
    have noName : isClassName text = false := by
      rw [isClassName_of_isTrimmed h.trimmed]
      apply Bool.eq_false_iff.2
      intro name
      exact ne_of_isNameChar (isNameChar_of_className name c hc) other rfl
    simp only [if_neg opened, if_neg comma, note, isDependency, String.toList_ofList, noName,
      Bool.false_and]
    rfl

end InterfaceGen.TypeSystem

namespace InterfaceGen.Types

open InterfaceGen.Text TypeSystem

variable {types : TypeSystem}

/-! ## The walk through a declared text -/

mutual

/-- The walk through the text of a type notes the names in it, from left to right. -/
theorem JavaType.collectPlain_text (plain : types.IsPlain) :
    (t : JavaType) → ∀ known,
      types.collectPlain t.text known = t.names.foldl types.note known
  | .name n => TypeSystem.collectPlain_name n
  | .array element => by
    intro known
    rw [JavaType.text, collectPlain_array plain element.isArgument_text]
    exact element.collectPlain_text plain known
  | .generic container arguments => by
    intro known
    rw [JavaType.text_generic, collectPlain_generic plain container arguments.texts_ne_nil
      arguments.isArgument_texts]
    exact arguments.collectEach_texts plain _

theorem TypeArguments.collectEach_texts (plain : types.IsPlain) :
    (as : TypeArguments) → ∀ known,
      types.collectEach as.texts known = as.names.foldl types.note known
  | .last argument => argument.collectPlain_text plain
  | .cons argument rest => by
    intro known
    rw [TypeArguments.names, List.foldl_append, ← argument.collectPlain_text plain]
    exact rest.collectEach_texts plain _

theorem TypeArgument.collectPlain_text (plain : types.IsPlain) :
    (a : TypeArgument) → ∀ known,
      types.collectPlain a.text known = a.names.foldl types.note known
  | .exactly t => t.collectPlain_text plain
  | .wildcard => TypeSystem.collectPlain_name .object
  | .bounded _ t => t.collectPlain_text plain

end

/-! ## The walk through a mapped text -/

mutual

/-- The names that a walk through the type meets; it enters neither unions nor index signatures. -/
def TargetType.visited : TargetType → List String
  | .reference name => [name]
  | .generic name arguments => name :: arguments.visited
  | .array element => element.visited
  | .optional _ => []
  | .index _ _ => []

def TargetTypes.visited : TargetTypes → List String
  | .last t => t.visited
  | .cons t rest => t.visited ++ rest.visited

end

theorem TargetTypes.texts_ne_nil (as : TargetTypes) : as.texts.map String.toList ≠ [] := by
  cases as <;> exact List.cons_ne_nil _ _

/-- A union is passed over. -/
theorem IsTarget.collectPlain_optional (plain : types.IsPlain) {value : List Char}
    (h : IsTarget value) (known : List String) :
    types.collectPlain (value ++ " | undefined".toList) known = known := by
  have last : (value ++ " | undefined".toList).getLast? = some 'd' := by
    rw [List.getLast?_append]
    rfl
  have bar : '|' ∈ value ++ " | undefined".toList := List.mem_append_right _ (by decide)
  apply collectPlain_opaque plain h.optional bar rfl
  · apply arrayElement?_of_last
    rw [last]
    rintro c ⟨⟩
    decide
  · apply generic?_of_last h.optional.trimmed
    rw [last]
    rintro c ⟨⟩
    decide

/-- So is an index signature. -/
theorem IsTarget.collectPlain_index (plain : types.IsPlain) {key value : List Char}
    (hk : IsTarget key) (hv : IsTarget value) (known : List String) :
    types.collectPlain
        ("\x7b [key: ".toList ++ (key ++ ("]: ".toList ++ (value ++ " \x7d".toList)))) known =
      known := by
  have whole := hk.index hv
  have brace : '\x7b' ∈ "\x7b [key: ".toList ++ (key ++ ("]: ".toList ++ (value ++ " \x7d".toList))) :=
    List.mem_append_left _ (by decide)
  apply collectPlain_opaque plain whole brace rfl
  · apply arrayElement?_of_last
    intro c hc
    simp only [List.getLast?_append] at hc
    cases hc
    decide
  · apply generic?_of_behind whole.trimmed
    rintro c ⟨⟩
    decide

mutual

/-- The walk through the text of a translation notes what it visits. -/
theorem TargetType.collectPlain_text (plain : types.IsPlain) :
    (t : TargetType) → t.WellNamed → ∀ known,
      types.collectPlain t.text.toList known = t.visited.foldl types.note known
  | .reference name, h => by
    intro known
    have walked := @collectPlain_name types h.identifier known
    rw [h.toString_identifier] at walked
    exact walked
  | .generic name as, h => by
    intro known
    have texts := fun text ht => (as.isTarget_texts h.2 text ht).toIsArgument
    have walked := collectPlain_generic plain h.1.identifier as.texts_ne_nil texts known
    rw [h.1.toString_identifier, as.collectEach_texts plain h.2] at walked
    rw [TargetType.toList_generic]
    exact walked
  | .array element, h => by
    intro known
    rw [TargetType.text, String.toList_append]
    refine (collectPlain_array plain (element.isTarget_text h).toIsArgument known).trans ?_
    exact element.collectPlain_text plain h known
  | .optional value, h => by
    intro known
    rw [TargetType.text, String.toList_append]
    exact (value.isTarget_text h).collectPlain_optional plain known
  | .index key value, h => by
    intro known
    rw [TargetType.text]
    simp only [String.toList_append, List.append_assoc]
    exact (key.isTarget_text h.1).collectPlain_index plain (value.isTarget_text h.2) known

theorem TargetTypes.collectEach_texts (plain : types.IsPlain) :
    (as : TargetTypes) → as.WellNamed → ∀ known,
      types.collectEach (as.texts.map String.toList) known = as.visited.foldl types.note known
  | .last t, h => t.collectPlain_text plain h
  | .cons t rest, h => by
    intro known
    rw [TargetTypes.visited, List.foldl_append, ← t.collectPlain_text plain h.1]
    exact rest.collectEach_texts plain h.2 _

end

end InterfaceGen.Types
