import InterfaceGen.Proofs.Types.Pieces
import InterfaceGen.Proofs.Types.Walk

/-!
# The layers of a type text

The mapping and the walk take a type text apart layer by layer. `Layer.ofText` is the outer layer as
the mapping sees it and `visit` as the walk does; each lists the parts that are taken on in their
turn. Replacing wildcards can make a text longer, but no part holds a wildcard, and each is shorter
than the text without wildcards that it was taken from. So the length of that text bounds how deep
the calls nest: `walks_within`.
-/

namespace InterfaceGen.Types

open InterfaceGen.Text

/-- The outer layer of a type text without wildcards. -/
inductive Layer where
  | blank
  | array (element : List Char)
  | generic (container : List Char) (arguments : List (List Char))
  | name (text : List Char)

namespace Layer

/-- The layer that the mapping takes off. -/
def ofText (text : List Char) : Layer :=
  if (trim text).isEmpty then .blank
  else match arrayElement? (trim text) with
    | some element => .array element
    | none => match generic? (trim text) with
      | some (container, arguments) => .generic container (splitArguments arguments)
      | none => .name (trim text)

/-- The texts that are mapped in their turn. -/
def parts : Layer → List (List Char)
  | .blank => []
  | .array element => [element]
  | .generic _ arguments => arguments
  | .name _ => []

/-- The TypeScript text of the layer around its mapped parts. -/
def write (types : TypeSystem) : Layer → List String → String
  | .blank, _ => "any"
  | .array _, elements => String.join elements ++ "[]"
  | .generic container _, arguments => TypeSystem.writeGeneric (String.ofList container) arguments
  | .name text, _ => types.plainName (String.ofList text)

@[simp]
theorem write_array (types : TypeSystem) (element : List Char) (item : String) :
    (array element).write types [item] = item ++ "[]" := by
  simp [write]

end Layer

/-- The forms that a text with a certain outer layer can have. -/
inductive HasLayer (text : List Char) : Layer → Prop where
  | blank (h : trim text = []) : HasLayer text .blank
  | array {element : List Char} (h : trim text = element ++ ['[', ']']) :
    HasLayer text (.array element)
  | generic {container gap inner : List Char}
    (h : trim text = container ++ (gap ++ '<' :: (inner ++ ['>']))) (named : container ≠ [])
    (name : ∀ c ∈ container, isNameChar c = true) (blank : ∀ c ∈ gap, isBlank c = true) :
    HasLayer text (.generic container (splitArguments (trim inner)))
  | name (filled : trim text ≠ []) (array : arrayElement? (trim text) = none)
    (generic : generic? (trim text) = none) : HasLayer text (.name (trim text))

/-- Every text has the form that its layer stands for. -/
theorem hasLayer (text : List Char) : HasLayer text (Layer.ofText text) := by
  unfold Layer.ofText
  split
  · next empty => exact .blank (List.isEmpty_iff.1 empty)
  · next filled =>
    split
    · next element array => exact .array (arrayElement?_eq_some.1 array)
    · next array =>
      split
      · next container arguments generic =>
        obtain ⟨gap, inner, same, named, name, blank, rfl⟩ := generic?_eq_some generic
        rw [trim_trim] at same
        exact .generic same named name blank
      · next generic => exact .name (fun empty => filled (List.isEmpty_iff.2 empty)) array generic

/-! ## Parts of a text -/

/-- A piece that is shorter than the text that it stands in. -/
structure IsPart (part text : List Char) : Prop where
  shorter : part.length < text.length
  piece : IsPiece part text

namespace IsPart

variable {text part : List Char}

/-- The element of an array. -/
theorem arrayElement? (h : arrayElement? (trim text) = some part) : IsPart part text where
  shorter := Nat.lt_of_lt_of_le (length_lt_of_arrayElement? h) (length_trim_le text)
  piece := (IsPiece.arrayElement? h).trans (.trim text)

/-- An argument of a generic type. -/
theorem argument {container arguments : List Char}
    (h : generic? (trim text) = some (container, arguments))
    (member : part ∈ splitArguments arguments) : IsPart part text where
  shorter := by
    have whole := length_trim_le text
    have less := length_lt_of_generic? h
    have least := length_le_of_mem_splitArguments member
    omega
  piece := by
    obtain ⟨-, argued⟩ := IsPiece.generic? h
    exact (isPiece_of_mem_splitArguments member).trans (argued.trans (.trim text))

/-- A piece between commas. -/
theorem member (comma : ',' ∈ trim text) (member : part ∈ cutAt ',' (trim text)) :
    IsPart part text where
  shorter := Nat.lt_of_lt_of_le (length_lt_of_mem_cutAt comma member) (length_trim_le text)
  piece := (isPiece_of_mem_cutAt (by decide) member).trans (.trim text)

/-- Wildcards are replaced before the first part is taken; there are none to replace in a part. -/
theorem length_stripChars {whole : List Char} (h : IsPart part (Wildcard.stripChars whole)) :
    (Wildcard.stripChars part).length < (Wildcard.stripChars whole).length ∧
      Wildcard.stripChars part = part := by
  have bare : Wildcard.stripChars part = part :=
    stripChars_of_notMem fun there => Wildcard.not_mem_stripChars whole (h.piece.subset there)
  exact ⟨bare.symm ▸ h.shorter, bare⟩

/-- What holds of a text as soon as it holds of all its parts holds of all texts. -/
theorem induction {motive : List Char → Prop}
    (step : ∀ text, (∀ part, IsPart part text → motive part) → motive text) (text : List Char) :
    motive text := by
  induction h : text.length using Nat.strongRecOn generalizing text with
  | ind n ih =>
    subst h
    exact step text fun part inside => ih part.length inside.shorter part rfl

end IsPart

namespace Layer

/-- What the mapping goes on with are parts of the text. -/
theorem isPart_of_mem_parts {text part : List Char} (h : part ∈ (ofText text).parts) :
    IsPart part text := by
  unfold ofText at h
  split at h
  · exact absurd h List.not_mem_nil
  · split at h
    · next element array =>
      obtain rfl := List.mem_singleton.1 h
      exact .arrayElement? array
    · split at h
      · next container arguments generic => exact .argument generic h
      · exact absurd h List.not_mem_nil

/-- Induction along the layers that the mapping takes off. -/
theorem induction {motive : List Char → Prop}
    (step : ∀ text, (∀ part ∈ (ofText text).parts, motive part) → motive text) (text : List Char) :
    motive text :=
  IsPart.induction (fun text ih => step text fun part member => ih part (isPart_of_mem_parts member))
    text

end Layer

/-- The mapping writes the layer around its mapped parts. -/
theorem mapPlain_layer (types : TypeSystem) (text : List Char) :
    types.mapPlain text =
      (Layer.ofText text).write types ((Layer.ofText text).parts.map types.mapPlain) := by
  rw [mapPlain_eq, Layer.ofText]
  by_cases blank : (trim text).isEmpty = true
  · rw [if_pos blank, if_pos blank]
    rfl
  · rw [if_neg blank, if_neg blank]
    cases arrayElement? (trim text) with
    | some element => simp [Layer.write, Layer.parts]
    | none => cases generic? (trim text) <;> rfl

/-- What holds of all mapped texts: of `any`, of what is made of mapped texts, and of names. -/
theorem mapPlain_induction {types : TypeSystem} {motive : String → Prop} {inside : Char → Prop}
    (any : motive "any") (array : ∀ item, motive item → motive (item ++ "[]"))
    (generic : ∀ container arguments, (∀ c ∈ container.toList, inside c) →
      (∀ argument ∈ arguments, motive argument) →
        motive (TypeSystem.writeGeneric container arguments))
    (name : ∀ text : String, (∀ c ∈ text.toList, inside c) → motive (types.plainName text))
    {text : List Char} (h : ∀ c ∈ text, inside c) : motive (types.mapPlain text) := by
  induction text using Layer.induction with
  | step text ih =>
    -- The parts hold no other characters than the text.
    have parts : ∀ part ∈ (Layer.ofText text).parts, motive (types.mapPlain part) :=
      fun part member => ih part member fun c hc =>
        h c ((Layer.isPart_of_mem_parts member).piece.subset hc)
    have trimmed : ∀ c ∈ trim text, inside c := fun c hc => h c (mem_of_mem_trim hc)
    have outer := hasLayer text
    rw [mapPlain_layer]
    generalize Layer.ofText text = layer at outer parts ⊢
    cases outer with
    | blank => exact any
    | array =>
      rw [Layer.parts, List.map_singleton, Layer.write_array]
      exact array _ (parts _ (List.mem_singleton_self _))
    | generic whole =>
      refine generic _ _ (fun c hc => ?_) (List.forall_mem_map.2 parts)
      rw [String.toList_ofList] at hc
      exact trimmed c (by simp [whole, hc])
    | name =>
      refine name _ fun c hc => ?_
      rw [String.toList_ofList] at hc
      exact trimmed c hc

/-! ## What is written is never empty -/

/-- A generic type is never written as the empty text. -/
theorem writeGeneric_ne_empty (container : String) (arguments : List String) :
    TypeSystem.writeGeneric container arguments ≠ "" := by
  have behind : ∀ first second : String, second ≠ "" → first ++ second ≠ "" := by
    intro first second filled empty
    exact filled (String.append_eq_empty_iff.1 empty).2
  have spelled : TypeSystem.spellGeneric container arguments ≠ "" := behind _ _ (by decide)
  rcases writeGeneric_cases container arguments with
    ⟨item, -, same | same⟩ | ⟨key, value, -, same⟩ | same
  · rw [same]
    exact behind _ _ (by decide)
  · rw [same]
    exact behind _ _ (by decide)
  · rw [same]
    exact behind _ _ (by decide)
  · rw [same]
    exact spelled

/-- Nor is a name. -/
theorem plainName_ne_empty (types : TypeSystem) {name : String} (h : name ≠ "") :
    types.plainName name ≠ "" := by
  rcases plainName_cases types name with same | ⟨entry, -, -, filled, same⟩
  · rw [same]
    exact h
  · rw [same]
    exact filled

/-- No text is mapped to the empty text. -/
theorem mapPlain_ne_empty (types : TypeSystem) (text : List Char) : types.mapPlain text ≠ "" := by
  rw [mapPlain_layer]
  have outer := hasLayer text
  generalize Layer.ofText text = layer at outer ⊢
  cases outer with
  | blank =>
    show "any" ≠ ""
    decide
  | array => exact fun empty => absurd (String.append_eq_empty_iff.1 empty).2 (by decide)
  | generic => exact writeGeneric_ne_empty _ _
  | name filled =>
    apply plainName_ne_empty
    intro empty
    apply filled
    rw [← String.toList_ofList (l := trim text), empty]
    rfl

end InterfaceGen.Types

namespace InterfaceGen.TypeSystem

open InterfaceGen.Text InterfaceGen.Types

variable {types : TypeSystem}

/-! ## Walks -/

/-- What a walk does at a text: it notes a name or none, and goes on with the parts. -/
structure Visit where
  noted : Option String
  parts : List (List Char)

/-- What a walk does at a text without wildcards. -/
def visit (types : TypeSystem) (text : List Char) : Visit :=
  if (trim text).isEmpty ∨ types.isBuiltIn (String.ofList (trim text)) then ⟨none, []⟩
  else match arrayElement? (trim text) with
    | some element => ⟨none, [element]⟩
    | none =>
      if '<' ∈ trim text then
        match generic? (trim text) with
        | some (container, arguments) => ⟨some (String.ofList container), splitArguments arguments⟩
        | none => ⟨none, []⟩
      else if ',' ∈ trim text then ⟨none, cutAt ',' (trim text)⟩
      else ⟨some (String.ofList (trim text)), []⟩

/-- The names with the one that a visit notes. -/
def noteVisited (types : TypeSystem) (visit : Visit) (known : List String) : List String :=
  match visit.noted with
  | some name => types.note known name
  | none => known

theorem noteVisited_eq (types : TypeSystem) (visit : Visit) (known : List String) :
    types.noteVisited visit known = visit.noted.toList.foldl types.note known := by
  unfold noteVisited
  cases visit.noted <;> rfl

/-- A walk notes what it visits, and goes on with the parts in their order. -/
theorem collectPlain_visit (types : TypeSystem) (text : List Char) (known : List String) :
    types.collectPlain text known =
      types.collectEach (types.visit text).parts (types.noteVisited (types.visit text) known) := by
  rw [collectPlain_eq, visit]
  by_cases closed : (trim text).isEmpty = true ∨ types.isBuiltIn (String.ofList (trim text)) = true
  · rw [if_pos closed, if_pos closed]
    rfl
  · rw [if_neg closed, if_neg closed]
    cases arrayElement? (trim text) with
    | some element => rfl
    | none =>
      by_cases opened : '<' ∈ trim text
      · simp only [if_pos opened]
        cases generic? (trim text) <;> rfl
      · simp only [if_neg opened]
        by_cases comma : ',' ∈ trim text
        · simp only [if_pos comma]
          rfl
        · simp only [if_neg comma]
          rfl

/-- What a walk goes on with are parts of the text. -/
theorem isPart_of_mem_visit {text part : List Char} (h : part ∈ (types.visit text).parts) :
    IsPart part text := by
  unfold visit at h
  split at h
  · exact absurd h List.not_mem_nil
  · split at h
    · next element array =>
      obtain rfl := List.mem_singleton.1 h
      exact .arrayElement? array
    · split at h
      · split at h
        · next container arguments generic => exact .argument generic h
        · exact absurd h List.not_mem_nil
      · split at h
        · next comma => exact .member comma h
        · exact absurd h List.not_mem_nil

/-- What it notes is a whole word of the text. -/
theorem isPiece_of_noted {text : List Char} {name : String}
    (h : name ∈ (types.visit text).noted) : IsPiece name.toList text := by
  unfold visit at h
  split at h
  · cases h
  · split at h
    · cases h
    · split at h
      · split at h
        · next container arguments generic =>
          cases h
          rw [String.toList_ofList]
          exact (IsPiece.generic? generic).1.trans (.trim text)
        · cases h
      · split at h
        · cases h
        · cases h
          rw [String.toList_ofList]
          exact .trim text

/-! ## Calls within a bound -/

/-- The mapping with at most this many calls open at a time; `none` where it would need more. As
wildcards may stand in the text, each call replaces them. -/
def mapWithin (types : TypeSystem) : Nat → List Char → Option String
  | 0, _ => none
  | depth + 1, text =>
    let layer := Layer.ofText (Wildcard.stripChars text)
    (layer.parts.mapM (mapWithin types depth)).map (layer.write types)

/-- The walk with at most this many calls open at a time. -/
def collectWithin (types : TypeSystem) : Nat → List Char → List String → Option (List String)
  | 0, _, _ => none
  | depth + 1, text, known =>
    let visit := types.visit (Wildcard.stripChars text)
    visit.parts.foldlM (fun known part => collectWithin types depth part known)
      (types.noteVisited visit known)

/-- If each call returns, all of them in a row do. -/
theorem mapM_eq_some {α β : Type} {f : α → Option β} {g : α → β} {list : List α}
    (h : ∀ a ∈ list, f a = some (g a)) : list.mapM f = some (list.map g) := by
  induction list with
  | nil => rfl
  | cons a list ih =>
    obtain ⟨here, later⟩ := List.forall_mem_cons.1 h
    rw [List.mapM_cons, here, ih later]
    rfl

/-- So they do where each takes the result of the one before. -/
theorem foldlM_eq_some {α σ : Type} {f : σ → α → Option σ} {g : σ → α → σ} {list : List α}
    (h : ∀ a ∈ list, ∀ s, f s a = some (g s a)) (s : σ) :
    list.foldlM f s = some (list.foldl g s) := by
  induction list generalizing s with
  | nil => rfl
  | cons a list ih =>
    obtain ⟨here, later⟩ := List.forall_mem_cons.1 h
    rw [List.foldlM_cons, here]
    exact ih later (g s a)

variable {depth : Nat} {text : List Char}

/-- As many open calls as the text without wildcards has characters, and one more, are enough. -/
theorem mapWithin_eq (h : (Wildcard.stripChars text).length < depth) :
    types.mapWithin depth text = some (types.mapPlain (Wildcard.stripChars text)) := by
  induction depth generalizing text with
  | zero => exact absurd h (Nat.not_lt_zero _)
  | succ depth ih =>
    have parts : ∀ part ∈ (Layer.ofText (Wildcard.stripChars text)).parts,
        types.mapWithin depth part = some (types.mapPlain part) := by
      intro part member
      obtain ⟨shorter, bare⟩ := (Layer.isPart_of_mem_parts member).length_stripChars
      have mapped : types.mapWithin depth part = _ := ih (by omega)
      rwa [bare] at mapped
    rw [mapWithin, mapM_eq_some parts, mapPlain_layer]
    rfl

/-- For the walk that depth is enough as well. -/
theorem collectWithin_eq (h : (Wildcard.stripChars text).length < depth) (known : List String) :
    types.collectWithin depth text known =
      some (types.collectPlain (Wildcard.stripChars text) known) := by
  induction depth generalizing text known with
  | zero => exact absurd h (Nat.not_lt_zero _)
  | succ depth ih =>
    have parts : ∀ part ∈ (types.visit (Wildcard.stripChars text)).parts, ∀ known,
        types.collectWithin depth part known = some (types.collectPlain part known) := by
      intro part member known
      obtain ⟨shorter, bare⟩ := (isPart_of_mem_visit member).length_stripChars
      have walked : types.collectWithin depth part known = _ := ih (by omega) known
      rwa [bare] at walked
    rw [collectWithin, foldlM_eq_some parts, collectPlain_visit]
    rfl

/-- The mapping and the walk end on every text: each call is made for a part whose form without
wildcards is shorter than that of the text, so no more calls are open at a time than this form has
characters, and one. Something is always written. -/
theorem walks_within (types : TypeSystem) (text : String) :
    let bare := Wildcard.stripChars text.toList
    (∀ part ∈ (Layer.ofText bare).parts, (Wildcard.stripChars part).length < bare.length) ∧
      types.mapWithin (bare.length + 1) text.toList = some (types.mapType text) ∧
      (∀ part ∈ (types.visit bare).parts, (Wildcard.stripChars part).length < bare.length) ∧
      (∀ known, types.collectWithin (bare.length + 1) text.toList known =
        some (types.collectDependencies text known)) ∧
      types.mapType text ≠ "" := by
  intro bare
  refine ⟨fun part member => ?_, mapWithin_eq (Nat.lt_succ_self _), fun part member => ?_,
    fun known => collectWithin_eq (Nat.lt_succ_self _) known, mapPlain_ne_empty types bare⟩
  · exact (Layer.isPart_of_mem_parts member).length_stripChars.1
  · exact (isPart_of_mem_visit member).length_stripChars.1

end InterfaceGen.TypeSystem
