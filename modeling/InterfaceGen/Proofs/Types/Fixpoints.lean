import InterfaceGen.Proofs.Types.Depth
import InterfaceGen.Proofs.Types.Layers
import InterfaceGen.Proofs.Types.References

/-!
# Mapping what is mapped

What a type text is mapped to, well formed or not, is mapped to itself: `mapType_mapType`. Looking a
name up again changes nothing where the table leaves the names alone that it maps to. The other steps
write layers that are read again as they were written. For the arguments of a generic type this is so
because the mapping keeps what each of them adds to the depth of the brackets (`net_mapPlain`) and
brings no comma of it out of them (`IsWholeTo.mapPlain`): the commas between the mapped arguments are
again the ones to cut at.
-/

namespace InterfaceGen

open InterfaceGen.Text InterfaceGen.Types

/-- The text is not empty and has no blanks, marks and wildcards, as is true of the identifiers of
every script. -/
structure Types.IsUnbroken (name : String) : Prop where
  filled : name ≠ ""
  solid : ∀ c ∈ name.toList, IsSolid c ∧ c ≠ '?'

/-- The table maps identifiers to identifiers, and these to themselves if at all; so it does with
`any`. -/
structure TypeSystem.IsSettled (types : TypeSystem) : Prop where
  names : ∀ entry ∈ types.mapping, IsUnbroken entry.1 ∧ IsUnbroken entry.2
  values : ∀ entry ∈ types.mapping, ∀ again ∈ types.mapping.lookup entry.2, again = entry.2
  any : ∀ again ∈ types.mapping.lookup "any", again = "any"

end InterfaceGen

namespace InterfaceGen.Types

open InterfaceGen.Text

variable {types : TypeSystem} {text : List Char}

/-! ## Names -/

theorem IsName.isUnbroken {name : String} (h : IsName name) : IsUnbroken name where
  filled := by
    rintro rfl
    exact h.identifier.chars_ne_nil rfl
  solid c hc := by
    have nameChar := h.identifier.isNameChar_of_mem hc
    exact ⟨isSolid_of_isNameChar nameChar, ne_of_isNameChar nameChar rfl⟩

theorem isFlat_of_isSolid {c : Char} (h : IsSolid c) : IsFlat c := by
  refine ⟨?_, ?_, ?_⟩ <;> (rintro rfl; exact absurd h (by decide))

theorem IsUnbroken.isFlat {name : String} (h : IsUnbroken name) : ∀ c ∈ name.toList, IsFlat c :=
  fun c hc => isFlat_of_isSolid (h.solid c hc).1

/-- A name is kept where the table has nothing else for it. -/
theorem plainName_of_lookup {name : String}
    (h : ∀ again ∈ types.mapping.lookup name, again = name) : types.plainName name = name := by
  rw [TypeSystem.plainName]
  split
  · next mapped found =>
    split
    · rfl
    · exact h mapped found
  · rfl

/-- A text with a blank or a mark in it is in no table. -/
theorem plainName_of_broken (settled : types.IsSettled) {name : String} {c : Char}
    (there : c ∈ name.toList) (broken : ¬ IsSolid c) : types.plainName name = name := by
  rcases plainName_cases types name with same | ⟨entry, listed, rfl, -, -⟩
  · exact same
  · exact absurd ((settled.names entry listed).1.solid c there).1 broken

/-! ## The depth of mapped texts -/

/-- A written generic type adds what its arguments add. -/
theorem net_writeGeneric {container : List Char} (name : ∀ c ∈ container, isNameChar c = true)
    (arguments : List String) :
    net (TypeSystem.writeGeneric (String.ofList container) arguments).toList =
      (arguments.map fun argument => net argument.toList).sum := by
  rcases writeGeneric_cases (String.ofList container) arguments with
    ⟨item, rfl, same | same⟩ | ⟨key, value, rfl, same⟩ | same
  · simp [same, weight]
  · simp [same, weight]
  · simp [same, weight]
  · have flat : ∀ c ∈ container, IsFlat c := fun c hc => isFlat_of_isNameChar (name c hc)
    rw [same, toList_spellGeneric, String.toList_ofList, net_brackets flat, net_intercalate rfl,
      List.map_map]
    rfl

/-- The mapping keeps what a text adds to the depth of the brackets. -/
theorem net_mapPlain (settled : types.IsSettled) (text : List Char) :
    net (types.mapPlain text).toList = net text := by
  induction text using Layer.induction with
  | step text ih =>
    have outer := hasLayer text
    rw [← net_trim text, mapPlain_layer]
    generalize Layer.ofText text = layer at outer ih ⊢
    -- Each layer is written with its brackets in pairs, so only the parts count.
    cases outer with
    | blank empty =>
      rw [empty]
      show net "any".toList = 0
      decide
    | @array element whole =>
      have inside := ih element (List.mem_singleton_self _)
      have suffix : net ['[', ']'] = 0 := rfl
      simp [Layer.write, Layer.parts, whole, inside, suffix]
    | @generic container gap inner whole named name blank =>
      have same : ((splitArguments (trim inner)).map types.mapPlain).map (fun a => net a.toList) =
          (splitArguments (trim inner)).map net := by
        rw [List.map_map]
        exact List.map_congr_left fun argument member => ih argument member
      have written := net_writeGeneric name ((splitArguments (trim inner)).map types.mapPlain)
      rw [same, sum_net_splitArguments, net_trim] at written
      rw [whole, ← List.append_assoc, net_brackets (isFlat_of_mem_front name blank)]
      exact written
    | name =>
      show net (types.plainName (String.ofList (trim text))).toList = _
      rcases plainName_cases types (String.ofList (trim text)) with
        same | ⟨entry, listed, key, -, same⟩
      · rw [same, String.toList_ofList]
      · obtain ⟨keyed, valued⟩ := settled.names entry listed
        have flat := keyed.isFlat
        rw [key, String.toList_ofList] at flat
        rw [same, net_of_isFlat valued.isFlat, net_of_isFlat flat]

/-- The text is whole from no bracket open to this many. -/
def IsWholeTo (most : Int) (text : List Char) : Prop :=
  ∀ depth, 0 ≤ depth → depth ≤ most → IsWhole depth text

/-- Arguments may be written at their depth, or between brackets of their own. -/
theorem isWhole_writeGeneric {depth : Int} {container : List Char} {arguments : List String}
    (name : ∀ c ∈ container, isNameChar c = true) (least : 0 ≤ depth)
    (here : ∀ argument ∈ arguments, IsWhole depth argument.toList)
    (deeper : ∀ argument ∈ arguments, IsWhole (depth + 1) argument.toList)
    (closed : ∀ argument ∈ arguments.dropLast, net argument.toList = 0) :
    IsWhole depth (TypeSystem.writeGeneric (String.ofList container) arguments).toList := by
  rcases writeGeneric_cases (String.ofList container) arguments with
    ⟨item, rfl, same | same⟩ | ⟨key, value, rfl, same⟩ | same
  · rw [same, String.toList_append, isWhole_append]
    exact ⟨here item (by simp), isWhole_of_isFlat (by decide)⟩
  · rw [same, String.toList_append, isWhole_append]
    exact ⟨here item (by simp), isWhole_of_isFlat (by decide)⟩
  -- An index signature has no angle brackets: key and value stand at its own depth.
  · have opening : net "\x7b [key: ".toList = 0 := by decide
    have middle : net "]: ".toList = 0 := by decide
    have keyed := closed key (by simp)
    rw [same]
    simp only [String.toList_append, isWhole_append, net_append, opening, middle, keyed,
      Int.add_zero]
    exact ⟨⟨⟨⟨isWhole_of_isFlat (by decide), here key (by simp)⟩, isWhole_of_isFlat (by decide)⟩,
      here value (by simp)⟩, isWhole_of_isFlat (by decide)⟩
  · have flat : ∀ c ∈ container, IsFlat c := fun c hc => isFlat_of_isNameChar (name c hc)
    have inside : IsWhole (depth + 1) ([',', ' '].intercalate (arguments.map String.toList)) := by
      refine isWhole_intercalate (by omega) ?_ ?_
      · exact List.forall_mem_map.2 deeper
      · rw [← List.map_dropLast]
        exact List.forall_mem_map.2 closed
    rw [same, toList_spellGeneric, String.toList_ofList, isWhole_append, net_of_isFlat flat,
      Int.add_zero]
    refine ⟨isWhole_of_isFlat flat, by simp, ?_⟩
    rw [isWhole_append]
    exact ⟨inside, by simp⟩

/-- All mapped arguments but the last close what they open. -/
theorem net_of_mem_dropLast (settled : types.IsSettled) {argument : String}
    (h : argument ∈ ((splitArguments text).map types.mapPlain).dropLast) :
    net argument.toList = 0 := by
  rw [← List.map_dropLast] at h
  obtain ⟨piece, listed, rfl⟩ := List.mem_map.1 h
  rw [net_mapPlain settled]
  exact (splitArguments_areArguments text).closed piece listed

/-- The mapping brings no comma out of the brackets. -/
theorem IsWholeTo.mapPlain (settled : types.IsSettled) {most : Int} (h : IsWholeTo most text) :
    IsWholeTo most (types.mapPlain text).toList := by
  induction text using Layer.induction generalizing most with
  | step text ih =>
    intro depth least bounded
    have trimmed := (h depth least bounded).trim
    have outer := hasLayer text
    rw [mapPlain_layer]
    generalize Layer.ofText text = layer at outer ih ⊢
    cases outer with
    | blank =>
      show IsWhole depth "any".toList
      exact isWhole_of_isFlat (by decide)
    | @array element whole =>
      have inside : IsWholeTo most element := by
        intro depth least bounded
        have outside := (h depth least bounded).trim
        rw [whole, isWhole_append] at outside
        exact outside.1
      have mapped := ih element (List.mem_singleton_self _) inside depth least bounded
      rw [Layer.parts, List.map_singleton, Layer.write_array, String.toList_append, isWhole_append]
      exact ⟨mapped, isWhole_of_isFlat (by decide)⟩
    | @generic container gap inner whole named name blank =>
      -- The arguments begin at no bracket, and in the text one bracket deeper than the type does.
      have inside : ∀ argument ∈ splitArguments (trim inner),
          IsWholeTo (most + 1) (types.mapPlain argument).toList := by
        intro argument member
        refine ih argument member fun depth least bounded => ?_
        by_cases zero : depth = 0
        · rw [zero]
          exact (splitArguments_areArguments (trim inner)).whole argument member
        · have outside := (h (depth - 1) (by omega) (by omega)).trim
          rw [whole, ← List.append_assoc] at outside
          have deeper := outside.inside (isFlat_of_mem_front name blank)
          rw [Int.sub_add_cancel] at deeper
          exact deeper.trim.of_mem_splitArguments member
      refine isWhole_writeGeneric name least ?_ ?_ fun _ => net_of_mem_dropLast settled
      · exact List.forall_mem_map.2 fun argument member =>
          inside argument member depth least (by omega)
      · exact List.forall_mem_map.2 fun argument member =>
          inside argument member (depth + 1) (by omega) (by omega)
    | name =>
      show IsWhole depth (types.plainName (String.ofList (trim text))).toList
      rcases plainName_cases types (String.ofList (trim text)) with
        same | ⟨entry, listed, -, -, same⟩
      · rwa [same, String.toList_ofList]
      · rw [same]
        exact isWhole_of_isFlat (settled.names entry listed).2.isFlat

/-- The mapped arguments are arguments again. -/
theorem areArguments_mapPlain (settled : types.IsSettled) (text : List Char) :
    AreArguments (((splitArguments text).map types.mapPlain).map String.toList) where
  whole := by
    refine List.forall_mem_map.2 (List.forall_mem_map.2 fun argument member => ?_)
    have inside : IsWholeTo 0 argument := by
      intro depth least bounded
      obtain rfl : depth = 0 := by omega
      exact (splitArguments_areArguments text).whole argument member
    exact inside.mapPlain settled 0 (Int.le_refl 0) (Int.le_refl 0)
  closed := by
    rw [← List.map_dropLast]
    exact List.forall_mem_map.2 fun _ => net_of_mem_dropLast settled

/-! ## Texts that are mapped to themselves -/

/-- A text as the mapping writes it. -/
structure IsFixed (types : TypeSystem) (text : String) : Prop where
  trimmed : IsTrimmed text.toList
  filled : text.toList ≠ []
  fixed : types.mapPlain text.toList = text

namespace IsFixed

variable {item key value : String}

/-- A text that is neither an array nor a generic type is looked up. -/
theorem of_plainName {text : String} (trimmed : IsTrimmed text.toList) (filled : text.toList ≠ [])
    (array : arrayElement? text.toList = none) (generic : generic? text.toList = none)
    (kept : types.plainName text = text) : IsFixed types text where
  trimmed := trimmed
  filled := filled
  fixed := by
    rw [mapPlain_of_isTrimmed types trimmed filled, array, generic]
    simpa using kept

/-- An unbroken name that the table leaves alone is fixed. -/
theorem of_isUnbroken {name : String} (h : IsUnbroken name) (kept : types.plainName name = name) :
    IsFixed types name := by
  have trimmed : IsTrimmed name.toList := isTrimmed_of_forall fun c hc => (h.solid c hc).1.1
  have last : ∀ c ∈ name.toList.getLast?, c ≠ ']' ∧ c ≠ '>' := by
    intro c hc
    have solid := (h.solid c (List.mem_of_getLast? hc)).1
    constructor <;> (rintro rfl; exact absurd solid (by decide))
  refine .of_plainName trimmed (fun empty => h.filled (String.toList_eq_nil_iff.1 empty)) ?_ ?_ kept
  · exact arrayElement?_of_last fun c hc => (last c hc).1
  · exact generic?_of_last trimmed fun c hc => (last c hc).2

theorem any (settled : types.IsSettled) : IsFixed types "any" :=
  .of_isUnbroken (IsName.isUnbroken (by unfold IsName; decide)) (plainName_of_lookup settled.any)

/-- What a name is looked up to is looked up to itself. -/
theorem plainName (settled : types.IsSettled) {text : List Char} (trimmed : IsTrimmed text)
    (filled : text ≠ []) (array : arrayElement? text = none) (generic : generic? text = none) :
    IsFixed types (types.plainName (String.ofList text)) := by
  rcases plainName_cases types (String.ofList text) with same | ⟨entry, listed, -, -, same⟩
  · rw [same]
    apply of_plainName <;> simpa [String.toList_ofList]
  · rw [same]
    exact .of_isUnbroken (settled.names entry listed).2
      (plainName_of_lookup (settled.values entry listed))

/-- A text with a space in it that ends neither as an array nor as a generic type. -/
theorem of_space (settled : types.IsSettled) {text : String} (trimmed : IsTrimmed text.toList)
    (space : ' ' ∈ text.toList) (last : ∀ c ∈ text.toList.getLast?, c ≠ ']' ∧ c ≠ '>') :
    IsFixed types text := by
  refine .of_plainName trimmed (List.ne_nil_of_mem space) ?_ ?_ ?_
  · exact arrayElement?_of_last fun c hc => (last c hc).1
  · exact generic?_of_last trimmed fun c hc => (last c hc).2
  · exact plainName_of_broken settled space (by decide)

/-- An array of a fixed text is fixed. -/
theorem array (h : IsFixed types item) : IsFixed types (item ++ "[]") := by
  have brackets : IsTrimmed ['[', ']'] := ⟨by decide, by decide⟩
  have trimmed : IsTrimmed (item.toList ++ ['[', ']']) :=
    @isTrimmed_append _ [] _ h.trimmed h.filled brackets (by decide)
  have same : (item ++ "[]").toList = item.toList ++ ['[', ']'] := String.toList_append
  refine ⟨same ▸ trimmed, by simp, ?_⟩
  rw [same, mapPlain_of_isTrimmed types trimmed (by simp), arrayElement?_append]
  exact congrArg (· ++ "[]") h.fixed

/-- A union with `undefined` is read as a name, which no table holds. -/
theorem optional (settled : types.IsSettled) (h : IsFixed types item) :
    IsFixed types (item ++ " | undefined") := by
  have word : IsTrimmed "undefined".toList := isTrimmed_of_forall (by decide)
  have same : (item ++ " | undefined").toList =
      item.toList ++ (" | ".toList ++ "undefined".toList) := String.toList_append
  apply of_space settled
  · rw [same]
    exact isTrimmed_append h.trimmed h.filled word (by decide)
  · simp
  · rw [same]
    simp

theorem index (settled : types.IsSettled) (key value : String) :
    IsFixed types ("\x7b [key: " ++ key ++ "]: " ++ value ++ " \x7d") := by
  obtain ⟨inside, same⟩ : ∃ inside, ("\x7b [key: " ++ key ++ "]: " ++ value ++ " \x7d").toList =
      ['\x7b'] ++ (' ' :: inside ++ ['\x7d']) :=
    ⟨"[key: ".toList ++ key.toList ++ "]: ".toList ++ value.toList ++ [' '], by simp⟩
  have opening : IsTrimmed ['\x7b'] := ⟨by decide, by decide⟩
  have closing : IsTrimmed ['\x7d'] := ⟨by decide, by decide⟩
  apply of_space settled <;> rw [same]
  · exact isTrimmed_append opening (by decide) closing (by decide)
  · simp
  · intro c hc
    rw [← List.append_assoc, List.getLast?_concat] at hc
    cases hc
    decide

/-- A generic type of fixed arguments is fixed if it is written as it is read. -/
theorem spellGeneric (settled : types.IsSettled) {container : List Char} {arguments : List String}
    (name : ∀ c ∈ container, isNameChar c = true) (named : container ≠ [])
    (cut : AreArguments (arguments.map String.toList))
    (h : ∀ argument ∈ arguments, IsFixed types argument)
    (written : TypeSystem.writeGeneric (String.ofList container) arguments =
      TypeSystem.spellGeneric (String.ofList container) arguments) :
    IsFixed types (TypeSystem.spellGeneric (String.ofList container) arguments) := by
  have same := toList_spellGeneric (String.ofList container) arguments
  rw [String.toList_ofList] at same
  have trimmed : IsTrimmed (TypeSystem.spellGeneric (String.ofList container) arguments).toList :=
    same ▸ isTrimmed_generic name named _
  have filled : (TypeSystem.spellGeneric (String.ofList container) arguments).toList ≠ [] := by
    simp [same]
  have array : arrayElement? (TypeSystem.spellGeneric (String.ofList container) arguments).toList =
      none := same ▸ arrayElement?_generic _ _
  by_cases empty : arguments = []
  · -- A type without arguments is no generic type, and a name with brackets is in no table.
    have broken : '<' ∈ (TypeSystem.spellGeneric (String.ofList container) arguments).toList := by
      simp [same]
    refine of_plainName trimmed filled array ?_ (plainName_of_broken settled broken (by decide))
    rw [same, generic?_append name named, if_neg (by simp [empty])]
  · have texts : ∀ text ∈ arguments.map String.toList, IsTrimmed text ∧ text ≠ [] :=
      List.forall_mem_map.2 fun argument member =>
        ⟨(h argument member).trimmed, (h argument member).filled⟩
    have again : (arguments.map String.toList).map types.mapPlain = arguments := by
      rw [List.map_map]
      exact (List.map_congr_left fun argument member => (h argument member).fixed).trans
        (List.map_id _)
    have split := splitArguments_join cut (fun text member => (texts text member).1)
      fun text member => (texts text member).2
    have generic := generic?_joined name named (by simpa using empty) texts
    refine ⟨trimmed, filled, ?_⟩
    rw [mapPlain_of_isTrimmed types trimmed filled, array, same, generic]
    show TypeSystem.writeGeneric _ ((splitArguments _).map types.mapPlain) = _
    rw [split, again, written]

/-- It is fixed in all the shapes that it can be written in. -/
theorem writeGeneric (settled : types.IsSettled) {container : List Char} {arguments : List String}
    (name : ∀ c ∈ container, isNameChar c = true) (named : container ≠ [])
    (cut : AreArguments (arguments.map String.toList))
    (h : ∀ argument ∈ arguments, IsFixed types argument) :
    IsFixed types (TypeSystem.writeGeneric (String.ofList container) arguments) := by
  rcases writeGeneric_cases (String.ofList container) arguments with
    ⟨item, rfl, same | same⟩ | ⟨key, value, -, same⟩ | same
  · rw [same]
    exact (h item (List.mem_singleton_self _)).array
  · rw [same]
    exact (h item (List.mem_singleton_self _)).optional settled
  · rw [same]
    exact index settled key value
  · rw [same]
    exact spellGeneric settled name named cut h same

end IsFixed

/-- Every text is mapped to a fixed one, by induction on its layers. -/
theorem isFixed_mapPlain (settled : types.IsSettled) (text : List Char) :
    IsFixed types (types.mapPlain text) := by
  induction text using Layer.induction with
  | step text ih =>
    have outer := hasLayer text
    rw [mapPlain_layer]
    generalize Layer.ofText text = layer at outer ih ⊢
    cases outer with
    | blank => exact .any settled
    | @array element =>
      rw [Layer.parts, List.map_singleton, Layer.write_array]
      exact (ih element (List.mem_singleton_self _)).array
    | generic _ named name =>
      exact .writeGeneric settled name named (areArguments_mapPlain settled _)
        (List.forall_mem_map.2 ih)
    | name filled array generic =>
      exact .plainName settled (isTrimmed_trim text) filled array generic

/-- Without a wildcard in the text there is none in what it is mapped to. -/
theorem wildcard_notMem_mapPlain (settled : types.IsSettled) (h : '?' ∉ text) :
    '?' ∉ (types.mapPlain text).toList := by
  have solid : ∀ c ∈ text, c ≠ '?' := fun c hc same => h (same ▸ hc)
  refine mapPlain_induction (motive := fun text => '?' ∉ text.toList) ?_ ?_ ?_ ?_ solid
  · decide
  · intro item free
    simpa using free
  · intro container arguments name free
    have named : '?' ∉ container.toList := fun there => name _ there rfl
    rcases writeGeneric_cases container arguments with
      ⟨item, rfl, same | same⟩ | ⟨key, value, rfl, same⟩ | same
    · simpa [same] using free
    · simpa [same] using free
    · simpa [same] using free
    · have listed : '?' ∉ [',', ' '].intercalate (arguments.map String.toList) := by
        intro there
        rcases mem_of_mem_intercalate there with between | ⟨text, member, there⟩
        · exact absurd between (by decide)
        · obtain ⟨argument, mapped, rfl⟩ := List.mem_map.1 member
          exact free argument mapped there
      rw [same, toList_spellGeneric]
      simp [named, listed]
  · intro name free
    rcases plainName_cases types name with same | ⟨entry, listed, -, -, same⟩
    · rw [same]
      exact fun there => free _ there rfl
    · rw [same]
      exact fun there => ((settled.names entry listed).2.solid _ there).2 rfl

/-- What a type text is mapped to is mapped to itself. -/
theorem mapType_mapType (types : TypeSystem) (settled : types.IsSettled) (text : String) :
    types.mapType (types.mapType text) = types.mapType text := by
  have free := wildcard_notMem_mapPlain settled (Wildcard.not_mem_stripChars text.toList)
  rw [TypeSystem.mapType, TypeSystem.mapType, stripChars_of_notMem free]
  exact (isFixed_mapPlain settled _).fixed

/-- The standard tables are settled. -/
theorem isSettled_standard : TypeSystem.standard.IsSettled where
  names entry listed := by
    obtain ⟨key, value⟩ := isPlain_standard.mapping entry listed
    exact ⟨key.isUnbroken, value.isUnbroken⟩
  values := by decide
  any := by decide

/-- Brackets that nothing closes stay as they are, the first time and the second. -/
theorem mapType_mapType_openBracket :
    TypeSystem.standard.IsSettled ∧
      TypeSystem.standard.mapType "Page<List<int>, A<B,>" = "Page<number[], A<B,>" ∧
      TypeSystem.standard.mapType "Page<number[], A<B,>" = "Page<number[], A<B,>" := by
  have once : TypeSystem.standard.mapType "Page<List<int>, A<B,>" = "Page<number[], A<B,>" := by
    decide +kernel
  have twice := mapType_mapType .standard isSettled_standard "Page<List<int>, A<B,>"
  rw [once] at twice
  exact ⟨isSettled_standard, once, twice⟩

end InterfaceGen.Types
