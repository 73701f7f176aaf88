import InterfaceGen.Proofs.Text.Matches
import InterfaceGen.Proofs.Text.Occurring
import InterfaceGen.Proofs.Text.Stored
import InterfaceGen.Proofs.Text.Trimming
import InterfaceGen.Proofs.Types.Layers
import InterfaceGen.Proofs.Types.Translation
import InterfaceGen.Source.FieldType

/-!
# Characters of types

A declared type is made of characters of its text, single spaces and the name of a bound. A mapped
type adds the marks of arrays, unions, arguments and index signatures to them, none of which breaks
the line or lets a brace stand where one stands in an import: `isInert_mapType`.
-/

namespace InterfaceGen.Types.Wildcard

open InterfaceGen.Text

variable {text after : List Char} {c : Char}

/-- What stands behind a keyword is the rest of the text. -/
theorem suffix_of_afterKeyword? {keyword : List Char}
    (h : afterKeyword? keyword text = some after) : after <:+ text := by
  rw [afterKeyword?] at h
  split at h
  · split at h
    · cases h
    · next d rest behind =>
      split at h
      · cases h
        have rest_suffix : rest <:+ text := by
          refine List.IsSuffix.trans ?_ (List.drop_suffix keyword.length text)
          rw [behind]
          exact List.suffix_cons d rest
        exact (List.dropWhile_suffix _).trans rest_suffix
      · cases h
  · cases h

theorem suffix_of_afterBound? (h : afterBound? text = some after) : after <:+ text := by
  have left : trimLeft text <:+ text := List.dropWhile_suffix _
  rcases Option.or_eq_some_iff.1 h with h | ⟨-, h⟩
  · exact (suffix_of_afterKeyword? h).trans left
  · exact (suffix_of_afterKeyword? h).trans left

theorem mem_of_mem_dropBounds (h : c ∈ dropBounds text) : c ∈ text := by
  fun_induction dropBounds text with
  | case1 => cases h
  | case2 rest after bound ih =>
    exact List.mem_cons_of_mem _ ((suffix_of_afterBound? bound).subset (ih h))
  | case3 rest bare ih =>
    rcases List.mem_cons.1 h with rfl | h
    · exact List.mem_cons_self ..
    · exact List.mem_cons_of_mem _ (ih h)
  | case4 d rest other ih =>
    rcases List.mem_cons.1 h with rfl | h
    · exact List.mem_cons_self ..
    · exact List.mem_cons_of_mem _ (ih h)

/-- Replacing wildcards adds at most the name of the type that bounds all others. -/
theorem mem_of_mem_stripChars (h : c ∈ stripChars text) : c ∈ "Object".toList ∨ c ∈ text := by
  obtain ⟨d, hd, hc⟩ := List.mem_flatMap.1 h
  split at hc
  · exact .inl hc
  · exact .inr (List.mem_singleton.1 hc ▸ mem_of_mem_dropBounds hd)

end InterfaceGen.Types.Wildcard

namespace InterfaceGen.Source.FieldType

open InterfaceGen.Text InterfaceGen.Types

variable {text : List Char} {c : Char}

theorem mem_of_mem_tightenFrom {afterMark : Bool} (h : c ∈ tightenFrom afterMark text) :
    c ∈ text := by
  fun_induction tightenFrom afterMark text with
  | case1 => cases h
  | case2 afterMark d rest blank near ih => exact List.mem_cons_of_mem _ (ih h)
  | case3 afterMark d rest blank apart ih =>
    rcases List.mem_cons.1 h with rfl | h
    · exact List.mem_cons_self ..
    · exact List.mem_cons_of_mem _ (ih h)
  | case4 afterMark d rest solid ih =>
    rcases List.mem_cons.1 h with rfl | h
    · exact List.mem_cons_self ..
    · exact List.mem_cons_of_mem _ (ih h)

theorem mem_of_mem_spaceCommas (h : c ∈ spaceCommas text) : c = ' ' ∨ c ∈ text := by
  obtain ⟨d, hd, hc⟩ := List.mem_flatMap.1 h
  split at hc
  · next comma =>
    rcases List.mem_cons.1 hc with rfl | hc
    · exact .inr (comma ▸ hd)
    · exact .inl (List.mem_singleton.1 hc)
  · exact .inr (List.mem_singleton.1 hc ▸ hd)

/-- A declared type is made of characters of its text, single spaces and the name of a bound. -/
theorem mem_of_mem_cleanChars (h : c ∈ cleanChars text) :
    c = ' ' ∨ c ∈ "Object".toList ∨ c ∈ text ∧ isBlank c = false := by
  rcases Wildcard.mem_of_mem_stripChars h with bound | h
  · exact .inr (.inl bound)
  rcases mem_of_mem_spaceCommas (Pattern.mem_of_mem_erase h) with space | h
  · exact .inl space
  exact (mem_of_mem_collapseFrom (mem_of_mem_trim (mem_of_mem_tightenFrom h))).imp_right .inr

end InterfaceGen.Source.FieldType


namespace InterfaceGen.Types

open InterfaceGen.Text TypeSystem

/-! ## Texts in which no import begins -/

/-- How every import begins. -/
def importBrace : List Char :=
  "import \x7b".toList

/-- The text stands on one line and no import begins in it. -/
structure IsInert (text : List Char) : Prop where
  noFeed : '\n' ∉ text
  noReturn : '\r' ∉ text
  noImport : occurs importBrace text = false

instance : DecidablePred IsInert := fun text =>
  decidable_of_iff ('\n' ∉ text ∧ '\r' ∉ text ∧ occurs importBrace text = false)
    ⟨fun ⟨a, b, c⟩ => ⟨a, b, c⟩, fun ⟨a, b, c⟩ => ⟨a, b, c⟩⟩

/-- A character that ends no line and opens no brace. -/
def IsTame (c : Char) : Prop :=
  c ≠ '\n' ∧ c ≠ '\r' ∧ c ≠ '\x7b'

instance : DecidablePred IsTame :=
  fun _ => inferInstanceAs (Decidable (_ ∧ _))

/-- Does the character keep the two texts around it apart? -/
def IsFence (c : Char) : Prop :=
  c ∉ importBrace ∧ c ≠ '\n' ∧ c ≠ '\r'

instance : DecidablePred IsFence :=
  fun _ => inferInstanceAs (Decidable (_ ∧ _))

namespace IsInert

variable {first second text : List Char} {c : Char}

/-- Inert texts with a fence between them are inert together. -/
theorem fence (hf : IsInert first) (fence : IsFence c) (hs : IsInert second) :
    IsInert (first ++ c :: second) := by
  refine ⟨?_, ?_, ?_⟩
  · simp [hf.noFeed, hs.noFeed, fence.2.1.symm]
  · simp [hf.noReturn, hs.noReturn, fence.2.2.symm]
  · rw [occurs_append_cons fence.1 (by decide), hf.noImport, hs.noImport]
    rfl

theorem space (h : IsInert text) : IsInert (' ' :: text) := by
  refine ⟨?_, ?_, ?_⟩
  · simp [h.noFeed]
  · simp [h.noReturn]
  · rw [occurs_cons (by decide) (by decide), h.noImport]

theorem concat_space (h : IsInert text) : IsInert (text ++ [' ']) := by
  refine ⟨?_, ?_, ?_⟩
  · simp [h.noFeed]
  · simp [h.noReturn]
  · rw [occurs_concat (by decide) (by decide), h.noImport]

theorem of_forall (h : ∀ c ∈ text, IsTame c) : IsInert text where
  noFeed hm := (h _ hm).1 rfl
  noReturn hm := (h _ hm).2.1 rfl
  noImport := occurs_of_notMem (c := '\x7b') (by decide) fun hm => (h _ hm).2.2 rfl

/-- A row of inert texts is inert, as the comma is a fence. -/
theorem intercalate {texts : List String} (h : ∀ text ∈ texts, IsInert text.toList) :
    IsInert (", ".intercalate texts).toList := by
  induction texts with
  | nil => decide
  | cons text texts ih =>
    have first := h text (List.mem_cons_self ..)
    cases texts with
    | nil => simpa using first
    | cons next texts =>
      have later := ih fun t ht => h t (List.mem_cons_of_mem _ ht)
      rw [String.intercalate_cons_cons, String.append_assoc, String.toList_append,
        String.toList_append]
      exact first.fence (c := ',') (by decide) later.space

/-- A generic type of inert parts is inert where it is spelled out. -/
theorem spellGeneric {container : String} {arguments : List String}
    (name : IsInert container.toList) (h : ∀ argument ∈ arguments, IsInert argument.toList) :
    IsInert (TypeSystem.spellGeneric container arguments).toList := by
  have inside : IsInert ((", ".intercalate arguments).toList ++ '>' :: []) :=
    (intercalate h).fence (by decide) (by decide)
  have whole := name.fence (c := '<') (by decide) inside
  simpa [TypeSystem.spellGeneric, String.toList_append] using whole

/-- It is so in all the shapes that it can be written in. -/
theorem writeGeneric {container : String} {arguments : List String}
    (name : IsInert container.toList) (h : ∀ argument ∈ arguments, IsInert argument.toList) :
    IsInert (TypeSystem.writeGeneric container arguments).toList := by
  rcases writeGeneric_cases container arguments with
    ⟨item, rfl, same | same⟩ | ⟨key, value, rfl, same⟩ | same
  · have item := h item (List.mem_cons_self ..)
    have array : IsInert (_ ++ '[' :: [']']) := item.fence (by decide) (by decide)
    rw [same]
    simpa [String.toList_append] using array
  · have item := h item (List.mem_cons_self ..)
    have union : IsInert (_ ++ '|' :: " undefined".toList) :=
      item.concat_space.fence (by decide) (by decide)
    rw [same]
    simpa [String.toList_append] using union
  · have key := h key (by simp)
    have value := h value (by simp)
    have opening : IsInert "\x7b [key".toList := by decide
    have keyed := opening.fence (c := ':') (by decide) (key.space.fence (c := ']') (by decide)
      ((show IsInert [] by decide).fence (c := ':') (by decide)
        (value.concat_space.space.fence (c := '\x7d') (by decide) (show IsInert [] by decide))))
    rw [same]
    simpa [String.toList_append] using keyed
  · rw [same]
    exact spellGeneric name h

end IsInert

/-- No import begins in a mapped type, nor does its line end. -/
theorem isInert_mapType {types : TypeSystem}
    (table : ∀ entry ∈ types.mapping, IsInert entry.2.toList) {text : String}
    (h : ∀ c ∈ text.toList, IsTame c) : IsInert (types.mapType text).toList := by
  have bounded : ∀ c ∈ Wildcard.stripChars text.toList, IsTame c := by
    intro c hc
    have letters : ∀ c ∈ "Object".toList, IsTame c := by decide
    exact (Wildcard.mem_of_mem_stripChars hc).elim (letters c) (h c)
  refine mapPlain_induction (motive := fun t => IsInert t.toList) ?_ ?_ ?_ ?_ bounded
  · decide
  · intro item inert
    have array : IsInert (item.toList ++ '[' :: [']']) := inert.fence (by decide) (by decide)
    simpa [String.toList_append] using array
  · intro container arguments inside inert
    exact .writeGeneric (.of_forall inside) inert
  · intro name inside
    rcases plainName_cases types name with same | ⟨entry, listed, -, -, same⟩
    · rw [same]
      exact .of_forall inside
    · rw [same]
      exact table entry listed

/-- All that the standard mapping maps to is inert. -/
theorem isInert_standardMapping : ∀ entry ∈ standardMapping, IsInert entry.2.toList := by
  decide +kernel

end InterfaceGen.Types
