import InterfaceGen.Engine

/-!
# What holds of everything that is read

Facts about fields and signatures that hold whatever the source is. A field counts once, so the
fields that are taken up are the first ones of their names, and of these the first ones of their
external names and types.
-/

namespace InterfaceGen.Source

open InterfaceGen.Text

namespace FieldList

/-- A field that is there after adding one was there before, or is that one. -/
theorem mem_of_mem_add {fields : List Field} {field f : Field} (h : f ∈ add fields field) :
    f ∈ fields ∨ f = field := by
  rw [add] at h
  split at h
  · exact .inl h
  · exact (List.mem_append.1 h).imp_right List.mem_singleton.1

/-- So it is where a repeated declaration is left out. -/
theorem mem_of_mem_addDistinct {fields : List Field} {field f : Field}
    (h : f ∈ addDistinct fields field) : f ∈ fields ∨ f = field := by
  rw [addDistinct] at h
  split at h
  · exact .inl h
  · exact (List.mem_append.1 h).imp_right List.mem_singleton.1

/-- What a fold takes up comes from its two lists. -/
theorem mem_of_mem_foldl {step : List Field → Field → List Field}
    (grows : ∀ fields field f, f ∈ step fields field → f ∈ fields ∨ f = field)
    {found fields : List Field} {f : Field} (h : f ∈ found.foldl step fields) :
    f ∈ fields ∨ f ∈ found := by
  induction found generalizing fields with
  | nil => exact .inl h
  | cons field found ih =>
    rcases ih h with old | later
    · rcases grows fields field f old with old | rfl
      · exact .inl old
      · exact .inr (List.mem_cons_self ..)
    · exact .inr (List.mem_cons_of_mem _ later)

/-- Every field was found by one of the passes. -/
theorem exists_found {text : String} {types : TypeSystem} {f : Field} (h : f ∈ ofText text types) :
    ∃ found ∈ annotated text.toList ++ plain text.toList, found.field? types = some f := by
  have distinct := mem_of_mem_foldl (fun _ _ _ => mem_of_mem_addDistinct) h
  have named := mem_of_mem_foldl (fun _ _ _ => mem_of_mem_add)
    (distinct.resolve_left List.not_mem_nil)
  exact List.mem_filterMap.1 (named.resolve_left List.not_mem_nil)

/-- Every field has the type that its declared type is mapped to. -/
theorem mappedType_of_mem {text : String} {types : TypeSystem} {f : Field}
    (h : f ∈ ofText text types) : f.mappedType = types.mapType f.declaredType := by
  obtain ⟨found, -, read⟩ := exists_found h
  rw [Found.field?] at read
  split at read
  · exact Option.some.inj read ▸ rfl
  · exact nomatch read

/-! ## Each field once -/

section Firsts

variable {α : Type}

/-- A list to which each element is added unless it is there already holds the first ones. -/
theorem foldl_firsts (same : α → α → Bool) (step : List α → α → List α)
    (add : ∀ xs x, step xs x = if xs.any (same · x) then xs else xs ++ [x]) (xs known : List α) :
    xs.foldl step known =
      known ++ (xs.filter fun x => !known.any (same · x)).eraseDupsBy fun x y => same y x := by
  induction xs generalizing known with
  | nil => simp
  | cons x xs ih =>
    rw [List.foldl_cons, add]
    by_cases there : known.any (same · x) = true
    · rw [if_pos there, ih, List.filter_cons_of_neg (by simp [there])]
    · rw [if_neg there, ih, List.filter_cons_of_pos (by simpa using there),
        List.eraseDupsBy_cons, List.filter_filter, List.append_assoc, List.singleton_append]
      congr 3
      refine List.filter_congr fun y _ => ?_
      simp only [List.any_append, List.any_cons, List.any_nil, Bool.or_false, Bool.not_or]
      cases same x y <;> simp

/-- Adding what is new to nothing drops all repetitions. -/
theorem foldl_firsts_nil (same : α → α → Bool) (step : List α → α → List α)
    (add : ∀ xs x, step xs x = if xs.any (same · x) then xs else xs ++ [x]) (xs : List α) :
    xs.foldl step [] = xs.eraseDupsBy fun x y => same y x := by
  have all : (xs.filter fun x => !([] : List α).any (same · x)) = xs :=
    List.filter_eq_self.2 fun _ _ => rfl
  rw [foldl_firsts same step add, all, List.nil_append]

/-- Where no element repeats an earlier one, all are kept. -/
theorem eraseDupsBy_eq_self {repeats : α → α → Bool} {xs : List α}
    (h : xs.Pairwise fun x y => repeats y x = false) : xs.eraseDupsBy repeats = xs := by
  induction h with
  | nil => rfl
  | @cons x xs different _ ih =>
    have all : xs.filter (fun y => decide (repeats y x = false)) = xs :=
      List.filter_eq_self.2 fun y hy => decide_eq_true (different y hy)
    rw [List.eraseDupsBy_cons, all, ih]

end Firsts

/-- A field of which there is an earlier one with the same external name and type. -/
def isRepeat (field earlier : Field) : Bool :=
  earlier.externalName == field.externalName && earlier.mappedType == field.mappedType

/-- So it is for fields. -/
theorem foldl_addDistinct (fields : List Field) :
    fields.foldl addDistinct [] = fields.eraseDupsBy isRepeat :=
  foldl_firsts_nil (fun f g => isRepeat g f) addDistinct (fun _ _ => rfl) fields

/-- Fields of different names are all taken, but those whose names are known already. -/
theorem foldl_add {fields : List Field} (distinct : (fields.map (·.sourceName)).Nodup)
    (known : List Field) :
    fields.foldl add known =
      known ++ fields.filter fun f => !known.any (·.sourceName == f.sourceName) := by
  rw [foldl_firsts (fun f g => f.sourceName == g.sourceName) add fun _ _ => rfl,
    eraseDupsBy_eq_self]
  refine List.Pairwise.filter _ ((List.pairwise_map.1 distinct).imp fun differ => ?_)
  exact beq_false_of_ne differ

end FieldList

/-- No class extends a class without a name. -/
theorem Header.supertype_ne_empty (h : Header) : h.signature.supertype ≠ some "" := by
  rw [Header.signature]
  dsimp only
  split
  · intro empty
    obtain ⟨qualified, -, simple⟩ := Option.bind_eq_some_iff.1 empty
    rw [Header.simpleName?] at simple
    split at simple
    · split at simple
      · next name _ className =>
        have none : name = [] := by
          rw [← String.toList_ofList (l := name), Option.some.inj simple]
          rfl
        rw [none] at className
        exact absurd className (by decide)
      · exact nomatch simple
    · exact nomatch simple
  · exact fun empty => nomatch empty

end InterfaceGen.Source
