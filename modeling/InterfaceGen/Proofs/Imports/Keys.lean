import InterfaceGen.Proofs.Engine.Session
import InterfaceGen.Proofs.Imports.Resolution

/-!
# The keys of resolved lists

A resolved list is remembered under the fingerprint of one text, in which the names are joined with
commas and the location follows behind a null character. Nothing in the names is escaped. Two
requests with the same text import the same if no name of theirs holds a comma or a null character. A
request that imports such a name shares its text with one that does not: `keyLaws`.
-/

namespace InterfaceGen.TypeSystem

open InterfaceGen.Text InterfaceGen.Engine

/-- Neither of the two characters that part a key text is in the name. -/
def IsUnparted (name : String) : Prop :=
  ',' ∉ name.toList ∧ '\x00' ∉ name.toList

/-- What the resolver is asked for. -/
structure Request where
  dependencies : List String
  location : Option String
  deriving DecidableEq, Repr

namespace Request

/-- The text whose fingerprint is the key. -/
def keyText (r : Request) : String :=
  ",".intercalate r.dependencies ++ "\x00" ++ r.location.getD ""

/-- Each name is one that the key text does not part. -/
def IsSeparate (r : Request) : Prop :=
  ∀ name ∈ r.dependencies, IsUnparted name

end Request

variable {types : TypeSystem} {r other : Request}

/-- The answer of a resolver that was asked nothing before. -/
def fresh (types : TypeSystem) (r : Request) : List Import :=
  (types.resolve r.dependencies r.location (.empty "imports")).1

/-- The key of a request is the fingerprint of its text. -/
theorem importsKey_eq (r : Request) :
    importsKey r.dependencies r.location = fingerprint r.keyText :=
  rfl

theorem fresh_eq (types : TypeSystem) (r : Request) :
    types.fresh r = types.imports r.dependencies r.location :=
  rfl

/-! ## What a key text tells -/

/-- No location is the same as an empty one. -/
theorem importOf_getD (types : TypeSystem) (location : Option String) (name : String) :
    types.importOf (some (location.getD "")) name = types.importOf location name := by
  cases location with
  | some _ => rfl
  | none =>
    unfold importOf
    cases types.locationOf? name <;> simp

/-- No location is as good as an empty one, and empty names are not imported. -/
theorem fresh_of_filled (types : TypeSystem) (r : Request) :
    types.fresh r =
      types.fresh ⟨r.dependencies.filter (· ≠ ""), some (r.location.getD "")⟩ := by
  have place : types.importOf (some (r.location.getD "")) = types.importOf r.location :=
    funext (types.importOf_getD r.location)
  have names : (r.dependencies.filter (· ≠ "")).filter
      (fun name => name ≠ "" && !types.isBuiltIn name) =
        r.dependencies.filter fun name => name ≠ "" && !types.isBuiltIn name := by
    rw [List.filter_filter]
    refine List.filter_congr fun name _ => ?_
    cases decide (name ≠ "") <;> simp
  rw [fresh_eq, fresh_eq, imports, imports, place, names]

/-- The text: the names with commas between them, a null character and the location. -/
theorem toList_keyText (r : Request) :
    r.keyText.toList = [','].intercalate (r.dependencies.map String.toList) ++
      '\x00' :: (r.location.getD "").toList := by
  simp only [Request.keyText, String.toList_append, String.toList_intercalate, List.append_assoc]
  rfl

/-- The names of a separate request have no null character. -/
theorem Request.IsSeparate.notMem (h : r.IsSeparate) :
    '\x00' ∉ [','].intercalate (r.dependencies.map String.toList) := by
  intro there
  rcases mem_of_mem_intercalate there with comma | ⟨text, member, there⟩
  · exact absurd comma (by decide)
  · obtain ⟨name, listed, rfl⟩ := List.mem_map.1 member
    exact (h name listed).2 there

/-- The names are found again between the commas. -/
theorem Request.IsSeparate.filled (h : r.IsSeparate) :
    r.dependencies.filter (· ≠ "") =
      ((cutAt ',' ([','].intercalate (r.dependencies.map String.toList))).map
        String.ofList).filter (· ≠ "") := by
  by_cases none : r.dependencies = []
  · rw [none]
    rfl
  · have pieces : ∀ text ∈ r.dependencies.map String.toList, ',' ∉ text :=
      List.forall_mem_map.2 fun name listed => (h name listed).1
    rw [cutAt_intercalate (by simpa using none) pieces, List.map_map]
    simp [Function.comp_def]

/-- Separate requests with one text have one answer. -/
theorem fresh_eq_of_keyText (h : r.IsSeparate) (h' : other.IsSeparate)
    (same : r.keyText = other.keyText) : types.fresh r = types.fresh other := by
  have texts := congrArg String.toList same
  rw [toList_keyText, toList_keyText] at texts
  obtain ⟨names, places⟩ := eq_of_append_cons h.notMem h'.notMem texts
  rw [fresh_of_filled types r, fresh_of_filled types other, h.filled, h'.filled, names,
    String.toList_inj.1 places]

/-! ## Requests that are taken for others -/

/-- A key text is always that of a separate request as well. -/
theorem exists_separate (r : Request) : ∃ other : Request, other.IsSeparate ∧
    other.keyText = r.keyText := by
  have there : '\x00' ∈ r.keyText.toList := by
    rw [toList_keyText]
    simp
  obtain ⟨front, rest, same, free⟩ := List.eq_append_cons_of_mem there
  refine ⟨⟨(cutAt ',' front).map String.ofList, some (String.ofList rest)⟩, ?_, ?_⟩
  · refine List.forall_mem_map.2 fun piece member => ?_
    rw [IsUnparted, String.toList_ofList]
    exact ⟨notMem_of_mem_cutAt member, fun null => free (mem_of_mem_cutAt member null)⟩
  · apply String.toList_inj.1
    rw [toList_keyText, same, List.map_map]
    simp [Function.comp_def, intercalate_cutAt]

/-- A request that imports a name with a comma or a null character is taken for one that does not. -/
theorem exists_mistaken {name : String} (listed : name ∈ r.dependencies)
    (imported : types.isBuiltIn name = false) (broken : ¬ IsUnparted name) :
    ∃ other : Request, other.IsSeparate ∧ other.keyText = r.keyText ∧
      types.fresh other ≠ types.fresh r := by
  obtain ⟨other, separate, same⟩ := exists_separate r
  refine ⟨other, separate, same, fun equal => broken (separate name ?_)⟩
  have filled : name ≠ "" := by
    rintro rfl
    exact broken ⟨by decide, by decide⟩
  have there : name ∈ (types.fresh r).map (·.name) :=
    mem_names_imports.2 ⟨listed, filled, imported⟩
  rw [← equal] at there
  exact (mem_names_imports.1 there).1

/-! ## Runs of requests -/

/-- What the resolver answers to the requests one after the other. -/
def answers (types : TypeSystem) : Memo (List Import) → List Request → List (List Import)
  | _, [] => []
  | memo, r :: requests =>
    let (imports, after) := types.resolve r.dependencies r.location memo
    imports :: types.answers after requests

/-- Each entry is the answer to one of the requests, under its key. -/
def Remembers (types : TypeSystem) (asked : List Request) (memo : Memo (List Import)) : Prop :=
  ∀ key imports, memo.peek? key = some imports →
    ∃ r ∈ asked, fingerprint r.keyText = key ∧ types.fresh r = imports

/-- No two of the requests have one key and different texts. -/
def AreTold (requests : List Request) : Prop :=
  ∀ r ∈ requests, ∀ other ∈ requests,
    fingerprint r.keyText = fingerprint other.keyText → r.keyText = other.keyText

variable {asked requests : List Request} {memo : Memo (List Import)}

/-- A separate request is answered as if it was the first, and the memo keeps to answers of what was
asked. -/
theorem resolve_remembers (separate : ∀ r ∈ asked, r.IsSeparate) (told : AreTold asked)
    (remembers : types.Remembers asked memo) (member : r ∈ asked) :
    (types.resolve r.dependencies r.location memo).1 = types.fresh r ∧
      types.Remembers asked (types.resolve r.dependencies r.location memo).2 := by
  cases found : memo.peek? (importsKey r.dependencies r.location) with
  | some imports =>
    obtain ⟨earlier, listed, sameKey, same⟩ := remembers _ _ found
    rw [importsKey_eq] at sameKey
    have text := told earlier listed r member sameKey
    rw [resolve_of_some found]
    exact ⟨same ▸ fresh_eq_of_keyText (separate earlier listed) (separate r member) text, remembers⟩
  | none =>
    rw [resolve_of_none found]
    refine ⟨rfl, fun key imports there => ?_⟩
    by_cases here : key = importsKey r.dependencies r.location
    · rw [here, Memo.peek?_insert_self] at there
      exact ⟨r, member, here.symm, Option.some.inj there⟩
    · rw [Memo.peek?_insert_of_ne _ _ here] at there
      exact remembers key imports there

/-- So are all requests of a row. -/
theorem answers_eq_fresh (separate : ∀ r ∈ asked, r.IsSeparate) (told : AreTold asked)
    (remembers : types.Remembers asked memo) (part : requests ⊆ asked) :
    types.answers memo requests = requests.map types.fresh := by
  induction requests generalizing memo with
  | nil => rfl
  | cons r requests ih =>
    obtain ⟨member, later⟩ := List.cons_subset.1 part
    obtain ⟨answer, kept⟩ := resolve_remembers separate told remembers member
    rw [answers, List.map_cons, ← answer, ← ih kept later]
    rfl

/-! ## How far the keys can be trusted -/

/-- Which requests the texts behind the keys keep apart. -/
structure KeyLaws (types : TypeSystem) : Prop where
  /-- Separate requests with one text have one answer. -/
  faithful : ∀ r other : Request, r.IsSeparate → other.IsSeparate → r.keyText = other.keyText →
    types.fresh r = types.fresh other
  /-- A request that imports a name with a comma or a null character shares its text with a separate
  one that has another answer. -/
  mistaken : ∀ r : Request, ∀ name ∈ r.dependencies, types.isBuiltIn name = false →
    ¬ IsUnparted name → ∃ other : Request, other.IsSeparate ∧ other.keyText = r.keyText ∧
      types.fresh other ≠ types.fresh r
  /-- Separate requests are answered as if each was the first, if no two different texts among theirs
  have one fingerprint. -/
  run : ∀ requests, (∀ r ∈ requests, r.IsSeparate) → AreTold requests →
    types.answers (.empty "imports") requests = requests.map types.fresh

/-- The laws hold of any types: separate requests are told apart by their texts, and a request that
imports a name with a comma or a null character is not. -/
theorem keyLaws (types : TypeSystem) : types.KeyLaws where
  faithful _ _ := fresh_eq_of_keyText
  mistaken _ _ := exists_mistaken
  run requests separate told :=
    answers_eq_fresh separate told (fun _ _ found => nomatch found) (List.Subset.refl requests)

/-- The text of two names is that of one with a comma in it. -/
theorem keyText_comma :
    let one : Request := ⟨["Line,Order"], none⟩
    let two : Request := ⟨["Line", "Order"], none⟩
    one.keyText = two.keyText ∧ standard.fresh one = [⟨"Line,Order", "./Line,Order"⟩] ∧
      standard.fresh two = [⟨"Line", "./Line"⟩, ⟨"Order", "./Order"⟩] ∧
      standard.answers (.empty "imports") [one, two] = [standard.fresh one, standard.fresh one] := by
  decide

end InterfaceGen.TypeSystem
