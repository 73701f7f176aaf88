import InterfaceGen.Memo

/-!
# What look-ups and storing do to a memo

A look-up moves one of the two counts and nothing else. Storing under a new key adds one entry and
leaves the values under all other keys as they are.
-/

namespace InterfaceGen.Memo

variable {α : Type} (m : Memo α)

/-- The memo after a look-up of a known key. -/
def hit : Memo α :=
  { m with hits := m.hits + 1 }

/-- The memo after a look-up of an unknown key. -/
def miss : Memo α :=
  { m with misses := m.misses + 1 }

/-- The memo with one more entry. -/
def insert (key : String) (value : α) : Memo α :=
  { m with entries := (key, value) :: m.entries }

theorem peek?_insert_self (key : String) (value : α) : (m.insert key value).peek? key = some value :=
  List.lookup_cons_self

/-- All other keys have the entries that they had. -/
theorem peek?_insert_of_ne {key other : String} (value : α) (h : other ≠ key) :
    (m.insert key value).peek? other = m.peek? other := by
  rw [peek?, insert, List.lookup_cons, beq_false_of_ne h]
  rfl

variable {m}

/-- A key that is known is a hit. -/
theorem get?_of_some {key : String} {value : α} (h : m.peek? key = some value) :
    Memo.get? key m = (some value, m.hit) := by
  simp only [get?, h, hit]

/-- A key that is not known is a miss. -/
theorem get?_of_none {key : String} (h : m.peek? key = none) :
    Memo.get? key m = (none, m.miss) := by
  simp only [get?, h, miss]

/-- A value is added under a new key. -/
theorem put_of_none {key : String} (value : α) (h : m.peek? key = none) :
    Memo.put key value m = (value, m.insert key value) := by
  simp only [put, h, insert]

/-- Every entry of the first memo is one of the second. -/
def Keeps (before after : Memo α) : Prop :=
  ∀ key value, before.peek? key = some value → after.peek? key = some value

theorem Keeps.refl (m : Memo α) : m.Keeps m :=
  fun _ _ => id

theorem Keeps.trans {first second third : Memo α} (h1 : first.Keeps second)
    (h2 : second.Keeps third) : first.Keeps third :=
  fun key value found => h2 key value (h1 key value found)

theorem Keeps.hit (m : Memo α) : m.Keeps m.hit :=
  .refl m

theorem Keeps.miss (m : Memo α) : m.Keeps m.miss :=
  .refl m

/-- A new key takes no entry away. -/
theorem Keeps.insert {key : String} (value : α) (h : m.peek? key = none) :
    m.Keeps (m.insert key value) := by
  intro other stored found
  have differ : other ≠ key := by
    rintro rfl
    rw [h] at found
    exact nomatch found
  rw [m.peek?_insert_of_ne value differ]
  exact found

end InterfaceGen.Memo
