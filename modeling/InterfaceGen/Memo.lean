/-!
# Memos

A memo remembers the first value stored under each key and counts how often it was asked for a key
that it knew or did not know. Nothing is ever forgotten or replaced.
-/

namespace InterfaceGen

/-- The values remembered under their keys, newest first, and the counts of look-ups. -/
structure Memo (α : Type) where
  name : String
  entries : List (String × α)
  hits : Nat
  misses : Nat

/-- What a memo tells about itself. -/
structure MemoStats where
  name : String
  size : Nat
  hits : Nat
  misses : Nat
  deriving DecidableEq, Repr

namespace Memo

variable {α : Type}

/-- A memo that knows nothing. -/
def empty (name : String) : Memo α :=
  ⟨name, [], 0, 0⟩

/-- The value under a key, without counting the look-up. -/
def peek? (m : Memo α) (key : String) : Option α :=
  m.entries.lookup key

/-- The number of keys. -/
def size (m : Memo α) : Nat :=
  m.entries.length

/-- Does the memo know the key? -/
def contains (m : Memo α) (key : String) : Bool :=
  (m.peek? key).isSome

/-- The value under a key; the look-up is counted. -/
def get? (key : String) : StateM (Memo α) (Option α) := fun m =>
  match m.peek? key with
  | some value => (some value, { m with hits := m.hits + 1 })
  | none => (none, { m with misses := m.misses + 1 })

/-- Stores a value under a key unless there is one, and returns the one that is there then. -/
def put (key : String) (value : α) : StateM (Memo α) α := fun m =>
  match m.peek? key with
  | some stored => (stored, m)
  | none => (value, { m with entries := (key, value) :: m.entries })

/-- Name, size and counts. -/
def stats (m : Memo α) : MemoStats :=
  ⟨m.name, m.size, m.hits, m.misses⟩

end Memo

end InterfaceGen
