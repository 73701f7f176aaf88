import InterfaceGen.Proofs.Files.Finding
import InterfaceGen.Proofs.Files.Making
import Mathlib.Data.List.Infix

/-!
# Outputs that can be written

Below a directory another one can be made wherever no file is in the way, `exists_makeNames`, and then
a file can be put into it unless a directory has its name: `exists_place`.
-/

namespace InterfaceGen.FileTree

variable {t u : FileTree} {path : FilePath} {place : Place} {name : String} {names : List String}

/-- No file is at the place or on the way of the names from there. -/
def IsClear (t : FileTree) (place : Place) (names : List String) : Prop :=
  ∀ front, front <+: names → ∀ bytes, t.entry? (place ++ front) ≠ some (.file bytes)

instance (t : FileTree) (place : Place) (names : List String) : Decidable (t.IsClear place names) :=
  decidable_of_iff
    (∀ front ∈ names.inits, (t.entry? (place ++ front)).all (· == .directory) = true) <| by
    unfold IsClear
    refine forall_congr' fun front => ?_
    rw [List.mem_inits]
    refine imp_congr_right fun _ => ?_
    rcases t.entry? (place ++ front) with _ | _ | bytes <;> simp

namespace IsClear

theorem init (h : t.IsClear place (names ++ [name])) : t.IsClear place names :=
  fun front part => h front (part.trans (List.prefix_append _ _))

theorem tail (h : t.IsClear place (name :: names)) : t.IsClear (place ++ [name]) names := by
  intro front part bytes
  rw [List.append_assoc, List.singleton_append]
  exact h (name :: front) (List.cons_prefix_cons.2 ⟨rfl, part⟩) bytes

/-- What is there is a directory, or nothing. -/
theorem entry? (h : t.IsClear place names) :
    t.entry? (place ++ names) = some .directory ∨ t.entry? (place ++ names) = none := by
  cases found : t.entry? (place ++ names) with
  | none => exact .inr rfl
  | some entry =>
    cases entry with
    | directory => exact .inl rfl
    | file bytes => exact absurd found (h names List.prefix_rfl bytes)

end IsClear

/-! ## Ways -/

/-- From a directory a name leads to its place, whatever is there. -/
theorem locate_child (located : t.locate path = .ok place)
    (there : t.entry? place = some .directory) (named : IsFileName name) :
    t.locate (path.child name) = .ok (place ++ [name]) := by
  obtain ⟨clean, way⟩ := follow_of_locate located
  apply locate_of_follow
  · intro n hn
    rcases List.mem_append.1 hn with hn | hn
    · exact clean n hn
    · exact List.mem_singleton.1 hn ▸ named.noNull
  · rw [follow_append, way]
    exact follow_name there named

/-- Behind a place where nothing is, no way goes on. -/
theorem follow_missing {more : List String} (clear : t.IsClear place names)
    (named : ∀ n ∈ names, IsFileName n) (absent : t.entry? (place ++ names) = none)
    (nonempty : more ≠ []) : t.follow place (names ++ more) = .error .nothing := by
  induction names generalizing place with
  | nil =>
    obtain ⟨n, rest, rfl⟩ := List.exists_cons_of_ne_nil nonempty
    rw [List.append_nil] at absent
    rw [List.nil_append, follow, absent]
  | cons n names ih =>
    obtain ⟨first, later⟩ := List.forall_mem_cons.1 named
    rw [List.cons_append, follow]
    have here := clear [] (List.nil_prefix)
    rw [List.append_nil] at here
    split
    · rfl
    · next bytes found => exact absurd found (here bytes)
    · rw [if_neg (Nat.not_lt.2 first.short), if_neg first.ne_up]
      apply ih clear.tail later
      rwa [List.append_assoc, List.singleton_append]

/-- Behind a place where nothing is, no path leads anywhere. -/
theorem locate_missing (more : List String) (located : t.locate path = .ok place)
    (clear : t.IsClear place names) (named : ∀ n ∈ names ++ more, IsFileName n)
    (absent : t.entry? (place ++ names) = none) (nonempty : more ≠ []) :
    ∃ text, t.locate { path with names := path.names ++ (names ++ more) } =
      .error (.notFound text) := by
  obtain ⟨clean, way⟩ := follow_of_locate located
  have sound : ¬(FilePath.mk path.start (path.names ++ (names ++ more))).hasNull = true := by
    rw [FilePath.hasNull, List.any_eq_true]
    rintro ⟨n, hn, null⟩
    rcases List.mem_append.1 hn with hn | hn
    · exact clean n hn (by simpa using null)
    · exact (named n hn).noNull (by simpa using null)
  have missing := follow_missing clear (fun n hn => named n (List.mem_append_left _ hn)) absent
    nonempty
  have whole : t.follow (t.startPlace path.start) (path.names ++ (names ++ more)) =
      .error .nothing := by
    rw [follow_append, way]
    exact missing
  rw [locate, if_neg sound, whole]
  exact ⟨_, rfl⟩

/-! ## Directories -/

/-- A directory that is there need not be made. -/
theorem makeNames_of_isDirectory {start : PathStart} (h : t.isDirectory ⟨start, names.reverse⟩ = true) :
    makeNames start names t = (.ok (), t) := by
  cases names with
  | nil => rfl
  | cons n above =>
    obtain ⟨place, located, there⟩ := isDirectory_iff.1 h
    have exists' : t.makeDirectory ⟨start, (n :: above).reverse⟩ =
        .error (.fileExists (FilePath.mk start (n :: above).reverse).toText) := by
      rw [makeDirectory, located]
      dsimp only
      rw [there]
      rfl
    rw [makeNames]
    dsimp only
    rw [exists']
    dsimp only
    rw [ensured, if_pos h]

/-- How a directory of this name is made in a directory that is there. -/
theorem makeDirectory_child (located : t.locate path = .ok place)
    (there : t.entry? place = some .directory) (named : IsFileName name)
    (free : ∀ bytes, t.entry? (place ++ [name]) ≠ some (.file bytes)) :
    (t.makeDirectory (path.child name) = .error (.fileExists (path.child name).toText) ∧
        t.entry? (place ++ [name]) = some .directory) ∨
      t.makeDirectory (path.child name) = .ok (t.set (place ++ [name]) .directory) := by
  have way := locate_child located there named
  rw [makeDirectory, way]
  dsimp only
  cases found : t.entry? (place ++ [name]) with
  | none => exact .inr rfl
  | some entry =>
    cases entry with
    | directory => exact .inl ⟨rfl, rfl⟩
    | file bytes => exact absurd found (free bytes)

/-- In any case it is there in the end. -/
theorem ensured_child (located : t.locate path = .ok place)
    (there : t.entry? place = some .directory) (named : IsFileName name)
    (free : ∀ bytes, t.entry? (place ++ [name]) ≠ some (.file bytes)) :
    ∃ u, t.ensured (path.child name) (t.makeDirectory (path.child name)) = (.ok (), u) ∧
      u.entry? (place ++ [name]) = some .directory := by
  rcases makeDirectory_child located there named free with ⟨old, found⟩ | new
  · have known : t.isDirectory (path.child name) = true :=
      isDirectory_iff.2 ⟨_, locate_child located there named, found⟩
    refine ⟨t, ?_, found⟩
    rw [old, ensured, if_pos known]
  · refine ⟨_, ?_, entry?_set_self t (by simp) .directory⟩
    rw [new]
    rfl

section Names

variable {start : PathStart} {base : List String}

/-- The path whose names are given from the last one on. -/
theorem path_reverse (start : PathStart) (names : List String) (name : String) :
    (⟨start, (name :: names.reverse).reverse⟩ : FilePath) = FilePath.child ⟨start, names⟩ name := by
  simp [FilePath.child]

/-- The last directory of a path whose other ones are there. -/
theorem makeNames_child (located : t.locate ⟨start, names⟩ = .ok place)
    (there : t.entry? place = some .directory) (named : IsFileName name)
    (free : ∀ bytes, t.entry? (place ++ [name]) ≠ some (.file bytes)) :
    ∃ u, makeNames start (names ++ [name]).reverse t = (.ok (), u) ∧
      u.entry? (place ++ [name]) = some .directory := by
  have step := ensured_child located there named free
  rw [List.reverse_append, List.reverse_singleton, List.singleton_append, makeNames]
  dsimp only
  rw [path_reverse]
  rcases makeDirectory_child located there named free with ⟨old, -⟩ | new
  · rwa [old] at step ⊢
  · rwa [new] at step ⊢

/-- The last directory of a path after the other ones, of which not all were there. -/
theorem makeNames_child_of_missing {text : String}
    (missing : t.makeDirectory (FilePath.child ⟨start, names⟩ name) = .error (.notFound text))
    (made : makeNames start names.reverse t = (.ok (), u)) :
    makeNames start (names ++ [name]).reverse t =
      u.ensured (FilePath.child ⟨start, names⟩ name)
        (u.makeDirectory (FilePath.child ⟨start, names⟩ name)) := by
  rw [List.reverse_append, List.reverse_singleton, List.singleton_append, makeNames]
  dsimp only
  rw [path_reverse, missing]
  dsimp only
  rw [made]

/-- A directory below a directory can be made where no file is in the way. -/
theorem exists_makeNames (wf : t.WellFormed) (proper : ∀ n ∈ base, IsPathName n)
    (located : t.locate ⟨start, base⟩ = .ok place) (there : t.entry? place = some .directory)
    (named : ∀ n ∈ names, IsFileName n) (clear : t.IsClear place names) :
    ∃ u, makeNames start (base ++ names).reverse t = (.ok (), u) ∧
      u.entry? (place ++ names) = some .directory := by
  induction names using List.reverseRecOn with
  | nil =>
    have known : t.isDirectory ⟨start, (base ++ []).reverse.reverse⟩ = true := by
      rw [List.reverse_reverse, List.append_nil]
      exact isDirectory_iff.2 ⟨place, located, there⟩
    refine ⟨t, makeNames_of_isDirectory known, ?_⟩
    rwa [List.append_nil]
  | append_singleton names name ih =>
    have above : ∀ n ∈ names, IsFileName n := fun n hn => named n (List.mem_append_left _ hn)
    have last : IsFileName name := named name (by simp)
    rw [← List.append_assoc, ← List.append_assoc]
    rcases clear.init.entry? with up | missing
    · refine makeNames_child (wf.locate_below located up) up last fun bytes found => ?_
      rw [List.append_assoc] at found
      exact clear _ List.prefix_rfl bytes found
    · obtain ⟨text, unreachable⟩ := locate_missing [name] located clear.init named missing (by simp)
      have failed : t.makeDirectory (FilePath.child ⟨start, base ++ names⟩ name) =
          .error (.notFound text) := by
        rw [makeDirectory, FilePath.child, List.append_assoc, unreachable]
      obtain ⟨u, made, up⟩ := ih above clear.init
      have frame := made_makeNames start wf fun n hn =>
        IsPathName.append proper above n (List.mem_reverse.1 hn)
      rw [made, List.reverse_reverse] at frame
      rw [makeNames_child_of_missing failed made]
      refine ensured_child (frame.wf.locate_below (frame.keeps.locate located) up) up last
        fun bytes found => ?_
      -- What was made before leaves the place of the last directory free of files.
      rcases frame.new _ _ found with old | ⟨-, new, -⟩
      · rw [List.append_assoc] at old
        exact clear _ List.prefix_rfl bytes old
      · cases new

end Names

/-! ## Files -/

/-- A file can be put below a directory where nothing is in the way. -/
theorem exists_place (wf : t.WellFormed) {base : FilePath}
    (proper : ∀ n ∈ base.names, IsPathName n) (located : t.locate base = .ok place)
    (there : t.entry? place = some .directory) (named : ∀ n ∈ names ++ [name], IsFileName n)
    (clear : t.IsClear place names) (free : t.entry? (place ++ (names ++ [name])) ≠ some .directory)
    (bytes : List UInt8) :
    ∃ u, Made t u { base with names := base.names ++ names } ∧
      u.entry? (place ++ names) = some .directory ∧
      u.entry? (place ++ (names ++ [name])) ≠ some .directory ∧
      FileTree.place { base with names := base.names ++ names } name bytes t =
        (.ok (), u.set (place ++ (names ++ [name])) (.file bytes)) := by
  have above : ∀ n ∈ names, IsFileName n := fun n hn => named n (List.mem_append_left _ hn)
  have last : IsFileName name := named name (by simp)
  obtain ⟨u, made, up⟩ := exists_makeNames wf proper located there above clear
  have sound : ∀ n ∈ (FilePath.mk base.start (base.names ++ names)).names, IsPathName n :=
    IsPathName.append proper above
  have frame := made_makeDirectories wf sound
  rw [makeDirectories, made] at frame
  have way := frame.wf.locate_below (frame.keeps.locate located) up
  have free' : u.entry? (place ++ (names ++ [name])) ≠ some .directory := by
    intro found
    rcases frame.new_below located there above found with old | ⟨-, -, front, -, part, same⟩
    · exact free old
    · -- Every directory that is made is shorter.
      have short := part.length_le
      rw [List.append_cancel_left_eq] at same
      rw [← same, List.length_append, List.length_singleton] at short
      omega
  refine ⟨u, frame, up, free', ?_⟩
  have target := locate_child way up last
  rw [List.append_assoc] at target
  rw [FileTree.place, makeDirectories, made]
  dsimp only
  rw [writeBytes, target]
  dsimp only
  rw [if_neg free']

end InterfaceGen.FileTree
