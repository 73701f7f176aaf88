import InterfaceGen.Proofs.Files.Outline

/-!
# Making directories and files

Making a directory with all those above it takes nothing away and adds directories on its way only:
`made_makeDirectories`. Putting a file into a directory then writes one file there, or fails:
`places_place`. Trees stay well-formed.
-/

namespace InterfaceGen

open InterfaceGen.Text

/-- A name that a path can hold. -/
structure IsPathName (name : String) : Prop where
  nonempty : name ≠ ""
  ne_here : name ≠ "."
  noSlash : '/' ∉ name.toList

instance (name : String) : Decidable (IsPathName name) :=
  decidable_of_iff (name ≠ "" ∧ name ≠ "." ∧ '/' ∉ name.toList)
    ⟨fun ⟨a, b, c⟩ => ⟨a, b, c⟩, fun ⟨a, b, c⟩ => ⟨a, b, c⟩⟩

theorem IsFileName.isPathName {name : String} (h : IsFileName name) : IsPathName name :=
  ⟨h.nonempty, h.ne_here, h.noSlash⟩

/-- Names of a path with names of files behind them are names of a path. -/
theorem IsPathName.append {base names : List String} (proper : ∀ name ∈ base, IsPathName name)
    (named : ∀ name ∈ names, IsFileName name) : ∀ name ∈ base ++ names, IsPathName name :=
  List.forall_mem_append.2 ⟨proper, fun name hn => (named name hn).isPathName⟩

namespace FileTree

variable {t u v : FileTree} {path : FilePath} {place above : Place} {name : String}
  {entry : FileEntry}

/-! ## Trees with more in them -/

/-- All directories of the first tree are directories of the second. -/
structure KeepsDirectories (t u : FileTree) : Prop where
  workingDirectory : t.workingDirectory = u.workingDirectory
  kept : ∀ place, t.entry? place = some .directory → u.entry? place = some .directory

namespace KeepsDirectories

theorem refl (t : FileTree) : KeepsDirectories t t :=
  ⟨rfl, fun _ h => h⟩

theorem trans (first : KeepsDirectories t u) (second : KeepsDirectories u v) :
    KeepsDirectories t v :=
  ⟨first.workingDirectory.trans second.workingDirectory,
    fun place h => second.kept place (first.kept place h)⟩

/-- Where names lead, they still lead. -/
theorem follow (h : KeepsDirectories t u) {names : List String} {reached : Place}
    (way : t.follow place names = .ok reached) : u.follow place names = .ok reached := by
  induction names generalizing place with
  | nil => exact way
  | cons name names ih =>
    rw [FileTree.follow] at way ⊢
    split at way
    · cases way
    · cases way
    · next there =>
      rw [h.kept _ there]
      dsimp only
      split at way
      · cases way
      · next short =>
        rw [if_neg short]
        exact ih way

/-- What a path leads to, it leads to still. -/
theorem locate (h : KeepsDirectories t u) (located : t.locate path = .ok place) :
    u.locate path = .ok place := by
  rw [FileTree.locate] at located ⊢
  split at located
  · cases located
  · next sound =>
    rw [if_neg sound]
    have start : u.startPlace path.start = t.startPlace path.start := by
      cases path.start <;> simp [startPlace, h.workingDirectory]
    rw [start]
    cases way : t.follow (t.startPlace path.start) path.names with
    | error obstacle =>
      rw [way] at located
      cases located
    | ok reached =>
      rw [way] at located
      rw [h.follow way]
      exact located

end KeepsDirectories

/-- All entries of the first tree are in the second. -/
structure Extends (t u : FileTree) : Prop where
  workingDirectory : t.workingDirectory = u.workingDirectory
  kept : ∀ place entry, t.entry? place = some entry → u.entry? place = some entry

namespace Extends

theorem refl (t : FileTree) : Extends t t :=
  ⟨rfl, fun _ _ h => h⟩

theorem trans (first : Extends t u) (second : Extends u v) : Extends t v :=
  ⟨first.workingDirectory.trans second.workingDirectory,
    fun place entry h => second.kept place entry (first.kept place entry h)⟩

theorem keepsDirectories (h : Extends t u) : KeepsDirectories t u :=
  ⟨h.workingDirectory, fun place there => h.kept place _ there⟩

theorem locate (h : Extends t u) (located : t.locate path = .ok place) :
    u.locate path = .ok place :=
  h.keepsDirectories.locate located

end Extends

@[simp] theorem workingDirectory_set (t : FileTree) (place : Place) (entry : FileEntry) :
    (t.set place entry).workingDirectory = t.workingDirectory := by
  unfold set
  split <;> rfl

/-- A new entry takes nothing away. -/
theorem extends_set (nonempty : place ≠ []) (free : t.entry? place = none) (entry : FileEntry) :
    Extends t (t.set place entry) where
  workingDirectory := (workingDirectory_set t place entry).symm
  kept other found h := by
    have differ : other ≠ place := by
      rintro rfl
      rw [free] at h
      cases h
    rw [entry?_set_of_ne t nonempty differ, h]

/-- A file or a directory is put where nothing is yet. -/
theorem WellFormed.set_new (wf : t.WellFormed) (there : t.entry? above = some .directory)
    (named : IsFileName name) (free : t.entry? (above ++ [name]) = none) (entry : FileEntry) :
    (t.set (above ++ [name]) entry).WellFormed := by
  have nonempty : above ++ [name] ≠ [] := by simp
  have absent : ∀ e ∈ t.entries, e.1 ≠ above ++ [name] := by
    intro e he same
    have found : t.entry? e.1 = some e.2 := wf.entry?_of_mem he
    rw [same, free] at found
    cases found
  have entries : (t.set (above ++ [name]) entry).entries =
      t.entries ++ [(above ++ [name], entry)] := by
    have off : t.entries.any (·.1 == above ++ [name]) = false := by
      rw [List.any_eq_false]
      exact fun e he same => absent e he (by simpa using same)
    rw [set, if_neg (by simp [off])]
  have kept := (extends_set nonempty free entry).kept
  -- What holds of the old entries and of the new one holds of all.
  have parts : ∀ {P : Place × FileEntry → Prop}, (∀ e ∈ t.entries, P e) → P (above ++ [name], entry) →
      ∀ e ∈ (t.set (above ++ [name]) entry).entries, P e := by
    intro P old new e he
    rw [entries, List.mem_append, List.mem_singleton] at he
    exact he.elim (old e) fun same => same ▸ new
  constructor
  · rw [entries, List.map_append, List.nodup_append]
    refine ⟨wf.nodup, by simp, fun p hp q hq => ?_⟩
    obtain ⟨e, he, rfl⟩ := List.mem_map.1 hp
    rw [List.map_singleton, List.mem_singleton] at hq
    exact hq ▸ absent e he
  · exact parts wf.nonempty nonempty
  · refine parts wf.named fun n hn => ?_
    rcases List.mem_append.1 hn with hn | hn
    · exact wf.named _ (mem_entries there (List.ne_nil_of_mem hn)) n hn
    · exact List.mem_singleton.1 hn ▸ named
  · refine parts (fun e he => kept _ _ (wf.above e he)) ?_
    rw [List.dropLast_concat]
    exact kept _ _ there

/-! ## Parts of a path -/

/-- A path that leads somewhere has no null character, and is followed from its beginning. -/
theorem follow_of_locate {start : PathStart} {names : List String}
    (h : t.locate ⟨start, names⟩ = .ok place) :
    (∀ name ∈ names, '\x00' ∉ name.toList) ∧ t.follow (t.startPlace start) names = .ok place := by
  rw [locate] at h
  split at h
  · cases h
  · next sound =>
    rw [FilePath.hasNull, List.any_eq_true] at sound
    refine ⟨fun name hn null => sound ⟨name, hn, by simpa using null⟩, ?_⟩
    cases way : t.follow (t.startPlace start) names with
    | error obstacle =>
      rw [way] at h
      cases h
    | ok reached =>
      rw [way] at h
      exact congrArg _ (Except.ok.inj h)

/-- The other way round, a path without null characters leads where its names do. -/
theorem locate_of_follow {start : PathStart} {names : List String}
    (clean : ∀ name ∈ names, '\x00' ∉ name.toList)
    (way : t.follow (t.startPlace start) names = .ok place) : t.locate ⟨start, names⟩ = .ok place := by
  have sound : ¬ (FilePath.mk start names).hasNull = true := by
    rw [FilePath.hasNull, List.any_eq_true]
    rintro ⟨name, hn, null⟩
    exact clean name hn (by simpa using null)
  rw [locate, if_neg sound, way]
  rfl

/-- A path is followed up to a point and from there on. -/
theorem exists_of_locate_append {start : PathStart} {names more : List String}
    (h : t.locate ⟨start, names ++ more⟩ = .ok place) :
    ∃ above, t.locate ⟨start, names⟩ = .ok above ∧ t.follow above more = .ok place := by
  obtain ⟨clean, way⟩ := follow_of_locate h
  rw [follow_append] at way
  cases up : t.follow (t.startPlace start) names with
  | error obstacle =>
    rw [up] at way
    cases way
  | ok above =>
    rw [up] at way
    exact ⟨above, locate_of_follow (fun n hn => clean n (List.mem_append_left _ hn)) up, way⟩

/-- Names lead on from directories only. -/
theorem directory_of_follow {names : List String} (way : t.follow above (name :: names) = .ok place) :
    t.entry? above = some .directory ∧ name.utf8ByteSize ≤ nameLimit ∧
      t.follow (if name = ".." then above.dropLast else above ++ [name]) names = .ok place := by
  rw [follow] at way
  split at way
  · cases way
  · cases way
  · next there =>
    split at way
    · cases way
    · next short => exact ⟨there, Nat.not_lt.1 short, way⟩

/-- Names that do not lead back lead down. -/
theorem eq_append_of_follow {names : List String} (down : ∀ name ∈ names, name ≠ "..")
    (way : t.follow above names = .ok place) : place = above ++ names := by
  induction names generalizing above with
  | nil =>
    cases way
    simp
  | cons name names ih =>
    obtain ⟨-, -, later⟩ := directory_of_follow way
    rw [if_neg (down name (List.mem_cons_self ..))] at later
    rw [ih (fun n hn => down n (List.mem_cons_of_mem _ hn)) later]
    simp

/-- The path is followed up to its last name, which leads on from a directory. -/
theorem exists_of_locate_child (h : t.locate (path.child name) = .ok place) :
    ∃ above, t.locate path = .ok above ∧ t.entry? above = some .directory ∧
      name.utf8ByteSize ≤ nameLimit ∧ '\x00' ∉ name.toList ∧
      place = if name = ".." then above.dropLast else above ++ [name] := by
  obtain ⟨above, up, way⟩ := exists_of_locate_append h
  obtain ⟨there, short, last⟩ := directory_of_follow way
  exact ⟨above, up, there, short, (follow_of_locate h).1 name (by simp), (Except.ok.inj last).symm⟩

/-- Where nothing is yet, the last name is that of a file. -/
theorem exists_new (wf : t.WellFormed) (proper : IsPathName name)
    (h : t.locate (path.child name) = .ok place) (free : t.entry? place = none) :
    ∃ above, t.locate path = .ok above ∧ t.entry? above = some .directory ∧ IsFileName name ∧
      place = above ++ [name] := by
  obtain ⟨above, located, there, short, noNull, same⟩ := exists_of_locate_child h
  have ne_up : name ≠ ".." := by
    intro up
    rw [if_pos up] at same
    have known : t.entry? above.dropLast = some .directory := by
      by_cases root : above = []
      · rw [root, List.dropLast_nil, entry?_root]
      · exact wf.above _ (mem_entries there root)
    rw [same, known] at free
    cases free
  rw [if_neg ne_up] at same
  exact ⟨above, located, there,
    ⟨proper.nonempty, proper.ne_here, ne_up, proper.noSlash, noNull, short⟩, same⟩

/-! ## Directories -/

/-- Nothing but directories on the way of the path makes a difference between the trees. -/
structure Made (t u : FileTree) (path : FilePath) : Prop where
  keeps : Extends t u
  wf : u.WellFormed
  new : ∀ place entry, u.entry? place = some entry → t.entry? place = some entry ∨
    t.entry? place = none ∧ entry = .directory ∧
      ∃ front, front <+: path.names ∧ u.locate ⟨path.start, front⟩ = .ok place

namespace Made

theorem refl (wf : t.WellFormed) (path : FilePath) : Made t t path :=
  ⟨.refl t, wf, fun _ _ h => .inl h⟩

theorem trans (first : Made t u path) (second : Made u v path) : Made t v path where
  keeps := first.keeps.trans second.keeps
  wf := second.wf
  new place entry h := by
    rcases second.new place entry h with old | ⟨absent, new, way⟩
    · rcases first.new place entry old with old | ⟨absent, new, front, part, located⟩
      · exact .inl old
      · exact .inr ⟨absent, new, front, part, second.keeps.locate located⟩
    · refine .inr ⟨?_, new, way⟩
      cases before : t.entry? place with
      | none => rfl
      | some other =>
        rw [first.keeps.kept _ _ before] at absent
        cases absent

/-- What is made on the way to a directory is made on the way to all in it. -/
theorem child (h : Made t u path) (name : String) : Made t u (path.child name) :=
  ⟨h.keeps, h.wf, fun place entry hp => (h.new place entry hp).imp_right
    fun ⟨absent, new, front, part, located⟩ =>
      ⟨absent, new, front, part.trans (List.prefix_append _ _), located⟩⟩

end Made

/-- Where a directory is there already, only directories below it are new. -/
theorem Made.new_below {names : List String} (located : t.locate path = .ok place)
    (there : t.entry? place = some .directory) (named : ∀ n ∈ names, IsFileName n)
    (h : Made t u { path with names := path.names ++ names }) {other : Place}
    (found : u.entry? other = some entry) :
    t.entry? other = some entry ∨ t.entry? other = none ∧ entry = .directory ∧
      ∃ front, front ≠ [] ∧ front <+: names ∧ other = place ++ front := by
  rcases h.new other entry found with old | ⟨absent, new, front, part, way⟩
  · exact .inl old
  refine .inr ⟨absent, new, ?_⟩
  rcases List.prefix_or_prefix_of_prefix part (List.prefix_append path.names names) with
    short | long
  · -- On the way to the directory nothing was missing.
    obtain ⟨more, same⟩ := short
    have whole : t.locate ⟨path.start, front ++ more⟩ = .ok place := same ▸ located
    obtain ⟨above, up, down⟩ := exists_of_locate_append whole
    have known : t.entry? above = some .directory := by
      cases more with
      | nil =>
        cases down
        exact there
      | cons name more => exact (directory_of_follow down).1
    have here : above = other := Except.ok.inj ((h.keeps.locate up).symm.trans way)
    rw [← here, known] at absent
    cases absent
  · obtain ⟨more, rfl⟩ := long
    obtain ⟨above, up, down⟩ := exists_of_locate_append way
    have here : above = place := Except.ok.inj (up.symm.trans (h.keeps.locate located))
    have inside : more <+: names := (List.prefix_append_right_inj _).1 part
    have below := eq_append_of_follow (fun n hn => (named n (inside.subset hn)).ne_up) down
    rw [here] at below
    refine ⟨more, ?_, inside, below⟩
    rintro rfl
    rw [below, List.append_nil, there] at absent
    cases absent

/-- A directory is added, where nothing was. -/
theorem made_makeDirectory (wf : t.WellFormed) (proper : IsPathName name)
    (h : t.makeDirectory (path.child name) = .ok u) : Made t u (path.child name) := by
  rw [makeDirectory] at h
  split at h
  · cases h
  · next place located =>
    split at h
    · cases h
    · next free =>
      rw [Option.not_isSome_iff_eq_none] at free
      obtain ⟨above, -, there, named, rfl⟩ := exists_new wf proper located free
      cases h
      have nonempty : above ++ [name] ≠ [] := by simp
      have kept := extends_set nonempty free .directory
      refine ⟨kept, wf.set_new there named free _, fun other entry h => ?_⟩
      rw [entry?_set t nonempty] at h
      split at h
      · next same =>
        cases h
        exact .inr ⟨same ▸ free, rfl, _, List.prefix_rfl, same ▸ kept.locate located⟩
      · exact .inl h

theorem ensured_made (wf : t.WellFormed) {path : FilePath} {outcome : Except FileError FileTree}
    (h : ∀ u, outcome = .ok u → Made t u path) : Made t (t.ensured path outcome).2 path := by
  cases outcome with
  | ok u => exact h u rfl
  | error error => exact .refl wf path

/-- Making a directory with all those above it. -/
theorem made_makeNames (start : PathStart) {names : List String} (wf : t.WellFormed)
    (proper : ∀ name ∈ names, IsPathName name) :
    Made t (makeNames start names t).2 ⟨start, names.reverse⟩ := by
  induction names with
  | nil => exact .refl wf _
  | cons name above ih =>
    have whole : (⟨start, (name :: above).reverse⟩ : FilePath) =
        FilePath.child ⟨start, above.reverse⟩ name := by
      rw [FilePath.child, List.reverse_cons]
    have last : ∀ {t u}, t.WellFormed →
        t.makeDirectory ⟨start, (name :: above).reverse⟩ = .ok u →
          Made t u ⟨start, (name :: above).reverse⟩ := by
      intro t u wf h
      rw [whole] at h ⊢
      exact made_makeDirectory wf (proper name (List.mem_cons_self ..)) h
    have before := ih fun n hn => proper n (List.mem_cons_of_mem _ hn)
    rw [makeNames]
    dsimp only
    -- The directories above are made first where the last one cannot be made without them.
    split
    · split
      · next made =>
        rw [made] at before
        rw [whole]
        exact before.child name
      · next made =>
        rw [made] at before
        have up := before.child name
        rw [← whole] at up
        exact up.trans (ensured_made up.wf fun u h => last up.wf h)
    · exact ensured_made wf fun u h => last wf h

/-- Making a directory adds directories on its way only. -/
theorem made_makeDirectories (wf : t.WellFormed) (proper : ∀ name ∈ path.names, IsPathName name) :
    Made t (makeDirectories path t).2 path := by
  have made : Made t (makeDirectories path t).2 ⟨path.start, path.names.reverse.reverse⟩ :=
    made_makeNames path.start wf fun name hn => proper name (List.mem_reverse.1 hn)
  rwa [List.reverse_reverse] at made

/-! ## Files -/

/-- How putting a file into a directory may end. -/
inductive Places (t : FileTree) (directory : FilePath) (name : String) (bytes : List UInt8) :
    Except FileError Unit × FileTree → Prop where
  | failed {u : FileTree} (made : Made t u directory) (error : FileError) :
    Places t directory name bytes (.error error, u)
  | written {u : FileTree} {above : Place} (made : Made t u directory)
    (located : u.locate directory = .ok above) (there : u.entry? above = some .directory)
    (named : IsFileName name) (free : u.entry? (above ++ [name]) ≠ some .directory) :
    Places t directory name bytes (.ok (), u.set (above ++ [name]) (.file bytes))

/-- Putting a file into a directory ends in one of these ways. -/
theorem places_place {directory : FilePath} (wf : t.WellFormed)
    (proper : ∀ n ∈ directory.names, IsPathName n) (named : IsPathName name) (ne_up : name ≠ "..")
    (bytes : List UInt8) : Places t directory name bytes (FileTree.place directory name bytes t) := by
  have made := made_makeDirectories wf proper
  rw [FileTree.place]
  split
  · next error u ended =>
    rw [ended] at made
    exact .failed made error
  · next u ended =>
    rw [ended] at made
    cases wrote : u.writeBytes (directory.child name) bytes with
    | error error => exact .failed made error
    | ok v =>
      rw [writeBytes] at wrote
      split at wrote
      · cases wrote
      · next place located =>
        split at wrote
        · cases wrote
        · next free =>
          obtain ⟨above, up, there, short, noNull, same⟩ := exists_of_locate_child located
          rw [if_neg ne_up] at same
          subst same
          cases wrote
          exact .written made up there
            ⟨named.nonempty, named.ne_here, ne_up, named.noSlash, noNull, short⟩ free

/-- A tree stays well-formed when a file is written into a directory, where no directory has the
name. -/
theorem WellFormed.set_file (wf : t.WellFormed) (there : t.entry? above = some .directory)
    (named : IsFileName name) (free : t.entry? (above ++ [name]) ≠ some .directory)
    (bytes : List UInt8) : (t.set (above ++ [name]) (.file bytes)).WellFormed := by
  cases before : t.entry? (above ++ [name]) with
  | none => exact wf.set_new there named before _
  | some entry =>
    cases entry with
    | directory => exact absurd before free
    | file old => exact wf.congr (outline_set wf before _).symm

/-- Where the first tree has a file, the second has one too. -/
def KeepsFiles (t u : FileTree) : Prop :=
  ∀ place bytes, t.entry? place = some (.file bytes) → ∃ now, u.entry? place = some (.file now)

theorem KeepsFiles.refl (t : FileTree) : KeepsFiles t t :=
  fun _ bytes h => ⟨bytes, h⟩

theorem KeepsFiles.trans (first : KeepsFiles t u) (second : KeepsFiles u v) : KeepsFiles t v :=
  fun place bytes h => (first place bytes h).elim fun now there => second place now there

/-- Every file is kept, if only with other contents. -/
theorem Places.keepsFiles {directory : FilePath} {bytes : List UInt8}
    {result : Except FileError Unit × FileTree} (h : Places t directory name bytes result) :
    KeepsFiles t result.2 := by
  intro place old there
  cases h with
  | failed made => exact ⟨old, made.keeps.kept _ _ there⟩
  | @written u above made =>
    rw [entry?_set u (by simp)]
    split
    · exact ⟨bytes, rfl⟩
    · exact ⟨old, made.keeps.kept _ _ there⟩

/-- The tree stays well-formed, whether the file is written or not. -/
theorem Places.wellFormed {directory : FilePath} {bytes : List UInt8}
    {result : Except FileError Unit × FileTree} (h : Places t directory name bytes result) :
    result.2.WellFormed := by
  cases h with
  | failed made => exact made.wf
  | written made _ there named free => exact made.wf.set_file there named free bytes

end FileTree

end InterfaceGen
