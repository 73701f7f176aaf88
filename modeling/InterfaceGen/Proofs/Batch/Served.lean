import InterfaceGen.Proofs.Batch.Passes

/-!
# Which file gets which import

The interfaces of a graph are known by their names alone. So a pass serves the first file that
declares a name, with the parents that any file of that name extends: `exists_importLog`. Where no
two files declare one name and none extends itself, each file is served by its own header:
`updateImports_served`; elsewhere it need not be, `not_served_by_own_header`.
-/

namespace InterfaceGen

open InterfaceGen.Text

namespace FileTree

variable {t u : FileTree} {files : List SourceFile} {log : List (SourceFile × Import)}
  {f : SourceFile} {parent : String}

/-- Some file that declares the name for which this one counts extends the parent, and the parent is
declared too. -/
def Asks (t : FileTree) (files : List SourceFile) (f : SourceFile) (parent : String) : Prop :=
  ∃ name, t.owner? files name = some f ∧
    (∃ g ∈ files, t.header? g.fullPath = some (name, some parent)) ∧
    ∃ h, t.owner? files parent = some h

/-- The header of the file itself extends the parent, which another file declares. -/
def Wants (t : FileTree) (files : List SourceFile) (f : SourceFile) (parent : String) : Prop :=
  (∃ name, t.header? f.fullPath = some (name, some parent)) ∧
    ∃ h ∈ files, h ≠ f ∧ t.declared? h = some parent

/-- The log says which imports make the difference between the two trees. -/
structure ImportLog (t u : FileTree) (files : List SourceFile)
    (log : List (SourceFile × Import)) : Prop where
  /-- No file or directory comes or goes. -/
  outline : t.outline = u.outline
  /-- No import is added twice to a file. -/
  nodup : (log.map fun e => (e.1, e.2.name)).Nodup
  /-- An import is asked for, was not there, and its path leads to the file from which the parent
  counts. -/
  asked : ∀ e ∈ log, t.Asks files e.1 e.2.name
  absent : ∀ e ∈ log, ∃ text, t.readText e.1.fullPath = .ok text ∧
    holdsImport e.2.name text.toList = false
  path : ∀ e ∈ log, ∃ h, t.owner? files e.2.name = some h ∧ e.2 = e.1.importOf h e.2.name
  /-- What is asked for is there in the end, where the file can be read. -/
  served : ∀ f parent, t.Asks files f parent → u.Serves f.fullPath parent
  /-- The imports stand in front of the text, the last one first. -/
  text : ∀ f ∈ files, ∀ text, t.readText f.fullPath = .ok text →
    u.readText f.fullPath = .ok (String.ofList
      (Import.shownAll ((log.filter (·.1 = f)).map (·.2)).reverse) ++ text)
  /-- Nothing else is written. -/
  entry : ∀ place, (∀ e ∈ log, t.locate e.1.fullPath ≠ .ok place) →
    u.entry? place = t.entry? place

/-- An edge is drawn for a header where both of its names have an owner. -/
theorem mem_declaredEdges_ofFiles {child parent : String} :
    (child, parent) ∈ (DeclarationGraph.ofFiles t files).declaredEdges ↔
      (∃ g ∈ files, t.header? g.fullPath = some (child, some parent)) ∧
        (∃ f, t.owner? files child = some f) ∧ ∃ h, t.owner? files parent = some h := by
  rw [(DeclarationGraph.sound_ofFiles t files).mem_declaredEdges_iff,
    DeclarationGraph.mem_links_ofFiles]
  simp only [DeclarationGraph.origin?_ofFiles, Option.isSome_map, Option.isSome_iff_exists, owner?]

/-- A pass leaves such a log, in the order of its report. -/
theorem exists_importLog (wf : t.WellFormed) (directory : FilePath) :
    ∃ log, ImportLog t (updateImports directory t).2
        (SourceFile.find t directory Session.targets) log ∧
      (updateImports directory t).1.updated = log.map (·.1.location) := by
  let files := SourceFile.find t directory Session.targets
  let g := DeclarationGraph.ofFiles t files
  have sound := DeclarationGraph.sound_ofFiles t files
  obtain ⟨log, passes, updated⟩ := exists_passes (DeclarationGraph.origin?_ofFiles t files)
    g.declaredEdges (fun edge he => (sound.mem_declaredEdges_iff.1 he).2) t
  have plain : ∀ edge ∈ g.declaredEdges, IsOneLine edge.2 := by
    intro edge he
    obtain ⟨⟨g, -, header⟩, -⟩ := mem_declaredEdges_ofFiles.1 he
    exact isOneLine_parent header
  have once : ∀ n m f, t.owner? files n = some f → t.owner? files m = some f → n = m :=
    fun n m f hn hm => Option.some.inj
      ((mem_of_owner? hn).2.symm.trans (mem_of_owner? hm).2)
  refine ⟨log, ⟨passes.outline wf, passes.nodup_log once sound.nodup_declaredEdges, fun e he => ?_,
    fun e he => passes.absent wf he, fun e he => ?_, fun f parent asks => ?_,
    fun f hf text read => passes.readText_eq wf (fun name g owned same => ?_) read,
    fun place off => passes.entry_eq wf off⟩, updated⟩
  · obtain ⟨child, other, listed, owned, counted, -⟩ := passes.mem_edges he
    exact ⟨child, owned, (mem_declaredEdges_ofFiles.1 listed).1, other, counted⟩
  · obtain ⟨-, other, -, -, counted, same⟩ := passes.mem_edges he
    exact ⟨other, counted, same⟩
  · obtain ⟨name, owned, extended, declared⟩ := asks
    exact passes.served wf plain (mem_declaredEdges_ofFiles.2 ⟨extended, ⟨f, owned⟩, declared⟩) owned
  · exact SourceFile.eq_of_locate wf (mem_of_owner? owned).1 hf same

/-! ## Files that declare different names -/

/-- Only one entry of a list without repeated keys has a given key. -/
theorem eq_singleton_of_nodup {α β : Type} {key : α → β} {a : α} {l : List α} (hm : a ∈ l)
    (nodup : (l.map key).Nodup) (same : ∀ b ∈ l, key b = key a) : l = [a] := by
  cases l with
  | nil => cases hm
  | cons first more =>
    cases more with
    | nil => rw [List.mem_singleton.1 hm]
    | cons second more =>
      have one := same first (List.mem_cons_self ..)
      have other := same second (by simp)
      simp [one, other] at nodup

/-- No two files declare one name. -/
def Distinct (t : FileTree) (files : List SourceFile) : Prop :=
  ∀ f ∈ files, ∀ g ∈ files, ∀ name, t.declared? f = some name → t.declared? g = some name → f = g

/-- Entries with one key are the same, where no key is repeated. -/
theorem eq_of_nodup_filterMap {α β : Type} {key : α → Option β} {l : List α}
    (h : (l.filterMap key).Nodup) {a b : α} (ha : a ∈ l) (hb : b ∈ l) {k : β}
    (ka : key a = some k) (kb : key b = some k) : a = b := by
  induction l with
  | nil => cases ha
  | cons first l ih =>
    have mem : ∀ c ∈ l, key c = some k → k ∈ l.filterMap key :=
      fun c hc kc => List.mem_filterMap.2 ⟨c, hc, kc⟩
    rcases List.mem_cons.1 ha with rfl | ha' <;> rcases List.mem_cons.1 hb with rfl | hb'
    · rfl
    · rw [List.filterMap_cons_some ka, List.nodup_cons] at h
      exact absurd (mem b hb' kb) h.1
    · rw [List.filterMap_cons_some kb, List.nodup_cons] at h
      exact absurd (mem a ha' ka) h.1
    · exact ih (((List.sublist_cons_self first l).filterMap _).nodup h) ha' hb'

/-- Files whose names are not repeated are distinct. -/
theorem distinct_of_nodup (h : (files.filterMap t.declared?).Nodup) : t.Distinct files :=
  fun _ hf _ hg _ df dg => eq_of_nodup_filterMap h hf hg df dg

theorem declared?_of_header? {name : String} {parent : Option String}
    (h : t.header? f.fullPath = some (name, parent)) : t.declared? f = some name := by
  rw [declared?, h]
  rfl

/-- Among distinct files, one that declares a name is its owner. -/
theorem owner?_of_distinct (distinct : t.Distinct files) {name : String} (hf : f ∈ files)
    (declared : t.declared? f = some name) : t.owner? files name = some f := by
  cases found : t.owner? files name with
  | none =>
    have off := List.find?_eq_none.1 found f hf
    simp [declared] at off
  | some g =>
    have counts := mem_of_owner? found
    rw [distinct g counts.1 f hf name counts.2 declared]

/-- Then a file is asked only for the parent of its own header. -/
theorem asks_iff (distinct : t.Distinct files) (hf : f ∈ files) :
    t.Asks files f parent ↔ (∃ name, t.header? f.fullPath = some (name, some parent)) ∧
      ∃ h ∈ files, t.declared? h = some parent := by
  constructor
  · rintro ⟨name, owned, ⟨g, hg, header⟩, h, counted⟩
    have same : g = f :=
      distinct g hg f hf name (declared?_of_header? header) (mem_of_owner? owned).2
    exact ⟨⟨name, same ▸ header⟩, h, mem_of_owner? counted⟩
  · rintro ⟨⟨name, header⟩, h, hh, declared⟩
    exact ⟨name, owner?_of_distinct distinct hf (declared?_of_header? header), ⟨f, hf, header⟩, h,
      owner?_of_distinct distinct hh declared⟩

namespace ImportLog

variable (l : ImportLog t u files log)

include l

/-- Two imports that are added to one file are one. -/
theorem eq_of_file (distinct : t.Distinct files) (hf : f ∈ files) {d e : SourceFile × Import}
    (hd : d ∈ log) (he : e ∈ log) (fd : d.1 = f) (fe : e.1 = f) : d.2.name = e.2.name := by
  obtain ⟨⟨name, header⟩, -⟩ := (asks_iff distinct hf).1 (fd ▸ l.asked d hd)
  obtain ⟨⟨name', header'⟩, -⟩ := (asks_iff distinct hf).1 (fe ▸ l.asked e he)
  rw [header] at header'
  simpa using (Prod.mk.inj (Option.some.inj header')).2

/-- An import is added exactly where the header of the file asks for it and it is not there. -/
theorem exists_mem_iff (distinct : t.Distinct files) (hf : f ∈ files) {text : String}
    (read : t.readText f.fullPath = .ok text) :
    (∃ e ∈ log, e.1 = f ∧ e.2.name = parent) ↔
      (∃ name, t.header? f.fullPath = some (name, some parent)) ∧
        (∃ h ∈ files, t.declared? h = some parent) ∧ holdsImport parent text.toList = false := by
  constructor
  · rintro ⟨e, he, rfl, rfl⟩
    obtain ⟨own, declared⟩ := (asks_iff distinct hf).1 (l.asked e he)
    obtain ⟨text', read', absent⟩ := l.absent e he
    rw [read, Except.ok.injEq] at read'
    exact ⟨own, declared, read' ▸ absent⟩
  · rintro ⟨own, declared, absent⟩
    have served := l.served f parent ((asks_iff distinct hf).2 ⟨own, declared⟩) _
      (l.text f hf text read)
    -- Something was put in front, since the text alone does not hold the import.
    cases added : log.filter (·.1 = f) with
    | nil =>
      rw [added] at served
      simp [Import.shownAll, absent] at served
    | cons e more =>
      obtain ⟨he, fe⟩ := List.mem_filter.1 (added ▸ List.mem_cons_self .. : e ∈ log.filter (·.1 = f))
      have fe : e.1 = f := by simpa using fe
      refine ⟨e, he, fe, ?_⟩
      obtain ⟨⟨name, header⟩, -⟩ := (asks_iff distinct hf).1 (fe ▸ l.asked e he)
      obtain ⟨name', header'⟩ := own
      rw [header] at header'
      simpa using (Prod.mk.inj (Option.some.inj header')).2

/-- Then it is the only one that is added to the file. -/
theorem text_of_header (distinct : t.Distinct files) (hf : f ∈ files) {text name : String}
    (read : t.readText f.fullPath = .ok text)
    (header : t.header? f.fullPath = some (name, some parent)) {h : SourceFile} (hh : h ∈ files)
    (declared : t.declared? h = some parent) (absent : holdsImport parent text.toList = false) :
    u.readText f.fullPath = .ok (String.ofList (f.importOf h parent).shown ++ text) := by
  obtain ⟨e, he, fe, named⟩ := (l.exists_mem_iff distinct hf read).2
    ⟨⟨name, header⟩, ⟨h, hh, declared⟩, absent⟩
  have only : log.filter (·.1 = f) = [e] := by
    have nodup : ((log.filter (·.1 = f)).map fun e => (e.1, e.2.name)).Nodup :=
      (List.filter_sublist.map _).nodup l.nodup
    refine eq_singleton_of_nodup (List.mem_filter.2 ⟨he, by simpa using fe⟩) nodup fun d hd => ?_
    obtain ⟨hd, fd⟩ := List.mem_filter.1 hd
    have fd : d.1 = f := by simpa using fd
    rw [l.eq_of_file distinct hf hd he fd fe, fd, fe]
  obtain ⟨owner, counted, path⟩ := l.path e he
  rw [named, owner?_of_distinct distinct hh declared, Option.some.injEq] at counted
  have same : e.2 = f.importOf h parent := path.trans (by rw [fe, named, counted])
  rw [l.text f hf text read, only]
  simp [Import.shownAll, same]

/-- A file without such a parent stays byte for byte. -/
theorem entry_of_served (wf : t.WellFormed) {directory : FilePath}
    (found : files = SourceFile.find t directory Session.targets) (distinct : t.Distinct files)
    (hf : f ∈ files) {text : String} (read : t.readText f.fullPath = .ok text)
    (idle : ∀ name parent, t.header? f.fullPath = some (name, some parent) →
      (∃ h ∈ files, t.declared? h = some parent) → holdsImport parent text.toList = true)
    {place : Place} (located : t.locate f.fullPath = .ok place) :
    u.entry? place = t.entry? place := by
  refine l.entry place fun e he there => ?_
  have he' := (mem_of_owner? (l.asked e he).choose_spec.1).1
  have fe : e.1 = f := by
    subst found
    exact SourceFile.eq_of_locate wf he' hf (there.trans located.symm)
  obtain ⟨⟨name, header⟩, declared, absent⟩ :=
    (l.exists_mem_iff distinct hf read).1 ⟨e, he, fe, rfl⟩
  rw [idle name _ header declared] at absent
  cases absent

/-- The places that are changed are those of the files with additions, each once. -/
theorem changed_places (wf : t.WellFormed) {directory : FilePath}
    (found : files = SourceFile.find t directory Session.targets) (distinct : t.Distinct files) :
    ∃ places : List Place, places.Nodup ∧ places.length = log.length ∧
      ∀ place, place ∈ places ↔ u.entry? place ≠ t.entry? place := by
  have mem : ∀ e ∈ log, e.1 ∈ files := fun e he =>
    (mem_of_owner? (l.asked e he).choose_spec.1).1
  -- A file with an addition was read, so it has a place.
  have located : ∀ e ∈ log, ∃ place, t.locate e.1.fullPath = .ok place := by
    intro e he
    obtain ⟨text, read, -⟩ := l.absent e he
    obtain ⟨place, _, _, holds, _⟩ := exists_holds read
    exact ⟨place, holds.located⟩
  let placeOf (e : SourceFile × Import) : Place := (t.locate e.1.fullPath).toOption.getD []
  have there : ∀ e ∈ log, t.locate e.1.fullPath = .ok (placeOf e) := by
    intro e he
    obtain ⟨place, way⟩ := located e he
    simp only [placeOf, way]
    rfl
  refine ⟨log.map placeOf, ?_, List.length_map .., fun place => ⟨?_, fun changed => ?_⟩⟩
  · refine List.pairwise_map.2 ((List.pairwise_map.1 l.nodup).imp_of_mem ?_)
    intro d e hd he differ same
    have one : d.1 = e.1 := by
      subst found
      refine SourceFile.eq_of_locate wf (mem d hd) (mem e he) ?_
      rw [there d hd, there e he, same]
    exact differ (Prod.ext one (l.eq_of_file distinct (mem e he) hd he one rfl))
  · intro hm same
    obtain ⟨e, he, rfl⟩ := List.mem_map.1 hm
    obtain ⟨text, read, absent⟩ := l.absent e he
    -- Unchanged it would still lack the import that it is served with.
    have alike : u.readText e.1.fullPath = t.readText e.1.fullPath := by
      refine (readText_congr (locate_congr l.outline _) fun place way => ?_).symm
      rw [there e he, Except.ok.injEq] at way
      rw [← way, same]
    have served := l.served _ _ (l.asked e he) text (alike.trans read)
    rw [absent] at served
    cases served
  · apply Classical.byContradiction
    intro off
    refine changed (l.entry place fun e he way => off ?_)
    rw [there e he, Except.ok.injEq] at way
    exact List.mem_map.2 ⟨e, he, way⟩

end ImportLog

/-- Which imports a pass adds. In general a file is served for every file that declares the same
name; where no two files declare one name and none extends itself, each is served by its own
header alone. -/
theorem updateImports_served (wf : t.WellFormed) (directory : FilePath) :
    let files := SourceFile.find t directory Session.targets
    let after := updateImports directory t
    (∃ log, ImportLog t after.2 files log ∧ after.1.updated = log.map (·.1.location) ∧
      after.1.updatedFiles = log.length) ∧
    (t.Distinct files → (∀ f ∈ files, ∀ name, t.header? f.fullPath ≠ some (name, some name)) →
      (∀ f ∈ files, ∀ text, t.readText f.fullPath = .ok text →
        (∀ parent, t.Wants files f parent → holdsImport parent text.toList = false →
          ∃ h ∈ files, t.declared? h = some parent ∧ after.2.readText f.fullPath =
            .ok (String.ofList (f.importOf h parent).shown ++ text)) ∧
        ((∀ parent, t.Wants files f parent → holdsImport parent text.toList = true) →
          ∀ place, t.locate f.fullPath = .ok place → entry? after.2 place = t.entry? place)) ∧
      ∃ changed : List Place, changed.Nodup ∧
        (∀ place, place ∈ changed ↔ entry? after.2 place ≠ t.entry? place) ∧
        after.1.updatedFiles = changed.length) := by
  intro files after
  obtain ⟨log, l, updated⟩ := exists_importLog wf directory
  have count : after.1.updatedFiles = log.length := by
    have length : after.1.updatedFiles = after.1.updated.length := rfl
    rw [length, updated, List.length_map]
  refine ⟨⟨log, l, updated, count⟩, fun distinct others => ⟨fun f hf text read => ⟨?_, ?_⟩, ?_⟩⟩
  · rintro parent ⟨⟨name, header⟩, h, hh, -, declared⟩ absent
    exact ⟨h, hh, declared, l.text_of_header distinct hf read header hh declared absent⟩
  · intro idle place located
    refine l.entry_of_served wf rfl distinct hf read (fun name parent header declared => ?_) located
    obtain ⟨h, hh, declares⟩ := declared
    refine idle parent ⟨⟨name, header⟩, h, hh, ?_, declares⟩
    -- The file itself does not declare its own parent.
    rintro rfl
    rw [declared?_of_header? header, Option.some.injEq] at declares
    exact others h hf name (declares ▸ header)
  · obtain ⟨places, nodup, length, mem⟩ := l.changed_places wf rfl distinct
    exact ⟨places, nodup, mem, count.trans length.symm⟩

theorem headers_childBelow :
    (SourceFile.find childBelow ⟨.here, []⟩ Session.targets).map
        (fun f => childBelow.header? f.fullPath) =
      [some ("Base", none), none, some ("Child", some "Base")] := by
  rw [find_childBelow]
  decide +kernel

/-- The child in the directory is served with the parent that its header names. -/
theorem updateImports_served_childBelow :
    let files := SourceFile.find childBelow ⟨.here, []⟩ Session.targets
    let child := SourceFile.below ⟨.here, []⟩ ⟨.here, ["model", "Child.ts"]⟩
    let text := "export interface Child extends Base \x7b\n\x7d\n"
    childBelow.WellFormed ∧ childBelow.Distinct files ∧
      (∀ f ∈ files, ∀ name, childBelow.header? f.fullPath ≠ some (name, some name)) ∧
      childBelow.readText child.fullPath = .ok text ∧ childBelow.Wants files child "Base" ∧
      ∃ h ∈ files, childBelow.declared? h = some "Base" ∧
        (updateImports ⟨.here, []⟩ childBelow).2.readText child.fullPath =
          .ok (String.ofList (child.importOf h "Base").shown ++ text) := by
  have wf : childBelow.WellFormed := by decide +kernel
  have distinct : childBelow.Distinct (SourceFile.find childBelow ⟨.here, []⟩ Session.targets) := by
    apply distinct_of_nodup
    rw [find_childBelow]
    decide +kernel
  have others : ∀ f ∈ SourceFile.find childBelow ⟨.here, []⟩ Session.targets, ∀ name,
      childBelow.header? f.fullPath ≠ some (name, some name) := by
    intro f hf name self
    have listed := List.mem_map_of_mem (f := fun f => childBelow.header? f.fullPath) hf
    rw [headers_childBelow, self] at listed
    simp at listed
    exact absurd (listed.1.symm.trans listed.2) (by decide)
  have listed : SourceFile.below ⟨.here, []⟩ ⟨.here, ["model", "Child.ts"]⟩ ∈
      SourceFile.find childBelow ⟨.here, []⟩ Session.targets := by
    rw [find_childBelow]
    decide
  have read : childBelow.readText ⟨.here, ["model", "Child.ts"]⟩ =
      .ok "export interface Child extends Base \x7b\n\x7d\n" := by
    decide +kernel
  have wants : childBelow.Wants (SourceFile.find childBelow ⟨.here, []⟩ Session.targets)
      (.below ⟨.here, []⟩ ⟨.here, ["model", "Child.ts"]⟩) "Base" := by
    refine ⟨⟨"Child", by decide +kernel⟩, .below ⟨.here, []⟩ ⟨.here, ["Base.ts"]⟩, ?_, by decide,
      by decide +kernel⟩
    rw [find_childBelow]
    decide
  have served := (updateImports_served wf ⟨.here, []⟩).2 distinct others
  exact ⟨wf, distinct, others, read, wants,
    (served.1 _ listed _ read).1 "Base" wants (by decide +kernel)⟩

/-- Two files that declare one name, of which the second extends a parent, and a file that extends
itself. -/
def sameNames : FileTree :=
  ⟨[], [(["a"], .directory),
    (["a", "A.ts"], .file (Utf8.encode "export interface A \x7b\n\x7d\n".toList)),
    (["b"], .directory),
    (["b", "A.ts"], .file (Utf8.encode "export interface A extends Q \x7b\n\x7d\n".toList)),
    (["c"], .directory),
    (["c", "Q.ts"], .file (Utf8.encode "export interface Q \x7b\n\x7d\n".toList)),
    (["S.ts"], .file (Utf8.encode "export interface S extends S \x7b\n\x7d\n".toList))]⟩

theorem find_sameNames : SourceFile.find sameNames ⟨.here, []⟩ Session.targets =
    [.below ⟨.here, []⟩ ⟨.here, ["S.ts"]⟩, .below ⟨.here, []⟩ ⟨.here, ["a", "A.ts"]⟩,
      .below ⟨.here, []⟩ ⟨.here, ["b", "A.ts"]⟩, .below ⟨.here, []⟩ ⟨.here, ["c", "Q.ts"]⟩] := by
  rw [SourceFile.find_of_pairwise rfl] <;> decide +kernel

/-- What the files hold after a pass: the first one of the name is served in place of the second,
and the one that extends itself imports itself. -/
theorem readText_sameNames :
    let after := (updateImports ⟨.here, []⟩ sameNames).2
    after.readText ⟨.here, ["a", "A.ts"]⟩ = .ok
        ("import \x7b Q \x7d from '../c/Q';\n\n" ++ "export interface A \x7b\n\x7d\n") ∧
      after.readText ⟨.here, ["b", "A.ts"]⟩ = .ok "export interface A extends Q \x7b\n\x7d\n" ∧
      after.readText ⟨.here, ["S.ts"]⟩ = .ok
        ("import \x7b S \x7d from './S';\n\n" ++ "export interface S extends S \x7b\n\x7d\n") := by
  rw [updateImports_eq, find_sameNames]
  decide +kernel

/-- Where names are repeated, a file that wants an import can be left without, and one that wants
none can be changed; and an interface that extends itself is given an import of itself. -/
theorem not_served_by_own_header :
    let files := SourceFile.find sameNames ⟨.here, []⟩ Session.targets
    let after := (updateImports ⟨.here, []⟩ sameNames).2
    (¬ ∀ f ∈ files, ∀ parent, sameNames.Wants files f parent →
        after.Serves f.fullPath parent) ∧
      (¬ ∀ f ∈ files, (∀ parent, ¬ sameNames.Wants files f parent) →
        after.readText f.fullPath = sameNames.readText f.fullPath) ∧
      ¬ ∀ f ∈ files, ∀ name, sameNames.declared? f = some name →
        (∀ text, sameNames.readText f.fullPath = .ok text →
          holdsImport name text.toList = false) →
        ∀ text, after.readText f.fullPath = .ok text → holdsImport name text.toList = false := by
  have mem : ∀ f, f ∈ SourceFile.find sameNames ⟨.here, []⟩ Session.targets ↔ f ∈ _ := fun f => by
    rw [find_sameNames]
  obtain ⟨first, second, self⟩ := readText_sameNames
  intro files after
  refine ⟨fun all => ?_, fun all => ?_, fun all => ?_⟩
  · have served := all (.below ⟨.here, []⟩ ⟨.here, ["b", "A.ts"]⟩) ((mem _).2 (by decide)) "Q"
      ⟨⟨"A", by decide +kernel⟩, .below ⟨.here, []⟩ ⟨.here, ["c", "Q.ts"]⟩, (mem _).2 (by decide),
        by decide, by decide +kernel⟩ _ second
    revert served
    decide +kernel
  · have same := all (.below ⟨.here, []⟩ ⟨.here, ["a", "A.ts"]⟩) ((mem _).2 (by decide))
      (fun parent wants => by
        obtain ⟨⟨name, header⟩, -⟩ := wants
        have plain : sameNames.header? ⟨.here, ["a", "A.ts"]⟩ = some ("A", none) := by
          decide +kernel
        exact absurd (plain.symm.trans header) (by simp))
    have old : sameNames.readText ⟨.here, ["a", "A.ts"]⟩ =
        .ok "export interface A \x7b\n\x7d\n" := by decide +kernel
    have longer := (Except.ok.inj (first.symm.trans (same.trans old)))
    revert longer
    decide +kernel
  · have absent := all (.below ⟨.here, []⟩ ⟨.here, ["S.ts"]⟩) ((mem _).2 (by decide)) "S"
      (by decide +kernel) (fun text read => by
        have old : sameNames.readText ⟨.here, ["S.ts"]⟩ =
            .ok "export interface S extends S \x7b\n\x7d\n" := by decide +kernel
        rw [← Except.ok.inj (old.symm.trans read)]
        decide +kernel) _ self
    revert absent
    decide +kernel

end FileTree

end InterfaceGen
