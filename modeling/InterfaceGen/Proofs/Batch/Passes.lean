import InterfaceGen.Proofs.Batch.Update

/-!
# What a pass adds

`Passes` goes along the edges with a log of the imports that are added, each to the file from which
the name of its child counts. A file is read with the imports in front that the log has for it,
`Passes.readText_eq`; what is added was not there, `Passes.absent`, and in the end each edge is
served, `Passes.served`.
-/

namespace InterfaceGen

open InterfaceGen.Text

/-! ## Imports as they are read -/

/-- The text of an import in front of a file as it is read again. -/
def Import.shown (i : Import) : List Char :=
  unifyBreaks i.block.toList

/-- Imports in front of a file as they are read again. -/
def Import.shownAll (imports : List Import) : List Char :=
  imports.flatMap Import.shown

/-- The import of a parent that another file declares. -/
def SourceFile.importOf (f h : SourceFile) (parent : String) : Import :=
  ⟨parent, Location.parentPath f.location h.location⟩

@[simp] theorem SourceFile.importOf_path (f h : SourceFile) (parent : String) :
    (f.importOf h parent).path = Location.parentPath f.location h.location := by
  unfold importOf
  dsimp only

/-- An import stands on one line if the name and the location do. -/
theorem SourceFile.isOneLine_importOf {f h : SourceFile} {parent : String}
    (name : Text.IsOneLine parent) (location : Text.IsOneLine h.location) :
    (f.importOf h parent).IsOneLine := by
  refine ⟨name, ?_⟩
  rw [importOf_path]
  exact Location.isOneLine_parentPath _ location

namespace FileTree

variable {t u v : FileTree} {child : Origin} {i : Import}

/-- A text with an import in front holds it, also as it is read back. -/
theorem holdsImport_shown (i : Import) (h : IsOneLine i.name) (text : List Char) :
    holdsImport i.name (i.shown ++ text) = true := by
  have opening : '\r' ∉ (importOpening i.name).toList := by
    have name : '\r' ∉ i.name.toList := fun hm => (h _ hm).2 rfl
    simp [importOpening, name]
  have block : i.block.toList =
      (importOpening i.name).toList ++ (" from '" ++ i.path ++ "';\n\n").toList := by
    simp [Import.block, Import.statement, importOpening]
  have last : (importOpening i.name).toList.getLast? ≠ some '\r' := fun same =>
    opening (List.mem_of_getLast? same)
  rw [holdsImport, occurs_iff, Import.shown, block, unifyBreaks_append last,
    unifyBreaks_of_notMem opening, List.append_assoc]
  exact (List.prefix_append _ _).isInfix

namespace Adds

/-- Where nothing is added the child is served. -/
theorem serves_of_idle (h : Adds t child i (false, u)) : t.Serves child.path i.name := by
  intro text read
  cases h with
  | unreadable unread =>
    rw [unread] at read
    cases read
  | present there held =>
    rw [there, Except.ok.injEq] at read
    exact read ▸ held

/-- Behind an addition the file is read with the import in front. -/
theorem readText_child (wf : t.WellFormed) (h : Adds t child i (true, u)) :
    ∃ text, t.readText child.path = .ok text ∧ holdsImport i.name text.toList = false ∧
      u.readText child.path = .ok (String.ofList i.shown ++ text) := by
  cases h with
  | @added place bytes chars holds absent =>
    refine ⟨_, holds.readText, by rwa [String.toList_ofList], ?_⟩
    have last : i.block.toList.getLast? ≠ some '\r' := by
      simp [Import.block, String.toList_append]
    rw [(holds_set wf holds _).readText, unifyBreaks_append last,
      unifyBreaks_of_notMem (cr_notMem_unifyBreaks chars), String.ofList_append]
    rfl

/-- What is read elsewhere stays the same. -/
theorem readText_other (wf : t.WellFormed) (h : Adds t child i result) {path : FilePath}
    (differ : t.locate child.path ≠ t.locate path) :
    result.2.readText path = t.readText path := by
  refine (readText_congr (locate_congr (h.outline wf) path) fun place located => ?_).symm
  exact (h.entry_eq fun same => differ (same.trans located.symm)).symm

/-- What is read by any path stays the same or gets something in front. -/
theorem readText_or (wf : t.WellFormed) (h : Adds t child i (true, u)) (path : FilePath) :
    u.readText path = t.readText path ∨ ∃ text, t.readText path = .ok text ∧
      u.readText path = .ok (String.ofList i.shown ++ text) := by
  by_cases same : t.locate child.path = t.locate path
  · obtain ⟨text, old, -, new⟩ := h.readText_child wf
    obtain ⟨place, bytes, chars, holds, rfl⟩ := exists_holds old
    obtain ⟨place', bytes', chars', holds', shown⟩ := exists_holds new
    have there : t.Holds path place bytes chars := ⟨same ▸ holds.located, holds.entry, holds.decoded⟩
    have there' : u.Holds path place' bytes' chars' :=
      ⟨by rw [← locate_congr (h.outline wf), ← same, locate_congr (h.outline wf), holds'.located],
        holds'.entry, holds'.decoded⟩
    exact .inr ⟨_, there.readText, by rw [there'.readText, shown]⟩
  · exact .inl (h.readText_other wf same)

end Adds

/-- The file from which the name counts. -/
def owner? (t : FileTree) (files : List SourceFile) (name : String) : Option SourceFile :=
  files.find? fun f => t.declared? f = some name

/-- The owner of a name is one of the files and declares the name. -/
theorem mem_of_owner? {files : List SourceFile} {name : String} {f : SourceFile}
    (h : t.owner? files name = some f) : f ∈ files ∧ t.declared? f = some name :=
  ⟨List.mem_of_find?_eq_some h, by simpa using List.find?_some h⟩

/-- A pass along edges, with the imports that it adds. -/
inductive Passes (owner : String → Option SourceFile) :
    FileTree → List (String × String) → List (SourceFile × Import) → FileTree → Prop where
  | done (t : FileTree) : Passes owner t [] [] t
  | idle {t u : FileTree} {child parent : String} {rest : List (String × String)}
    {log : List (SourceFile × Import)} {f h : SourceFile} (hc : owner child = some f)
    (hp : owner parent = some h) (one : Adds t f.origin (f.importOf h parent) (false, t))
    (more : Passes owner t rest log u) : Passes owner t ((child, parent) :: rest) log u
  | added {t u v : FileTree} {child parent : String} {rest : List (String × String)}
    {log : List (SourceFile × Import)} {f h : SourceFile} (hc : owner child = some f)
    (hp : owner parent = some h) (one : Adds t f.origin (f.importOf h parent) (true, u))
    (more : Passes owner u rest log v) :
    Passes owner t ((child, parent) :: rest) ((f, f.importOf h parent) :: log) v

/-- The imports of all edges are added one after the other, and the log holds the children that are
reported as updated. -/
theorem exists_passes {g : DeclarationGraph} {owner : String → Option SourceFile}
    (origins : ∀ name, g.origin? name = (owner name).map SourceFile.origin)
    (edges : List (String × String))
    (declared : ∀ edge ∈ edges, (g.origin? edge.1).isSome ∧ (g.origin? edge.2).isSome)
    (t : FileTree) :
    ∃ log, Passes owner t edges log (addParentImports g edges t).2 ∧
      (addParentImports g edges t).1 = log.map (·.1.location) := by
  induction edges generalizing t with
  | nil => exact ⟨[], .done t, rfl⟩
  | cons edge rest ih =>
    obtain ⟨child, parent⟩ := edge
    have here := declared _ (List.mem_cons_self ..)
    simp only [origins, Option.isSome_map, Option.isSome_iff_exists] at here
    obtain ⟨⟨f, hc⟩, ⟨h, hp⟩⟩ := here
    have oc : g.origin? child = some f.origin := by rw [origins, hc]; rfl
    have op : g.origin? parent = some h.origin := by rw [origins, hp]; rfl
    have one := adds_addParentImport t f.origin parent h.origin
    obtain ⟨log, more, updated⟩ := ih (fun e he => declared e (List.mem_cons_of_mem _ he))
      (addParentImport f.origin parent h.origin t).2
    rw [addParentImports_cons oc op]
    generalize addParentImport f.origin parent h.origin t = result at one more updated ⊢
    obtain ⟨changed, v⟩ := result
    -- An edge that changes nothing leaves no entry in the log.
    cases changed with
    | false =>
      have same : v = t := by cases one <;> rfl
      subst same
      exact ⟨log, .idle hc hp one more, updated⟩
    | true => exact ⟨_ :: log, .added hc hp one more, by simp [updated]; rfl⟩

namespace Passes

variable {owner : String → Option SourceFile} {edges : List (String × String)}
  {log : List (SourceFile × Import)}

/-- No file and no directory is added or removed. -/
theorem outline (wf : t.WellFormed) (h : Passes owner t edges log u) : t.outline = u.outline := by
  induction h with
  | done => rfl
  | idle _ _ _ _ ih => exact ih wf
  | added _ _ one _ ih =>
    have same := one.outline wf
    exact same.trans (ih (wf.congr same))

/-- Each addition comes from an edge. -/
theorem mem_edges (h : Passes owner t edges log u) {e : SourceFile × Import} (hm : e ∈ log) :
    ∃ child other, (child, e.2.name) ∈ edges ∧ owner child = some e.1 ∧
      owner e.2.name = some other ∧ e.2 = e.1.importOf other e.2.name := by
  induction h with
  | done => cases hm
  | idle _ _ _ _ ih =>
    obtain ⟨child, other, listed, facts⟩ := ih hm
    exact ⟨child, other, List.mem_cons_of_mem _ listed, facts⟩
  | added hc hp _ _ ih =>
    rcases List.mem_cons.1 hm with rfl | hm
    · exact ⟨_, _, List.mem_cons_self .., hc, hp, rfl⟩
    · obtain ⟨child, other, listed, facts⟩ := ih hm
      exact ⟨child, other, List.mem_cons_of_mem _ listed, facts⟩

/-- No import is added twice. -/
theorem nodup_log (sole : ∀ n m f, owner n = some f → owner m = some f → n = m)
    (h : Passes owner t edges log u) (nodup : edges.Nodup) :
    (log.map fun e => (e.1, e.2.name)).Nodup := by
  induction h with
  | done => exact List.nodup_nil
  | idle _ _ _ _ ih => exact ih (List.nodup_cons.1 nodup).2
  | added hc _ _ more ih =>
    rw [List.nodup_cons] at nodup
    rw [List.map_cons, List.nodup_cons]
    refine ⟨fun again => ?_, ih nodup.2⟩
    obtain ⟨e, hm, same⟩ := List.mem_map.1 again
    obtain ⟨child, _, listed, owned, -, -⟩ := more.mem_edges hm
    simp only [Prod.mk.injEq] at same
    rw [same.1] at owned
    rw [same.2, sole _ _ _ owned hc] at listed
    exact nodup.1 listed

/-- What is read by a path stays the same or gets something in front. -/
theorem readText_or (wf : t.WellFormed) (h : Passes owner t edges log u) (path : FilePath) :
    u.readText path = t.readText path ∨ ∃ text before, t.readText path = .ok text ∧
      u.readText path = .ok (before ++ text) := by
  induction h with
  | done => exact .inl rfl
  | idle _ _ _ _ ih => exact ih wf
  | added _ _ one _ ih =>
    rcases ih (wf.congr (one.outline wf)) with same | ⟨text, before, old, new⟩
    · rcases one.readText_or wf path with same' | ⟨text, old, new⟩
      · exact .inl (same.trans same')
      · exact .inr ⟨text, _, old, same.trans new⟩
    · rcases one.readText_or wf path with same' | ⟨text', old', new'⟩
      · exact .inr ⟨text, before, same' ▸ old, new⟩
      · rw [new', Except.ok.injEq] at old
        exact .inr ⟨text', _, old', by rw [new, ← old, ← String.append_assoc]⟩

/-- What is served before a pass is served behind it. -/
theorem serves (wf : t.WellFormed) (h : Passes owner t edges log u) {path : FilePath}
    {name : String} (served : t.Serves path name) : u.Serves path name := by
  intro text read
  rcases h.readText_or wf path with same | ⟨old, before, was, now⟩
  · exact served text (same ▸ read)
  · rw [now, Except.ok.injEq] at read
    rw [← read, String.toList_append]
    exact holdsImport_append (served old was) _

/-- What is added was not there before. -/
theorem absent (wf : t.WellFormed) (h : Passes owner t edges log u) {e : SourceFile × Import}
    (hm : e ∈ log) :
    ∃ text, t.readText e.1.fullPath = .ok text ∧ holdsImport e.2.name text.toList = false := by
  induction h with
  | done => cases hm
  | idle _ _ _ _ ih => exact ih wf hm
  | added _ _ one _ ih =>
    rcases List.mem_cons.1 hm with rfl | hm
    · obtain ⟨text, read, absent, -⟩ := one.readText_child wf
      exact ⟨text, read, absent⟩
    · obtain ⟨text, read, absent⟩ := ih (wf.congr (one.outline wf)) hm
      rcases one.readText_or wf e.1.fullPath with same | ⟨old, was, now⟩
      · exact ⟨text, same ▸ read, absent⟩
      · refine ⟨old, was, Bool.eq_false_iff.2 fun there => ?_⟩
        rw [now, Except.ok.injEq] at read
        rw [← read, String.toList_append, holdsImport_append there] at absent
        cases absent

/-- Each edge is served in the end. -/
theorem served (wf : t.WellFormed) (plain : ∀ edge ∈ edges, IsOneLine edge.2)
    (h : Passes owner t edges log u) {child parent : String} {f : SourceFile}
    (hm : (child, parent) ∈ edges) (owned : owner child = some f) :
    u.Serves f.fullPath parent := by
  induction h with
  | done => cases hm
  | idle hc _ one more ih =>
    rcases List.mem_cons.1 hm with same | hm
    · obtain ⟨rfl, rfl⟩ := Prod.mk.inj same
      rw [owned, Option.some.injEq] at hc
      subst hc
      exact more.serves wf one.serves_of_idle
    · exact ih wf (fun e he => plain e (List.mem_cons_of_mem _ he)) hm
  | @added t v u first last rest log g h hc _ one more ih =>
    have wf' := wf.congr (one.outline wf)
    rcases List.mem_cons.1 hm with same | hm
    · obtain ⟨rfl, rfl⟩ := Prod.mk.inj same
      rw [owned, Option.some.injEq] at hc
      subst hc
      refine more.serves wf' fun text read => ?_
      obtain ⟨old, -, -, now⟩ := one.readText_child wf
      obtain rfl := Except.ok.inj (now.symm.trans read)
      rw [String.toList_append, String.toList_ofList]
      exact holdsImport_shown (f.importOf h parent) (plain _ (List.mem_cons_self ..)) _
    · exact ih wf' (fun e he => plain e (List.mem_cons_of_mem _ he)) hm

/-- Only files with additions are written. -/
theorem entry_eq (wf : t.WellFormed) (h : Passes owner t edges log u) {place : Place}
    (off : ∀ e ∈ log, t.locate e.1.fullPath ≠ .ok place) :
    u.entry? place = t.entry? place := by
  induction h with
  | done => rfl
  | idle _ _ _ _ ih => exact ih wf off
  | added _ _ one _ ih =>
    have same := one.outline wf
    refine (ih (wf.congr same) fun e he => ?_).trans (one.entry_eq (off _ (List.mem_cons_self ..)))
    rw [← locate_congr same]
    exact off e (List.mem_cons_of_mem _ he)

/-- A file is read with the imports in front that were added to it, the last one first. -/
theorem readText_eq (wf : t.WellFormed) (h : Passes owner t edges log u) {f : SourceFile}
    (sole : ∀ name g, owner name = some g → t.locate g.fullPath = t.locate f.fullPath → g = f)
    {text : String} (read : t.readText f.fullPath = .ok text) :
    u.readText f.fullPath = .ok (String.ofList
      (Import.shownAll ((log.filter (·.1 = f)).map (·.2)).reverse) ++ text) := by
  induction h generalizing text with
  | done => simpa [Import.shownAll] using read
  | idle _ _ _ _ ih => exact ih wf sole read
  | @added t v u child parent rest log g h hc hp one more ih =>
    have same := one.outline wf
    have wf' := wf.congr same
    have sole' : ∀ name g, owner name = some g → v.locate g.fullPath = v.locate f.fullPath →
        g = f := by
      intro name g owned
      rw [← locate_congr same, ← locate_congr same]
      exact sole name g owned
    by_cases mine : g = f
    · subst mine
      obtain ⟨old, was, -, now⟩ := one.readText_child wf
      rw [show t.readText g.fullPath = _ from was, Except.ok.injEq] at read
      rw [ih wf' sole' now, read]
      simp [Import.shownAll, String.ofList_append, String.append_assoc]
    · have other := one.readText_other wf fun same => mine (sole _ _ hc same)
      rw [ih wf' sole' (other.trans read)]
      simp [mine]

end Passes

end FileTree

end InterfaceGen
