import InterfaceGen.Proofs.Graph

/-!
# Graphs that are built step by step

What a graph tells after any row of declarations and extensions can be read off the row itself: a
name is declared where its first declaration says, and the extensions between declared names are
those of the row, each once. An extension may come before, between or after the declarations of its
two names, and nothing hangs on the order but which declaration of a name is the first:
`build_laws`.
-/

namespace InterfaceGen.DeclarationGraph

/-- What a graph is told. -/
inductive Step where
  | declare (name : String) (origin : Origin)
  | extend (child parent : String)
  deriving DecidableEq, Repr

/-- The graph with what a step tells. -/
def take (g : DeclarationGraph) : Step → DeclarationGraph
  | .declare name origin => g.declare name origin
  | .extend child parent => g.extend child parent

/-- The graph that a row of steps builds. -/
def build (steps : List Step) : DeclarationGraph :=
  steps.foldl take empty

/-- Where a step declares a name, if it does. -/
def Step.origin? (name : String) : Step → Option Origin
  | .declare declared origin => if declared = name then some origin else none
  | .extend .. => none

/-- The first declaration of a name in a row of steps. -/
def firstOrigin? (steps : List Step) (name : String) : Option Origin :=
  steps.findSome? (Step.origin? name)

/-- The location of the first declaration of a name. -/
def firstLocation? (steps : List Step) (name : String) : Option String :=
  (firstOrigin? steps name).map (·.location)

variable {g : DeclarationGraph} {steps : List Step}

/-! ## One step -/

/-- A step gives a name its origin, unless it has one. -/
theorem origin?_take (g : DeclarationGraph) (step : Step) (name : String) :
    (g.take step).origin? name = (g.origin? name).or (step.origin? name) := by
  cases step with
  | declare declared origin =>
    simp only [take, Step.origin?, origin?_declare, eq_comm]
  | extend child parent => simp only [take, Step.origin?, origin?_extend, Option.or_none]

/-- A step adds the link that it states, and no other. -/
theorem mem_links_take {step : Step} {child parent : String} :
    (child, parent) ∈ (g.take step).links ↔
      (child, parent) ∈ g.links ∨ step = .extend child parent := by
  cases step with
  | declare name origin => simp [take, links_declare]
  | extend other extended => simp [take, mem_links_extend, eq_comm]

/-- A step leaves the graph sound. -/
theorem Sound.take (h : g.Sound) (step : Step) : (g.take step).Sound := by
  cases step with
  | declare name origin => exact h.declare name origin
  | extend child parent => exact h.extend child parent

/-! ## A row of steps -/

/-- After a row of steps a name has the origin that it had, or else the first one in the row. -/
theorem origin?_foldl (steps : List Step) : ∀ (g : DeclarationGraph) (name : String),
    (steps.foldl take g).origin? name = (g.origin? name).or (firstOrigin? steps name) := by
  induction steps with
  | nil => exact fun g name => Option.or_none.symm
  | cons step steps ih =>
    intro g name
    rw [List.foldl_cons, ih, origin?_take, Option.or_assoc]
    congr 1
    unfold firstOrigin?
    rw [List.findSome?_cons]
    cases step.origin? name <;> rfl

/-- A name has its first origin in the row. -/
theorem origin?_build (steps : List Step) (name : String) :
    (build steps).origin? name = firstOrigin? steps name :=
  origin?_foldl steps empty name

/-- A name has the location of its first origin. -/
theorem locationOf?_build (steps : List Step) (name : String) :
    (build steps).locationOf? name = firstLocation? steps name := by
  rw [locationOf?, origin?_build, firstLocation?]

/-- The links are those that steps state. -/
theorem mem_links_build {child parent : String} :
    (child, parent) ∈ (build steps).links ↔ .extend child parent ∈ steps := by
  have after : ∀ g : DeclarationGraph, (child, parent) ∈ (steps.foldl take g).links ↔
      (child, parent) ∈ g.links ∨ .extend child parent ∈ steps := by
    induction steps with
    | nil => simp
    | cons step steps ih =>
      intro g
      rw [List.foldl_cons, ih, mem_links_take, List.mem_cons, or_assoc, eq_comm (a := step)]
  rw [build, after]
  simp [empty]

/-- Every row of steps builds a sound graph. -/
theorem sound_build (steps : List Step) : (build steps).Sound :=
  List.foldlRecOn steps take .empty fun _ h step _ => h.take step

/-- A name keeps the declaration that it has. -/
theorem firstLocation?_append {name location : String} (h : firstLocation? steps name = some location)
    (more : List Step) : firstLocation? (steps ++ more) name = some location := by
  obtain ⟨origin, known, rfl⟩ := Option.map_eq_some_iff.1 h
  unfold firstLocation? firstOrigin? at *
  rw [List.findSome?_append, known]
  rfl

theorem isSome_origin?_build {name : String} :
    ((build steps).origin? name).isSome = true ↔ (firstLocation? steps name).isSome = true := by
  rw [origin?_build, firstLocation?, Option.isSome_map]

/-- An edge is drawn for a link that a step states between two names with origins. -/
theorem mem_declaredEdges_build {child parent : String} :
    (child, parent) ∈ (build steps).declaredEdges ↔ .extend child parent ∈ steps ∧
      (firstLocation? steps child).isSome ∧ (firstLocation? steps parent).isSome := by
  rw [(sound_build steps).mem_declaredEdges_iff, mem_links_build, isSome_origin?_build,
    isSome_origin?_build]

/-- What can be read off a row of steps about the graph that it builds. -/
structure BuildLaws (steps : List Step) : Prop where
  /-- A name is located where its first declaration says. -/
  located : ∀ name, (build steps).locationOf? name = firstLocation? steps name
  /-- Later steps move no name. -/
  settled : ∀ more name location, (build steps).locationOf? name = some location →
    (build (steps ++ more)).locationOf? name = some location
  /-- The extensions between declared names are listed, and no others. -/
  edges : ∀ child parent, (child, parent) ∈ (build steps).declaredEdges ↔
    .extend child parent ∈ steps ∧ (firstLocation? steps child).isSome ∧
      (firstLocation? steps parent).isSome
  /-- Each is listed once. -/
  distinct : (build steps).declaredEdges.Nodup
  /-- A row with the same extensions and the same first declarations tells the same. -/
  ordered : ∀ other, (∀ child parent, Step.extend child parent ∈ other ↔ .extend child parent ∈ steps) →
    (∀ name, firstLocation? other name = firstLocation? steps name) →
    (∀ name, (build other).locationOf? name = (build steps).locationOf? name) ∧
      ∀ link, link ∈ (build other).declaredEdges ↔ link ∈ (build steps).declaredEdges

/-- The laws hold of every row of steps, in whatever order it declares and extends. -/
theorem build_laws (steps : List Step) : BuildLaws steps where
  located := locationOf?_build steps
  settled more name location known := by
    rw [locationOf?_build] at known ⊢
    exact firstLocation?_append known more
  edges _ _ := mem_declaredEdges_build
  distinct := (sound_build steps).nodup_declaredEdges
  ordered other extensions declarations := by
    constructor
    · intro name
      rw [locationOf?_build, locationOf?_build, declarations]
    · rintro ⟨child, parent⟩
      rw [mem_declaredEdges_build, mem_declaredEdges_build, extensions, declarations, declarations]

/-- An extension may come before the declarations of its names, and a second declaration changes
nothing. -/
example :
    let place : String → Origin := fun location => ⟨location, .ofString ""⟩
    let g := build [.extend "Circle" "Shape", .declare "Shape" (place "base/Shape"),
      .declare "Circle" (place "Circle"), .extend "Circle" "Shape", .extend "Circle" "Figure",
      .declare "Shape" (place "Shape")]
    g.locationOf? "Shape" = some "base/Shape" ∧ g.locationOf? "Figure" = none ∧
      g.declaredEdges = [("Circle", "Shape")] := by
  decide

end InterfaceGen.DeclarationGraph
