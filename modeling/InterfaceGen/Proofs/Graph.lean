import InterfaceGen.Graph
import Mathlib.Data.List.Nodup
import Mathlib.Data.List.Flatten

/-!
# What a graph of interfaces holds

Mentioning a name or extending one interface by another declares nothing, and a declaration counts
only if it is the first of its name: `origin?_declare`, `origin?_extend`. In every graph that is
built by these steps the edges are the links, each once: `Sound.mem_edges_iff`, `Sound.nodup_edges`.
-/

namespace InterfaceGen.DeclarationGraph

variable {g : DeclarationGraph}

/-! ## Declarations -/

/-- A name that is only mentioned gets no origin. -/
theorem origin?_mention (g : DeclarationGraph) (name other : String) :
    (g.mention name).origin? other = g.origin? other := by
  rw [mention]
  split
  · rfl
  · rw [origin?, origin?, node?, node?, List.find?_append]
    cases g.nodes.find? (·.name == other) with
    | some node => rfl
    | none =>
      rw [Option.none_or, List.find?_singleton]
      split <;> rfl

theorem isSome_node?_mention (g : DeclarationGraph) (name : String) :
    ((g.mention name).node? name).isSome = true := by
  rw [mention]
  split
  · next there => exact there
  · rw [node?, List.find?_append, List.find?_singleton]
    simp

/-- A node with the declaration of a name, if it is the node of the name. -/
def GraphNode.declared (name : String) (origin : Origin) (n : GraphNode) : GraphNode :=
  if n.name = name then ⟨name, some origin⟩ else n

theorem GraphNode.name_declared (name : String) (origin : Origin) (n : GraphNode) :
    (GraphNode.declared name origin n).name = n.name := by
  rw [GraphNode.declared]
  split
  · next same => exact same.symm
  · rfl

/-- The first declaration of a name counts. -/
theorem origin?_declare (g : DeclarationGraph) (name : String) (origin : Origin) (other : String) :
    (g.declare name origin).origin? other =
      (g.origin? other).or (if other = name then some origin else none) := by
  rw [declare]
  split
  · next there =>
    obtain ⟨first, known⟩ := Option.isSome_iff_exists.1 there
    split
    · next same => rw [same, known]; rfl
    · rw [Option.or_none]
  · next new =>
    rw [Option.not_isSome_iff_eq_none] at new
    have found : ((g.mention name).nodes.map (GraphNode.declared name origin)).find?
        (·.name == other) =
          ((g.mention name).node? other).map (GraphNode.declared name origin) := by
      rw [List.find?_map, node?]
      simp only [Function.comp_def, GraphNode.name_declared]
    rw [origin?]
    refine (congrArg (Option.bind · (·.origin)) found).trans ?_
    -- The node of this name had no origin and gets one; the others stay.
    by_cases same : other = name
    · obtain ⟨node, there⟩ := Option.isSome_iff_exists.1 (isSome_node?_mention g name)
      have named : node.name = name := by
        simpa using List.find?_some there
      rw [same, new, there, if_pos rfl, Option.map_some, Option.bind_some, GraphNode.declared,
        if_pos named]
      rfl
    · rw [if_neg same, Option.or_none, ← origin?_mention g name other, origin?]
      cases there : (g.mention name).node? other with
      | none => rfl
      | some node =>
        have named : node.name = other := by
          simpa using List.find?_some there
        rw [Option.map_some, Option.bind_some, Option.bind_some, GraphNode.declared,
          if_neg (named ▸ same)]

/-- Nor does a link give origins to its names. -/
theorem origin?_extend (g : DeclarationGraph) (child parent other : String) :
    (g.extend child parent).origin? other = g.origin? other := by
  have same : (g.extend child parent).origin? other =
      ((g.mention child).mention parent).origin? other := by
    unfold extend
    simp only
    split <;> rfl
  rw [same, origin?_mention, origin?_mention]

/-! ## Extensions -/

theorem links_mention (g : DeclarationGraph) (name : String) : (g.mention name).links = g.links := by
  unfold mention
  split <;> rfl

theorem links_declare (g : DeclarationGraph) (name : String) (origin : Origin) :
    (g.declare name origin).links = g.links := by
  unfold declare
  split
  · rfl
  · exact links_mention g name

/-- A link is added behind the others, unless it is there. -/
theorem links_extend (g : DeclarationGraph) (child parent : String) :
    (g.extend child parent).links =
      if (child, parent) ∈ g.links then g.links else g.links ++ [(child, parent)] := by
  have links : ((g.mention child).mention parent).links = g.links := by
    rw [links_mention, links_mention]
  unfold extend
  simp only [links, List.contains_iff_mem]
  split
  · exact links
  · rfl

/-- One link is added, and none is removed. -/
theorem mem_links_extend {child parent : String} {link : String × String} :
    link ∈ (g.extend child parent).links ↔ link ∈ g.links ∨ link = (child, parent) := by
  rw [links_extend]
  split
  · next there => exact ⟨.inl, fun h => h.elim id fun same => same ▸ there⟩
  · simp

/-- The names of the nodes. -/
def names (g : DeclarationGraph) : List String :=
  g.nodes.map (·.name)

theorem isSome_node?_iff {name : String} : (g.node? name).isSome = true ↔ name ∈ g.names := by
  simp [node?, names]

/-- A new name is added behind the others. -/
theorem names_mention (g : DeclarationGraph) (name : String) :
    (g.mention name).names = if name ∈ g.names then g.names else g.names ++ [name] := by
  unfold mention
  simp only [isSome_node?_iff]
  split
  · rfl
  · simp [names]

/-- One name is added, and none is removed. -/
theorem mem_names_mention {name other : String} :
    other ∈ (g.mention name).names ↔ other ∈ g.names ∨ other = name := by
  rw [names_mention]
  split
  · next there => exact ⟨.inl, fun h => h.elim id fun same => same ▸ there⟩
  · simp

/-- The name of a declaration is mentioned, unless it is declared. -/
theorem names_declare (g : DeclarationGraph) (name : String) (origin : Origin) :
    (g.declare name origin).names =
      if (g.origin? name).isSome then g.names else (g.mention name).names := by
  unfold declare
  split
  · rfl
  · refine List.map_map.trans (List.map_congr_left fun n _ => ?_)
    exact GraphNode.name_declared name origin n

/-- Both names of a link are mentioned, the child first. -/
theorem names_extend (g : DeclarationGraph) (child parent : String) :
    (g.extend child parent).names = ((g.mention child).mention parent).names := by
  unfold extend
  simp only
  split <;> rfl

/-- Each name has one node, each link stands once, and its child has a node. -/
structure Sound (g : DeclarationGraph) : Prop where
  names : g.names.Nodup
  links : g.links.Nodup
  children : ∀ link ∈ g.links, link.1 ∈ g.names

theorem Sound.empty : Sound empty :=
  ⟨List.nodup_nil, List.nodup_nil, fun _ h => nomatch h⟩

/-- A name that is mentioned leaves the graph sound. -/
theorem Sound.mention (h : g.Sound) (name : String) : (g.mention name).Sound := by
  refine ⟨?_, ?_, fun link hl => ?_⟩
  · rw [names_mention]
    split
    · exact h.names
    · next new => exact List.nodup_append.2 ⟨h.names, List.nodup_singleton _, fun a ha b hb same =>
        new (List.mem_singleton.1 hb ▸ same ▸ ha)⟩
  · rw [links_mention]
    exact h.links
  · rw [links_mention] at hl
    exact mem_names_mention.2 (.inl (h.children link hl))

/-- So does a declaration. -/
theorem Sound.declare (h : g.Sound) (name : String) (origin : Origin) :
    (g.declare name origin).Sound := by
  have nodes := names_declare g name origin
  split at nodes
  · exact ⟨nodes ▸ h.names, links_declare g name origin ▸ h.links,
      fun link hl => nodes ▸ h.children link (links_declare g name origin ▸ hl)⟩
  · have mentioned := h.mention name
    exact ⟨nodes ▸ mentioned.names, links_declare g name origin ▸ h.links, fun link hl =>
      nodes ▸ mentioned.children link ((links_mention g name).symm ▸ links_declare g name origin ▸ hl)⟩

/-- So does a link. -/
theorem Sound.extend (h : g.Sound) (child parent : String) : (g.extend child parent).Sound := by
  have mentioned := (h.mention child).mention parent
  refine ⟨names_extend g child parent ▸ mentioned.names, ?_, fun link hl => ?_⟩
  · rw [links_extend]
    split
    · exact h.links
    · next new => exact List.nodup_append.2 ⟨h.links, List.nodup_singleton _, fun a ha b hb same =>
        new (List.mem_singleton.1 hb ▸ same ▸ ha)⟩
  · rw [names_extend]
    rcases mem_links_extend.1 hl with old | rfl
    · exact mem_names_mention.2 (.inl (mem_names_mention.2 (.inl (h.children link old))))
    · exact mem_names_mention.2 (.inl (mem_names_mention.2 (.inr rfl)))

/-- In a sound graph the edges are the links. -/
theorem Sound.mem_edges_iff (h : g.Sound) {link : String × String} :
    link ∈ g.edges ↔ link ∈ g.links := by
  rw [edges, List.mem_flatMap]
  constructor
  · rintro ⟨n, -, hl⟩
    exact (List.mem_filter.1 hl).1
  · intro hl
    obtain ⟨n, hn, named⟩ := List.mem_map.1 (h.children link hl)
    exact ⟨n, hn, List.mem_filter.2 ⟨hl, by simpa using named.symm⟩⟩

/-- Each edge of a sound graph is listed once. -/
theorem Sound.nodup_edges (h : g.Sound) : g.edges.Nodup := by
  rw [edges, List.nodup_flatMap]
  refine ⟨fun n _ => h.links.filter _, ?_⟩
  refine (List.pairwise_map.1 h.names).imp fun {m n} differ => ?_
  intro link first second
  have one : link.1 = m.name := by simpa using (List.mem_filter.1 first).2
  have other : link.1 = n.name := by simpa using (List.mem_filter.1 second).2
  exact differ (one.symm.trans other)

/-- The extensions between declared names, each once. -/
theorem Sound.mem_declaredEdges_iff (h : g.Sound) {child parent : String} :
    (child, parent) ∈ g.declaredEdges ↔
      (child, parent) ∈ g.links ∧ (g.origin? child).isSome ∧ (g.origin? parent).isSome := by
  rw [declaredEdges, List.mem_filter, h.mem_edges_iff, Bool.and_eq_true]

theorem Sound.nodup_declaredEdges (h : g.Sound) : g.declaredEdges.Nodup :=
  h.nodup_edges.filter _

end InterfaceGen.DeclarationGraph
