import InterfaceGen.Files.Path

/-!
# The graph of written interfaces

A node is the name of an interface, known from its declaration or only from another that extends
it. Nodes stand in the order in which their names first appeared, and the edges are listed node by
node, those of one node in the order of their first appearance. The first declaration of a name
counts.
-/

namespace InterfaceGen

/-- Where an interface is declared. -/
structure Origin where
  location : String
  path : FilePath
  deriving DecidableEq, Repr

/-- A name, with its declaration if one was found. -/
structure GraphNode where
  name : String
  origin : Option Origin
  deriving DecidableEq, Repr

/-- Interfaces and the extensions between them. -/
structure DeclarationGraph where
  nodes : List GraphNode
  /-- Pairs of a child and its parent, in the order of their first appearance. -/
  links : List (String × String)

namespace DeclarationGraph

/-- The graph without nodes. -/
def empty : DeclarationGraph :=
  ⟨[], []⟩

/-- The node of a name. -/
def node? (g : DeclarationGraph) (name : String) : Option GraphNode :=
  g.nodes.find? (·.name == name)

/-- Where a name is declared. -/
def origin? (g : DeclarationGraph) (name : String) : Option Origin :=
  (g.node? name).bind (·.origin)

/-- The location of the declaration of a name. -/
def locationOf? (g : DeclarationGraph) (name : String) : Option String :=
  (g.origin? name).map (·.location)

/-- The graph with a node for the name. -/
def mention (g : DeclarationGraph) (name : String) : DeclarationGraph :=
  if (g.node? name).isSome then g else { g with nodes := g.nodes ++ [⟨name, none⟩] }

/-- The graph with a declaration, unless the name has one. -/
def declare (g : DeclarationGraph) (name : String) (origin : Origin) : DeclarationGraph :=
  if (g.origin? name).isSome then g
  else
    let g := g.mention name
    { g with nodes := g.nodes.map fun n => if n.name = name then ⟨name, some origin⟩ else n }

/-- The graph with an extension of one name by another. -/
def extend (g : DeclarationGraph) (child parent : String) : DeclarationGraph :=
  let g := (g.mention child).mention parent
  if g.links.contains (child, parent) then g else { g with links := g.links ++ [(child, parent)] }

/-- The extensions, node by node. -/
def edges (g : DeclarationGraph) : List (String × String) :=
  g.nodes.flatMap fun n => g.links.filter fun link => link.1 = n.name

/-- The extensions between names that are both declared. -/
def declaredEdges (g : DeclarationGraph) : List (String × String) :=
  g.edges.filter fun link => (g.origin? link.1).isSome && (g.origin? link.2).isSome

/-- The number of declared names. -/
def declaredCount (g : DeclarationGraph) : Nat :=
  g.nodes.countP (·.origin.isSome)

end DeclarationGraph

end InterfaceGen
