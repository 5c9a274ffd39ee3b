import PhraseGraph.Graph.Provenance

/-!
# One node for each text

Among the roots, and among the children of each node, no text should occur twice, and the texts
should ascend: then two lists of siblings are compared by walking along both. The lists are put into
this form from the leaves to the roots. Where two neighbours of a sorted list have one text they
become one node, with the edges and the origins of both; its children may be in disorder after that,
so they are looked at once more.

Merging nodes that end at different slots can bend the graph into a cycle while it is being walked.
The walk ends all the same. A node that has been looked at is not looked at again unless a merge has
kept it, and a merge uses up a node: with `n` nodes, twice the number of nodes not yet merged plus
the number of nodes not yet looked at is at most `3 * n` and falls with every step in depth
(`Merging.stepBound`).
-/

namespace PhraseGraph

/-- A graph whose siblings are being merged. -/
structure Merging where
  /-- The nodes, the merged ones included. -/
  nodes : Array Node
  /-- The origins. -/
  origins : Array Origin
  /-- The nodes that have been looked at since they were last merged into. -/
  visited : List NodeId := []
  /-- The merges so far, in order: a node that is gone and the one that took its place. -/
  merges : List (NodeId × NodeId) := []
deriving Inhabited

/-- The edges with `old` replaced by `new`, where `new` does not come up twice. -/
def redirect (edges : List NodeId) (old new : NodeId) : List NodeId :=
  if edges.contains new then edges.filter (· != old)
  else edges.map fun id => if id == old then new else id

/-- The edges with the one to `id` added, unless it is there. -/
def addEdge (edges : List NodeId) (id : NodeId) : List NodeId :=
  if edges.contains id then edges else edges ++ [id]

namespace Merging

/-- The node at a place. -/
def node (m : Merging) (id : NodeId) : Node := m.nodes.getD id default

/-- Changes the node at a place. -/
def modify (m : Merging) (id : NodeId) (f : Node → Node) : Merging :=
  { m with nodes := m.nodes.modify id f }

/-- The node that stands for a node after all merges. -/
def resolve (m : Merging) (id : NodeId) : NodeId :=
  m.merges.foldl (fun id (gone, kept) => if id == gone then kept else id) id

/-- The siblings after all merges, each once, by ascending text. -/
def canonical (m : Merging) (siblings : List NodeId) : List NodeId :=
  stableSort (fun a b => textLe (m.node a).token.text (m.node b).token.text)
    ((siblings.map m.resolve).eraseDups)

/-- The first two neighbours with the same text. -/
def firstEqual? (m : Merging) : List NodeId → Option (NodeId × NodeId)
  | [] => none
  | [_] => none
  | a :: b :: rest =>
    if (m.node a).token.text == (m.node b).token.text then some (a, b)
    else m.firstEqual? (b :: rest)

/-- Merges the node `gone` into `keep`. -/
def merge (m : Merging) (keep gone : NodeId) : Merging :=
  let old := m.node gone
  let m := m.modify gone fun n => { n with parents := [], children := [], origins := [] }
  let m := old.parents.foldl (fun m p =>
    m.modify p fun n => { n with children := redirect n.children gone keep }) m
  let m := old.children.foldl (fun m c =>
    m.modify c fun n => { n with parents := redirect n.parents gone keep }) m
  let m := m.modify keep fun n =>
    { n with
      parents := (old.parents.filter (· != keep)).foldl addEdge n.parents,
      children := (old.children.filter (· != keep)).foldl addEdge n.children,
      origins := n.origins ++ old.origins,
      isEnd := n.isEnd || old.isEnd }
  { m with
    origins := old.origins.foldl (fun os id => os.modify id fun o => { o with node := keep })
      m.origins,
    merges := m.merges ++ [(gone, keep)],
    -- The children of both have to be looked at together.
    visited := m.visited.filter (· != keep) }

/-- Puts a list of siblings, and all below them, into canonical form. Gives nothing if `steps` does
    not bound the depth of the walk. -/
def settle : (steps : Nat) → Merging → List NodeId → Option (Merging × List NodeId)
  | 0, _, _ => none
  | steps + 1, m, siblings => do
    let m ← siblings.foldlM (fun m sibling =>
      let id := m.resolve sibling
      if m.visited.contains id then some m
      else do
        let m := { m with visited := id :: m.visited }
        let (m, children) ← settle steps m (m.node id).children
        return m.modify id fun n => { n with children }) m
    let siblings := m.canonical siblings
    match m.firstEqual? siblings with
    | none => return (m, siblings)
    | some (keep, gone) => settle steps (m.merge keep gone) siblings

/-- A bound for the depth of the walk through a graph of `n` nodes. -/
def stepBound (n : Nat) : Nat := 3 * n + 1

end Merging

namespace TokenGraph

/-- The graph without the nodes that cannot be reached from the roots, where the others move up. An
    origin whose node is gone keeps the place that the node had. -/
def compact (g : TokenGraph) : TokenGraph :=
  let live := g.reachable
  if live.length == g.nodes.size then g
  else
    let kept := (List.range g.nodes.size).filter live.contains
    let place? := fun id => if live.contains id then some (kept.findIdx (· == id)) else none
    { g with
      nodes := (kept.map fun id =>
        let n := g.node id
        { n with parents := n.parents.filterMap place?,
                 children := n.children.filterMap place? }).toArray,
      roots := g.roots.filterMap place?,
      origins := g.origins.map fun o => { o with node := (place? o.node).getD o.node } }

/-- The graph in which no two siblings have one text and the texts of siblings ascend. -/
def normalize (g : TokenGraph) : TokenGraph :=
  match Merging.settle (Merging.stepBound g.nodes.size)
      { nodes := g.nodes, origins := g.origins } g.roots with
  | some (m, roots) => { g with nodes := m.nodes, origins := m.origins, roots }.compact
  | none => g

end TokenGraph

end PhraseGraph
