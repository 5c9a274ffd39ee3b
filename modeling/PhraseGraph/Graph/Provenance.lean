import PhraseGraph.Graph.Basic
import PhraseGraph.StableSort

/-!
# Origins

Every token of a graph gets an origin: the piece of the phrase that it stands for, together with
what was passed over since the end of the token before it. The graph is walked from its roots, and
the parent from which a token is first reached is the token before it (`visits`). The origins are
numbered in the order in which they are first reached, and each edge of the walk is an edge between
origins.
-/

namespace PhraseGraph

/-- A step of the walk: to `child`, from a parent or from outside. -/
structure Visit where
  /-- The node that the walk comes from. -/
  parent : Option NodeId
  /-- The node that it reaches. -/
  child : NodeId
deriving DecidableEq, Repr, Inhabited

namespace Provenance

/-- The steps of a walk from `parent` to the given children, in order, where a child that is not
    among the `seen` ones is followed by the steps below it; and the nodes seen after them. -/
def walk (g : TokenGraph) :
    (steps : Nat) → (parent : Option NodeId) → List NodeId → (seen : List NodeId) →
      List Visit × List NodeId
  | 0, _, _, seen => ([], seen)
  | _ + 1, _, [], seen => ([], seen)
  | steps + 1, parent, child :: rest, seen =>
    if seen.contains child then
      let (after, seen) := walk g steps parent rest seen
      (⟨parent, child⟩ :: after, seen)
    else
      let (below, seen) := walk g steps (some child) (g.children child) (child :: seen)
      let (after, seen) := walk g steps parent rest seen
      (⟨parent, child⟩ :: below ++ after, seen)

/-- One more than the number of steps that a walk can have: one for each root and each edge. -/
def walkBound (g : TokenGraph) : Nat :=
  g.roots.length + (g.nodes.toList.map fun n => n.children.length).foldr (· + ·) 0 + 1

/-- The steps of the walk through the whole graph. Every edge is walked once. -/
def visits (g : TokenGraph) : List Visit :=
  (walk g (walkBound g) none g.roots []).1

/-- The steps that reach a node for the first time. -/
def firstVisits : (seen : List NodeId) → List Visit → List Visit
  | _, [] => []
  | seen, v :: rest =>
    if seen.contains v.child then firstVisits seen rest
    else v :: firstVisits (v.child :: seen) rest

/-- The piece of the phrase that a token stands for after its parent. A token with the bytes of its
    parent goes on with what the parent has taken: a synonym adds its word to those before it, any
    other token adds nothing. -/
def pieceText (phrase : List Char) (token : Token) (parent : Option Token) : String :=
  let continues := match parent with
    | some p => p.startOffset == token.startOffset && p.endOffset == token.endOffset
    | none => false
  match token.isSynonym, continues with
  | true, true => " " ++ token.text
  | true, false => token.text
  | false, true => ""
  | false, false => Text.sliceOf phrase token.startOffset token.endOffset

/-- What is passed over before a token that follows a token ending at byte `done`. -/
def passedBefore (phrase : List Char) (done : Nat) (token : Token) : String :=
  if done < token.startOffset then Text.sliceOf phrase done token.startOffset else ""

/-- What is passed over after a token that ends the phrase. -/
def passedAfter (phrase : String) (n : Node) : String :=
  if n.isEnd && n.token.endOffset < phrase.utf8ByteSize then
    Text.slice phrase n.token.endOffset phrase.utf8ByteSize
  else ""

/-- The origin of the node that a visit reaches first, where `phrase` has the characters of the
    phrase, `all` are the visits of the walk, and `order` has the nodes as they are first reached.
    The place of a node in this order is that of its origin. -/
def originOf (g : TokenGraph) (phrase : List Char) (all : List Visit) (order : List NodeId)
    (v : Visit) : Origin :=
  let n := g.node v.child
  let parent := v.parent.map g.node
  { skippedPrefix :=
      passedBefore phrase ((parent.map fun p => p.token.endOffset).getD 0) n.token,
    text := pieceText phrase n.token (parent.map (·.token)),
    skippedSuffix := passedAfter g.phrase n,
    node := v.child,
    parents := (all.filter fun u => u.child == v.child).filterMap fun u => u.parent.map order.idxOf,
    children := n.children.map order.idxOf }

/-- The graph with an origin for every token that the walk reaches. -/
def fill (g : TokenGraph) : TokenGraph :=
  let all := visits g
  let first := firstVisits [] all
  let order := first.map (·.child)
  { g with
    origins := (first.map (originOf g g.phrase.toList all order)).toArray,
    nodes := (g.nodes.toList.zipIdx.map fun (n, id) =>
      { n with origins := if order.contains id then [order.idxOf id] else [] }).toArray }

end Provenance

/-- The places that can be reached from `todo` by `next`, apart from those already `seen`, in the
    order in which a search in depth reaches them, backwards. One step looks at one place. -/
def reach (next : Nat → List Nat) : (steps : Nat) → (todo seen : List Nat) → List Nat
  | 0, _, seen => seen
  | _ + 1, [], seen => seen
  | steps + 1, id :: todo, seen =>
    if seen.contains id then reach next steps todo seen
    else reach next steps (next id ++ todo) (id :: seen)

namespace TokenGraph

/-- The nodes that can be reached from the roots. A place is looked at once for each root or edge
    that leads to it. -/
def reachable (g : TokenGraph) : List NodeId :=
  reach g.children (Provenance.walkBound g) g.roots []

/-- The origins that can be reached from those of the roots. -/
def reachableOrigins (g : TokenGraph) : List OriginId :=
  reach (fun id => (g.origin id).children)
    (g.originRoots.length + (g.origins.toList.map fun o => o.children.length).foldr (· + ·) 0 + 1)
    g.originRoots []

/-- The graph in which the origins that can follow an origin are in the order of their full texts,
    wherever they can be reached from the roots. -/
def sortOrigins (g : TokenGraph) : TokenGraph :=
  let reached := g.reachableOrigins
  { g with
    origins := (g.origins.toList.zipIdx.map fun (o, id) =>
      if reached.contains id then
        { o with children :=
            stableSort (fun a b => textLe (g.origin a).fullText (g.origin b).fullText) o.children }
      else o).toArray }

end TokenGraph

end PhraseGraph
