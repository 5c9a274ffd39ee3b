import PhraseGraph.Failure
import PhraseGraph.Text.Bytes
import PhraseGraph.Token

/-!
# Token graphs

A token graph holds the alternatives of a phrase: its nodes are tokens, and every path from a root
to an end node spells one way to put the phrase. A node that several alternatives share has several
parents, and the nodes stand in an array with their places as names.

Beside the nodes stand the *origins*: an origin says for which piece of the phrase a token stands.
They form a graph of their own over the same alternatives, in which every token keeps its own origin
even where tokens with the same text have become one node.
-/

namespace PhraseGraph

/-- The place of a node in its graph. -/
abbrev NodeId := Nat

/-- The place of an origin in its graph. -/
abbrev OriginId := Nat

/-- A token of a graph, with its neighbours. -/
structure Node where
  /-- The token. -/
  token : Token
  /-- Whether a phrase may end here. -/
  isEnd : Bool := false
  /-- The nodes that this one can follow. -/
  parents : List NodeId := []
  /-- The nodes that can follow this one. -/
  children : List NodeId := []
  /-- The origins of the tokens that this node stands for. -/
  origins : List OriginId := []
deriving DecidableEq, Repr, Inhabited

/-- The piece of a phrase that a token stands for, with what is passed over around it. -/
structure Origin where
  /-- What is passed over between the token before and this one: blanks, signs, stop words. -/
  skippedPrefix : String := ""
  /-- The piece of the phrase itself; a synonym's own text, or nothing where a token goes on with
      a piece that its parent has taken. -/
  text : String
  /-- What is passed over after the last token. -/
  skippedSuffix : String := ""
  /-- The node of the token. -/
  node : NodeId
  /-- The origins that this one can follow. -/
  parents : List OriginId := []
  /-- The origins that can follow this one. -/
  children : List OriginId := []
deriving DecidableEq, Repr, Inhabited

namespace Origin

/-- The piece with all that is passed over around it. -/
def fullText (o : Origin) : String := o.skippedPrefix ++ o.text ++ o.skippedSuffix

/-- The piece after the last character that is passed over before it. In `at $Year` the words are
    `at` and `Year`, and this is the name `$Year`. -/
def variableName (o : Origin) : String :=
  match o.skippedPrefix.toList.getLast? with
  | some c => String.ofList [c] ++ o.text
  | none => o.text

/-- What is passed over before the piece, without its last character. -/
def variablePrefix (o : Origin) : String :=
  String.ofList o.skippedPrefix.toList.dropLast

end Origin

/-- The alternatives of a phrase, and where each comes from. -/
structure TokenGraph where
  /-- The phrase that was analyzed. -/
  phrase : String
  /-- The nodes, by their places. -/
  nodes : Array Node := #[]
  /-- The origins, by their places. -/
  origins : Array Origin := #[]
  /-- The nodes that begin a phrase. -/
  roots : List NodeId := []
deriving DecidableEq, Repr, Inhabited

namespace TokenGraph

/-- The node at a place; a node without a text, if there is none. -/
def node (g : TokenGraph) (id : NodeId) : Node := g.nodes.getD id default

/-- The origin at a place; an origin without a text, if there is none. -/
def origin (g : TokenGraph) (id : OriginId) : Origin := g.origins.getD id default

/-- The text of a node's token. -/
def text (g : TokenGraph) (id : NodeId) : String := (g.node id).token.text

/-- The nodes that can follow a node. -/
def children (g : TokenGraph) (id : NodeId) : List NodeId := (g.node id).children

/-- Whether a phrase may end at a node. -/
def isEnd (g : TokenGraph) (id : NodeId) : Bool := (g.node id).isEnd

/-- The node that an origin stands for. -/
def nodeOf (g : TokenGraph) (o : Origin) : Except Failure Node :=
  match g.nodes[o.node]? with
  | some n => .ok n
  | none => .error (.lostNode o.node)

/-- The first origin of a node. -/
def firstOrigin? (g : TokenGraph) (id : NodeId) : Option Origin :=
  (g.node id).origins.head?.map g.origin

/-- The origins of the given nodes, in order. -/
def originsOf (g : TokenGraph) (ids : List NodeId) : List OriginId :=
  ids.flatMap fun id => (g.node id).origins

/-- The origins of the roots. -/
def originRoots (g : TokenGraph) : List OriginId := g.originsOf g.roots

/-- The number of nodes. -/
def size (g : TokenGraph) : Nat := g.nodes.size

/-- Whether the graph has no nodes. -/
def isEmpty (g : TokenGraph) : Bool := g.nodes.isEmpty

/-- The nodes from the given ones on with their depth, each before its children and once for every
    path to it. Paths of more than `steps` nodes are cut off. -/
def walk (g : TokenGraph) (depth : Nat) : (steps : Nat) → List NodeId → List (Nat × String)
  | 0, _ => []
  | steps + 1, ids =>
    ids.flatMap fun id => (depth, g.text id) :: g.walk (depth + 1) steps (g.children id)

/-- All nodes with their depth. A path without a cycle is not longer than the number of nodes. -/
def traversal (g : TokenGraph) : List (Nat × String) := g.walk 0 g.size g.roots

/-- The graph as an indented outline. -/
def outline (g : TokenGraph) : String :=
  String.join (g.traversal.map fun (depth, text) =>
    String.ofList (List.replicate (2 * depth) ' ') ++ text ++ "\n")

end TokenGraph

end PhraseGraph
