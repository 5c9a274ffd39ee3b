import PhraseGraph.Graph.Basic

/-!
# The graph that a list of tokens describes

A token can follow the tokens that end where it begins. Where none ends there, because a word was
left out, it follows those that end at the nearest slot before. So every token hangs off one end
slot (`anchor?`): the largest one that is not after its own position. A token that hangs off no slot
is a root, and the tokens that end last are the ends.

All tokens that hang off one slot follow all tokens that end there. Positions grow along the edges,
so the graph has no cycle.
-/

namespace PhraseGraph

namespace Forest

/-- The largest of the end slots that are not after `position`. -/
def anchor? (ends : List Nat) (position : Nat) : Option Nat := (ends.filter (· ≤ position)).max?

/-- The slots after the last ones of the tokens. -/
def endSlots (tokens : List Token) : List Nat := tokens.map Token.endPosition

/-- The slots that the tokens hang off. -/
def anchors (tokens : List Token) : List (Option Nat) :=
  let ends := endSlots tokens
  tokens.map fun t => anchor? ends t.position

/-- The places of a mark in a list of marks, each with its place. -/
def placesOf {α : Type} [BEq α] (mark : α) (marks : List (α × Nat)) : List Nat :=
  (marks.filter fun m => m.1 == mark).map (·.2)

/-- The node of a token that hangs off the slot `anchor`, among tokens that end and hang off at the
    given slots, where `last` is the last slot of all. -/
def node (ends : List (Nat × Nat)) (hangOff : List (Option Nat × Nat)) (last : Option Nat)
    (t : Token) (anchor : Option Nat) : Node where
  token := { t with positionLength := t.span }
  isEnd := last == some t.endPosition
  parents := match anchor with
    | some slot => placesOf slot ends
    | none => []
  children := placesOf (some t.endPosition) hangOff

/-- The graph of the tokens, still without origins. -/
def ofTokens (tokens : List Token) (phrase : String) : TokenGraph :=
  let ends := endSlots tokens
  let hangOff := anchors tokens
  { phrase,
    nodes := (tokens.zipWith (node ends.zipIdx hangOff.zipIdx ends.max?) hangOff).toArray,
    roots := placesOf none hangOff.zipIdx }

end Forest

end PhraseGraph
