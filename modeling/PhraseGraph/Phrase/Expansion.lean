import PhraseGraph.Enumeration
import PhraseGraph.Graph.Basic
import PhraseGraph.Phrase

/-!
# The phrases of a graph

Every path through the origins of a graph spells a phrase. `expand` lists them: for each origin, its
own phrases followed by every phrase of the origins after it, and then, where a phrase may end, its
own phrases alone. What an origin contributes by itself is a parameter; for literal text it is one
binding (`TokenGraph.literalPhrase`).

An origin asks its node whether a phrase may end there, and for the text of the token. The node may
be gone: merging siblings can leave a node out of reach while its origin stays. The enumeration
breaks off at such an origin, before the first phrase through it.

The origins have no cycles, so their number bounds the length of a path. The number of phrases,
though, grows exponentially with the places where the graph branches. `expandFirst` lists the first
ones only, and looks no further (`TokenGraph.expandFirst_eq_take`).
-/

namespace PhraseGraph

/-- The phrases through an origin: its own ones before each phrase of the origins after it, and its
    own ones alone at an end node, and where nothing can follow. -/
def phrasesThrough (own : List Phrase) (isEnd : Bool) (below : Enumeration Phrase) :
    Enumeration Phrase :=
  (below.flatMap fun rest => own.map fun first => first.append rest).append
    (.ofList (if isEnd || below.isEmpty then own else []))

/-- Where an origin has phrases of its own, the first phrases through it need no more of the phrases
    after it. -/
theorem take_phrasesThrough_take {own : List Phrase} (h : own ≠ []) (isEnd : Bool)
    (below : Enumeration Phrase) (n : Nat) :
    (phrasesThrough own isEnd (below.take (n + 1))).take (n + 1)
      = (phrasesThrough own isEnd below).take (n + 1) := by
  have hempty : (below.take (n + 1)).isEmpty = below.isEmpty := by
    cases hitems : below.items <;> simp [Enumeration.isEmpty, Enumeration.take, hitems]
  rw [phrasesThrough, hempty]
  exact Enumeration.take_append_flatMap_take (fun rest => by simpa using h) below _ _

namespace TokenGraph

/-- What an origin contributes by itself: its own phrases, and whether one may end with them. -/
def contribution (g : TokenGraph) (own : Origin → Except Failure (List Phrase)) (o : Origin) :
    Except Failure (List Phrase × Bool) := do
  let phrases ← own o
  let n ← g.nodeOf o
  return (phrases, n.isEnd)

/-- The phrases along the paths from the given origins on, of at most `steps` origins, where `own`
    gives the phrases of each origin by itself. -/
def expand (g : TokenGraph) (own : Origin → Except Failure (List Phrase)) :
    (steps : Nat) → List OriginId → Enumeration Phrase
  | 0, _ => ∅
  | steps + 1, ids =>
    .gather ids fun id =>
      match g.contribution own (g.origin id) with
      | .error failure => .failed failure
      | .ok (phrases, isEnd) =>
        phrasesThrough phrases isEnd (expand g own steps (g.origin id).children)

/-- The first `count` of the phrases along the paths from the given origins on. Below an origin
    without phrases of its own no phrase comes up, so only the failures there matter. -/
def expandFirst (g : TokenGraph) (own : Origin → Except Failure (List Phrase)) :
    (steps : Nat) → (count : Nat) → List OriginId → Enumeration Phrase
  | 0, _, _ => ∅
  | steps + 1, count, ids =>
    Enumeration.gatherFirst (fun count id =>
      match g.contribution own (g.origin id) with
      | .error failure => .failed failure
      | .ok (phrases, isEnd) =>
        let below :=
          if phrases.isEmpty then expand g own steps (g.origin id).children
          else expandFirst g own steps count (g.origin id).children
        (phrasesThrough phrases isEnd below).take count) count ids

theorem expandFirst_eq_take (g : TokenGraph) (own : Origin → Except Failure (List Phrase))
    (steps count : Nat) (ids : List OriginId) :
    g.expandFirst own steps count ids = (g.expand own steps ids).take count := by
  induction steps generalizing count ids with
  | zero => simp [expandFirst, expand]
  | succ steps ih =>
    refine Enumeration.gatherFirst_eq_take (fun n id => ?_) count ids
    split
    · simp [Enumeration.take, Enumeration.failed]
    · next phrases isEnd _ =>
      by_cases hown : phrases = []
      · simp [hown]
      · simp only [List.isEmpty_iff, hown, if_false, ih, take_phrasesThrough_take hown]

/-- The phrases from the given origins on. -/
def phrasesOf (g : TokenGraph) (own : Origin → Except Failure (List Phrase))
    (ids : List OriginId) : Enumeration Phrase :=
  g.expand own (g.origins.size + 1) ids

/-- The first `count` of the phrases from the given origins on. -/
def firstPhrasesOf (g : TokenGraph) (own : Origin → Except Failure (List Phrase)) (count : Nat)
    (ids : List OriginId) : Enumeration Phrase :=
  g.expandFirst own (g.origins.size + 1) count ids

theorem firstPhrasesOf_eq_take (g : TokenGraph) (own : Origin → Except Failure (List Phrase))
    (count : Nat) (ids : List OriginId) :
    g.firstPhrasesOf own count ids = (g.phrasesOf own ids).take count :=
  g.expandFirst_eq_take own _ count ids

/-- The token of an origin as literal text. -/
def literalPhrase (g : TokenGraph) (o : Origin) : Except Failure Phrase := do
  let n ← g.nodeOf o
  return .text o.skippedPrefix o.text o.skippedSuffix n.token.text

/-- The phrases from the given nodes on, all of literal text. -/
def literalPhrasesFrom (g : TokenGraph) (ids : List NodeId) : Enumeration Phrase :=
  g.phrasesOf (fun o => return [← g.literalPhrase o]) (g.originsOf ids)

/-- The phrases of the graph, all of literal text. -/
def literalPhrases (g : TokenGraph) : Enumeration Phrase := g.literalPhrasesFrom g.roots

end TokenGraph

end PhraseGraph
