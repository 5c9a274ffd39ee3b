import PhraseGraph.Graph

/-!
# The cache of graphs

The graphs of phrases are kept by language and phrase, up to a limit. When the limit is passed, the
graph that has not been used for the longest time is dropped. A graph is used when it is fetched and
when it is stored, but not when it is only asked for. With the limit 0 nothing is kept.

A cache has room for its limit from the beginning (`GraphCache.ofLimit`), so there is a largest
limit.

Work that fetches graphs is a `Cached` computation: it hands the cache on, also when it fails.
-/

namespace PhraseGraph

/-- The name under which a graph is kept. -/
structure GraphKey where
  /-- The language. -/
  language : String
  /-- The phrase. -/
  phrase : String
deriving DecidableEq, Repr

/-- Graphs of phrases, the last used one first. -/
structure GraphCache where
  /-- How many graphs may be kept. -/
  limit : Nat
  /-- The graphs by the order of their last use. -/
  recent : List (GraphKey × TokenGraph) := []

namespace GraphCache

/-- The cache that keeps nothing. -/
def disabled : GraphCache := { limit := 0 }

instance : Inhabited GraphCache := ⟨disabled⟩

/-- The largest limit of a cache. Graphs are kept in a table with a place of 16 bytes for each. The
    number of places is a power of two, of which seven eighths may be taken, and the bytes of all
    are counted in 63 bits. -/
def largestLimit : Nat := 7 * Nat.pow 2 55

/-- The empty cache with a limit, if there is room for it. -/
def ofLimit (limit : Nat) : Except Failure GraphCache :=
  if limit ≤ largestLimit then .ok { limit } else .error (.cacheOverflow limit)

/-- The number of graphs that are kept. -/
def size (c : GraphCache) : Nat := c.recent.length

/-- The graph of a key, without using it. -/
def peek? (c : GraphCache) (key : GraphKey) : Option TokenGraph :=
  (c.recent.find? fun entry => entry.1 == key).map (·.2)

/-- Whether the graph of a key is kept. -/
def contains (c : GraphCache) (key : GraphKey) : Bool := (c.peek? key).isSome

/-- The cache after a graph is stored. -/
def store (c : GraphCache) (key : GraphKey) (g : TokenGraph) : GraphCache :=
  { c with recent := ((key, g) :: c.recent.filter fun entry => entry.1 != key).take c.limit }

/-- The graph of a key, and the cache after its use. -/
def fetch? (c : GraphCache) (key : GraphKey) : Option (TokenGraph × GraphCache) :=
  (c.peek? key).map fun g => (g, c.store key g)

/-- The cache with nothing kept. -/
def clear (c : GraphCache) : GraphCache := { c with recent := [] }

/-- The cache in brief, for diagnosis. -/
def describe (c : GraphCache) : String :=
  "TokensCache \x7b limit: " ++ toString c.limit ++ ", len: " ++ toString c.size ++ " \x7d"

end GraphCache

/-- Work that uses a cache and may fail. -/
abbrev Cached := ExceptT Failure (StateM GraphCache)

namespace Cached

/-- Does the work with the given cache. -/
def perform {α : Type} (c : GraphCache) (work : Cached α) : Except Failure α × GraphCache :=
  work.run.run c

/-- Does the work without keeping any graph. -/
def alone {α : Type} (work : Cached α) : Except Failure α := (perform .disabled work).1

end Cached

/-- The graph of a phrase in a language, from the cache if it is kept there. What is made anew is
    kept; failures are not. -/
def TokenGraph.cached (analyzer : Analyzer) (phrase language : String) : Cached TokenGraph := do
  let key : GraphKey := { language, phrase }
  match (← get).fetch? key with
  | some (g, c) =>
    set c
    return g
  | none =>
    let g ← TokenGraph.ofPhrase analyzer phrase language
    modify fun c => c.store key g
    return g

end PhraseGraph
