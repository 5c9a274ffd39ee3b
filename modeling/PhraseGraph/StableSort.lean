/-!
# Stable sorting

Sorting by insertion, from the last element to the first. An element is put in front of all that it
may stand in front of, so elements that are alike for the order keep the order of the list.
-/

namespace PhraseGraph

/-- Puts an element in front of the first one that it may stand in front of. -/
def insertInOrder {α : Type} (le : α → α → Bool) (a : α) : List α → List α
  | [] => [a]
  | b :: rest => if le a b then a :: b :: rest else b :: insertInOrder le a rest

/-- The elements in the given order, alike ones as they come. -/
def stableSort {α : Type} (le : α → α → Bool) : List α → List α
  | [] => []
  | a :: rest => insertInOrder le a (stableSort le rest)

/-- Whether a text comes before another one, or is the same. -/
def textLe (s t : String) : Bool := !decide (t < s)

end PhraseGraph
