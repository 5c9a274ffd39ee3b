import PhraseGraph.Failure

/-!
# Combinations

A list of dimensions has a combination for every way to pick one item of each dimension. The
combinations are numbered from 0 on, so that the items of the first dimension change fastest:
the places of the items within their dimensions are the digits of the number, where the lengths of
the dimensions are the bases. Only the number of the next combination is kept while they are listed.
Work on all of them goes on until it fails (`Combinations.collect`), however many are left then.

The number of combinations is a product that is computed from left to right and has to stay below
`2 ^ 64` all the way.
-/

namespace PhraseGraph

/-- The product of the numbers, multiplied from left to right onto `count`, if it stays below
    `2 ^ 64` at each step. -/
def productFrom? (count : Nat) : List Nat → Option Nat
  | [] => some count
  | n :: rest => if count * n < 2 ^ 64 then productFrom? (count * n) rest else none

/-- The combination with the given number. -/
def combinationAt? {α : Type} : (dimensions : List (List α)) → (number : Nat) → Option (List α)
  | [], _ => some []
  | dimension :: rest, number => do
    let item ← dimension[number % dimension.length]?
    let items ← combinationAt? rest (number / dimension.length)
    return item :: items

/-- A list of combinations in progress. -/
structure Combinations (α : Type) where
  /-- The items to pick from. -/
  dimensions : List (List α)
  /-- The number of combinations. -/
  size : Nat
  /-- The number of the next combination. -/
  next : Nat
deriving Repr

namespace Combinations

variable {α : Type}

/-- The combinations of the dimensions, of which none is listed yet. -/
def ofDimensions (dimensions : List (List α)) : Except Failure (Combinations α) :=
  match productFrom? 1 (dimensions.map List.length) with
  | some size => .ok { dimensions, size, next := 0 }
  | none => .error (.tooManyCombinations dimensions.length)

/-- The combination with the given number, if there is one. -/
def at? (c : Combinations α) (number : Nat) : Option (List α) :=
  if number < c.size then combinationAt? c.dimensions number else none

/-- The next combination, and what follows it. -/
def advance? (c : Combinations α) : Option (List α × Combinations α) :=
  (c.at? c.next).map fun items => (items, { c with next := c.next + 1 })

/-- All combinations from the first one on. -/
def restart (c : Combinations α) : Combinations α := { c with next := 0 }

/-- How many combinations are left. -/
def remaining (c : Combinations α) : Nat := c.size - c.next

/-- The combinations from the next one on, but at most `n`. -/
def upcoming (c : Combinations α) (n : Nat) : List (List α) :=
  (List.range' c.next (min n c.remaining)).filterMap c.at?

/-- The next combinations, but at most `n`, and what follows them. -/
def take (c : Combinations α) (n : Nat) : List (List α) × Combinations α :=
  (c.upcoming n, { c with next := c.next + min n c.remaining })

/-- All combinations in order. -/
def toList (c : Combinations α) : List (List α) := c.restart.upcoming c.size

/-- What `f` makes of `count` combinations from the given number on, after what it has `made` of
    those before, which stands backwards. -/
def collectFrom {ε β : Type} (f : List α → Except ε β) (c : Combinations α) :
    (count number : Nat) → (made : List β) → Except ε (List β)
  | 0, _, made => .ok made.reverse
  | count + 1, number, made =>
    match c.at? number with
    | none => collectFrom f c count (number + 1) made
    | some items =>
      match f items with
      | .error e => .error e
      | .ok b => collectFrom f c count (number + 1) (b :: made)

/-- What `f` makes of all combinations. They are listed one by one, and none after one for which `f`
    fails. -/
def collect {ε β : Type} (c : Combinations α) (f : List α → Except ε β) : Except ε (List β) :=
  collectFrom f c c.size 0 []

theorem collectFrom_eq {ε β : Type} (f : List α → Except ε β) (c : Combinations α)
    (count number : Nat) (made : List β) :
    collectFrom f c count number made
      = (((List.range' number count).filterMap c.at?).mapM f).map (made.reverse ++ ·) := by
  induction count generalizing number made with
  | zero => simp [collectFrom, Except.map, pure, Except.pure]
  | succ count ih =>
    rw [collectFrom, List.range'_succ, List.filterMap_cons]
    cases c.at? number with
    | none => exact ih _ _
    | some items =>
      simp only [List.mapM_cons, ih]
      cases f items with
      | error e => rfl
      | ok b =>
        cases ((List.range' (number + 1) count).filterMap c.at?).mapM f <;>
          simp [Except.map, bind, Except.bind, pure, Except.pure]

theorem collect_eq {ε β : Type} (c : Combinations α) (f : List α → Except ε β) :
    c.collect f = c.toList.mapM f := by
  have h : c.toList = (List.range' 0 c.size).filterMap c.at? := by
    simp only [toList, upcoming, restart, remaining, Nat.sub_zero, Nat.min_self]
    rfl
  rw [collect, collectFrom_eq, h]
  cases ((List.range' 0 c.size).filterMap c.at?).mapM f <;> rfl

end Combinations

end PhraseGraph
