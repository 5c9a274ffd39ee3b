/-!
# Sets of code points

The character properties of this library are sets of code points given as closed ranges in
ascending order. `CodePoints` is such a set, and `findRange?` is the search that all tables share:
by halving, so that a table of some hundred ranges takes about ten comparisons.

The tables are those of version 17 of the standard. Every property asks the ASCII characters first
and the table only for the others, so the ASCII part of a property can be read off its definition.
-/

namespace PhraseGraph.Text

/-- The entry of an ascending table whose closed range, given by `range`, holds `n`. -/
def findRange? {α : Type} (entries : Array α) (range : α → Nat × Nat) (n : Nat) : Option α :=
  go entries.size 0 entries.size
where
  /-- Searches among the entries from `low` up to `high`. Each step at least halves what is left,
      so the size of the table is more than enough for `steps`. -/
  go : Nat → Nat → Nat → Option α
    | 0, _, _ => none
    | steps + 1, low, high =>
      let middle := (low + high) / 2
      if low < high then
        match entries[middle]? with
        | none => none
        | some entry =>
          if n < (range entry).1 then go steps low middle
          else if (range entry).2 < n then go steps (middle + 1) high
          else some entry
      else none

/-- A set of code points, as closed ranges that ascend and do not meet. -/
structure CodePoints where
  /-- The first and the last code point of each range. -/
  ranges : Array (Nat × Nat)

/-- Membership of a code point in the set. -/
def CodePoints.contains (s : CodePoints) (n : Nat) : Bool :=
  (findRange? s.ranges id n).isSome

end PhraseGraph.Text
