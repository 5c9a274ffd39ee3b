import PhraseGraph.Dict
import PhraseGraph.Failure
import PhraseGraph.Text.Blank
import PhraseGraph.Text.Case

/-!
# Synonyms

A dictionary holds groups of terms that stand for each other. A term is one or more words, written
in lower case with single blanks between them, and belongs to one group only. Terms are looked up at
the beginning of a list of words, where the longest term wins (`Synonyms.longestTerm?`).

A group that shares a term with an earlier one is refused. The terms in front of the shared one stay
in the index all the same, under the number that the next accepted group gets.
-/

namespace PhraseGraph

open Text

/-- Groups of synonymous terms. -/
structure Synonyms where
  /-- The number of the group of each term. -/
  index : Dict String Nat := ∅
  /-- The groups, by number. -/
  groups : List (List String) := []
  /-- The number of words of the longest term. -/
  maxWords : Nat := 0
deriving Inhabited

namespace Synonyms

/-- The dictionary without groups. -/
def empty : Synonyms := {}

/-- The words of a term in lower case, with single blanks between them. -/
def normalize (term : String) : String :=
  " ".intercalate ((blankSeparated term).map lowercase)

/-- The words between the single blanks of a normalized term. -/
def termWords (term : String) : List String :=
  splitAt [] term.toList
where
  /-- The pieces between the blanks, where `word` is the current piece backwards. -/
  splitAt (word : List Char) : List Char → List String
    | [] => [String.ofList word.reverse]
    | c :: rest =>
      if c == ' ' then String.ofList word.reverse :: splitAt [] rest else splitAt (c :: word) rest

/-- The distinct terms of a group in normalized form, in order of first appearance. -/
def distinctTerms (terms : List String) : List String :=
  terms.foldl (fun group term =>
    let t := normalize term
    if t.isEmpty || group.contains t then group else group ++ [t]) []

/-- Enters the terms into the index, up to one that is already in it. -/
def enterTerms (number : Nat) (d : Synonyms) : List String → Synonyms × Option Failure
  | [] => (d, none)
  | term :: rest =>
    if d.index.contains term then (d, some (.sharedSynonym term))
    else enterTerms number
      { d with index := d.index.insert term number,
               maxWords := max d.maxWords (termWords term).length } rest

/-- Adds a group of terms. A group with fewer than two distinct terms says nothing and is left out.
    A refused group comes with the failure. -/
def add (d : Synonyms) (terms : List String) : Synonyms × Option Failure :=
  let group := distinctTerms terms
  if group.length < 2 then (d, none)
  else match enterTerms d.groups.length d group with
    | (d, some failure) => (d, some failure)
    | (d, none) => ({ d with groups := d.groups ++ [group] }, none)

/-- The dictionary of the given groups. -/
def ofGroups (groups : List (List String)) : Except Failure Synonyms :=
  groups.foldlM (fun d group =>
    match d.add group with
    | (d, none) => .ok d
    | (_, some failure) => .error failure) empty

/-- The group of a term, the term itself included. -/
def group? (d : Synonyms) (term : String) : Option (List String) :=
  (d.index.get? term).bind fun number => d.groups[number]?

/-- The longest term of at most `bound` words that the list begins with: the number of its words,
    and its group. -/
def longestUpTo? (d : Synonyms) (words : List String) : (bound : Nat) → Option (Nat × List String)
  | 0 => none
  | n + 1 =>
    match d.group? (" ".intercalate (words.take (n + 1))) with
    | some group => some (n + 1, group)
    | none => longestUpTo? d words n

/-- The longest term that the words begin with: the number of its words, and its group. -/
def longestTerm? (d : Synonyms) (words : List String) : Option (Nat × List String) :=
  d.longestUpTo? words (min d.maxWords words.length)

/-- Whether the dictionary has no groups. -/
def isEmpty (d : Synonyms) : Bool := d.groups.isEmpty

end Synonyms

end PhraseGraph
