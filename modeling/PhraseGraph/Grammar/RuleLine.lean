import PhraseGraph.Failure
import PhraseGraph.Text.Blank

/-!
# Files of rules

Grammars and tables of variables are written one rule a line, as in

    # language,key => value
    en,conventions => congress $Year

White space around a line does not matter; blank lines and lines that begin with `#` say nothing.
The value begins after the last arrow. The key begins after the last comma that has an arrow after
it, so a language may have commas, and a key may have arrows. None of the three parts may be empty.
-/

namespace PhraseGraph

open Text

/-- A rule of a file. -/
structure RuleLine where
  /-- The number of its line, from 1 on. -/
  line : Nat
  /-- The language that it is for. -/
  language : String
  /-- What it is about. -/
  key : String
  /-- What it says. -/
  value : String
deriving DecidableEq, Repr

namespace RuleLine

/-- What stands between the key and the value of a rule. -/
def arrow : List Char := [' ', '=', '>', ' ']

/-- The texts before and after the last arrow. -/
def splitArrow? : List Char → Option (List Char × List Char)
  | [] => none
  | c :: rest =>
    match splitArrow? rest with
    | some (before, after) => some (c :: before, after)
    | none =>
      if arrow.isPrefixOf (c :: rest) then some ([], (c :: rest).drop arrow.length) else none

/-- The parts of a rule: the texts before the last comma that an arrow follows, between that comma
    and the last arrow, and after the arrow. -/
def split? : List Char → Option (List Char × List Char × List Char)
  | [] => none
  | c :: rest =>
    match split? rest with
    | some (language, key, value) => some (c :: language, key, value)
    | none =>
      if c == ',' then (splitArrow? rest).map fun (key, value) => ([], key, value) else none

/-- The rule of a line with the given number, if it has three parts and none is empty. -/
def parse? (line : Nat) (s : String) : Option RuleLine :=
  match split? s.toList with
  | none => none
  | some (language, key, value) =>
    if language.isEmpty || key.isEmpty || value.isEmpty then none
    else some {
      line
      language := String.ofList language
      key := String.ofList key
      value := String.ofList value }

/-- Whether a line without the white space around it says nothing. -/
def isIdle (s : String) : Bool := s.isEmpty || s.toList.head? == some '#'

/-- The lines of a text, where `current` is the current one backwards. -/
def lines (current : List Char) : List Char → List String
  | [] => [String.ofList current.reverse]
  | c :: rest =>
    if c == '\n' then String.ofList current.reverse :: lines [] rest else lines (c :: current) rest

/-- The rules of lines of which the first one has the given number. -/
def ofLines (file : String) (number : Nat) : List String → Except Failure (List RuleLine)
  | [] => .ok []
  | raw :: rest =>
    let line := trimBlank raw
    if isIdle line then ofLines file (number + 1) rest
    else
      match parse? number line with
      | none => .error (.malformedRule file number line)
      | some rule => (ofLines file (number + 1) rest).map fun rules => rule :: rules

/-- The rules of a file with the given content, which all have to be well-formed. -/
def ofContent (file content : String) : Except Failure (List RuleLine) :=
  ofLines file 1 (lines [] content.toList)

end RuleLine

end PhraseGraph
