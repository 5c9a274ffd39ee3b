import PhraseGraph.Failure
import PhraseGraph.StableSort

/-!
# Patterns as text

The text of a pattern is a sequence of pieces: places for variables, and all other characters. A
place is a dollar sign with the ASCII letters after it, as many as there are.

The *signature* of a pattern is the sorted list of the variables it has places for, in which a
variable stands as often as it has places. It is written with bars between the names.

`substitute` puts phrasings into the places. The `k`-th place of a variable takes the phrasing that
goes with the `k`-th mention of the variable; what is put in is not looked at again.
-/

namespace PhraseGraph.Pattern

/-- A piece of a pattern. -/
inductive Piece where
  /-- A character that belongs to no place. -/
  | char (c : Char)
  /-- A place for the variable of the given name. -/
  | place (name : String)
deriving DecidableEq, Repr

/-- The piece that a dollar sign begins with the letters after it, which are given backwards. -/
def placeOf (letters : List Char) : Piece :=
  if letters.isEmpty then .char '$' else .place (String.ofList ('$' :: letters.reverse))

mutual

/-- The pieces of a text. -/
def scan : List Char → List Piece
  | [] => []
  | c :: rest => if c == '$' then scanName [] rest else .char c :: scan rest

/-- The pieces of a text that follows a dollar sign and the given letters, last one first. -/
def scanName (letters : List Char) : List Char → List Piece
  | [] => [placeOf letters]
  | c :: rest =>
    if c.isAlpha then scanName (c :: letters) rest
    else if c == '$' then placeOf letters :: scanName [] rest
    else placeOf letters :: .char c :: scan rest

end

/-- The pieces of a pattern. -/
def pieces (pattern : String) : List Piece := scan pattern.toList

/-- The variable that a piece is a place for. -/
def Piece.name? : Piece → Option String
  | char _ => none
  | place name => some name

/-- The variables that a pattern has places for, in order of appearance. -/
def variableNames (pattern : String) : List String := (pieces pattern).filterMap Piece.name?

/-- The sorted names with bars between them. -/
def signature (names : List String) : String := "|".intercalate (stableSort textLe names)

/-- The names between the bars of a text, where `name` is the current one backwards. -/
def splitBars (name : List Char) : List Char → List String
  | [] => [String.ofList name.reverse]
  | c :: rest =>
    if c == '|' then String.ofList name.reverse :: splitBars [] rest else splitBars (c :: name) rest

/-- The names of a signature. -/
def signatureNames (s : String) : List String := if s.isEmpty then [] else splitBars [] s.toList

/-- Takes the first phrasing that is bound to a name out of the bindings. -/
def takePhrasing? (name : String) :
    List (String × String) → Option (String × List (String × String))
  | [] => none
  | (bound, phrasing) :: rest =>
    if bound == name then some (phrasing, rest)
    else (takePhrasing? name rest).map fun (found, rest) => (found, (bound, phrasing) :: rest)

/-- The text of the pieces with the bindings put into the places one after another, and the
    bindings that are left. If a place finds no binding, its name is the error. -/
def fill (bindings : List (String × String)) :
    List Piece → Except String (List Char × List (String × String))
  | [] => .ok ([], bindings)
  | .char c :: rest => (fill bindings rest).map fun (cs, left) => (c :: cs, left)
  | .place name :: rest =>
    match takePhrasing? name bindings with
    | none => .error name
    | some (phrasing, bindings) =>
      (fill bindings rest).map fun (cs, left) => (phrasing.toList ++ cs, left)

/-- The pattern with phrasings in its places, where `phrasings` go with `names` one by one. It is
    for the caller to see that the names are those of the pattern's places. -/
def substitute (pattern : String) (names phrasings : List String) :
    Except SubstitutionFault String :=
  if names.length != phrasings.length then .error (.phrasingCount pattern)
  else
    match fill (names.zip phrasings) (pieces pattern) with
    | .error name => .error (.unbound name pattern names)
    | .ok (cs, []) => .ok (String.ofList cs)
    | .ok (_, _ :: _) => .error (.variableCount pattern names)

end PhraseGraph.Pattern
