import PhraseGraph.Variable

/-!
# Matching a text against a pattern

A text matches a pattern if some path through the graph of the text spells a phrase of the pattern,
where the variables of the pattern stand for any of their phrases. `search` compares two lists of
siblings. Pattern nodes that name a variable are tried first, for each text node in turn; then the
literal ones, by walking along both lists, which are sorted by text. The first way that succeeds is
the answer.

In prefix mode the pattern may end before the text: the text nodes left over are the continuation.

What the search asks is a list of text nodes, a list of pattern nodes, and the mode. A search that
asks the same question within itself does not end, which is possible if both graphs have cycles, or
if a phrasing of a variable names that variable again. So the depth of a search that ends is bounded
by the number of different questions (`searchBound`), and a search that goes deeper is given up as
`Outcome.unfinished`. What asks several patterns or texts one after another stops there, too, as it
would get no further.
-/

namespace PhraseGraph

/-- A successful match. -/
structure Match where
  /-- What the stretches of the text are bound to, in order. -/
  values : List Binding := []
  /-- The text nodes that are left over. -/
  continuation : List NodeId := []
deriving DecidableEq, Repr, Inhabited

/-- The match with a binding put before the others. -/
def Match.prepend (b : Binding) (m : Match) : Match := { m with values := b :: m.values }

/-- How a search ends. -/
inductive Outcome where
  /-- A match is found. -/
  | found (m : Match)
  /-- There is none. -/
  | absent
  /-- The bound of the search is too small to tell. -/
  | unfinished
deriving DecidableEq, Repr, Inhabited

namespace Outcome

/-- The match, if one is found. A search that does not end has none, which `result` tells from a search
    that fails. -/
def toOption : Outcome → Option Match
  | found m => some m
  | _ => none

/-- The match, if one is found, as a result. There is no result if the search does not end. -/
def result : Outcome → Except Failure (Option Match)
  | found m => .ok (some m)
  | absent => .ok none
  | unfinished => .error .endlessSearch

/-- Goes on with a match. -/
def bind (o : Outcome) (next : Match → Outcome) : Outcome :=
  match o with
  | found m => next m
  | absent => absent
  | unfinished => unfinished

/-- Puts a binding before a match. -/
def prepend (b : Binding) (o : Outcome) : Outcome := o.bind fun m => found (m.prepend b)

/-- Goes on if nothing is found. -/
def orElse (o : Outcome) (next : Unit → Outcome) : Outcome :=
  match o with
  | absent => next ()
  | o => o

/-- The outcome of the first of several ways that does not fail. -/
def first {α : Type} (ways : List α) (f : α → Outcome) : Outcome :=
  match ways with
  | [] => absent
  | way :: rest => (f way).orElse fun _ => first rest f

end Outcome

/-- The variable that a pattern node names. -/
def variableAt? (vars : Variables) (pattern : TokenGraph) (id : NodeId) : Option Variable :=
  (pattern.firstOrigin? id).bind fun o => vars.get? o.variableName

/-- What a text node is bound to as literal text. A synonym is bound to the bytes that it stands
    for; the further words of a synonym stand for the same bytes and take nothing. -/
def literalBinding (text : TokenGraph) (id : NodeId) : Binding :=
  let token := (text.node id).token
  match text.firstOrigin? id with
  | some o =>
    let typed :=
      if !token.isSynonym then o.text
      else if o.text.toList.head? == some ' ' then ""
      else Text.slice text.phrase token.startOffset token.endOffset
    .text o.skippedPrefix typed o.skippedSuffix token.text
  | none => .text "" token.text "" token.text

/-- What a text node is bound to as a year. -/
def yearBinding (text : TokenGraph) (id : NodeId) (year : Int) : Binding :=
  let token := text.text id
  let value := toString year
  match text.firstOrigin? id with
  | some o => .ofToken yearVariable o.skippedPrefix o.text o.skippedSuffix token value
  | none => .ofToken yearVariable "" token "" token value

/-- What the text that matched a phrasing is bound to as a value of a variable. -/
def tableBinding (name value : String) (matched : List Binding) : Binding where
  name := name
  value := value
  tokenized := matched.flatMap (·.tokenized)
  origin := " ".intercalate ((matched.map (·.origin)).filter fun s => !s.isEmpty)
  originFull := String.join (matched.map (·.originFull))

/-- The pairs of a text node and a pattern node with one text, in two lists of nodes that are sorted
    by text. -/
def alignByText (text pattern : TokenGraph) :
    (textNodes patternNodes : List NodeId) → List (NodeId × NodeId)
  | [], _ => []
  | t :: ts, ps =>
    match ps.dropWhile fun p => decide (pattern.text p < text.text t) with
    | [] => []
    | p :: rest =>
      if pattern.text p == text.text t then (t, p) :: alignByText text pattern ts rest
      else alignByText text pattern ts (p :: rest)

/-- A question of the search: whether the text from some nodes on matches a pattern from some nodes
    on, and whether the pattern may end first. -/
structure Question where
  /-- The text nodes. -/
  textNodes : List NodeId
  /-- The pattern that the text is compared with. -/
  pattern : TokenGraph
  /-- The pattern nodes. -/
  patternNodes : List NodeId
  /-- Whether the pattern may end before the text. -/
  allowPrefix : Bool

/-- Matches a variable at a text node and then the rest of the text against what follows the
    variable in the pattern. The smaller questions are answered by `ask`. -/
def Variable.matchAt (text : TokenGraph) (ask : Question → Outcome) (q : Question)
    (t p : NodeId) (v : Variable) : Outcome :=
  match v with
  | .year _ =>
    match parseYear? (text.text t) with
    | none => .absent
    | some y =>
      (ask { q with textNodes := text.children t, patternNodes := q.pattern.children p }).prepend
        (yearBinding text t y)
  | .table name values =>
    Outcome.first (valuedPhrasings values) fun (value, phrasing) =>
      (ask ⟨[t], phrasing, phrasing.roots, true⟩).bind fun start =>
        (ask { q with
          textNodes := start.continuation,
          patternNodes := q.pattern.children p }).prepend (tableBinding name value start.values)

/-- Matches a literal pattern node at a text node with the same text. Two end nodes end the match;
    otherwise it goes on below them. -/
def matchLiteral (text : TokenGraph) (ask : Question → Outcome) (q : Question)
    (t p : NodeId) : Outcome :=
  if text.isEnd t && q.pattern.isEnd p then .found { values := [literalBinding text t] }
  else
    (ask { q with textNodes := text.children t, patternNodes := q.pattern.children p }).prepend
      (literalBinding text t)

/-- Answers a question, with the help of answers to smaller ones. -/
def answer (text : TokenGraph) (vars : Variables) (ask : Question → Outcome) (q : Question) :
    Outcome :=
  match q.textNodes, q.patternNodes with
  | [], [] => .found {}
  | t :: ts, [] => if q.allowPrefix then .found { continuation := t :: ts } else .absent
  | [], _ :: _ => .absent
  | textNodes, patternNodes =>
    let variableNodes := patternNodes.filterMap fun p =>
      (variableAt? vars q.pattern p).map fun v => (p, v)
    let literals := patternNodes.filter fun p => (variableAt? vars q.pattern p).isNone
    (Outcome.first (textNodes.flatMap fun t => variableNodes.map fun pv => (t, pv))
      fun (t, p, v) => v.matchAt text ask q t p).orElse fun _ =>
    Outcome.first (alignByText text q.pattern textNodes literals)
      fun (t, p) => matchLiteral text ask q t p

/-- Answers a question, asking others to a depth of less than `steps`. -/
def search (text : TokenGraph) (vars : Variables) : (steps : Nat) → Question → Outcome
  | 0, _ => .unfinished
  | steps + 1, q => answer text vars (search text vars steps) q

/-- The graphs of a variable's phrasings. -/
def Variable.phrasings : Variable → List TokenGraph
  | .year _ => []
  | .table _ values => values.values.flatten

/-- A bound for the depth of a search that ends. The text nodes of a question are the first ones,
    the roots, one node, or the children of one. The pattern nodes are the first ones, or the roots
    of a graph, or the children of a node of it. -/
def searchBound (text : TokenGraph) (vars : Variables) (pattern : TokenGraph) : Nat :=
  let graphs := pattern :: vars.values.flatMap Variable.phrasings
  2 * (2 * text.size + 2) * (1 + (graphs.map fun g => g.size + 1).foldr (· + ·) 0) + 1

/-- How the search ends in a list of siblings of a text and a list of siblings of a pattern. -/
def outcomeOfSiblings (text : TokenGraph) (textNodes : List NodeId) (pattern : TokenGraph)
    (patternNodes : List NodeId) (allowPrefix : Bool) (vars : Variables) : Outcome :=
  search text vars (searchBound text vars pattern) ⟨textNodes, pattern, patternNodes, allowPrefix⟩

/-- Matches a list of siblings of a text against a list of siblings of a pattern. -/
def matchSiblings (text : TokenGraph) (textNodes : List NodeId) (pattern : TokenGraph)
    (patternNodes : List NodeId) (allowPrefix : Bool) (vars : Variables) : Option Match :=
  (outcomeOfSiblings text textNodes pattern patternNodes allowPrefix vars).toOption

/-- How the search for a pattern in a text ends. -/
def outcomeOf (text pattern : TokenGraph) (allowPrefix : Bool) (vars : Variables) : Outcome :=
  outcomeOfSiblings text text.roots pattern pattern.roots allowPrefix vars

/-- Matches a text against a pattern. -/
def findMatch (text pattern : TokenGraph) (allowPrefix : Bool) (vars : Variables) :
    Option Match :=
  matchSiblings text text.roots pattern pattern.roots allowPrefix vars

/-- Matches a text against the first of several patterns that it matches. -/
def matchPatterns (text : TokenGraph) (patterns : List TokenGraph) (allowPrefix : Bool)
    (vars : Variables) : Outcome :=
  .first patterns fun pattern => outcomeOf text pattern allowPrefix vars

/-- Matches the first of several texts that matches one of the patterns. -/
def matchTexts (texts patterns : List TokenGraph) (allowPrefix : Bool) (vars : Variables) :
    Outcome :=
  .first texts fun text => matchPatterns text patterns allowPrefix vars

/-- The literal texts of what a match leaves over, one for each way to put it, unless they break
    off. -/
def continuationTexts (text : TokenGraph) (m : Match) : Except Failure (List String) :=
  ((text.literalPhrasesFrom m.continuation).map Phrase.literal).all

end PhraseGraph
