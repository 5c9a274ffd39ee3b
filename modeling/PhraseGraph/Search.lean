import PhraseGraph.Variable

/-!
# Searching phrases inside the phrases of patterns

A query is searched for in the phrases of a pattern: a phrase of the query is found in a phrase of
the pattern if its tokens occur there in order, with anything but a line feed between them. What is
found is listed by the literal phrase of the pattern, with the values of the variables in it.
Phrases of a pattern with the same values are listed once. All phrases of both are looked at, so a
search fails where they break off.
-/

namespace PhraseGraph

/-! ### Places in a text

A list of truth values tells something of the places in a text: of its first character, the second
one and so on up to the end. It may be shorter than the text, and is false from there on. -/

/-- The places from which a true one is reached without leaving the line. -/
def withinLine : (text : List Char) → (places : List Bool) → List Bool
  | c :: text, here :: places =>
    let later := withinLine text places
    (here || (c != '\n' && later.headD false)) :: later
  | _, places => places

/-- The places at which the part stands, where `after` tells of the places right after it. -/
def standsBefore (part : List Char) : (text : List Char) → (after : List Bool) → List Bool
  | text, next :: after => (next && part.isPrefixOf text) :: standsBefore part text.tail after
  | _, [] => []

/-- The places at which the first part stands, where the others follow in order, each within the line
    in which the one before it ends. -/
def placesOf (text : List Char) : (parts : List (List Char)) → List Bool
  | [] => List.replicate (text.length + 1) true
  | part :: parts =>
    standsBefore part text ((withinLine text (placesOf text parts)).drop part.length)

/-- Whether the tokens occur in the text in order, with no line feed between them. -/
def occurs (tokens : List String) (text : String) : Bool :=
  (placesOf text.toList (tokens.map String.toList)).contains true

/-! ### Searching -/

/-- What a search finds: the values of the variables for each literal phrase. -/
abbrev Findings := Dict String Assignment

/-- A phrase of a pattern as it is searched and listed. -/
structure Candidate where
  /-- Its tokens with blanks between them. -/
  text : String
  /-- Its literal text. -/
  literal : String
  /-- The values of its variables. -/
  assignment : Assignment
  /-- The rendering of its variables. -/
  key : String

/-- The phrase of a pattern as it is searched and listed. -/
def Candidate.ofPhrase (p : Phrase) : Candidate where
  text := p.join " "
  literal := p.literal
  assignment := p.assignment
  key := p.assignment.render

/-- The findings so far, and the renderings of the variables among them. -/
structure Listing where
  /-- The renderings of the variables that are listed. -/
  seen : List String := []
  /-- What is listed. -/
  found : Findings := ∅

/-- Lists the variables under a literal phrase, unless their rendering has been seen. -/
def Listing.add (l : Listing) (literal : String) (m : Assignment) : Listing :=
  let key := m.render
  if l.seen.contains key then l
  else { seen := key :: l.seen, found := l.found.insert literal m }

/-- What is found of the phrases of a query in the phrases of a pattern. -/
def searchPhrases (wanted candidates : List Phrase) : Findings :=
  let candidates := candidates.map Candidate.ofPhrase
  (wanted.foldl (fun listing p =>
    let tokens := p.tokens
    candidates.foldl (fun listing c =>
      -- What is listed need not be looked for again.
      if !listing.seen.contains c.key && occurs tokens c.text then
        listing.add c.literal c.assignment
      else listing) listing)
    ({} : Listing)).found

/-- Searches a query in the phrases of one pattern. Where the query has no phrases, those of the
    pattern are not looked at. -/
def searchPattern (now : Int) (query pattern : TokenGraph) (vars : Variables) :
    Except Failure Findings := do
  let wanted ← (query.phrases now vars).all
  if wanted.isEmpty then return ∅
  return searchPhrases wanted (← (pattern.phrases now vars).all)

/-- Searches a query in the phrases of several patterns. -/
def searchPatterns (now : Int) (query : TokenGraph) (patterns : List TokenGraph)
    (vars : Variables) : Except Failure Findings := do
  let found ← patterns.mapM fun pattern => searchPattern now query pattern vars
  return (found.foldl (fun listing f =>
    f.entries.foldl (fun listing (literal, m) => listing.add literal m) listing)
    ({} : Listing)).found

end PhraseGraph
