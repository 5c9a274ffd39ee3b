import PhraseGraph.Analyzer
import PhraseGraph.Graph.Forest
import PhraseGraph.Graph.Siblings

/-!
# Graphs of phrases

`TokenGraph.ofTokens` makes the graph of a list of tokens in four steps: the forest of the tokens,
their origins, one node for each text among siblings, and the order of the origins.
`TokenGraph.ofForeignTokens` does so with tokens from elsewhere, whose slots may be too large, and
`TokenGraph.ofPhrase` with the tokens that an analyzer has for a phrase. The slots of words can always
be counted, as there are not more of them than bytes of the phrase.
-/

namespace PhraseGraph.TokenGraph

/-- The graph of the tokens of a phrase. -/
def ofTokens (tokens : List Token) (phrase : String) : TokenGraph :=
  (Provenance.fill (Forest.ofTokens tokens phrase)).normalize.sortOrigins

/-- The graph of tokens from elsewhere, if the slots after them can be counted. -/
def ofForeignTokens (tokens : List Token) (phrase : String) : Except Failure TokenGraph := do
  let _ ← tokens.mapM Token.countedEnd
  return ofTokens tokens phrase

/-- The graph of a phrase, whose tokens come from the source. -/
def ofSource (phrase : String) : TokenSource → Except Failure TokenGraph
  | .words analyzer => .ok (ofTokens (analyzer.analyze phrase) phrase)
  | .foreign tokens => do ofForeignTokens (← tokens phrase) phrase

/-- The graph of a phrase in a language. -/
def ofPhrase (analyzer : Analyzer) (phrase language : String) : Except Failure TokenGraph :=
  let made := match analyzer.source? language with
    | some source => ofSource phrase source
    | none => .error (.noAnalyzer language)
  made.mapError fun cause => cause.toldBy (.analyzing phrase language analyzer.name)

end PhraseGraph.TokenGraph
