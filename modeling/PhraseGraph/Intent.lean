import PhraseGraph.Grammar.Validity
import PhraseGraph.Graph.Cache
import PhraseGraph.Match
import PhraseGraph.Query
import PhraseGraph.Variable.Tables

/-!
# Intents of queries

A grammar finds its intent in a query if one of its patterns matches the text of the query and the
values of the first such pattern are valid (`Grammar.prefixIntent`). The values are handed on as
values of filters, under the names that filters have for the variables. While a user types, the
phrases of the patterns in which the text occurs are suggested (`Grammar.suggestions`).
-/

namespace PhraseGraph

/-- The names of filters by variable. -/
abbrev FilterNames := Dict String String

/-- The usual names of filters. -/
def defaultFilterNames : FilterNames :=
  Dict.ofList [(yearVariable, "year"), (locationVariable, "location"), (textVariable, "text"),
    (holidaysVariable, "holidays"), (contentTypeVariable, "content_type"),
    (sourceVariable, "source"), (positionVariable, "position"), (programVariable, "program")]

/-- A value of a filter. -/
structure FilterValue where
  /-- The name of the filter. -/
  name : String
  /-- The value. -/
  value : String
  /-- The text that it was found as. -/
  origin : String
  /-- The text with what was passed over around it. -/
  originFull : String
deriving DecidableEq, Repr

namespace FilterValue

/-- The value that a binding gives a filter. A variable without a filter keeps its name. -/
def ofBinding (names : FilterNames) (b : Binding) : FilterValue where
  name := (names.get? b.name).getD b.name
  value := b.value
  origin := b.origin
  originFull := b.originFull

/-- The value as a record without its empty fields. -/
def toJson (f : FilterValue) : Json :=
  .ofFields (Json.textField "name" f.name ++ Json.textField "value" f.value
    ++ Json.textField "origin" f.origin ++ Json.textField "origin_full" f.originFull)

end FilterValue

/-- The type that all intents have. -/
def landingPage : String := "landing-page"

/-- An intent that is found in a query. -/
structure Intent where
  /-- The language of the grammar. -/
  language : String
  /-- The name of the intent. -/
  name : String
  /-- The values of the variables. -/
  filterValues : List FilterValue
deriving DecidableEq, Repr

namespace Intent

/-- The value of the filter with the given name. -/
def filter? (i : Intent) (name : String) : Option FilterValue :=
  i.filterValues.find? fun f => f.name == name

/-- The intent as a record. -/
def toJson (i : Intent) : Json :=
  .ofFields [("type", .text landingPage), ("language", .text i.language),
    ("value", .ofFields (Json.textField "landing_page" i.name
      ++ Json.listField "filter_values" (i.filterValues.map FilterValue.toJson)))]

end Intent

/-- An intent that the beginning of a query expresses. -/
structure PartialIntent where
  /-- The intent. -/
  intent : Intent
  /-- The ways to put the rest of the query. -/
  continuation : List String
deriving DecidableEq, Repr

/-- The intent and the rest as a record. -/
def PartialIntent.toJson (p : PartialIntent) : Json :=
  .ofFields [("intent", p.intent.toJson), ("continuation", .texts p.continuation)]

/-- What grammars are matched with. -/
structure Surroundings where
  /-- The analyzer of the query. -/
  analyzer : Analyzer
  /-- The variables of each language. -/
  byLanguage : VariablesByLanguage
  /-- The oracle, if there is one. -/
  oracle : Option Oracle
  /-- The names of filters. -/
  filterNames : FilterNames

namespace Surroundings

/-- The variables of a language. -/
def variablesOf (s : Surroundings) (language : String) : Variables :=
  (s.byLanguage.get? language).getD ∅

/-- The graph of the text of a query. -/
def graphOfText (s : Surroundings) (text language : String) : Cached TokenGraph :=
  tryCatch (TokenGraph.cached s.analyzer text language) fun cause =>
    throw (cause.toldBy (.analyzingQuery text language))

end Surroundings

/-- The values of each variable that the bindings bind, literal text included. -/
def valuesOf (bindings : List Binding) : Assignment :=
  bindings.foldl (fun m b => m.alter b.name fun values => values.getD [] ++ [b.value]) ∅

namespace Grammar

/-- The intent with the values of bindings. -/
def intentOf (g : Grammar (List TokenGraph)) (names : FilterNames) (bindings : List Binding) :
    Intent where
  language := g.language
  name := g.intent
  filterValues := bindings.map (FilterValue.ofBinding names)

/-- The intent of the first pattern that matches the text, if its values are valid. In prefix mode
    the pattern may end before the text. There is no result if the search for a match does not end. -/
def intentOfText (g : Grammar (List TokenGraph)) (s : Surroundings) (text : TokenGraph)
    (allowPrefix : Bool) : Except Failure (Option PartialIntent) := do
  match ← (matchPatterns text g.patterns allowPrefix (s.variablesOf g.language)).result with
  | none => return none
  | some m =>
    if validVariables g.intent (valuesOf m.values) s.oracle then
      return some {
        intent := g.intentOf s.filterNames m.values
        continuation := ← continuationTexts text m }
    else return none

/-- The intent that the grammar finds in a query. A query with filters that the grammar does not
    meet, or without a simple text, expresses none. -/
def findIntent (g : Grammar (List TokenGraph)) (s : Surroundings) (q : Query) (allowPrefix : Bool) :
    Cached (Option PartialIntent) := do
  if !q.filters.meet g.filters then return none
  match q.simpleText? with
  | none => return none
  | some phrase =>
    let text ← s.graphOfText phrase g.language
    g.intentOfText s text allowPrefix

/-- The intent that the whole query expresses. -/
def searchIntent (g : Grammar (List TokenGraph)) (s : Surroundings) (q : Query) :
    Cached (Option Intent) := do
  return (← g.findIntent s q false).map PartialIntent.intent

/-- The intent that the beginning of the query expresses, with the rest of the query. -/
def prefixIntent (g : Grammar (List TokenGraph)) (s : Surroundings) (q : Query) :
    Cached (Option PartialIntent) :=
  g.findIntent s q true

/-- The phrases of the patterns in which the text of the query occurs, with valid values. -/
def suggestions (g : Grammar (List TokenGraph)) (s : Surroundings) (now : Int) (q : Query) :
    Cached Findings := do
  match q.simpleText? with
  | none => return ∅
  | some phrase =>
    let text ← s.graphOfText phrase g.language
    let found ← searchPatterns now text g.patterns (s.variablesOf g.language)
    return found.valid g.intent s.oracle

end Grammar

end PhraseGraph
