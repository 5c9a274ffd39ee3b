import PhraseGraph.Config
import PhraseGraph.Rule.Making

/-!
# The engine

An engine holds the tables that its configuration names, an oracle, the analyzer and the cache of
graphs. The files and the current year are arguments of loading: tables are loaded as a whole
(`Engine.load`), and `Engine.reload` publishes them together with the catalogue as the oracle, or changes
neither if anything fails.

Queries are answered from what is published. Every answer comes with the engine after it, whose cache
has been used; that is the only thing that answering changes.
-/

namespace PhraseGraph

/-- Tables that are loaded together. -/
structure Tables where
  /-- The grammars for matching queries. -/
  grammars : SearchGrammars := ∅
  /-- The grammars for making rules. -/
  templates : TemplateGrammars := ∅
  /-- The phrasings of the variables, generated ones included. -/
  phrasings : PhrasingTables := ∅
  /-- The variables of each language. -/
  byLanguage : VariablesByLanguage := ∅
deriving Inhabited

namespace Tables

/-- The variables of a language. -/
def variablesOf (t : Tables) (language : String) : Variables := (t.byLanguage.get? language).getD ∅

/-- The number of patterns for matching. -/
def patternCount (t : Tables) : Nat := t.grammars.patternCount

/-- The tables that a configuration names. -/
def load (c : Config) (analyzer : Analyzer) (now : Int) (files : FileTree) : Cached Tables := do
  let written ← match c.variablesDirectory with
    | some directory => PhrasingTables.ofDirectory files directory
    | none => pure ∅
  let phrasings := PhrasingTables.addGenerated written c.languages c.startYear now
  let graphs ← phrasings.analyze analyzer
  let byLanguage := VariablesByLanguage.ofTables graphs c.languages c.startYear
  match c.grammarsDirectory with
  | none => return { phrasings, byLanguage }
  | some directory =>
    let grammars ← SearchGrammars.ofDirectory files c.intentFilters analyzer directory
    let templates ← TemplateGrammars.ofDirectory files c.intentFilters directory
    return { grammars, templates, phrasings, byLanguage }

end Tables

/-- An engine. -/
structure Engine where
  /-- The configuration. -/
  config : Config
  /-- The analyzer. -/
  analyzer : Analyzer
  /-- The cache of graphs. -/
  cache : GraphCache
  /-- The published tables. -/
  tables : Tables := {}
  /-- The published oracle. -/
  oracle : Option Oracle := none
deriving Inhabited

namespace Engine

/-- An engine without tables, if there is room for its cache. -/
def ofAnalyzer (config : Config) (analyzer : Analyzer) : Except Failure Engine := do
  let cache ← GraphCache.ofLimit config.cacheSize
  return { config, analyzer, cache }

/-- Does work with the cache of the engine. -/
def perform {α : Type} (e : Engine) (work : Cached α) : Except Failure α × Engine :=
  let (result, cache) := work.perform e.cache
  (result, { e with cache })

/-- The tables that the configuration names. Nothing is published. -/
def load (e : Engine) (now : Int) (files : FileTree) : Except Failure Tables × Engine :=
  e.perform (Tables.load e.config e.analyzer now files)

/-- The catalogue that the configuration names, if it names one. -/
def configuredCatalogue (e : Engine) (files : FileTree) : Except Failure (Option Catalogue) :=
  match e.config.catalogueFile with
  | none => .ok none
  | some path => (Catalogue.ofFile files path).map some

/-- The engine with other tables published. -/
def swap (e : Engine) (tables : Tables) : Engine := { e with tables }

/-- The engine with another oracle, or with none. -/
def setOracle (e : Engine) (oracle : Option Oracle) : Engine := { e with oracle }

/-- Loads the catalogue and the tables and publishes them. If no catalogue is configured, the
    published oracle stays. -/
def reload (e : Engine) (now : Int) (files : FileTree) : Except Failure Unit × Engine :=
  match e.configuredCatalogue files with
  | .error failure => (.error failure, e)
  | .ok catalogue =>
    match e.load now files with
    | (.error failure, e) => (.error failure, e)
    | (.ok tables, e) =>
      (.ok (), { e with tables, oracle := (catalogue.map Catalogue.oracle).or e.oracle })

/-- The engine of a configuration, with everything loaded. -/
def ofConfig (config : Config) (now : Int) (files : FileTree) : Except Failure Engine := do
  let analyzer ← config.analyzer files
  match (← ofAnalyzer config analyzer).reload now files with
  | (.error failure, _) => throw failure
  | (.ok (), e) => return e

/-- What grammars are matched with. -/
def surroundings (e : Engine) : Surroundings where
  analyzer := e.analyzer
  byLanguage := e.tables.byLanguage
  oracle := e.oracle
  filterNames := e.config.filterNames

/-- The graph of a phrase. -/
def graph (e : Engine) (phrase language : String) : Except Failure TokenGraph × Engine :=
  e.perform (TokenGraph.cached e.analyzer phrase language)

/-- Matches a text against a pattern with the variables of the language. -/
def matchPhrases (e : Engine) (text pattern language : String) (allowPrefix : Bool) :
    Except Failure (Option Match) × Engine :=
  e.perform do
    let text ← TokenGraph.cached e.analyzer text language
    let pattern ← TokenGraph.cached e.analyzer pattern language
    (outcomeOf text pattern allowPrefix (e.tables.variablesOf language)).result

/-- The grammars of the languages of a query, in their order. -/
def grammarsOf (e : Engine) (q : Query) : List (Grammar (List TokenGraph)) :=
  q.languages.flatMap fun language => ((e.tables.grammars.get? language).getD ∅).values

/-- The intents that the whole query expresses. -/
def search (e : Engine) (q : Query) : Except Failure (List Intent) × Engine :=
  e.perform do
    let found ← (e.grammarsOf q).mapM fun g => g.searchIntent e.surroundings q
    return found.reduceOption

/-- The intents that the beginning of the query expresses. -/
def prefixes (e : Engine) (q : Query) : Except Failure (List PartialIntent) × Engine :=
  e.perform do
    let found ← (e.grammarsOf q).mapM fun g => g.prefixIntent e.surroundings q
    return found.reduceOption

/-- The suggestions of a language for a query, grammar by grammar. -/
def suggestionsIn (e : Engine) (now : Int) (q : Query) (language : String) :
    Cached (List Findings) := do
  let grammars := ((e.tables.grammars.get? language).getD ∅).values
  let found ← grammars.mapM fun g => g.suggestions e.surroundings now q
  return found.filter fun f => !f.isEmpty

/-- The suggestions for a query by language. Languages without any are left out. -/
def suggest (e : Engine) (now : Int) (q : Query) :
    Except Failure (Dict String (List Findings)) × Engine :=
  e.perform do
    let found ← q.languages.mapM fun language => do
      return (language, ← e.suggestionsIn now q language)
    return (found.filter fun (_, l) => !l.isEmpty).foldl (fun d (language, l) =>
      d.alter language fun earlier => earlier.getD [] ++ l) ∅

/-- The rules of all grammars. -/
def rules (e : Engine) : Except Failure (Dict String (List Rule)) :=
  Rule.ofGrammars e.tables.templates e.tables.phrasings e.oracle

/-- The engine in brief, for diagnosis. -/
def describe (e : Engine) : String :=
  "GrammarEngine \x7b analyzer: \"" ++ e.analyzer.name ++ "\", cache: " ++ e.cache.describe
    ++ ", patterns: " ++ toString e.tables.patternCount ++ " \x7d"

end Engine

end PhraseGraph
