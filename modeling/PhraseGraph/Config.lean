import PhraseGraph.Config.Defaults
import PhraseGraph.Files.Tree
import PhraseGraph.Json.Reader

/-!
# The configuration

What an engine is made from: where its files are, which languages it knows, and how phrases are
analyzed. A configuration is read from a JSON record that names what it changes. Relative paths in a
file are seen from the directory of the file.
-/

namespace PhraseGraph

/-- The configuration of an engine. -/
structure Config where
  /-- The directory of the grammar files. -/
  grammarsDirectory : Option String := none
  /-- The directory of the tables of variables. -/
  variablesDirectory : Option String := none
  /-- The file of the catalogue. -/
  catalogueFile : Option String := none
  /-- The file of synonyms of each language. -/
  synonyms : Dict String String := ∅
  /-- The stop words of each language. -/
  stopWords : Dict String (List String) := Config.defaultStopWords
  /-- The languages. -/
  languages : List String := Config.knownLanguages
  /-- How many graphs are kept. -/
  cacheSize : Nat := Config.defaultCacheSize
  /-- The first year that is listed. -/
  startYear : Int := Config.defaultStartYear
  /-- The filters of each registered intent. -/
  intentFilters : IntentRegistry := Config.defaultIntentFilters
  /-- The names of filters by variable. -/
  filterNames : FilterNames := defaultFilterNames
deriving Inhabited

/-- The groups of synonyms in a file. -/
def Synonyms.ofFile (t : FileTree) (path : String) : Except Failure Synonyms :=
  match t.readText path with
  | .error fault => .error (.unreadableSynonyms path fault)
  | .ok text =>
    match (Json.parse? text).bind (Json.asList? (Json.asList? Json.asText?)) with
    | none => .error (.malformedSynonyms path)
    | some groups => ofGroups groups

/-- The catalogue in a file. -/
def Catalogue.ofFile (t : FileTree) (path : String) : Except Failure Catalogue := do
  match (Json.parse? (← t.load path)).bind Catalogue.ofJson? with
  | none => throw (.malformedCatalogue path)
  | some c => return c

namespace Config

/-- The names of the fields in order. -/
def fieldNames : List String :=
  ["grammars_dir", "variables_dir", "stats_file", "synonyms", "stop_words", "languages",
    "cache_size", "start_year", "intent_filters", "variable_to_filter"]

/-- A path that may be left open. -/
def pathOfJson? : Json → Option (Option String) := Json.asOption? Json.asText?

/-- The configuration that a record describes. -/
def ofJson? (j : Json) : Option Config := do
  let d : Config := {}
  let fields ← j.knownFields? fieldNames
  let grammarsDirectory ← Json.optional? fields "grammars_dir" none pathOfJson?
  let variablesDirectory ← Json.optional? fields "variables_dir" none pathOfJson?
  let catalogueFile ← Json.optional? fields "stats_file" none pathOfJson?
  let synonyms ← Json.optional? fields "synonyms" d.synonyms (Json.asTextDict? Json.asText?)
  let stopWords ← Json.optional? fields "stop_words" d.stopWords
    (Json.asTextDict? (Json.asList? Json.asText?))
  let languages ← Json.optional? fields "languages" d.languages (Json.asList? Json.asText?)
  let cacheSize ← Json.optional? fields "cache_size" d.cacheSize Json.asNat?
  let startYear ← Json.optional? fields "start_year" d.startYear (Json.asSigned? 32)
  let intentFilters ← Json.optional? fields "intent_filters" d.intentFilters
    (Json.asTextDict? (Json.asTextDict? (Json.asList? Json.asText?)))
  let filterNames ← Json.optional? fields "variable_to_filter" d.filterNames
    (Json.asTextDict? Json.asText?)
  return {
    grammarsDirectory, variablesDirectory, catalogueFile, synonyms, stopWords, languages,
    cacheSize, startYear, intentFilters, filterNames }

/-- Lists by name as a record. -/
def listsJson (d : Dict String (List String)) : Json :=
  .ofFields (d.entries.map fun (name, values) => (name, .texts values))

/-- Texts by name as a record. -/
def textsJson (d : Dict String String) : Json :=
  .ofFields (d.entries.map fun (name, value) => (name, .text value))

/-- The configuration as a record. -/
def toJson (c : Config) : Json :=
  .ofFields [("grammars_dir", Json.ofOption .text c.grammarsDirectory),
    ("variables_dir", Json.ofOption .text c.variablesDirectory),
    ("stats_file", Json.ofOption .text c.catalogueFile),
    ("synonyms", textsJson c.synonyms),
    ("stop_words", listsJson c.stopWords),
    ("languages", .texts c.languages),
    ("cache_size", .nat c.cacheSize),
    ("start_year", .int c.startYear),
    ("intent_filters", .ofFields (c.intentFilters.entries.map fun (intent, filters) =>
      (intent, listsJson filters))),
    ("variable_to_filter", textsJson c.filterNames)]

/-- The configuration with its relative paths seen from a directory. -/
def resolvePaths (c : Config) (base : String) : Config :=
  { c with
    grammarsDirectory := c.grammarsDirectory.map (Path.join base)
    variablesDirectory := c.variablesDirectory.map (Path.join base)
    catalogueFile := c.catalogueFile.map (Path.join base)
    synonyms := c.synonyms.map fun _ path => Path.join base path }

/-- A configuration needs a language, and has synonyms for its own languages only. -/
def validate (c : Config) : Except Failure Unit :=
  if c.languages.isEmpty then .error .noLanguages
  else
    match c.synonyms.keys.find? fun language => !c.languages.contains language with
    | some language => .error (.synonymLanguage language)
    | none => .ok ()

/-- The configuration in a file. -/
def ofFile (t : FileTree) (path : String) : Except Failure Config := do
  match (Json.parse? (← t.load path)).bind ofJson? with
  | none => throw (.malformedConfig path)
  | some c =>
    let c := match Path.parent? path with
      | some base => c.resolvePaths base
      | none => c
    c.validate
    return c

/-- The analyzer of a language, with its stop words and synonyms. -/
def wordAnalyzer (c : Config) (t : FileTree) (language : String) :
    Except Failure WordAnalyzer := do
  let stopWords := WordAnalyzer.stopWordsOf ((c.stopWords.get? language).getD [])
  match c.synonyms.get? language with
  | none => return { stopWords }
  | some path => return { stopWords, synonyms := ← Synonyms.ofFile t path }

/-- The configured analyzer. Languages without stop words and synonyms have a plain one. -/
def analyzer (c : Config) (t : FileTree) : Except Failure Analyzer := do
  let languages := Names.ofList (c.stopWords.keys ++ c.synonyms.keys)
  let byLanguage ← languages.mapM fun language _ => c.wordAnalyzer t language
  return .router (byLanguage.map fun _ => .uniform) (some (.uniform {}))

end Config

end PhraseGraph
