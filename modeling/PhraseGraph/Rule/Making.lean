import PhraseGraph.Combinations
import PhraseGraph.Grammar.Validity
import PhraseGraph.Rule
import PhraseGraph.Variable.Tables

/-!
# Making rules

The rules of a grammar come from its patterns, signature by signature. The patterns without
variables make up one rule as they are. The patterns of another signature give a rule for each valid
combination of values, whose phrases are the patterns with each combination of the phrasings of the
values in their places. A signature with a variable that has no table in the language gives nothing.
-/

namespace PhraseGraph

namespace Rule

/-- The intent whose rules are not to be suggested by the name alone. -/
def namedHolidays : String := IntentRule.intent .holidays

/-- Whether the rules of an intent with the given variables are suggested. Holidays are found better
    by their names, so only those of a year are. -/
def isSuggested (intent : String) (names : List String) : Bool :=
  intent != namedHolidays || (names.length ≤ 2 && names.contains yearVariable)

/-- The tables of the variables in a language, up to the first one that has none, for the variables
    of a grammar. A variable without any table is a failure. -/
def tablesOf (intent hitType language : String) (tables : PhrasingTables) :
    List String → Except Failure (List PhrasingTable)
  | [] => .ok []
  | name :: rest =>
    match tables.get? name with
    | none => .error (.unknownVariable name intent hitType)
    | some byLanguage =>
      match byLanguage.get? language with
      | none => .ok []
      | some table =>
        (tablesOf intent hitType language tables rest).map fun found => table :: found

/-- The values of the variables as a map. -/
def variablesMap (names values : List String) : Assignment :=
  (names.zip values).foldl (fun m (name, value) =>
    m.alter name fun earlier => earlier.getD [] ++ [value]) ∅

/-- A pattern with each combination of phrasings in its places. -/
def phrasesOf (pattern : String) (names : List String) (phrasings : List (List String)) :
    Except Failure (List String) := do
  let combinations ← Combinations.ofDimensions phrasings
  combinations.collect fun chosen =>
    match Pattern.substitute pattern names chosen with
    | .ok phrase => .ok phrase
    | .error fault => .error (.substitution fault)

/-- The rule of patterns without variables. -/
def plain {π : Type} (g : Grammar π) (patterns : List String) : Rule where
  hitType := g.hitType
  intent := g.intent
  names := []
  values := []
  phrases := patterns
  suggestions := suggestionsOf patterns

/-- The rule of the patterns with the given values of their variables. -/
def ofValues {π : Type} (g : Grammar π) (patterns names : List String)
    (tables : List PhrasingTable) (values : List String) : Except Failure Rule := do
  let phrasings := (tables.zip values).map fun (table, value) => (table.get? value).getD []
  let phrases := (← patterns.mapM fun pattern => phrasesOf pattern names phrasings).flatten
  return {
    hitType := g.hitType
    intent := g.intent
    names
    values
    phrases
    suggestions := if isSuggested g.intent names then suggestionsOf phrases else [] }

/-- The rules of the patterns of a signature. -/
def ofSignature {π : Type} (g : Grammar π) (tables : PhrasingTables) (oracle : Option Oracle)
    (signature : String) (patterns : List String) : Except Failure (List Rule) :=
  if signature.isEmpty then .ok [plain g patterns]
  else do
    let names := Pattern.signatureNames signature
    let found ← tablesOf g.intent g.hitType g.language tables names
    if found.length < names.length then return []
    let combinations ← Combinations.ofDimensions (found.map Dict.keys)
    let rules ← combinations.collect fun values =>
      if validVariables g.intent (variablesMap names values) oracle then
        (ofValues g patterns names found values).map some
      else .ok none
    return rules.reduceOption

/-- The rules of a grammar. -/
def ofGrammar (g : Grammar Templates) (tables : PhrasingTables) (oracle : Option Oracle) :
    Except Failure (List Rule) := do
  let rules ← g.patterns.bySignature.entries.mapM fun (signature, patterns) =>
    ofSignature g tables oracle signature patterns
  return rules.flatten

/-- The rules of the grammars of each language. -/
def ofGrammars (gs : TemplateGrammars) (tables : PhrasingTables) (oracle : Option Oracle) :
    Except Failure (Dict String (List Rule)) :=
  gs.mapM fun _ byIntent => do
    let rules ← byIntent.values.mapM fun g => ofGrammar g tables oracle
    return rules.flatten

end Rule

end PhraseGraph
