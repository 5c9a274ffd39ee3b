import PhraseGraph.Grammar.Reading
import PhraseGraph.Text.CamelCase
import PhraseGraph.Variable

/-!
# Tables of phrasings

The values of a variable, and the phrasings of each value, come from a table for each language. The
file `convention_location.variable` holds the tables of `$ConventionLocation`. The year, up to the
current one, and the pseudo-variable for literal text have tables that are generated for all languages
of interest.

Rules are made from the phrasings as they are written. For matching they are analyzed into graphs,
except those of the year and of literal text, which are matched in ways of their own.
-/

namespace PhraseGraph

/-- The phrasings of each value. -/
abbrev PhrasingTable := Dict String (List String)

/-- The tables of each variable by language. -/
abbrev PhrasingTables := Dict String (Dict String PhrasingTable)

/-- The graphs of the phrasings of each value, by variable and language. -/
abbrev GraphTables := Dict String (Dict String (Dict String (List TokenGraph)))

/-- The extension of the files that hold the tables of a variable. -/
def variableExtension : String := "variable"

/-- The list with those items of another one added that it lacks. -/
def addMissing (l : List String) : List String → List String
  | [] => l
  | item :: rest => addMissing (if l.contains item then l else l ++ [item]) rest

/-- The years from `start` to `now`, each phrased as itself. -/
def yearTable (start now : Int) : PhrasingTable :=
  Dict.ofList ((yearsFrom start now).map fun year => (toString year, [toString year]))

/-- Literal text as the only value, phrased as itself. -/
def textTable : PhrasingTable := Dict.ofList [(textVariable, [textVariable])]

/-- The variable that a file holds the tables of. -/
def variableNameOf (path : String) : Except Failure String :=
  (fileStem path).map fun stem => "$" ++ Text.camelCase stem

namespace PhrasingTables

/-- The tables with the tables of the year and of literal text, for the languages. -/
def addGenerated (tables : PhrasingTables) (languages : List String) (start now : Int) :
    PhrasingTables :=
  languages.foldl (fun tables language =>
    (tables.alter yearVariable fun byLanguage =>
      (byLanguage.getD ∅).insert language (yearTable start now)).alter textVariable fun byLanguage =>
        (byLanguage.getD ∅).insert language textTable) tables

/-- The tables of a variable that the rules of a file make up. -/
def ofRules (rules : List RuleLine) : Dict String PhrasingTable :=
  rules.foldl (fun byLanguage rule =>
    byLanguage.alter rule.language fun table =>
      (table.getD ∅).alter rule.key fun phrasings => phrasings.getD [] ++ [rule.value]) ∅

/-- The tables of a variable in a file. -/
def ofFile (t : FileTree) (path : String) : Except Failure (Dict String PhrasingTable) :=
  (t.rules path).map ofRules

/-- The tables so far with those of the files, of which a later one replaces one of the same
    variable. -/
def addFiles (t : FileTree) (tables : PhrasingTables) :
    List String → Except Failure PhrasingTables
  | [] => return tables
  | path :: rest => do
    let name ← variableNameOf path
    let byLanguage ← ofFile t path
    addFiles t (tables.insert name byLanguage) rest

/-- The tables of the files for variables in a directory. -/
def ofDirectory (t : FileTree) (directory : String) : Except Failure PhrasingTables := do
  addFiles t ∅ (← t.filesWith variableExtension directory)

/-- The graph of a phrasing. -/
def graphOfPhrasing (analyzer : Analyzer) (name language phrasing : String) : Cached TokenGraph :=
  tryCatch (TokenGraph.cached analyzer phrasing language) fun cause =>
    throw (cause.toldBy (.analyzingPhrasing phrasing name language))

/-- The graphs of the phrasings in the tables of a variable. -/
def analyzeVariable (analyzer : Analyzer) (name : String) (byLanguage : Dict String PhrasingTable) :
    Cached (Dict String (Dict String (List TokenGraph))) := do
  let entries ← byLanguage.entries.mapM fun (language, table) => do
    let values ← table.entries.mapM fun (value, phrasings) => do
      return (value, ← phrasings.mapM (graphOfPhrasing analyzer name language))
    return (language, Dict.ofList values)
  return Dict.ofList entries

/-- The graphs of all phrasings, but for the variables that are not matched by their tables. -/
def analyze (analyzer : Analyzer) (tables : PhrasingTables) : Cached GraphTables := do
  let entries ← (tables.entries.filter fun (name, _) =>
      name != yearVariable && name != textVariable).mapM fun (name, byLanguage) => do
    return (name, ← analyzeVariable analyzer name byLanguage)
  return Dict.ofList entries

end PhrasingTables

/-- The variables of a language: the year, and all that have a table in the language. -/
def Variables.ofTables (tables : GraphTables) (start : Int) (language : String) : Variables :=
  Variables.ofVariables (.year start :: tables.entries.filterMap fun (name, byLanguage) =>
    (byLanguage.get? language).map (Variable.table name))

/-- The variables of each language. -/
abbrev VariablesByLanguage := Dict String Variables

/-- The variables of the given languages. -/
def VariablesByLanguage.ofTables (tables : GraphTables) (languages : List String) (start : Int) :
    VariablesByLanguage :=
  Dict.ofList (languages.map fun language => (language, Variables.ofTables tables start language))

end PhraseGraph
