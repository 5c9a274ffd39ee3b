import PhraseGraph.CommandLine.Report

/-!
# Carrying out commands

A command is carried out on a tree of files, in a given year (`now`). Its result is a text to put out, and
the tree after it.
-/

namespace PhraseGraph.CommandLine

/-- What a command results in. -/
structure Outcome where
  /-- The text to put out. -/
  text : String
  /-- The files after the command. -/
  files : FileTree
deriving Inhabited

/-- The configuration that is asked for, or the default one. -/
def configOf (a : Arguments) (files : FileTree) : Except Failure Config :=
  match a.config with
  | none => .ok {}
  | some path => Config.ofFile files path

/-- The configuration for work that needs variables but no grammars. -/
def withoutGrammars (c : Config) (variablesDirectory : Option String) : Config :=
  { c with
    grammarsDirectory := none
    variablesDirectory := variablesDirectory.or c.variablesDirectory }

/-- The directory of tables that stands on the command line. -/
def Command.variablesDirectory : Command → Option String
  | .tokenize _ _ directory _ => directory
  | .compare _ _ _ directory _ _ => directory
  | .intents .. | .materialize .. => none

/-- The file that a command writes. -/
def Command.output : Command → Option String
  | .materialize output _ => output
  | .tokenize .. | .compare .. | .intents .. => none

/-- The files and directories that are read for the arguments, once the configuration is known. -/
def inputs (a : Arguments) (c : Config) : List String :=
  (c.grammarsDirectory.toList ++ c.variablesDirectory.toList ++ c.catalogueFile.toList
    ++ c.synonyms.values) ++ a.command.variablesDirectory.toList

/-- The report on the phrases of a phrase. -/
def reportPhrases (a : Arguments) (now : Int) (files : FileTree) (phrase language : String)
    (variablesDirectory : Option String) (nodes : Bool) : Except Failure Report := do
  let config := withoutGrammars (← configOf a files) variablesDirectory
  let e ← Engine.ofConfig config now files
  let g ← (e.graph phrase language).1
  let phrases ← (g.phrases now (e.tables.variablesOf language)).all
  return .phrases phrase language (phrases.map PhraseLine.ofPhrase)
    (if nodes then g.traversal else [])

/-- The report on the match of a text. The language counts as a configured one. -/
def reportMatch (a : Arguments) (now : Int) (files : FileTree) (text pattern language : String)
    (variablesDirectory : Option String) (startYear : Option Int) (allowPrefix : Bool) :
    Except Failure Report := do
  let config := withoutGrammars (← configOf a files) variablesDirectory
  let e ← Engine.ofConfig { config with
    startYear := startYear.getD config.startYear
    languages :=
      if config.languages.contains language then config.languages
      else config.languages ++ [language] } now files
  let (found, e) := e.matchPhrases text pattern language allowPrefix
  match ← found with
  | none => return .matched none
  | some m =>
    let g ← (e.graph text language).1
    return .matched (some (m.values, ← continuationTexts g m))

/-- The filters that are given one by one. -/
def filtersOf (given : List (String × String)) : Filters :=
  given.foldl (fun filters (name, value) =>
    filters.alter name fun values => values.getD [] ++ [value]) ∅

/-- The report on the intents of a query. -/
def reportIntents (a : Arguments) (now : Int) (files : FileTree) (query : String)
    (languages : List String) (filters : List (String × String)) (allowPrefix suggest : Bool) :
    Except Failure Report := do
  let e ← Engine.ofConfig (← configOf a files) now files
  let q : Query := { term := query, filters := filtersOf filters, languages }
  if suggest then return .suggestions (← (e.suggest now q).1)
  else if allowPrefix then return .prefixes (← (e.prefixes q).1)
  else return .intents (← (e.search q).1)

/-- Rules as lines of JSON. -/
def ruleLines (rules : Dict String (List Rule)) : String :=
  String.join (rules.values.flatten.map fun r => r.toJson.compact ++ "\n")

/-- Makes all rules, perhaps for some languages only, and puts them out or writes them to a file. -/
def materialize (a : Arguments) (now : Int) (files : FileTree) (output : Option String)
    (languages : List String) : Except Failure Outcome := do
  let config ← configOf a files
  let config := if languages.isEmpty then config else { config with languages }
  let e ← Engine.ofConfig config now files
  let rules := (← e.rules).filter fun language _ =>
    languages.isEmpty || languages.contains language
  match output with
  | none => return { text := ruleLines rules, files }
  | some file =>
    match files.write file (ruleLines rules).toUTF8 with
    | .error fault => throw (.access fault)
    | .ok files =>
      let report : Report := .written file (rules.map fun _ l => l.length)
      return { text := report.render a, files }

/-- Carries out what the arguments ask for. -/
def run (a : Arguments) (now : Int) (files : FileTree) : Except Failure Outcome :=
  let reported := fun (report : Except Failure Report) =>
    report.map fun r => { text := r.render a, files : Outcome }
  match a.command with
  | .tokenize phrase language variablesDirectory nodes =>
    reported (reportPhrases a now files phrase language variablesDirectory nodes)
  | .compare text pattern language variablesDirectory startYear allowPrefix =>
    reported
      (reportMatch a now files text pattern language variablesDirectory startYear allowPrefix)
  | .intents query languages filters allowPrefix suggest =>
    reported (reportIntents a now files query languages filters allowPrefix suggest)
  | .materialize output languages => materialize a now files output languages

end PhraseGraph.CommandLine
