import PhraseGraph.CommandLine.Scan
import PhraseGraph.Json.Basic

/-!
# Command lines

A command line asks for one of four things: the phrases of a phrase, the match of a text against a
pattern, the intents of a query, or the rules of all grammars. Options for the output stand before the
command; the configuration file may be given on either side, and counts below the command.
-/

namespace PhraseGraph.CommandLine

/-- What a command line asks for. -/
inductive Command where
  /-- The phrases of a phrase, perhaps with the nodes of its graph. -/
  | tokenize (phrase language : String) (variablesDirectory : Option String) (nodes : Bool)
  /-- The match of a text against a pattern. -/
  | compare (text pattern language : String) (variablesDirectory : Option String)
      (startYear : Option Int) (allowPrefix : Bool)
  /-- The intents of a query, or suggestions for it. -/
  | intents (query : String) (languages : List String) (filters : List (String × String))
      (allowPrefix suggest : Bool)
  /-- The rules of all grammars, perhaps for some languages only. -/
  | materialize (output : Option String) (languages : List String)
deriving Repr

/-- A command line. -/
structure Arguments where
  /-- How much is put out: 0 is little, 1 is normal. -/
  verbosity : Nat
  /-- The form of the output. -/
  format : Format
  /-- Whether JSON is indented. -/
  pretty : Bool
  /-- The configuration file. -/
  config : Option String
  /-- What is asked for. -/
  command : Command
deriving Repr

namespace Scan

/-- The values of an option in order. -/
def values (s : Scan) (o : OptionId) : List String :=
  (s.given.filter fun entry => entry.1 == o).map (·.2)

/-- The value of an option that is given once at most. -/
def value? (s : Scan) (o : OptionId) : Option String := (s.values o).head?

/-- The argument at a place. -/
def argument (s : Scan) (place : Nat) : String := (s.arguments[place]?).getD ""

/-- How much is put out. Of the times that more is asked for, 255 count. -/
def verbosity (s : Scan) : Nat :=
  if s.has .quiet then 0 else max 1 (min 255 (s.values .verbose).length)

/-- The language of a phrase. -/
def language (s : Scan) : String := (s.value? .language).getD "en"

/-- The languages of a query. -/
def queryLanguages (s : Scan) : List String :=
  if s.has .languages then s.values .languages else ["en"]

/-- What the command with the scanned words asks for. -/
def command (s : Scan) : String → Command
  | "tokenize" =>
    .tokenize (s.argument 0) s.language (s.value? .variablesDirectory) (s.has .nodes)
  | "match" =>
    .compare (s.argument 0) (s.argument 1) s.language (s.value? .variablesDirectory)
      ((s.value? .startYear).bind (Text.parseSigned? 32)) (s.has .allowPrefix)
  | "intents" =>
    .intents (s.argument 0) s.queryLanguages ((s.values .filter).filterMap parseFilter?)
      (s.has .allowPrefix) (s.has .suggest)
  | _ => .materialize (s.value? .output) (s.values .languages)

end Scan

/-- The end of the level of a command: nothing is pending, no options exclude each other, and all
    arguments are there. -/
def Level.finish (l : Level) (s : Scan) : Except UsageFault Scan := do
  let s ← s.settle
  if s.has .allowPrefix && s.has .suggest then throw .conflict
  if s.arguments.length < l.arguments then throw .missingArgument
  return s

/-- Help is shown for the commands that are named, if they exist. -/
def helpFault : List String → UsageFault
  | [] => .help
  | name :: rest => if topLevel.commands.contains name && rest.isEmpty then .help else .unknownCommand

/-- The arguments in the words after the name of the program. -/
def Arguments.parse (words : List String) : Except UsageFault Arguments := do
  match ← topLevel.scan {} words with
  | (top, none) =>
    let top ← top.settle
    throw (if top.given.isEmpty then .nothingGiven else .missingCommand)
  | (top, some (name, rest)) =>
    if name == helpCommand then throw (helpFault rest)
    let level := commandLevel name
    let below ← level.finish (← level.scan {} rest).1
    let top ← top.settle
    return {
      verbosity := top.verbosity
      format := ((top.value? .format).bind Format.ofName?).getD .human
      pretty := top.has .pretty
      config := (below.value? .config).or (top.value? .config)
      command := below.command name }

end PhraseGraph.CommandLine
