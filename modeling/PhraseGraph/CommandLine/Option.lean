import PhraseGraph.Text.Whole

/-!
# Options of the command line

The options of each level of the command line, as a table: how an option is written, whether it takes
values, and how often it may be given. A value is checked by its option (`Option.check`).
-/

namespace PhraseGraph.CommandLine

/-- Why a command line is not carried out. -/
inductive UsageFault where
  /-- Nothing is given, so help is shown. -/
  | nothingGiven
  /-- Help is asked for. -/
  | help
  /-- The version is asked for. -/
  | version
  /-- There is no such command. -/
  | unknownCommand
  /-- Options are given, but no command. -/
  | missingCommand
  /-- There is no such option, or no room for another argument. -/
  | unknownArgument
  /-- A required argument is missing. -/
  | missingArgument
  /-- A value is missing or not among the possible ones. -/
  | invalidValue
  /-- A value is not of the form that is wanted. -/
  | malformedValue
  /-- A value is attached to an option that takes none. -/
  | surplusValue
  /-- Options exclude each other, or one is given too often. -/
  | conflict
deriving DecidableEq, Repr

/-- The name of the kind of fault. -/
def UsageFault.name : UsageFault → String
  | nothingGiven => "DisplayHelpOnMissingArgumentOrSubcommand"
  | help => "DisplayHelp"
  | version => "DisplayVersion"
  | unknownCommand => "InvalidSubcommand"
  | missingCommand => "MissingSubcommand"
  | unknownArgument => "UnknownArgument"
  | missingArgument => "MissingRequiredArgument"
  | invalidValue => "InvalidValue"
  | malformedValue => "ValueValidation"
  | surplusValue => "TooManyValues"
  | conflict => "ArgumentConflict"

/-- The options of all levels. -/
inductive OptionId where
  /-- More output. -/
  | verbose
  /-- No output but the result. -/
  | quiet
  /-- The form of the output. -/
  | format
  /-- An indented form of JSON. -/
  | pretty
  /-- The configuration file. -/
  | config
  /-- Help. -/
  | help
  /-- The version. -/
  | version
  /-- The language of a phrase. -/
  | language
  /-- The directory of the tables of variables. -/
  | variablesDirectory
  /-- The nodes of a graph. -/
  | nodes
  /-- The first year that is listed. -/
  | startYear
  /-- Prefix mode. -/
  | allowPrefix
  /-- Suggestions. -/
  | suggest
  /-- Languages in order. -/
  | languages
  /-- A filter of a query. -/
  | filter
  /-- The file of the result. -/
  | output
deriving DecidableEq, Repr

/-- How an option is given. -/
inductive Arity where
  /-- Once at most, without a value. -/
  | flag
  /-- Any number of times, without a value. -/
  | counted
  /-- Once at most, with a value. -/
  | single
  /-- Any number of times, each time with a value. -/
  | repeated
  /-- Any number of times, each time with values that commas separate. -/
  | separated
  /-- Without a value; the rest of the line does not count. -/
  | stop (fault : UsageFault)
deriving DecidableEq, Repr

/-- Whether the option takes a value. -/
def Arity.takesValue : Arity → Bool
  | single | repeated | separated => true
  | flag | counted | stop _ => false

/-- An option of a level. -/
structure OptionSpec where
  /-- The option. -/
  id : OptionId
  /-- The letter that stands for it after a dash. -/
  short : Option Char
  /-- The word that stands for it after two dashes. -/
  long : String
  /-- How it is given. -/
  arity : Arity
deriving DecidableEq, Repr

/-- A level of the command line: its options, its commands, and how many arguments it takes. -/
structure Level where
  /-- The options. -/
  options : List OptionSpec
  /-- The names of the commands below. -/
  commands : List String := []
  /-- The number of arguments, all of which are required. -/
  arguments : Nat := 0
deriving Repr

namespace Level

/-- The option of a letter. -/
def ofShort? (l : Level) (c : Char) : Option OptionSpec :=
  l.options.find? fun o => o.short == some c

/-- The option of a word. -/
def ofLong? (l : Level) (word : String) : Option OptionSpec :=
  l.options.find? fun o => o.long == word

end Level

/-- The option for help, which all levels have. -/
def helpOption : OptionSpec := ⟨.help, some 'h', "help", .stop .help⟩

/-- The option for the configuration file, which may stand at all levels. -/
def configOption : OptionSpec := ⟨.config, some 'c', "config", .single⟩

/-- The option for the language of a phrase. -/
def languageOption : OptionSpec := ⟨.language, some 'l', "language", .single⟩

/-- The option for languages in order. -/
def languagesOption : OptionSpec := ⟨.languages, some 'l', "languages", .separated⟩

/-- The option for the directory of the tables of variables. -/
def variablesOption : OptionSpec := ⟨.variablesDirectory, none, "variables-dir", .single⟩

/-- The option for prefix mode. -/
def prefixOption : OptionSpec := ⟨.allowPrefix, some 'p', "prefix", .flag⟩

/-- The name of the command that shows help. -/
def helpCommand : String := "help"

/-- The level above all commands. -/
def topLevel : Level where
  options := [⟨.verbose, some 'v', "verbose", .counted⟩, ⟨.quiet, some 'q', "quiet", .flag⟩,
    ⟨.format, some 'f', "format", .single⟩, ⟨.pretty, none, "pretty", .flag⟩, configOption,
    helpOption, ⟨.version, some 'V', "version", .stop .version⟩]
  commands := ["tokenize", "match", "intents", "materialize", helpCommand]

/-- The level of a command. -/
def commandLevel : String → Level
  | "tokenize" =>
    { options := [languageOption, variablesOption, ⟨.nodes, none, "nodes", .flag⟩, configOption,
        helpOption]
      arguments := 1 }
  | "match" =>
    { options := [languageOption, variablesOption, ⟨.startYear, none, "start-year", .single⟩,
        prefixOption, configOption, helpOption]
      arguments := 2 }
  | "intents" =>
    { options := [languagesOption, ⟨.filter, none, "filter", .repeated⟩, prefixOption,
        ⟨.suggest, some 's', "suggest", .flag⟩, configOption, helpOption]
      arguments := 1 }
  | _ =>
    { options := [⟨.output, some 'o', "output", .single⟩, languagesOption, configOption,
        helpOption] }

/-- The texts before and after the first sign of the given kind. -/
def splitAtSign? (sign : Char) : List Char → Option (List Char × List Char)
  | [] => none
  | c :: rest =>
    if c == sign then some ([], rest)
    else (splitAtSign? sign rest).map fun (before, after) => (c :: before, after)

/-- The name and the value of a filter, with an equals sign between them. -/
def parseFilter? (s : String) : Option (String × String) :=
  match splitAtSign? '=' s.toList with
  | some (n :: name, v :: value) => some (String.ofList (n :: name), String.ofList (v :: value))
  | _ => none

/-- The form of the output. -/
inductive Format where
  /-- For people. -/
  | human
  /-- JSON. -/
  | json
deriving DecidableEq, Repr

/-- The name of a form. -/
def Format.name : Format → String
  | human => "human"
  | json => "json"

/-- The form of the given name. -/
def Format.ofName? (s : String) : Option Format := [human, json].find? fun f => f.name == s

/-- Checks a value of an option. Paths may not be empty. -/
def OptionId.check (o : OptionId) (value : String) : Except UsageFault Unit :=
  match o with
  | format => if (Format.ofName? value).isSome then .ok () else .error .invalidValue
  | config | variablesDirectory | output =>
    if value.isEmpty then .error .invalidValue else .ok ()
  | startYear =>
    if (Text.parseSigned? 32 value).isSome then .ok () else .error .malformedValue
  | filter => if (parseFilter? value).isSome then .ok () else .error .malformedValue
  | _ => .ok ()

end PhraseGraph.CommandLine
