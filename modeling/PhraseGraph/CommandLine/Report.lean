import PhraseGraph.CommandLine.Arguments
import PhraseGraph.Engine
import PhraseGraph.Json.Writer

/-!
# Reports

What commands put out, for people (`Report.lines`) and as JSON (`Report.toJson`). Reports for people
may have a heading, if more output is asked for.
-/

namespace PhraseGraph.CommandLine

/-- A phrase as it is reported. -/
structure PhraseLine where
  /-- Its tokens. -/
  tokens : String
  /-- Its literal text. -/
  literal : String
  /-- Its bindings. -/
  values : String
deriving DecidableEq, Repr

/-- The phrase as it is reported. -/
def PhraseLine.ofPhrase (p : Phrase) : PhraseLine where
  tokens := p.join " "
  literal := p.literal
  values := p.renderValues

/-- What a command puts out. -/
inductive Report where
  /-- The phrases of a phrase, and the nodes of its graph with their depth. -/
  | phrases (phrase language : String) (lines : List PhraseLine) (nodes : List (Nat × String))
  /-- The match of a text, if there is one, with what is left over. -/
  | matched (found : Option (List Binding × List String))
  /-- The intents of a query. -/
  | intents (found : List Intent)
  /-- The intents of the beginning of a query. -/
  | prefixes (found : List PartialIntent)
  /-- Suggestions by language. -/
  | suggestions (found : Dict String (List Findings))
  /-- The number of rules by language, which are written to a file. -/
  | written (file : String) (counts : Dict String Nat)

/-- The texts between brackets, each in quotation marks. -/
def listText (values : List String) : String :=
  "[" ++ ", ".intercalate (values.map fun value => "\"" ++ value ++ "\"") ++ "]"

/-- The lines for an intent. -/
def intentLines (i : Intent) : List String :=
  s!"{i.name} ({i.language}): {landingPage}"
    :: i.filterValues.map fun f => s!"    {f.name} = {f.value} [{f.originFull}]"

/-- The line for a suggestion. -/
def suggestionLine (phrase : String) (m : Assignment) : String :=
  let bound := m.entries.map fun (name, values) => name ++ "=" ++ listText values
  s!"  {phrase}  " ++ " ".intercalate bound

/-- A binding as a record. -/
def bindingJson (b : Binding) : Json :=
  .ofFields [("name", .text b.name), ("value", .text b.value), ("tokenized", .texts b.tokenized),
    ("origin", .text b.origin), ("origin_full", .text b.originFull)]

/-- Findings as a record. -/
def findingsJson (f : Findings) : Json :=
  .ofFields (f.entries.map fun (phrase, m) =>
    (phrase, .ofFields (m.entries.map fun (name, values) => (name, .texts values))))

namespace Report

/-- The heading of a report. -/
def heading : Report → String
  | phrases .. => "Tokenized phrase"
  | matched _ => "Match result"
  | intents _ | prefixes _ | suggestions _ => "Intents"
  | written .. => "Rules materialized"

/-- The lines of a report for people. -/
def lines : Report → List String
  | phrases phrase language found nodes =>
    [s!"Phrases of [{phrase}] ({language}):"]
      ++ (found.map fun p => s!"  {p.tokens}  <- [{p.literal}]  {p.values}")
      ++ if nodes.isEmpty then []
        else "" :: "Nodes:" :: nodes.map fun (depth, text) =>
          String.ofList (List.replicate (2 * (depth + 1)) ' ') ++ text
  | matched none => ["No match."]
  | matched (some (values, continuation)) =>
    ["Matched:"] ++ (values.map fun b => s!"  {b.name} = {b.value} [{b.originFull}]")
      ++ if continuation.isEmpty then [] else ["Continuation: " ++ listText continuation]
  | intents found => if found.isEmpty then ["No intents."] else found.flatMap intentLines
  | prefixes found =>
    if found.isEmpty then ["No intents."]
    else found.flatMap fun p =>
      intentLines p.intent ++ ["    continuation: " ++ listText p.continuation]
  | suggestions found =>
    found.entries.flatMap fun (language, l) =>
      (language ++ ":") :: (l.flatMap fun f => f.entries.map fun (phrase, m) =>
        suggestionLine phrase m)
  | written file counts =>
    (counts.entries.map fun (language, count) => language ++ ": " ++ toString count ++ " rules")
      ++ [s!"Written to {file} in 0ms"]

/-- A report as JSON. -/
def toJson : Report → Json
  | phrases phrase language found nodes =>
    .ofFields ([("phrase", .text phrase), ("language", .text language),
      ("phrases", .list (found.map fun p => .ofFields [("tokens", .text p.tokens),
        ("original", .text p.literal), ("values", .text p.values)]))]
      ++ Json.listField "nodes" (nodes.map fun (depth, text) => .list [.nat depth, .text text]))
  | matched found =>
    .ofFields [("matched", .bool found.isSome),
      ("values", .list ((found.map fun (values, _) => values.map bindingJson).getD [])),
      ("continuation", .texts ((found.map fun (_, continuation) => continuation).getD []))]
  | intents found => .list (found.map Intent.toJson)
  | prefixes found => .list (found.map PartialIntent.toJson)
  | suggestions found =>
    .ofFields (found.entries.map fun (language, l) => (language, .list (l.map findingsJson)))
  | written file counts =>
    .ofFields [("output", .text file),
      ("rules_by_language", .ofFields (counts.entries.map fun (language, count) =>
        (language, .nat count))),
      ("duration_ms", .nat 0)]

/-- The text of a report in the form that is asked for. -/
def render (r : Report) (a : Arguments) : String :=
  match a.format with
  | .human =>
    let heading := if a.verbosity > 1 then [r.heading, ""] else []
    String.join ((heading ++ r.lines).map fun line => line ++ "\n")
  | .json => (if a.pretty then r.toJson.pretty else r.toJson.compact) ++ "\n"

end Report

end PhraseGraph.CommandLine
