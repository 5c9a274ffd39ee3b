import PhraseGraph.Grammar.Basic
import PhraseGraph.Json.Basic
import PhraseGraph.Text.Blank

/-!
# Rules

A rule lists the phrases that express an intent with certain values of its variables. It also gives
texts to complete what a user types: the phrases of the rule from each of their words on.
-/

namespace PhraseGraph

/-- A rule of an intent. -/
structure Rule where
  /-- The kind of hits. -/
  hitType : String
  /-- The intent. -/
  intent : String
  /-- The variables, sorted. -/
  names : List String
  /-- The values of the variables. -/
  values : List String
  /-- The phrases. -/
  phrases : List String
  /-- The texts to complete. -/
  suggestions : List String
deriving DecidableEq, Repr

namespace Rule

/-- The ends of a list that are not empty, the longest one first. -/
def ends {α : Type} : List α → List (List α)
  | [] => []
  | a :: rest => (a :: rest) :: ends rest

/-- The phrase from each of its words on, with single blanks between the words. -/
def wordSuffixes (phrase : String) : List String :=
  (ends (Text.blankSeparated phrase)).map fun words => " ".intercalate words

/-- The texts without those that are in `seen` and those that occurred before. -/
def uniqueAfter (seen : Names) : List String → List String
  | [] => []
  | text :: rest =>
    if seen.contains text then uniqueAfter seen rest
    else text :: uniqueAfter (seen.insert text ()) rest

/-- The texts in order of first appearance. -/
def unique (texts : List String) : List String := uniqueAfter ∅ texts

/-- The texts to complete for the given phrases. -/
def suggestionsOf (phrases : List String) : List String :=
  unique ((phrases.flatMap wordSuffixes).filter fun text => !text.isEmpty)

/-- The weight of all suggestions, as it is written. -/
def suggestionWeight : Json := .decimal "100.0"

/-- The rule as a record. Variables and values are left out if there are none. -/
def toJson (r : Rule) : Json :=
  .ofFields ([("hit_type", .text r.hitType), ("intent", .text r.intent)]
    ++ Json.listField "variables" (r.names.map .text)
    ++ Json.listField "values" (r.values.map .text)
    ++ [("rules", .texts r.phrases),
      ("rules_suggest",
        .ofFields [("input", .texts r.suggestions), ("weight", suggestionWeight)])])

end Rule

end PhraseGraph
