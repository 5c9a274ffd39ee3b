import PhraseGraph.Phrase.Expansion
import PhraseGraph.Text.Whole

/-!
# Variables of patterns

A pattern such as `congress at $ConventionLocation` names variables, which stand for a range of
phrases. There are two kinds: the year, and variables whose values and phrasings come from a table.
A variable can list all phrases that it stands for (`Variable.phrases`), unless the phrases of a
phrasing break off; how it takes part in a match is the matter of `PhraseGraph.Match`. Years are listed
up to the current one, so whatever lists phrases is told which year it is, as `now`.

The variables of a language make up a set, in which names are unique.
-/

namespace PhraseGraph

/-- The names of the variables that rules ask for. -/
def yearVariable : String := "$Year"

/-- The place of a convention. -/
def locationVariable : String := "$ConventionLocation"

/-- A holiday. -/
def holidaysVariable : String := "$Holidays"

/-- A kind of content. -/
def contentTypeVariable : String := "$ContentType"

/-- A source. -/
def sourceVariable : String := "$Source"

/-- A position within a source or a program. -/
def positionVariable : String := "$Position"

/-- A part into which sources are divided. -/
def divisionTypeVariable : String := "$DivisionType"

/-- A program. -/
def programVariable : String := "$Program"

/-- The years from `start` to `now`. -/
def yearsFrom (start now : Int) : List Int :=
  (List.range (now + 1 - start).toNat).map fun n : Nat => start + (n : Int)

/-- The year that a token names: a number strictly between 1900 and 2100. -/
def parseYear? (token : String) : Option Int :=
  (Text.parseWhole? token.toList).filter fun year => 1900 < year && year < 2100

/-- What a variable stands for. -/
inductive Variable where
  /-- A year, where the years from `start` up to the current one are listed. -/
  | year (start : Int)
  /-- A table of values, each with its phrasings. -/
  | table (name : String) (values : Dict String (List TokenGraph))
deriving Inhabited

namespace Variable

/-- The name of the variable. -/
def name : Variable → String
  | year _ => yearVariable
  | table name _ => name

/-- The phrasings of a table, each with the value that it is one of. -/
def valuedPhrasings (values : Dict String (List TokenGraph)) : List (String × TokenGraph) :=
  values.entries.flatMap fun (value, phrasings) => phrasings.map fun g => (value, g)

/-- Every phrase that the variable stands for as a single binding, put between `pre` and `suf`. -/
def phrases (now : Int) (pre suf : String) : Variable → Except Failure (List Phrase)
  | year start =>
    .ok ((yearsFrom start now).map fun y =>
      let y := toString y
      ⟨[.ofToken yearVariable pre y suf y y]⟩)
  | table name values =>
    (Enumeration.gather (valuedPhrasings values) fun (value, g) =>
      g.literalPhrases.map fun p => p.reduce name value pre suf).all

end Variable

/-- The variables of a language, by name. -/
abbrev Variables := Dict String Variable

namespace Variables

/-- The set with a variable added, in the place of one with the same name. -/
def add (vars : Variables) (v : Variable) : Variables := vars.insert v.name v

/-- The set of the given variables, of which a later one replaces one with the same name. -/
def ofVariables (l : List Variable) : Variables := l.foldl add ∅

end Variables

namespace TokenGraph

/-- The phrases that an origin contributes by itself: those of the variable that it names, or its
    literal text. -/
def ownPhrases (g : TokenGraph) (now : Int) (vars : Variables) (o : Origin) :
    Except Failure (List Phrase) :=
  match vars.get? o.variableName with
  | some v => v.phrases now o.variablePrefix o.skippedSuffix
  | none => return [← g.literalPhrase o]

/-- The phrases of the graph, in which variables stand for all their phrases. -/
def phrases (g : TokenGraph) (now : Int) (vars : Variables) : Enumeration Phrase :=
  g.phrasesOf (g.ownPhrases now vars) g.originRoots

/-- The first `count` phrases of the graph, in which variables stand for all their phrases. -/
def firstPhrases (g : TokenGraph) (now : Int) (vars : Variables) (count : Nat) :
    Enumeration Phrase :=
  g.firstPhrasesOf (g.ownPhrases now vars) count g.originRoots

end TokenGraph

end PhraseGraph
