import PhraseGraph.Graph
import PhraseGraph.Grammar.RuleLine
import PhraseGraph.Pattern

/-!
# Grammars

A grammar says which patterns express an intent in a language, for one kind of hits. It may be
restricted by filters: a query with filters of its own has to share a value with them.

Grammars come in two views that differ in their patterns only: as graphs in the order of the rules,
for matching queries (`SearchGrammars`), and as texts by the signature of their variables, for making
rules (`TemplateGrammars`). Both are collected by language and intent in the same way
(`Grammars.add`): the first grammar of an intent settles all but the patterns, to which those of
later ones are appended.
-/

namespace PhraseGraph

/-- Accepted values by the names of filters. -/
abbrev Filters := Dict String (List String)

/-- The filters of each registered intent. -/
abbrev IntentRegistry := Dict String Filters

/-- The patterns of an intent in a language. -/
structure Grammar (π : Type) where
  /-- The kind of hits. -/
  hitType : String
  /-- The language. -/
  language : String
  /-- The intent. -/
  intent : String
  /-- The filters that restrict the intent. -/
  filters : Filters
  /-- The patterns. -/
  patterns : π

/-- Grammars by language and intent. -/
abbrev Grammars (π : Type) := Dict String (Dict String (Grammar π))

/-- Texts of patterns by signature. -/
structure Templates where
  /-- The patterns of each signature. -/
  bySignature : Dict String (List String) := ∅
deriving Inhabited

namespace Templates

/-- The pattern as the only one of its signature. -/
def single (pattern : String) : Templates :=
  ⟨(∅ : Dict String (List String)).insert
    (Pattern.signature (Pattern.variableNames pattern)) [pattern]⟩

/-- The patterns of both, signature by signature. -/
def append (s t : Templates) : Templates :=
  ⟨t.bySignature.entries.foldl (fun d (signature, patterns) =>
    d.alter signature fun earlier => earlier.getD [] ++ patterns) s.bySignature⟩

instance : Append Templates := ⟨append⟩

end Templates

/-- Grammars for matching queries. -/
abbrev SearchGrammars := Grammars (List TokenGraph)

/-- Grammars for making rules. -/
abbrev TemplateGrammars := Grammars Templates

namespace Grammar

variable {π : Type} [Append π]

/-- The grammar of an intent that had the given one before, if any: all but the patterns stays. -/
def after (g : Grammar π) : Option (Grammar π) → Grammar π
  | none => g
  | some earlier => { earlier with patterns := earlier.patterns ++ g.patterns }

end Grammar

namespace Grammars

variable {π : Type}

/-- All grammars by ascending language and intent. -/
def toList (gs : Grammars π) : List (Grammar π) := gs.values.flatMap Dict.values

variable [Append π]

/-- The grammars of a language with one more grammar. -/
def addIntent (byIntent : Dict String (Grammar π)) (intent : String) (g : Grammar π) :
    Dict String (Grammar π) :=
  byIntent.alter intent g.after

/-- The grammars with one more grammar, under the given language and intent. -/
def add (gs : Grammars π) (language intent : String) (g : Grammar π) : Grammars π :=
  gs.alter language fun byIntent => addIntent (byIntent.getD ∅) intent g

/-- The grammars of both. What `gs` has comes first. -/
def merge (gs more : Grammars π) : Grammars π :=
  more.entries.foldl (fun gs (language, byIntent) =>
    gs.alter language fun earlier =>
      byIntent.entries.foldl (fun d (intent, g) => addIntent d intent g) (earlier.getD ∅)) gs

/-- The grammars with the pattern of a rule. -/
def addRule (gs : Grammars π) (hitType : String) (filters : Filters) (rule : RuleLine) (p : π) :
    Grammars π :=
  gs.add rule.language rule.key
    { hitType, language := rule.language, intent := rule.key, filters, patterns := p }

end Grammars

/-- The filters of the intent that a rule of a file names, which has to be registered. -/
def IntentRegistry.ofRule (registered : IntentRegistry) (file : String) (rule : RuleLine) :
    Except Failure Filters :=
  match registered.get? rule.key with
  | some filters => .ok filters
  | none => .error (.unregisteredIntent file rule.line rule.key)

/-- The number of patterns for matching. -/
def SearchGrammars.patternCount (gs : SearchGrammars) : Nat :=
  (gs.toList.map fun g => g.patterns.length).foldr (· + ·) 0

end PhraseGraph
