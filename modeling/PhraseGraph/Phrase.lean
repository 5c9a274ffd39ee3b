import PhraseGraph.Dict

/-!
# Phrases as sequences of bindings

A phrase of a graph is a sequence of bindings. A binding says what a stretch of the phrase stands
for: literal text is bound to the pseudo-variable `$Text`, anything else to the variable of a
pattern. It keeps the tokens of the stretch and its literal text, with and without what was passed
over around it.
-/

namespace PhraseGraph

/-- The name under which literal text is bound. -/
def textVariable : String := "$Text"

/-- What a stretch of a phrase stands for. -/
structure Binding where
  /-- The name of the variable. -/
  name : String
  /-- The value of the variable; for literal text, the text itself. -/
  value : String
  /-- The tokens of the stretch. -/
  tokenized : List String
  /-- The literal text of the stretch. -/
  origin : String
  /-- The literal text with what is passed over around it. -/
  originFull : String
deriving DecidableEq, Repr, Inhabited

namespace Binding

/-- The binding of a single token. -/
def ofToken (name pre phrase suf token value : String) : Binding where
  name := name
  value := value
  tokenized := [token]
  origin := phrase
  originFull := pre ++ phrase ++ suf

/-- The binding of a token of literal text. Its value is the whole text. -/
def text (pre phrase suf token : String) : Binding :=
  ofToken textVariable pre phrase suf token (pre ++ phrase ++ suf)

/-- Whether the binding is one of literal text. -/
def isText (b : Binding) : Bool := b.name == textVariable

end Binding

/-- The values of each variable, without literal text. -/
abbrev Assignment := Dict String (List String)

/-- The values of the variables in brief. -/
def Assignment.render (m : Assignment) : String :=
  ",".intercalate (m.entries.map fun (name, values) =>
    name ++ "=[" ++ ",".intercalate values ++ "]")

/-- The values of each variable that the bindings bind, without literal text, in order. -/
def variablesOf (bindings : List Binding) : Assignment :=
  (bindings.filter fun b => !b.isText).foldl (fun m b =>
    m.alter b.name fun values => (values.getD []) ++ [b.value]) ∅

/-- A phrase: what it says, stretch by stretch. -/
structure Phrase where
  /-- The bindings in order. -/
  values : List Binding := []
deriving DecidableEq, Repr, Inhabited

namespace Phrase

/-- A phrase of one token of literal text. -/
def text (pre phrase suf token : String) : Phrase := ⟨[.text pre phrase suf token]⟩

/-- One phrase followed by another. -/
def append (p q : Phrase) : Phrase := ⟨p.values ++ q.values⟩

/-- The tokens of the phrase. -/
def tokens (p : Phrase) : List String := p.values.flatMap (·.tokenized)

/-- The tokens with a separator between them. A binding without tokens leaves its separator. -/
def join (p : Phrase) (separator : String) : String :=
  separator.intercalate (p.values.map fun b => separator.intercalate b.tokenized)

/-- The literal text of the phrase, with all that is passed over. -/
def literal (p : Phrase) : String := String.join (p.values.map (·.originFull))

/-- The names and values of the bindings. -/
def renderValues (p : Phrase) : String :=
  " ".intercalate (p.values.map fun b => b.name ++ ":" ++ b.value)

/-- The values of the variables in the phrase. -/
def assignment (p : Phrase) : Assignment := variablesOf p.values

/-- The whole phrase as a single binding. -/
def reduce (p : Phrase) (name value pre suf : String) : Phrase :=
  ⟨[{ name, value, tokenized := p.tokens, origin := p.literal,
      originFull := pre ++ p.literal ++ suf }]⟩

/-- The phrase in brief: its tokens, its literal text and its bindings. -/
def render (p : Phrase) : String :=
  "[P:" ++ p.join " " ++ "|O:" ++ p.literal ++ "|V:" ++ p.renderValues ++ "]"

end Phrase

end PhraseGraph
