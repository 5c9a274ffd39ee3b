import PhraseGraph.Failure
import PhraseGraph.Json.Decode

/-!
# Tokens

A token is a word of an analyzed phrase, with the bytes of the phrase it comes from and the slots
it covers. Several tokens may share slots: a list of tokens so describes a graph of alternatives,
in which a token can follow every token that ends where it begins (`PhraseGraph.Graph.Forest`).

    input: "this is one thing"     synonyms: one, two words

      slot 2: "one"   (2 slots) ----------------------+
      slot 2: "two"   (1 slot) --- slot 3: "words" ---+--- slot 4: "thing"
-/

namespace PhraseGraph

/-- What kind of word a token is. -/
inductive TokenKind where
  /-- A word with letters. -/
  | alphanumeric
  /-- A number. -/
  | number
  /-- A word put in as a synonym. -/
  | synonym
  /-- A word found by blanks or as a key. -/
  | word
  /-- Any other kind. -/
  | other
deriving DecidableEq, Repr, Inhabited

/-- The name of the kind in an analyzer's answer. -/
def TokenKind.name : TokenKind → String
  | alphanumeric => "<ALPHANUM>"
  | number => "<NUM>"
  | synonym => "SYNONYM"
  | word => "word"
  | other => "Other"

/-- The kind of a name. A name that is not known is that of another kind. -/
def TokenKind.ofName (name : String) : TokenKind :=
  (([alphanumeric, number, synonym, word] : List TokenKind).find? fun k => k.name == name).getD
    other

/-- A word of an analyzed phrase. -/
structure Token where
  /-- The word as it is compared. -/
  text : String
  /-- The byte of the phrase where the token begins. -/
  startOffset : Nat
  /-- The byte of the phrase after the token. -/
  endOffset : Nat
  /-- What kind of word it is. -/
  kind : TokenKind := .alphanumeric
  /-- The slot where the token begins. -/
  position : Nat
  /-- The number of slots it covers; zero counts as one. -/
  positionLength : Nat := 1
deriving DecidableEq, Repr, Inhabited

namespace Token

/-- The number of slots the token covers. -/
def span (t : Token) : Nat := max t.positionLength 1

/-- The slot after the last one that the token covers. -/
def endPosition (t : Token) : Nat := t.position + t.span

/-- The slot after the last one that the token covers, which is counted in 64 bits. -/
def countedEnd (t : Token) : Except Failure Nat :=
  if t.endPosition < UInt64.size then .ok t.endPosition else .error .slotOverflow

/-- Whether the token was put in as a synonym. -/
def isSynonym (t : Token) : Bool := t.kind == .synonym

/-- A token as an analyzer's answer gives it. Kind and number of slots may be missing. -/
def ofJson? (j : Json) : Option Token := do
  let fields ← Json.knownFields?
    ["token", "start_offset", "end_offset", "type", "position", "positionLength"] j
  let text ← Json.required? fields "token" Json.asText?
  let startOffset ← Json.required? fields "start_offset" Json.asNat?
  let endOffset ← Json.required? fields "end_offset" Json.asNat?
  let kind ← Json.optional? fields "type" .other fun j => j.asChoice?.map TokenKind.ofName
  let position ← Json.required? fields "position" Json.asNat?
  let positionLength ← Json.optional? fields "positionLength" 0 Json.asNat?
  return { text, startOffset, endOffset, kind, position, positionLength }

/-- The tokens of an analyzer's answer; none, if it has no list of tokens. -/
def listOfAnswer? (j : Json) : Option (List Token) := do
  let fields ← Json.knownFields? ["tokens"] j
  Json.optional? fields "tokens" [] (Json.asList? ofJson?)

/-- The token as an analyzer's answer gives it. -/
def toJson (t : Token) : Json :=
  .ofFields [("token", .text t.text), ("start_offset", .nat t.startOffset),
    ("end_offset", .nat t.endOffset), ("type", .text t.kind.name), ("position", .nat t.position),
    ("positionLength", .nat t.positionLength)]

end Token

end PhraseGraph
