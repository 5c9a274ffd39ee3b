import PhraseGraph.Grammar.Basic
import PhraseGraph.Json.Decode
import PhraseGraph.Text.Blank

/-!
# Queries

A query has a free term or terms that are meant exactly, filters, and the languages to try in order.
Grammars look at one text only (`Query.simpleText?`), so a query that has both kinds of terms, or
several exact ones, matches none.
-/

namespace PhraseGraph

/-- A query as grammars see it. -/
structure Query where
  /-- The free term. -/
  term : String := ""
  /-- The terms that are meant exactly. -/
  exactTerms : List String := []
  /-- The chosen values of each filter. -/
  filters : Filters := ∅
  /-- The languages to try. -/
  languages : List String := []
deriving Inhabited

namespace Query

/-- The text that grammars are matched against: the term, or the only exact term, unless it is
    blank. -/
def simpleText? (q : Query) : Option String :=
  let text? := match q.exactTerms with
    | [] => some q.term
    | [exact] => if q.term.isEmpty then some exact else none
    | _ => none
  text?.filter fun text => !(Text.trimBlank text).isEmpty

/-- The query that a record describes. All its fields may be left out. -/
def ofJson? (j : Json) : Option Query := do
  let fields ← j.knownFields? ["term", "exact_terms", "filters", "language_order"]
  let term ← Json.optional? fields "term" "" Json.asText?
  let exactTerms ← Json.optional? fields "exact_terms" [] (Json.asList? Json.asText?)
  let filters ← Json.optional? fields "filters" ∅ (Json.asTextDict? (Json.asList? Json.asText?))
  let languages ← Json.optional? fields "language_order" [] (Json.asList? Json.asText?)
  return { term, exactTerms, filters, languages }

/-- The query as a record without its empty fields. -/
def toJson (q : Query) : Json :=
  .ofFields (Json.textField "term" q.term
    ++ Json.listField "exact_terms" (q.exactTerms.map .text)
    ++ (if q.filters.isEmpty then []
      else [("filters", .ofFields (q.filters.entries.map fun (name, values) =>
        (name, .texts values)))])
    ++ Json.listField "language_order" (q.languages.map .text))

end Query

/-- Whether filters leave room for others: there are none, or one of them shares a value. -/
def Filters.meet (chosen accepted : Filters) : Bool :=
  chosen.isEmpty || chosen.entries.any fun (name, values) =>
    match accepted.get? name with
    | none => false
    | some others => values.any fun value => others.contains value

end PhraseGraph
