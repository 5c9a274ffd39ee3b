import PhraseGraph.Text.Case

/-!
# Camel case

A name of words with underscores between them, as in `convention_location`, is put into camel case,
as in `ConventionLocation`, by raising the first character of each word.
-/

namespace PhraseGraph.Text

/-- Puts characters into camel case, where `raise` tells whether a word begins. A character may be
    raised to several ones. -/
def camelCaseFrom (raise : Bool) : List Char → List Char
  | [] => []
  | c :: rest =>
    if c == '_' then camelCaseFrom true rest
    else if raise then upperChar c ++ camelCaseFrom false rest
    else c :: camelCaseFrom false rest

/-- The name in camel case. -/
def camelCase (name : String) : String := String.ofList (camelCaseFrom true name.toList)

end PhraseGraph.Text
