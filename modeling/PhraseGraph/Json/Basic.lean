import PhraseGraph.Json.Literal

/-!
# JSON values

The values that configuration files, tables and results are written in. Whole numbers are kept
apart from all others, since everything that is counted here is whole: a number written with a
fraction, an exponent or as minus zero is kept as it is written.
-/

namespace PhraseGraph

/-- A JSON value. The fields of a record stay in the order of the text. -/
inductive Json where
  /-- Null. -/
  | null
  /-- A truth value. -/
  | bool (b : Bool)
  /-- A whole number. -/
  | int (n : Int)
  /-- Another number, as it is written. -/
  | decimal (literal : String)
  /-- A text. -/
  | text (s : String)
  /-- A literal that stands for no text. -/
  | unpaired (literal : Json.Literal)
  /-- A list of values. -/
  | list (items : List Json)
  /-- Named fields. -/
  | record (fields : List (Json.Literal × Json))
deriving Inhabited

namespace Json

/-- A natural number. -/
def nat (n : Nat) : Json := .int n

/-- A list of texts. -/
def texts (l : List String) : Json := .list (l.map .text)

/-- The value that a literal stands for. -/
def ofLiteral (l : Literal) : Json := ((l.text?).map text).getD (unpaired l)

/-- The value, or null if there is none. -/
def ofOption {α : Type} (f : α → Json) (o : Option α) : Json := (o.map f).getD .null

/-- A record with fields of the given names. -/
def ofFields (fields : List (String × Json)) : Json :=
  .record (fields.map fun (name, value) => (.ofText name, value))

/-- A field that is left out if its text is empty. -/
def textField (name value : String) : List (String × Json) :=
  if value.isEmpty then [] else [(name, .text value)]

/-- A field that is left out if its list is empty. -/
def listField (name : String) (items : List Json) : List (String × Json) :=
  if items.isEmpty then [] else [(name, .list items)]

end Json

end PhraseGraph
