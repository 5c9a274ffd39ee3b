import PhraseGraph.Json.Basic

/-!
# Writing JSON

A value is written in one line (`Json.compact`) or over several lines with an indent of two blanks
for each level (`Json.pretty`). In both forms an empty list or record is written without anything
between its brackets, and only quotation marks, backslashes and control characters are escaped.
-/

namespace PhraseGraph.Json

/-- A text between quotation marks. -/
def quote (s : String) : String := (Literal.ofText s).quoted

mutual

/-- The value in one line. -/
def compact : Json → String
  | list items => "[" ++ ",".intercalate (compactItems items) ++ "]"
  | record fields => "\x7b" ++ ",".intercalate (compactFields fields) ++ "\x7d"
  | null => "null"
  | bool b => if b then "true" else "false"
  | int n => toString n
  | decimal literal => literal
  | text s => quote s
  | unpaired l => l.quoted

/-- The items of a list, each in one line. -/
def compactItems : List Json → List String
  | [] => []
  | item :: rest => compact item :: compactItems rest

/-- The fields of a record, each in one line. -/
def compactFields : List (Literal × Json) → List String
  | [] => []
  | (name, value) :: rest => (name.quoted ++ ":" ++ compact value) :: compactFields rest

end

/-- A new line with the indent of the level. -/
def newLine (level : Nat) : String :=
  String.ofList ('\n' :: List.replicate (2 * level) ' ')

mutual

/-- The value over several lines, where its own line is at the given level. -/
def prettyAt (level : Nat) : Json → String
  | list [] => "[]"
  | list (item :: items) =>
    "[" ++ newLine (level + 1)
      ++ ("," ++ newLine (level + 1)).intercalate
        (prettyAt (level + 1) item :: prettyItems (level + 1) items)
      ++ newLine level ++ "]"
  | record [] => "\x7b\x7d"
  | record ((name, value) :: fields) =>
    "\x7b" ++ newLine (level + 1)
      ++ ("," ++ newLine (level + 1)).intercalate
        ((name.quoted ++ ": " ++ prettyAt (level + 1) value) :: prettyFields (level + 1) fields)
      ++ newLine level ++ "\x7d"
  | null => "null"
  | bool b => if b then "true" else "false"
  | int n => toString n
  | decimal literal => literal
  | text s => quote s
  | unpaired l => l.quoted

/-- The items of a list at the given level. -/
def prettyItems (level : Nat) : List Json → List String
  | [] => []
  | item :: rest => prettyAt level item :: prettyItems level rest

/-- The fields of a record at the given level. -/
def prettyFields (level : Nat) : List (Literal × Json) → List String
  | [] => []
  | (name, value) :: rest =>
    (name.quoted ++ ": " ++ prettyAt level value) :: prettyFields level rest

end

/-- The value over several lines. -/
def pretty (j : Json) : String := prettyAt 0 j

end PhraseGraph.Json
