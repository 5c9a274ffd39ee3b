import PhraseGraph.Json.Basic
import PhraseGraph.Text.Whole

/-!
# Reading JSON

`Json.parse?` reads a text that holds one value, with white space around it and nothing else. Every
reader below takes the text that is left and gives back what is left after it. A value begins after
at least one character of the text that was left before, so the length of the text bounds the
nesting and the number of items (`readValue`, `readItems`, `readFields`).
-/

namespace PhraseGraph.Json

/-- Skips the white space between the parts of a value. -/
def skipSpace (cs : List Char) : List Char :=
  cs.dropWhile fun c => c == ' ' || c == '\t' || c == '\n' || c == '\r'

/-- The rest of the text after `word`, if it begins with it. -/
def afterWord? (word cs : List Char) : Option (List Char) :=
  if word.isPrefixOf cs then some (cs.drop word.length) else none

/-- The value of a hexadecimal digit. -/
def hexDigit? (c : Char) : Option Nat :=
  if c.isDigit then some (c.toNat - 0x30)
  else if 'a' ≤ c && c ≤ 'f' then some (c.toNat - 0x61 + 10)
  else if 'A' ≤ c && c ≤ 'F' then some (c.toNat - 0x41 + 10)
  else none

/-- Four hexadecimal digits, as a number. -/
def readUnit? : List Char → Option (Nat × List Char)
  | a :: b :: c :: d :: rest => do
    let a ← hexDigit? a
    let b ← hexDigit? b
    let c ← hexDigit? c
    let d ← hexDigit? d
    return (((a * 16 + b) * 16 + c) * 16 + d, rest)
  | _ => none

/-- The character that a letter after a backslash stands for. -/
def escaped? : Char → Option Char
  | '"' => some '"'
  | '\\' => some '\\'
  | '/' => some '/'
  | 'b' => some (Char.ofNat 8)
  | 'f' => some (Char.ofNat 12)
  | 'n' => some '\n'
  | 'r' => some '\r'
  | 't' => some '\t'
  | _ => none

/-- What is written after a backslash. -/
def readEscape? : List Char → Option (Piece × List Char)
  | 'u' :: rest => (readUnit? rest).map fun (n, rest) => (.unit n, rest)
  | e :: rest => (escaped? e).map fun c => (.letter c, rest)
  | [] => none

/-- The pieces of a text up to its closing quotation mark, where `steps` is at least the length of
    what is left. -/
def readPieces? : (steps : Nat) → List Char → Option (List Piece × List Char)
  | 0, _ => none
  | _ + 1, [] => none
  | steps + 1, c :: rest =>
    if c == '"' then some ([], rest)
    else if c == '\\' then do
      let (piece, rest) ← readEscape? rest
      let (pieces, rest) ← readPieces? steps rest
      return (piece :: pieces, rest)
    else if c.toNat < 0x20 then none
    else do
      let (pieces, rest) ← readPieces? steps rest
      return (.plain c :: pieces, rest)

/-- A literal, of which the opening quotation mark has been read. -/
def readLiteral? (cs : List Char) : Option (Literal × List Char) :=
  (readPieces? (cs.length + 1) cs).map fun (pieces, rest) => (⟨pieces⟩, rest)

/-- The digits that the text begins with, and the rest. -/
def spanDigits (cs : List Char) : List Char × List Char :=
  (cs.takeWhile Char.isDigit, cs.dropWhile Char.isDigit)

/-- The fraction of a number, if there is one. A point without digits is an error. -/
def readFraction? (cs : List Char) : Option (List Char × List Char) :=
  match cs with
  | '.' :: rest =>
    let (digits, rest) := spanDigits rest
    if digits.isEmpty then none else some ('.' :: digits, rest)
  | _ => some ([], cs)

/-- The exponent of a number, if there is one. -/
def readExponent? (cs : List Char) : Option (List Char × List Char) :=
  match cs with
  | e :: rest =>
    if e == 'e' || e == 'E' then
      let (sign, rest) := match rest with
        | s :: rest' => if s == '+' || s == '-' then ([s], rest') else ([], rest)
        | [] => ([], rest)
      let (digits, rest) := spanDigits rest
      if digits.isEmpty then none else some (e :: sign ++ digits, rest)
    else some ([], cs)
  | [] => some ([], cs)

/-- A number. Its first digit is zero only if it is the only one before the point. -/
def readNumber? (cs : List Char) : Option (Json × List Char) := do
  let (negative, rest) := match cs with
    | '-' :: rest => (true, rest)
    | _ => (false, cs)
  let (digits, rest) := spanDigits rest
  if digits.isEmpty || (digits.length > 1 && digits.head? == some '0') then none
  else
    let (fraction, rest) ← readFraction? rest
    let (exponent, rest) ← readExponent? rest
    let n := Text.digitsValue digits
    if !fraction.isEmpty || !exponent.isEmpty || (negative && n == 0) then
      let sign := if negative then ['-'] else []
      return (.decimal (String.ofList (sign ++ digits ++ fraction ++ exponent)), rest)
    else return (.int (if negative then -(n : Int) else n), rest)

mutual

/-- A value, with the white space before it. -/
def readValue? : (steps : Nat) → List Char → Option (Json × List Char)
  | 0, _ => none
  | steps + 1, cs =>
    match skipSpace cs with
    | [] => none
    | c :: rest =>
      if c == '"' then do
        let (literal, rest) ← readLiteral? rest
        return (ofLiteral literal, rest)
      else if c == '[' then
        match skipSpace rest with
        | ']' :: rest => some (.list [], rest)
        | _ => do
          let (items, rest) ← readItems? steps rest
          return (.list items, rest)
      else if c == '\x7b' then
        match skipSpace rest with
        | '\x7d' :: rest => some (.record [], rest)
        | _ => do
          let (fields, rest) ← readFields? steps rest
          return (.record fields, rest)
      else if c == 'n' then (afterWord? "ull".toList rest).map fun rest => (.null, rest)
      else if c == 't' then (afterWord? "rue".toList rest).map fun rest => (.bool true, rest)
      else if c == 'f' then (afterWord? "alse".toList rest).map fun rest => (.bool false, rest)
      else readNumber? (c :: rest)

/-- The items of a list that is not empty, up to its closing bracket. -/
def readItems? : (steps : Nat) → List Char → Option (List Json × List Char)
  | 0, _ => none
  | steps + 1, cs => do
    let (item, rest) ← readValue? steps cs
    match skipSpace rest with
    | ',' :: rest =>
      let (items, rest) ← readItems? steps rest
      return (item :: items, rest)
    | ']' :: rest => return ([item], rest)
    | _ => none

/-- The fields of a record that is not empty, up to its closing brace. -/
def readFields? : (steps : Nat) → List Char → Option (List (Literal × Json) × List Char)
  | 0, _ => none
  | steps + 1, cs => do
    match skipSpace cs with
    | '"' :: rest =>
      let (name, rest) ← readLiteral? rest
      match skipSpace rest with
      | ':' :: rest =>
        let (value, rest) ← readValue? steps rest
        match skipSpace rest with
        | ',' :: rest =>
          let (fields, rest) ← readFields? steps rest
          return ((name, value) :: fields, rest)
        | '\x7d' :: rest => return ([(name, value)], rest)
        | _ => none
      | _ => none
    | _ => none

end

/-- The value that a text holds, if it holds one and nothing else. -/
def parse? (s : String) : Option Json :=
  let cs := s.toList
  match readValue? (cs.length + 1) cs with
  | some (value, rest) => if (skipSpace rest).isEmpty then some value else none
  | none => none

end PhraseGraph.Json
