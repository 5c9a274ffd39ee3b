/-!
# Texts between quotation marks

Between quotation marks a text is written piece by piece. Most characters stand for themselves, some
are written as a letter after a backslash, and every code unit of 16 bits can be written in
hexadecimal digits. A character beyond 16 bits takes a pair of such units. A half of a pair that
stands alone is written well, but the literal it is in stands for no text (`Literal.text?`).
-/

namespace PhraseGraph.Json

/-- A piece of a text as it is written. -/
inductive Piece where
  /-- A character that stands for itself. -/
  | plain (c : Char)
  /-- A character that is written as a letter after a backslash. -/
  | letter (c : Char)
  /-- A code unit in hexadecimal digits. -/
  | unit (n : Nat)
deriving DecidableEq, Repr

/-- A text as it is written between quotation marks. -/
structure Literal where
  /-- What it is written with. -/
  pieces : List Piece
deriving DecidableEq, Repr

/-! ### Reading -/

/-- Whether the unit is the first half of a pair. -/
def isHighHalf (n : Nat) : Bool := 0xD800 ≤ n && n < 0xDC00

/-- Whether the unit is the second half of a pair. -/
def isLowHalf (n : Nat) : Bool := 0xDC00 ≤ n && n < 0xE000

/-- The character that a pair of units stands for. -/
def ofHalves (high low : Nat) : Char :=
  Char.ofNat (0x10000 + (high - 0xD800) * 0x400 + (low - 0xDC00))

/-- The characters that the pieces stand for, if no half of a pair stands alone. -/
def charsOf? : List Piece → Option (List Char)
  | [] => some []
  | .plain c :: rest => (charsOf? rest).map (c :: ·)
  | .letter c :: rest => (charsOf? rest).map (c :: ·)
  | .unit n :: rest =>
    if isHighHalf n then
      match rest with
      | .unit low :: rest =>
        if isLowHalf low then (charsOf? rest).map (ofHalves n low :: ·) else none
      | _ => none
    else if isLowHalf n then none
    else (charsOf? rest).map (Char.ofNat n :: ·)

/-- The text that the literal stands for, if it stands for one. -/
def Literal.text? (l : Literal) : Option String := (charsOf? l.pieces).map String.ofList

/-- The character that the piece is, if it stands for itself. -/
def Piece.plain? : Piece → Option Char
  | plain c => some c
  | _ => none

/-- The characters of a literal in which all of them stand for themselves. -/
def Literal.plain? (l : Literal) : Option (List Char) := l.pieces.mapM Piece.plain?

/-! ### Writing -/

/-- The letter that stands for a character after a backslash. -/
def letter? (c : Char) : Option Char :=
  match c.toNat with
  | 0x22 => some '"'
  | 0x5C => some '\\'
  | 0x08 => some 'b'
  | 0x0C => some 'f'
  | 0x0A => some 'n'
  | 0x0D => some 'r'
  | 0x09 => some 't'
  | _ => none

/-- The piece that a character is written as: control characters are written with an escape. -/
def Piece.ofChar (c : Char) : Piece :=
  if (letter? c).isSome then .letter c
  else if c.toNat < 0x20 then .unit c.toNat
  else .plain c

/-- The literal that a text is written as. -/
def Literal.ofText (s : String) : Literal := ⟨s.toList.map Piece.ofChar⟩

/-- A hexadecimal digit. -/
def hexChar (n : Nat) : Char :=
  if n < 10 then Char.ofNat (0x30 + n) else Char.ofNat (0x61 + n - 10)

/-- The piece as it stands between quotation marks. -/
def Piece.write : Piece → List Char
  | plain c => [c]
  | letter c => ['\\', (letter? c).getD c]
  | unit n =>
    ['\\', 'u', hexChar (n / 0x1000 % 16), hexChar (n / 0x100 % 16), hexChar (n / 0x10 % 16),
      hexChar (n % 16)]

/-- The literal with its quotation marks. -/
def Literal.quoted (l : Literal) : String :=
  "\"" ++ String.ofList (l.pieces.flatMap Piece.write) ++ "\""

end PhraseGraph.Json
