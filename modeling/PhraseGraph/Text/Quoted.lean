import PhraseGraph.Text.Unprintable

/-!
# Quoted texts

A text is shown in a message between quotation marks. Quotation marks and backslashes in it get a
backslash in front, and a character that does not print by itself is shown by its code.
-/

namespace PhraseGraph.Text

/-- The code of a character in hexadecimal digits between braces. -/
def escapeCode (c : Char) : List Char :=
  ['\\', 'u', '\x7b'] ++ Nat.toDigits 16 c.toNat ++ ['\x7d']

/-- A character as it is shown between quotation marks. -/
def showChar (c : Char) : List Char :=
  match c with
  | '"' => ['\\', '"']
  | '\\' => ['\\', '\\']
  | '\n' => ['\\', 'n']
  | '\r' => ['\\', 'r']
  | '\t' => ['\\', 't']
  | c =>
    if c.toNat == 0 then ['\\', '0']
    else if isUnprintable c then escapeCode c
    else [c]

/-- A text between quotation marks. -/
def showQuoted (s : String) : String :=
  String.ofList ('"' :: s.toList.flatMap showChar ++ ['"'])

/-- Texts between brackets, each in quotation marks. -/
def showList (l : List String) : String :=
  "[" ++ ", ".intercalate (l.map showQuoted) ++ "]"

end PhraseGraph.Text
