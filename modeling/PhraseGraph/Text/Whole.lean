/-!
# Whole numbers in decimal digits

Reading a whole number that is written in the digits 0 to 9, with a sign in front of them or none.
-/

namespace PhraseGraph.Text

/-- The number that decimal digits stand for. -/
def digitsValue (digits : List Char) : Nat :=
  digits.foldl (fun n c => n * 10 + (c.toNat - 0x30)) 0

/-- The number that the characters stand for, if there is at least one and all are digits. -/
def parseDigits? (cs : List Char) : Option Nat :=
  if cs.isEmpty || !cs.all Char.isDigit then none else some (digitsValue cs)

/-- A whole number in decimal digits, perhaps after a sign. -/
def parseWhole? : List Char → Option Int
  | '-' :: rest => (parseDigits? rest).map fun n => -(n : Int)
  | '+' :: rest => (parseDigits? rest).map fun n => (n : Int)
  | cs => (parseDigits? cs).map fun n => (n : Int)

/-- Whether the number is within the range of signed numbers of `bits` bits. -/
def fitsSigned (bits : Nat) (n : Int) : Bool :=
  decide (-(Nat.pow 2 (bits - 1) : Int) ≤ n) && decide (n < Nat.pow 2 (bits - 1))

/-- A whole number in decimal digits, within the range of signed numbers of `bits` bits. -/
def parseSigned? (bits : Nat) (s : String) : Option Int :=
  (parseWhole? s.toList).filter (fitsSigned bits)

end PhraseGraph.Text
