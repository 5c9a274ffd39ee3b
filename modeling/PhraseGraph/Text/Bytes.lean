/-!
# Byte offsets

Positions in a text are counted in the bytes of its UTF-8 form. A slice between two positions
exists only if both lie between characters.
-/

namespace PhraseGraph.Text

/-- The number of bytes of the characters. -/
def byteLength (cs : List Char) : Nat :=
  cs.foldr (fun c n => c.utf8Size + n) 0

/-- The characters from byte position `n` on, if it lies between two characters or at an end. -/
def dropBytes? : Nat → List Char → Option (List Char)
  | 0, cs => some cs
  | _ + 1, [] => none
  | n + 1, c :: cs => if n + 1 < c.utf8Size then none else dropBytes? (n + 1 - c.utf8Size) cs

/-- The characters before byte position `n`, if it lies between two characters or at an end. -/
def takeBytes? : Nat → List Char → Option (List Char)
  | 0, _ => some []
  | _ + 1, [] => none
  | n + 1, c :: cs =>
    if n + 1 < c.utf8Size then none
    else (takeBytes? (n + 1 - c.utf8Size) cs).map (c :: ·)

/-- The characters between two byte positions, if both lie between characters and are in order. -/
def sliceBytes? (start stop : Nat) (cs : List Char) : Option (List Char) :=
  if start ≤ stop then (dropBytes? start cs).bind (takeBytes? (stop - start)) else none

/-- The text of the characters between two byte positions; empty, if there is no such part. -/
def sliceOf (cs : List Char) (start stop : Nat) : String :=
  String.ofList ((sliceBytes? start stop cs).getD [])

/-- The part of a text between two byte positions; empty, if there is no such part. -/
def slice (s : String) (start stop : Nat) : String := sliceOf s.toList start stop

end PhraseGraph.Text
