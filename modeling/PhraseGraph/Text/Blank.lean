/-!
# White space

The property *White_Space*, the words between blanks, and a text without the blanks at its ends.
-/

namespace PhraseGraph.Text

/-- Whether the character is white space. -/
def isBlank (c : Char) : Bool :=
  let n := c.toNat
  (0x09 ≤ n && n ≤ 0x0D) || n == 0x20 || n == 0x85 || n == 0xA0 || n == 0x1680
    || (0x2000 ≤ n && n ≤ 0x200A) || n == 0x2028 || n == 0x2029 || n == 0x202F || n == 0x205F
    || n == 0x3000

/-- The non-empty runs of characters without `isSeparator`, where `word` holds the characters of
    the current run backwards. -/
def splitRuns (isSeparator : Char → Bool) (word : List Char) : List Char → List (List Char)
  | [] => if word.isEmpty then [] else [word.reverse]
  | c :: rest =>
    if isSeparator c then
      if word.isEmpty then splitRuns isSeparator [] rest
      else word.reverse :: splitRuns isSeparator [] rest
    else splitRuns isSeparator (c :: word) rest

/-- The words of a text: the longest pieces without white space. -/
def blankSeparated (s : String) : List String :=
  (splitRuns isBlank [] s.toList).map String.ofList

/-- The text without white space at its ends. -/
def trimBlank (s : String) : String :=
  String.ofList (((s.toList.dropWhile isBlank).reverse.dropWhile isBlank).reverse)

end PhraseGraph.Text
