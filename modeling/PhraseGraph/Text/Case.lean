import PhraseGraph.Text.Case.Cased
import PhraseGraph.Text.Case.Mapping

/-!
# Case of texts

The lower case of a text is that of its characters one by one, with one exception: the capital
sigma at the end of a word becomes the final small one. A sigma ends a word if, looking through
the characters that case ignores, a cased character stands before it and none after it.
-/

namespace PhraseGraph.Text

/-- Whether the first character that case does not ignore is a cased one. -/
def meetsCased (cs : List Char) : Bool :=
  ((cs.dropWhile isCaseIgnorable).head?.map isCased).getD false

/-- The lower case of the characters `cs` that follow the text `before`, which is read backwards. -/
def lowerFrom (before : List Char) : List Char → List Char
  | [] => []
  | c :: rest =>
    let mapped :=
      if c.toNat == 0x3A3 then
        [Char.ofNat (if meetsCased before && !meetsCased rest then 0x3C2 else 0x3C3)]
      else lowerChar c
    mapped ++ lowerFrom (c :: before) rest

/-- The lower case of a text. -/
def lowercase (s : String) : String :=
  String.ofList (lowerFrom [] s.toList)

end PhraseGraph.Text
