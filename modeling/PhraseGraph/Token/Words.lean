import PhraseGraph.Text.Bytes
import PhraseGraph.Text.Numeric
import PhraseGraph.Text.Segmentation
import PhraseGraph.Token

/-!
# The words of a text

A text is cut at its word boundaries, and a piece with a letter or a number in it is a token. Blanks
and signs are no tokens; the offsets of the words around them say where they stand. Words take
consecutive slots, whatever lies between them.
-/

namespace PhraseGraph

open Text

/-- Pieces of a text with the byte where each begins, when the first begins at `offset`. -/
def withOffsets (offset : Nat) : List (List Char) → List (Nat × List Char)
  | [] => []
  | piece :: rest => (offset, piece) :: withOffsets (offset + byteLength piece) rest

/-- The kind of a word of a text: a number, if all of its characters are. -/
def wordKind (piece : List Char) : TokenKind :=
  if piece.all isNumeric then .number else .alphanumeric

/-- The tokens of the given words in consecutive slots from `position` on. -/
def wordTokens (position : Nat) : List (Nat × List Char) → List Token
  | [] => []
  | (offset, piece) :: rest =>
    { text := String.ofList piece, startOffset := offset, endOffset := offset + byteLength piece,
      kind := wordKind piece, position } :: wordTokens (position + 1) rest

/-- The words of a text. -/
def words (text : String) : List Token :=
  wordTokens 0 ((withOffsets 0 (wordPieces text.toList)).filter fun p => p.2.any isAlphanumeric)

end PhraseGraph
