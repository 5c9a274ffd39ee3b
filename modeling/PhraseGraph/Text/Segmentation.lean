import PhraseGraph.Text.WordBreak.Class

/-!
# Segmentation of text into words

`wordPieces` cuts a text at its word boundaries: words, and the runs of blanks and signs between
them. A boundary is decided from the characters on both sides (`isWordBoundary`), where the left
side is read backwards. Marks that belong to the character before them are looked through on both
sides.

The pieces are not empty, and put together they are the text: `wordPieces` only ever moves
characters from what is left to the piece that is being read.
-/

namespace PhraseGraph.Text

open WordBreakClass

/-- The characters after those that are attached to what stands before. -/
def skipAttached (cs : List Char) : List Char :=
  cs.dropWhile fun c => (wordBreakClass c).isAttached

/-- The class of the first character, if there is one. -/
def firstClass? (cs : List Char) : Option WordBreakClass :=
  cs.head?.map wordBreakClass

/-- Whether the text goes on with a pictograph that a zero-width joiner ties to what stands
    before, marks apart. -/
def continuesJoined (cs : List Char) : Bool :=
  match cs with
  | [] => false
  | c :: rest =>
    (wordBreakClass c).isAttached &&
      match rest with
      | [] => false
      | d :: _ =>
        (wordBreakClass c == .joiner && pictographs.contains d.toNat) || continuesJoined rest

/-- Whether the text, marks apart, goes on with a character of a class in `p`. -/
def continuesWith (p : WordBreakClass → Bool) (cs : List Char) : Bool :=
  ((firstClass? (skipAttached cs)).map p).getD false

/-- The class of the first character of a text that is read backwards. A pictograph that is joined
    to what stands before it is no letter, whatever its class. -/
def classBefore (c : Char) (before : List Char) : WordBreakClass :=
  if pictographs.contains c.toNat && firstClass? before == some .joiner then .other
  else wordBreakClass c

/-- Whether a text that is read backwards, marks apart, begins with a character of a class in
    `p`. -/
def endsWith (p : WordBreakClass → Bool) (cs : List Char) : Bool :=
  match skipAttached cs with
  | [] => false
  | c :: before => p (classBefore c before)

/-- How many regional indicators the text begins with, marks apart. The text is the one before a
    boundary, read backwards. -/
def regionalIndicators (cs : List Char) : Nat :=
  ((cs.filter fun c => !(wordBreakClass c).isAttached).takeWhile fun c =>
    wordBreakClass c == .regionalIndicator).length

/-- Whether two characters that are next to each other, marks apart, belong to one word: `left` and
    `right` are their classes, `before` is the text that ends with the left one, read backwards and
    beginning with the character before it, and `after` is the text after the right one.

    A sign between two letters or two digits keeps them together, on its left side if a letter or
    digit follows it, and on its right side if one precedes it. A sign that a joined pictograph
    follows stays with the word before it. -/
def keepsTogether (left right : WordBreakClass) (before after : List Char) : Bool :=
  (left.isLetter && right.isLetter)
  || (left.isLetter && right.joinsLetters
      && (continuesWith isLetter after || continuesJoined after))
  || (left.joinsLetters && right.isLetter && endsWith isLetter before)
  || (left == .hebrewLetter && right == .singleQuote)
  || (left == .hebrewLetter && right == .doubleQuote
      && (continuesWith (· == .hebrewLetter) after || continuesJoined after))
  || (left == .doubleQuote && right == .hebrewLetter && endsWith (· == .hebrewLetter) before)
  || (left == .numeric && right == .numeric)
  || (left.isLetter && right == .numeric)
  || (left == .numeric && right.isLetter)
  || (left.joinsDigits && right == .numeric && endsWith (· == .numeric) before)
  || (left == .numeric && right.joinsDigits
      && (continuesWith (· == .numeric) after || continuesJoined after))
  || (left == .katakana && right == .katakana)
  || ((left.isLetter || left == .numeric || left == .katakana || left == .extendNumLet)
      && right == .extendNumLet)
  || (left == .extendNumLet && (right.isLetter || right == .numeric || right == .katakana))

/-- Whether a word boundary lies between `before`, read backwards, and `after`. Neither is empty
    inside a text; at an end of the text there is a boundary. -/
def isWordBoundary (before after : List Char) : Bool :=
  match before, after with
  | b :: earlier, a :: later =>
    let left := wordBreakClass b
    let right := wordBreakClass a
    if left == .carriageReturn && right == .lineFeed then false
    else if left.endsLine || right.endsLine then true
    else if left == .joiner && pictographs.contains a.toNat then false
    else if left == .space && right == .space then false
    else if right.isAttached then false
    else match skipAttached (b :: earlier) with
      | [] => true
      | base :: beforeBase =>
        let left := classBefore base beforeBase
        -- Marks at the start of a line have no character to belong to.
        if left.endsLine then true
        else if left == .regionalIndicator && right == .regionalIndicator then
          regionalIndicators (base :: beforeBase) % 2 == 0
        else !keepsTogether left right beforeBase later
  | _, _ => true

/-- The pieces of a text of which `before`, read backwards, has been read: the last part of it,
    `piece`, read backwards too, is not finished. -/
def wordPiecesFrom (before piece : List Char) : List Char → List (List Char)
  | [] => if piece.isEmpty then [] else [piece.reverse]
  | c :: rest =>
    if !piece.isEmpty && isWordBoundary before (c :: rest) then
      piece.reverse :: wordPiecesFrom (c :: before) [c] rest
    else wordPiecesFrom (c :: before) (c :: piece) rest

/-- The pieces between the word boundaries of a text, in order. -/
def wordPieces (text : List Char) : List (List Char) :=
  wordPiecesFrom [] [] text

end PhraseGraph.Text
