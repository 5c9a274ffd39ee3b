import PhraseGraph.Text.WordBreak.Letters
import PhraseGraph.Text.WordBreak.Marks
import PhraseGraph.Text.WordBreak.Pictographs

/-!
# Word-break classes

Each character belongs to one class, by which the boundaries between words are decided
(`PhraseGraph.Text.Segmentation`). The classes are disjoint, so the order in which
`wordBreakClass` asks for them does not matter.
-/

namespace PhraseGraph.Text

/-- The class of a character in the rules of word boundaries. -/
inductive WordBreakClass where
  /-- A carriage return. -/
  | carriageReturn
  /-- A line feed. -/
  | lineFeed
  /-- Another character that ends a line. -/
  | newline
  /-- A mark that belongs to the character before it. -/
  | extend
  /-- The zero-width joiner. -/
  | joiner
  /-- An invisible character that a word looks through. -/
  | format
  /-- A Katakana letter. -/
  | katakana
  /-- A Hebrew letter. -/
  | hebrewLetter
  /-- A letter of another script that joins with its neighbours. -/
  | letter
  /-- The apostrophe of the typewriter. -/
  | singleQuote
  /-- The quotation mark of the typewriter. -/
  | doubleQuote
  /-- A sign that may stand between letters and between digits. -/
  | midNumLet
  /-- A sign that may stand between letters. -/
  | midLetter
  /-- A sign that may stand between digits. -/
  | midNum
  /-- A decimal digit. -/
  | numeric
  /-- A connector such as the underscore. -/
  | extendNumLet
  /-- A letter of a pair that stands for a region's flag. -/
  | regionalIndicator
  /-- A space of a width of its own. -/
  | space
  /-- Any other character. -/
  | other
deriving DecidableEq, Repr

/-- The Katakana letters. -/
def katakanaLetters : CodePoints where
  ranges := #[
    (0x3031, 0x3035), (0x309B, 0x309C), (0x30A0, 0x30FA), (0x30FC, 0x30FF), (0x31F0, 0x31FF),
    (0x32D0, 0x32FE), (0x3300, 0x3357), (0xFF66, 0xFF9D), (0x1AFF0, 0x1AFF3), (0x1AFF5, 0x1AFFB),
    (0x1AFFD, 0x1AFFE), (0x1B000, 0x1B000), (0x1B120, 0x1B122), (0x1B155, 0x1B155),
    (0x1B164, 0x1B167)]

/-- The Hebrew letters. -/
def hebrewLetters : CodePoints where
  ranges := #[
    (0x5D0, 0x5EA), (0x5EF, 0x5F2), (0xFB1D, 0xFB1D), (0xFB1F, 0xFB28), (0xFB2A, 0xFB36),
    (0xFB38, 0xFB3C), (0xFB3E, 0xFB3E), (0xFB40, 0xFB41), (0xFB43, 0xFB44), (0xFB46, 0xFB4F)]

/-- The signs from 0x80 on that may stand between letters. -/
def midLetters : CodePoints where
  ranges := #[
    (0xB7, 0xB7), (0x387, 0x387), (0x55F, 0x55F), (0x5F4, 0x5F4), (0x2027, 0x2027),
    (0xFE13, 0xFE13), (0xFE55, 0xFE55), (0xFF1A, 0xFF1A)]

/-- The signs from 0x80 on that may stand between digits. -/
def midNums : CodePoints where
  ranges := #[
    (0x37E, 0x37E), (0x589, 0x589), (0x60C, 0x60D), (0x66C, 0x66C), (0x7F8, 0x7F8),
    (0x2044, 0x2044), (0xFE50, 0xFE50), (0xFE54, 0xFE54), (0xFF0C, 0xFF0C), (0xFF1B, 0xFF1B)]

/-- The signs from 0x80 on that may stand between letters and between digits. -/
def midNumLets : CodePoints where
  ranges := #[
    (0x2018, 0x2019), (0x2024, 0x2024), (0xFE52, 0xFE52), (0xFF07, 0xFF07), (0xFF0E, 0xFF0E)]

/-- The connectors from 0x80 on. -/
def connectors : CodePoints where
  ranges := #[
    (0x202F, 0x202F), (0x203F, 0x2040), (0x2054, 0x2054), (0xFE33, 0xFE34), (0xFE4D, 0xFE4F),
    (0xFF3F, 0xFF3F)]

/-- The digits from 0x80 on, with the signs that introduce a number. -/
def joiningDigits : CodePoints where
  ranges := #[
    (0x600, 0x605), (0x660, 0x669), (0x66B, 0x66B), (0x6DD, 0x6DD), (0x6F0, 0x6F9),
    (0x7C0, 0x7C9), (0x890, 0x891), (0x8E2, 0x8E2), (0x966, 0x96F), (0x9E6, 0x9EF),
    (0xA66, 0xA6F), (0xAE6, 0xAEF), (0xB66, 0xB6F), (0xBE6, 0xBEF), (0xC66, 0xC6F),
    (0xCE6, 0xCEF), (0xD66, 0xD6F), (0xDE6, 0xDEF), (0xE50, 0xE59), (0xED0, 0xED9),
    (0xF20, 0xF29), (0x1040, 0x1049), (0x1090, 0x1099), (0x17E0, 0x17E9), (0x1810, 0x1819),
    (0x1946, 0x194F), (0x19D0, 0x19DA), (0x1A80, 0x1A89), (0x1A90, 0x1A99), (0x1B50, 0x1B59),
    (0x1BB0, 0x1BB9), (0x1C40, 0x1C49), (0x1C50, 0x1C59), (0xA620, 0xA629), (0xA8D0, 0xA8D9),
    (0xA900, 0xA909), (0xA9D0, 0xA9D9), (0xA9F0, 0xA9F9), (0xAA50, 0xAA59), (0xABF0, 0xABF9),
    (0xFF10, 0xFF19), (0x104A0, 0x104A9), (0x10D30, 0x10D39), (0x10D40, 0x10D49),
    (0x11066, 0x1106F), (0x110BD, 0x110BD), (0x110CD, 0x110CD), (0x110F0, 0x110F9),
    (0x11136, 0x1113F), (0x111D0, 0x111D9), (0x112F0, 0x112F9), (0x11450, 0x11459),
    (0x114D0, 0x114D9), (0x11650, 0x11659), (0x116C0, 0x116C9), (0x116D0, 0x116E3),
    (0x11730, 0x11739), (0x118E0, 0x118E9), (0x11950, 0x11959), (0x11BF0, 0x11BF9),
    (0x11C50, 0x11C59), (0x11D50, 0x11D59), (0x11DA0, 0x11DA9), (0x11DE0, 0x11DE9),
    (0x11F50, 0x11F59), (0x16130, 0x16139), (0x16A60, 0x16A69), (0x16AC0, 0x16AC9),
    (0x16B50, 0x16B59), (0x16D70, 0x16D79), (0x1CCF0, 0x1CCF9), (0x1D7CE, 0x1D7FF),
    (0x1E140, 0x1E149), (0x1E2F0, 0x1E2F9), (0x1E4F0, 0x1E4F9), (0x1E5F1, 0x1E5FA),
    (0x1E950, 0x1E959), (0x1FBF0, 0x1FBF9)]

/-- The spaces from 0x80 on that keep together when repeated. -/
def wideSpaces : CodePoints where
  ranges := #[
    (0x1680, 0x1680), (0x2000, 0x2006), (0x2008, 0x200A), (0x205F, 0x205F), (0x3000, 0x3000)]

/-- The classes that only characters beyond ASCII are looked up for. -/
def wordBreakTables : List (CodePoints × WordBreakClass) :=
  [(joiningLetters, .letter), (hebrewLetters, .hebrewLetter), (extendingMarks, .extend),
    (joiningDigits, .numeric), (katakanaLetters, .katakana), (formatCharacters, .format),
    (midLetters, .midLetter), (midNums, .midNum), (midNumLets, .midNumLet),
    (connectors, .extendNumLet), (wideSpaces, .space),
    (⟨#[(0x85, 0x85), (0x2028, 0x2029)]⟩, .newline), (⟨#[(0x200D, 0x200D)]⟩, .joiner),
    (⟨#[(0x1F1E6, 0x1F1FF)]⟩, .regionalIndicator)]

/-- The class of an ASCII character. -/
def asciiWordBreakClass (c : Char) : WordBreakClass :=
  if c.isAlpha then .letter
  else if c.isDigit then .numeric
  else match c.toNat with
    | 0x0A => .lineFeed
    | 0x0B => .newline
    | 0x0C => .newline
    | 0x0D => .carriageReturn
    | 0x20 => .space
    | 0x22 => .doubleQuote
    | 0x27 => .singleQuote
    | 0x2C => .midNum
    | 0x2E => .midNumLet
    | 0x3A => .midLetter
    | 0x3B => .midNum
    | 0x5F => .extendNumLet
    | _ => .other

/-- The word-break class of a character. -/
def wordBreakClass (c : Char) : WordBreakClass :=
  if c.toNat < 0x80 then asciiWordBreakClass c
  else match wordBreakTables.find? fun entry => entry.1.contains c.toNat with
    | some (_, cls) => cls
    | none => .other

namespace WordBreakClass

/-- The classes of the letters that join with their neighbours. -/
def isLetter : WordBreakClass → Bool
  | letter | hebrewLetter => true
  | _ => false

/-- The classes of the characters that end a line. -/
def endsLine : WordBreakClass → Bool
  | carriageReturn | lineFeed | newline => true
  | _ => false

/-- The classes that belong to the character before them and are looked through. -/
def isAttached : WordBreakClass → Bool
  | extend | format | joiner => true
  | _ => false

/-- The classes that may stand once between two letters. -/
def joinsLetters : WordBreakClass → Bool
  | midLetter | midNumLet | singleQuote => true
  | _ => false

/-- The classes that may stand once between two digits. -/
def joinsDigits : WordBreakClass → Bool
  | midNum | midNumLet | singleQuote => true
  | _ => false

end WordBreakClass

end PhraseGraph.Text
