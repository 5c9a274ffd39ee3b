import PhraseGraph.StableSort
import PhraseGraph.Synonym
import PhraseGraph.Token.Words

/-!
# Analyzers

An analyzer turns a phrase into the tokens it is compared by. A word analyzer takes the words of
the phrase in lower case, leaves out the stop words, whose slots stay empty, and puts in the
synonyms: where a run of words is a term of the dictionary, all terms of its group begin at one slot
and end at one slot (`withSynonyms`).

Tokens may also come from elsewhere, such as a service that is asked for them. Of such a source no more
is known than the tokens that it has for a phrase, or its failure (`TokenSource.foreign`). Languages may
have analyzers of their own (`Analyzer.router`).
-/

namespace PhraseGraph

open Text

/-- Words that carry little meaning in an English phrase. -/
def englishStopWords : List String :=
  ["a", "an", "and", "are", "as", "at", "be", "but", "by", "for", "if", "in", "into", "is", "it",
    "no", "not", "of", "on", "or", "such", "that", "the", "their", "then", "there", "these",
    "they", "this", "to", "was", "will", "with"]

/-- How many tokens stand in consecutive slots at the beginning of a list. -/
def runLength : List Token → Nat
  | [] => 0
  | [_] => 1
  | t :: u :: rest => if u.position == t.position + 1 then runLength (u :: rest) + 1 else 1

/-- The tokens in consecutive slots from `position` on, where the last one is stretched so that it
    ends `length` slots after `position`. -/
def layOut (position length : Nat) : List Token → List Token
  | [] => []
  | [t] => [{ t with position, positionLength := length }]
  | t :: u :: rest =>
    { t with position, positionLength := 1 } :: layOut (position + 1) (length - 1) (u :: rest)

/-- The tokens of a term that stands for the bytes between the two offsets. -/
def synonymTokens (startOffset endOffset : Nat) (words : List String) : List Token :=
  words.map fun text => { text, startOffset, endOffset, kind := .synonym, position := 0 }

/-- A part of a list of tokens that is treated as a whole when synonyms are put in. -/
inductive Segment where
  /-- A token that begins no term. -/
  | single (token : Token)
  /-- Tokens that make up a term, with the words of the other terms of its group. -/
  | matched (tokens : List Token) (alternatives : List (List String))
deriving Repr

namespace Segment

/-- The number of slots of the segment's tokens before synonyms are put in. -/
def typedLength : Segment → Nat
  | single _ => 1
  | matched tokens _ => tokens.length

/-- The number of words of the segment's longest term. -/
def width : Segment → Nat
  | single _ => 1
  | matched tokens alternatives =>
    (alternatives.map List.length).foldl max tokens.length

/-- The tokens of the segment, moved by `shift` slots, with those of all its terms. -/
def tokens (shift : Nat) : Segment → List Token
  | single t => [{ t with position := t.position + shift }]
  | s@(matched typed alternatives) =>
    match typed.head?, typed.getLast? with
    | some first, some last =>
      let base := first.position + shift
      layOut base s.width typed ++ alternatives.flatMap fun words =>
        layOut base s.width (synonymTokens first.startOffset last.endOffset words)
    | _, _ => []

end Segment

/-- Cuts the tokens into segments from left to right, taking the longest term at each token. The
    terms found do not reach over a slot that is empty. At most `steps` segments are cut; the number
    of tokens is enough. -/
def cutSegments (synonyms : Synonyms) : (steps : Nat) → List Token → List Segment
  | 0, _ => []
  | _ + 1, [] => []
  | steps + 1, t :: rest =>
    let run := ((t :: rest).take (runLength (t :: rest))).map (·.text)
    match synonyms.longestTerm? run with
    | none => .single t :: cutSegments synonyms steps rest
    | some (n, group) =>
      let phrase := " ".intercalate (run.take n)
      .matched ((t :: rest).take n) ((group.filter (· != phrase)).map Synonyms.termWords)
        :: cutSegments synonyms steps ((t :: rest).drop n)

/-- The segments of the tokens. -/
def segments (synonyms : Synonyms) (tokens : List Token) : List Segment :=
  cutSegments synonyms tokens.length tokens

/-- The tokens of the segments one after another. Each segment that is wider than its own words
    moves what follows by the difference. -/
def placeSegments (shift : Nat) : List Segment → List Token
  | [] => []
  | s :: rest => s.tokens shift ++ placeSegments (shift + (s.width - s.typedLength)) rest

/-- The tokens by ascending slot; tokens of one slot stay in order. -/
def bySlot (tokens : List Token) : List Token :=
  stableSort (fun a b => decide (a.position ≤ b.position)) tokens

/-- The tokens with all terms of the groups that they match. -/
def withSynonyms (synonyms : Synonyms) (tokens : List Token) : List Token :=
  if synonyms.isEmpty then tokens else bySlot (placeSegments 0 (segments synonyms tokens))

/-- Stop words and synonyms, by which phrases are analyzed. -/
structure WordAnalyzer where
  /-- The words that are left out, in lower case. -/
  stopWords : Names := ∅
  /-- The synonyms that are put in. -/
  synonyms : Synonyms := .empty
deriving Inhabited

namespace WordAnalyzer

/-- The set of the given words in lower case. -/
def stopWordsOf (words : List String) : Names := Names.ofList (words.map lowercase)

/-- The analyzer that leaves out the English stop words. -/
def english : WordAnalyzer := { stopWords := stopWordsOf englishStopWords }

/-- The words of a phrase in lower case, without stop words. -/
def survivingWords (a : WordAnalyzer) (phrase : String) : List Token :=
  ((words phrase).map fun t => { t with text := lowercase t.text }).filter fun t =>
    !a.stopWords.contains t.text

/-- The tokens of a phrase. -/
def analyze (a : WordAnalyzer) (phrase : String) : List Token :=
  withSynonyms a.synonyms (a.survivingWords phrase)

/-- The analyzer in brief, for diagnosis. -/
def describe (a : WordAnalyzer) : String :=
  "GraphAnalyzer \x7b tokenizer: \"unicode_word\", stop_words: " ++ toString a.stopWords.size
    ++ ", synonyms: " ++ toString a.synonyms.groups.length ++ " \x7d"

end WordAnalyzer

/-- What the tokens of the phrases of a language come from. -/
inductive TokenSource where
  /-- The words of a phrase. -/
  | words (analyzer : WordAnalyzer)
  /-- Any other source, which has the given tokens for a phrase, or fails. -/
  | foreign (tokens : (phrase : String) → Except Failure (List Token))

/-- The tokens of a phrase. -/
def TokenSource.tokens (phrase : String) : TokenSource → Except Failure (List Token)
  | words analyzer => .ok (analyzer.analyze phrase)
  | foreign tokens => tokens phrase

/-- A way to analyze phrases of every language. -/
structure Analyzer where
  /-- The name by which failures tell of it. -/
  name : String
  /-- Where the tokens of a language come from, if there is a source for it. -/
  source? : (language : String) → Option TokenSource

namespace Analyzer

/-- The analyzer of words that all languages have in common. -/
def uniform (analyzer : WordAnalyzer) : Analyzer where
  name := "graph"
  source? _ := some (.words analyzer)

instance : Inhabited Analyzer := ⟨uniform default⟩

/-- The analyzer that has the given tokens for a phrase in a language, or fails. -/
def foreign (name : String)
    (tokens : (phrase language : String) → Except Failure (List Token)) : Analyzer where
  name := name
  source? language := some (.foreign fun phrase => tokens phrase language)

/-- The analyzer that leaves each language to the analyzer given for it, and a language without one
    to the default. What is given for a language decides it, even if it has no tokens for it. -/
def router (byLanguage : Dict String Analyzer) (default : Option Analyzer) : Analyzer where
  name := "per_language"
  source? language := ((byLanguage.get? language).or default).bind fun a => a.source? language

/-- The tokens of a phrase in a language. -/
def analyze (a : Analyzer) (phrase language : String) : Except Failure (List Token) :=
  match a.source? language with
  | some source => source.tokens phrase
  | none => .error (.noAnalyzer language)

end Analyzer

end PhraseGraph
