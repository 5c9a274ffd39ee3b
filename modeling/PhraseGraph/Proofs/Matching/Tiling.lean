import PhraseGraph.Proofs.Matching.Pieces
import PhraseGraph.Proofs.RowGraph

/-!
# A match tiles the text

Where a text has a single path, each node of it is bound to its piece and leaves what the path below it
recites (`TokenGraph.divides_recites`). So whatever the pattern and the variables are, what the values of
a match are bound to, put together, is the text up to the continuation (`ensures_tiles_search`).

A phrase in which no synonym is put in has such a graph, wherever its words begin and end; so its text is
the pieces of a match with the continuation behind them: `tiles_phrase`.
-/

namespace PhraseGraph

namespace TokenGraph

/-- The pieces that the values of the match are bound to, and what is left over behind them, are the
    text. -/
def Tiles (g : TokenGraph) (n : Nat) (m : Match) (s : String) : Prop :=
  ∃ k ≤ n, ∃ rest, g.Recites k m.continuation rest ∧
    String.join (m.values.map (·.originFull)) ++ rest = s

variable {g : TokenGraph} {n : Nat} {s : String} {id : NodeId} {r : OriginId} {vars : Variables}

/-- Where the text has a single path there is no choice of the next token. -/
theorem Recites.of_mem {ids : List NodeId} (h : g.Recites n ids s) (hid : id ∈ ids) :
    ∃ k r rest, n = k + 1 ∧ g.Sole id r ∧ g.Recites k (g.children id) rest ∧
      s = (g.origin r).fullText ++ rest := by
  cases h with
  | done => exact absurd hid List.not_mem_nil
  | next hsole hrest =>
    obtain rfl := List.mem_singleton.1 hid
    exact ⟨_, _, _, rfl, hsole, hrest, rfl⟩

theorem Sole.firstOrigin?_eq (h : g.Sole id r) : g.firstOrigin? id = some (g.origin r) := by
  rw [firstOrigin?, h.origins_eq]
  rfl

theorem Sole.originFull_literalBinding (h : g.Sole id r) :
    (literalBinding g id).originFull = (g.origin r).fullText := by
  simp [literalBinding, h.firstOrigin?_eq, h.not_isSynonym, Binding.text, Binding.ofToken,
    Origin.fullText]

theorem Sole.originFull_yearBinding (h : g.Sole id r) (year : Int) :
    (yearBinding g id year).originFull = (g.origin r).fullText := by
  simp [yearBinding, h.firstOrigin?_eq, Binding.ofToken, Origin.fullText]

/-- At each node of a single path the piece of the node comes before what the rest of it recites. -/
theorem divides_recites (n : Nat) : g.Divides vars fun ids s => ∃ k ≤ n, g.Recites k ids s where
  single := by
    rintro ids s id ⟨k, hk, h⟩ hid
    obtain ⟨i, r, rest, rfl, hsole, hrest, rfl⟩ := h.of_mem hid
    exact ⟨i + 1, hk, .next hsole hrest⟩
  literal := by
    rintro ids s id ⟨k, hk, h⟩ hid
    obtain ⟨i, r, rest, rfl, hsole, hrest, rfl⟩ := h.of_mem hid
    exact ⟨rest, ⟨i, by omega, hrest⟩, by rw [hsole.originFull_literalBinding]⟩
  year := by
    rintro _ _ ids s id y ⟨k, hk, h⟩ hid _
    obtain ⟨i, r, rest, rfl, hsole, hrest, rfl⟩ := h.of_mem hid
    exact ⟨rest, ⟨i, by omega, hrest⟩, by rw [hsole.originFull_yearBinding]⟩
  atEnd := by
    rintro ids s id ⟨k, hk, h⟩ hid hend
    obtain ⟨i, r, rest, rfl, hsole, hrest, rfl⟩ := h.of_mem hid
    -- The last token of the text leaves nothing over.
    rw [hsole.end_iff.1 hend] at hrest
    cases hrest
    exact ⟨⟨0, Nat.zero_le n, .done⟩, by rw [hsole.originFull_literalBinding, String.append_empty]⟩

end TokenGraph

/-! ### Whole searches -/

section Search

variable {text pattern : TokenGraph} {vars : Variables} {q : Question} {m : Match}
  {n steps : Nat} {s : String}

theorem ensures_tiles_search (h : text.Recites n q.textNodes s) :
    (search text vars steps q).Ensures fun m => text.Tiles n m s := by
  intro m hm
  have hsplits := ensures_splits_search (text.divides_recites n) ⟨n, Nat.le_refl n, h⟩ m hm
  obtain ⟨rest, ⟨k, hk, hrest⟩, hpieces⟩ := hsplits.exists_rest
  exact ⟨k, hk, rest, hrest, hpieces⟩

/-- What the match binds and the one text that it leaves over, put together, are the whole text. -/
def Match.Rebuilds (m : Match) (text : TokenGraph) (s : String) : Prop :=
  ∃ rest, String.join (m.values.map (·.originFull)) ++ rest = s ∧
    if m.continuation = [] then rest = "" else continuationTexts text m = .ok [rest]

/-- Where the phrases from some nodes on are listed, the continuation of a match is one text. -/
theorem TokenGraph.Tiles.rebuilds (h : text.Tiles n m s) (hn : n ≤ text.origins.size) :
    m.Rebuilds text s := by
  obtain ⟨k, hk, rest, hrest, htiles⟩ := h
  refine ⟨rest, htiles, ?_⟩
  split
  · next hnil =>
    rw [hnil] at hrest
    cases hrest
    rfl
  · next hne =>
    obtain ⟨p, hexpand, rfl⟩ := hrest.expand_literal hne (hk.trans (hn.trans (Nat.le_succ _)))
    rw [continuationTexts, TokenGraph.literalPhrasesFrom, TokenGraph.phrasesOf, hexpand]
    rfl

/-- The search finds the match, however deep it goes. -/
def Finds (text pattern : TokenGraph) (allowPrefix : Bool) (vars : Variables) (m : Match) : Prop :=
  ∃ steps, search text vars steps ⟨text.roots, pattern, pattern.roots, allowPrefix⟩ = .found m

theorem finds_of_findMatch {allowPrefix : Bool} (h : findMatch text pattern allowPrefix vars = some m) :
    Finds text pattern allowPrefix vars m := ⟨_, matchSiblings_eq_some_iff.1 h⟩

end Search

/-- A match of the graph of a row tiles the text. -/
theorem InRow.rebuilds_of_finds {tokens : List Token} {phrase : String} {pattern : TokenGraph}
    {allowPrefix : Bool} {vars : Variables} {m : Match} (h : InRow phrase.toList tokens)
    (hne : tokens ≠ [])
    (hm : Finds (.ofTokens tokens phrase) pattern allowPrefix vars m) :
    m.Rebuilds (.ofTokens tokens phrase) phrase := by
  obtain ⟨steps, hsearch⟩ := hm
  have htiles := ensures_tiles_search (h.recites_ofTokens hne) m hsearch
  exact htiles.rebuilds h.length_le_size_origins

/-- A match tiles the phrase. Where no synonym is put into a phrase of some words, what a match binds
    and what it leaves over, put together, are the phrase. It does not matter how the phrase is cut into
    the pieces among which its words are found. -/
theorem tiles_phrase {a : WordAnalyzer} {phrase : String} {pattern : TokenGraph} {allowPrefix : Bool}
    {vars : Variables} {m : Match} :
    (∀ pieces : List (List Char), pieces.flatten = phrase.toList → a.analyzePieces pieces ≠ [] →
      (∀ t ∈ a.analyzePieces pieces, t.isSynonym = false) →
      Finds (.ofTokens (a.analyzePieces pieces) phrase) pattern allowPrefix vars m →
      m.Rebuilds (.ofTokens (a.analyzePieces pieces) phrase) phrase) ∧
    ∀ language text, a.analyze phrase ≠ [] → (∀ t ∈ a.analyze phrase, t.isSynonym = false) →
      TokenGraph.ofPhrase (.uniform a) phrase language = .ok text →
      Finds text pattern allowPrefix vars m → m.Rebuilds text phrase := by
  constructor
  · intro pieces hcut hne hsynonym
    exact (WordAnalyzer.inRow_analyzePieces hcut hsynonym).rebuilds_of_finds hne
  · intro language text hne hsynonym htext
    obtain rfl : TokenGraph.ofTokens (a.analyze phrase) phrase = text := Except.ok.inj htext
    exact (WordAnalyzer.inRow_analyze hsynonym).rebuilds_of_finds hne

namespace Example

/-- The graph of a phrase without its stop words. -/
def graphOf (phrase : String) : TokenGraph :=
  .ofTokens (WordAnalyzer.english.analyze phrase) phrase

/-- The years, and a town with one phrasing of two words. -/
def yearsAndTowns : Variables :=
  .ofVariables [.year 1996, .table "$Town" (.ofList [("Wien", [graphOf "old vienna"])])]

/-- A phrase of five words, with stop words and signs around them. -/
def visit : String := " A visit in 2019: old Vienna, or so. "

/-- The phrase cut at its blanks, so that signs belong to the words. -/
def visitAtBlanks : List (List Char) :=
  [" ", "A", " ", "visit", " ", "in", " ", "2019:", " ", "old", " ", "Vienna,", " ", "or", " ", "so.",
    " "].map String.toList

/-- The match binds `" A visit"`, `" in 2019"` and `": old Vienna"`, and leaves `", or so. "`. With the
    signs at the words, `" A visit"` is bound and the rest is left. -/
theorem tiles_visit :
    (∃ m, findMatch (graphOf visit) (graphOf "visit $Year $Town") true yearsAndTowns = some m ∧
      m.Rebuilds (graphOf visit) visit) ∧
    ∃ m, findMatch (.ofTokens (WordAnalyzer.english.analyzePieces visitAtBlanks) visit)
        (graphOf "visit") true yearsAndTowns = some m ∧
      m.Rebuilds (.ofTokens (WordAnalyzer.english.analyzePieces visitAtBlanks) visit) visit := by
  constructor
  · obtain ⟨m, hm⟩ : ∃ m, findMatch (graphOf visit) (graphOf "visit $Year $Town") true
        yearsAndTowns = some m := Option.isSome_iff_exists.1 (by decide +kernel)
    have hne : WordAnalyzer.english.analyze visit ≠ [] := by decide +kernel
    have hsynonym : ∀ t ∈ WordAnalyzer.english.analyze visit, t.isSynonym = false := by
      decide +kernel
    have htext : TokenGraph.ofPhrase (.uniform .english) visit "en" = .ok (graphOf visit) := rfl
    exact ⟨m, hm, tiles_phrase.2 "en" _ hne hsynonym htext (finds_of_findMatch hm)⟩
  · obtain ⟨m, hm⟩ : ∃ m, findMatch (.ofTokens (WordAnalyzer.english.analyzePieces visitAtBlanks) visit)
        (graphOf "visit") true yearsAndTowns = some m :=
      Option.isSome_iff_exists.1 (by decide +kernel)
    have hcut : visitAtBlanks.flatten = visit.toList := by decide +kernel
    have hne : WordAnalyzer.english.analyzePieces visitAtBlanks ≠ [] := by decide +kernel
    have hsynonym : ∀ t ∈ WordAnalyzer.english.analyzePieces visitAtBlanks, t.isSynonym = false := by
      decide +kernel
    exact ⟨m, hm, tiles_phrase.1 visitAtBlanks hcut hne hsynonym (finds_of_findMatch hm)⟩

end Example

end PhraseGraph
