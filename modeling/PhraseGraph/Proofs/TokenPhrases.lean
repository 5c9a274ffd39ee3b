import PhraseGraph.Proofs.Expansion
import PhraseGraph.Proofs.Merging.Roots
import PhraseGraph.Proofs.RowGraph

/-!
# The phrases of a list of tokens

A phrase of literal text goes along the origins of tokens, and it may stop at an origin whose node is an
end. Such a node may be an end because of another token that shares its text and its slot, while the
token of the origin goes on. Then the other token takes the place of this one: it can follow the same
tokens, and has the same text (`Forest.exists_isPath_to_kin`). So the words of the phrases are those along
the paths of the forest (`ofForeignTokens_literalPhrases_iff`).

Where the tokens stand in a row there is one path, and the one phrase has the text as it was written
(`ofPhrase_literalPhrases_eq`).
-/

namespace PhraseGraph

open Forest Provenance

variable {tokens : List Token} {phrase : String} {m : Merging} {out : List NodeId} {j k : Nat}
  {r : OriginId} {ws : List String}

/-! ### Kin at the end of a path -/

namespace Forest

theorem Kin.mem_roots (hj : j < tokens.length) (hkj : Kin tokens k j)
    (hk : k ∈ (ofTokens tokens phrase).roots) : j ∈ (ofTokens tokens phrase).roots :=
  mem_roots_iff.2 ⟨hj, hkj.2.symm.trans (mem_roots_iff.1 hk).2⟩

theorem Kin.edge {i : Nat} (hj : j < tokens.length) (hkj : Kin tokens k j)
    (hk : (ofTokens tokens phrase).Edge i k) : (ofTokens tokens phrase).Edge i j := by
  obtain ⟨hi, -, hanchor⟩ := edge_iff.1 hk
  exact edge_iff.2 ⟨hi, hj, hkj.2.symm.trans hanchor⟩

/-- A path can go to kin of its last token in its place. -/
theorem exists_isPath_to_kin {ks path : List NodeId} {last : NodeId}
    (hks : ∀ k ∈ ks, Kin tokens k j → j ∈ ks) (hj : j < tokens.length)
    (hpath : (ofTokens tokens phrase).IsPath ks path) (hlast : last ∈ path.getLast?)
    (hkin : Kin tokens last j) :
    ∃ path', (ofTokens tokens phrase).IsPath ks path' ∧ j ∈ path'.getLast? ∧
      path'.map (fun k => (tokenAt tokens k).text) = path.map fun k => (tokenAt tokens k).text := by
  induction path generalizing ks with
  | nil => exact absurd hlast (by simp)
  | cons k path ih =>
    cases path with
    | nil =>
      obtain rfl : k = last := by simpa using hlast
      exact ⟨[j], ⟨hks k hpath.1 hkin, trivial⟩, rfl, by simp [hkin.1]⟩
    | cons c path =>
      rw [List.getLast?_cons_cons] at hlast
      obtain ⟨path', hpath', hlast', htexts⟩ :=
        ih (fun i hi hij => Kin.edge hj hij hi) hpath.2 hlast
      exact ⟨k :: path', ⟨hpath.1, hpath'⟩, List.mem_getLast?_cons hlast',
        congrArg ((tokenAt tokens k).text :: ·) htexts⟩

theorem map_text_ofTokens {path : List NodeId} (hpath : ∀ k ∈ path, k < tokens.length) :
    path.map (ofTokens tokens phrase).text = path.map fun k => (tokenAt tokens k).text :=
  List.map_congr_left fun k hk => text_ofTokens (hpath k hk)

/-- The words along a path from a root to an end, or to a token that nothing follows. -/
def SpellsOut (tokens : List Token) (phrase : String) (ws : List String) : Prop :=
  ∃ path, (ofTokens tokens phrase).IsPath (ofTokens tokens phrase).roots path ∧
    (∃ last ∈ path.getLast?, (ofTokens tokens phrase).isEnd last = true ∨
      (ofTokens tokens phrase).children last = []) ∧
    path.map (ofTokens tokens phrase).text = ws

end Forest

/-! ### The phrases of consistent tokens -/

/-- Where the origins are kept, an origin tells a node with the text of its token. -/
theorem KeepsOrigins.text_origin
    (h : KeepsOrigins tokens phrase (TokenGraph.ofTokens tokens phrase))
    (hr : (TokenGraph.ofTokens tokens phrase).OriginReached r) :
    (TokenGraph.ofTokens tokens phrase).text ((TokenGraph.ofTokens tokens phrase).origin r).node =
      (tokenAt tokens (tokenOf tokens phrase r)).text := by
  obtain ⟨k, -, hmade, htext⟩ := (h r hr).text_eq
  rw [htext, tokenOf, hmade.2]

namespace NormalForm

/-- The phrases of literal text, where the origins are kept. -/
theorem mem_items_literalPhrases_iff (h : NormalForm tokens phrase m out)
    (hkeeps : KeepsOrigins tokens phrase (TokenGraph.ofTokens tokens phrase)) {p : Phrase} :
    p ∈ (TokenGraph.ofTokens tokens phrase).literalPhrases.items ↔ ∃ path,
      (TokenGraph.ofTokens tokens phrase).IsOriginPath
        (TokenGraph.ofTokens tokens phrase).originRoots path ∧
      (∃ last ∈ path.getLast?, (TokenGraph.ofTokens tokens phrase).MayStop last) ∧
      (TokenGraph.ofTokens tokens phrase).phraseAlong path = p :=
  TokenGraph.mem_items_literalPhrases_iff (fun r hr => (hkeeps r hr).node_lt)
    h.endsWithin_originRoots

variable (hc : SlotConsistent tokens)
include hc

theorem keepsOrigins (h : NormalForm tokens phrase m out) :
    KeepsOrigins tokens phrase (TokenGraph.ofTokens tokens phrase) :=
  h.keepsOrigins_iff.2 (h.not_cutsOff hc)

/-- A phrase may stop at the origin of a token if kin of the token is an end, or nothing follows. -/
theorem mayStop_iff (h : NormalForm tokens phrase m out) (hr : MadeFor tokens phrase r k)
    (hk : k < tokens.length) : (TokenGraph.ofTokens tokens phrase).MayStop r ↔
      (∃ j < tokens.length, Kin tokens k j ∧ (ofTokens tokens phrase).isEnd j = true) ∨
        (ofTokens tokens phrase).children k = [] := by
  rw [TokenGraph.MayStop, h.node_origin hk hr, if_pos (h.reachable hc hk),
    (h.gathers hc).isEnd_iff k hk, h.children_origin_eq_nil_iff hr]

/-- The words of the phrases are those that the forest spells out. -/
theorem exists_tokens_eq_iff (h : NormalForm tokens phrase m out) :
    (∃ p ∈ (TokenGraph.ofTokens tokens phrase).literalPhrases.items, p.tokens = ws) ↔
      SpellsOut tokens phrase ws := by
  have hkeeps := h.keepsOrigins hc
  have hreached : ∀ r ∈ (TokenGraph.ofTokens tokens phrase).originRoots,
      (TokenGraph.ofTokens tokens phrase).OriginReached r := fun r hr => ⟨r, hr, .refl⟩
  have hlt : ∀ path, (ofTokens tokens phrase).IsPath (ofTokens tokens phrase).roots path →
      ∀ k ∈ path, k < tokens.length := fun path hpath k hk =>
    (hpath.lt_size_of_mem inRange_ofTokens inRange_ofTokens.roots_lt hk).trans_eq size_ofTokens
  -- The words of a phrase are those of the tokens for which its origins have been made.
  have htokens : ∀ path, (TokenGraph.ofTokens tokens phrase).IsOriginPath
      (TokenGraph.ofTokens tokens phrase).originRoots path →
      ((TokenGraph.ofTokens tokens phrase).phraseAlong path).tokens =
        (path.map (tokenOf tokens phrase)).map fun k => (tokenAt tokens k).text := by
    intro path hpath
    rw [TokenGraph.tokens_phraseAlong, List.map_map]
    exact List.map_congr_left fun r hr => hkeeps.text_origin (hpath.reached_of_mem hreached hr)
  constructor
  · rintro ⟨_, hp, rfl⟩
    obtain ⟨path, hpath, ⟨last, hlast, hstop⟩, rfl⟩ := (h.mem_items_literalPhrases_iff hkeeps).1 hp
    have hpath' : (ofTokens tokens phrase).IsPath (ofTokens tokens phrase).roots
        (path.map (tokenOf tokens phrase)) := by
      refine h.isPath_map_tokenOf (fun r hr => ?_) hpath
      obtain ⟨hk, hmade⟩ := h.madeFor_tokenOf (hreached r hr)
      exact ⟨_, (h.mem_originRoots_iff_mem_roots hmade hk).1 hr, hmade⟩
    have hlast' : tokenOf tokens phrase last ∈ (path.map (tokenOf tokens phrase)).getLast? := by
      rw [List.getLast?_map]
      exact Option.mem_map_of_mem _ hlast
    obtain ⟨hk, hmade⟩ :=
      h.madeFor_tokenOf (hpath.reached_of_mem hreached (List.mem_of_getLast? hlast))
    rw [htokens path hpath]
    rcases (h.mayStop_iff hc hmade hk).1 hstop with ⟨j, hj, hkin, hend⟩ | hleaf
    · -- The phrase stops because of the kin, so the path goes to the kin.
      obtain ⟨path', hpath', hlast', htexts⟩ := exists_isPath_to_kin
        (fun k hk hkj => hkj.mem_roots hj hk) hj hpath' hlast' hkin
      refine ⟨path', hpath', ⟨j, hlast', .inl hend⟩, ?_⟩
      rw [map_text_ofTokens (hlt path' hpath'), htexts]
    · exact ⟨_, hpath', ⟨_, hlast', .inr hleaf⟩, map_text_ofTokens (hlt _ hpath')⟩
  · rintro ⟨path, hpath, ⟨last, hlast, hstop⟩, rfl⟩
    obtain ⟨path, hpath', rfl⟩ := h.exists_isOriginPath (fun k hk =>
      have hk' := (Forest.mem_roots_iff.1 hk).1
      ⟨hk', fun r hr => (h.mem_originRoots_iff_mem_roots hr hk').2 hk⟩) hpath
    rw [List.getLast?_map] at hlast
    obtain ⟨r, hr, rfl⟩ := Option.mem_map.1 hlast
    obtain ⟨hk, hmade⟩ :=
      h.madeFor_tokenOf (hpath'.reached_of_mem hreached (List.mem_of_getLast? hr))
    refine ⟨_, (h.mem_items_literalPhrases_iff hkeeps).2 ⟨path, hpath', ⟨r, hr, ?_⟩, rfl⟩, ?_⟩
    · exact (h.mayStop_iff hc hmade hk).2 (hstop.imp_left fun hend => ⟨_, hk, ⟨rfl, rfl⟩, hend⟩)
    · rw [htokens path hpath', map_text_ofTokens (hlt _ hpath)]

end NormalForm

/-- The graph of tokens that are consistent with their slots, and whose slots can be counted, has its
    phrases listed to the end, and their words are those along the paths of the forest from a root
    to an end or to a token that nothing follows. -/
theorem ofForeignTokens_literalPhrases_iff (hslots : ∀ t ∈ tokens, t.endPosition < 2 ^ 64)
    (hc : SlotConsistent tokens) : ∃ g listed,
      TokenGraph.ofForeignTokens tokens phrase = .ok g ∧ g.literalPhrases = .ofList listed ∧
      ∀ ws, (∃ p ∈ listed, p.tokens = ws) ↔ SpellsOut tokens phrase ws := by
  obtain ⟨m, out, h⟩ := exists_normalForm tokens phrase
  have hfailure : (TokenGraph.ofTokens tokens phrase).literalPhrases.failure = none :=
    TokenGraph.failure_literalPhrases fun r hr => (h.keepsOrigins hc r hr).node_lt
  refine ⟨TokenGraph.ofTokens tokens phrase, _, ?_, ?_, fun ws => h.exists_tokens_eq_iff hc⟩
  · obtain ⟨ends, hends⟩ := exists_mapM_countedEnd hslots
    rw [TokenGraph.ofForeignTokens, hends]
    rfl
  · rw [Enumeration.ofList, ← hfailure]

namespace Example

/-- The words `a b`, where a second `a` stands for both of them. -/
def endsEarly : List Token :=
  [{ text := "a", startOffset := 0, endOffset := 1, position := 0 },
   { text := "a", startOffset := 0, endOffset := 3, kind := .synonym, position := 0,
     positionLength := 2 },
   { text := "b", startOffset := 2, endOffset := 3, position := 1 }]

theorem endsEarly_literalPhrases : (∀ t ∈ endsEarly, t.endPosition < 2 ^ 64) ∧
    SlotConsistent endsEarly ∧ ∃ g listed,
      TokenGraph.ofForeignTokens endsEarly "a b" = .ok g ∧ g.literalPhrases = .ofList listed ∧
      ∀ ws, (∃ p ∈ listed, p.tokens = ws) ↔ SpellsOut endsEarly "a b" ws := by
  have hslots : ∀ t ∈ endsEarly, t.endPosition < 2 ^ 64 := by decide
  have hc : SlotConsistent endsEarly := by decide
  exact ⟨hslots, hc, ofForeignTokens_literalPhrases_iff hslots hc⟩

/-- The origin of the first `a` stops as well, since its node is an end. -/
example : (TokenGraph.ofTokens endsEarly "a b").literalPhrases.items.map Phrase.tokens =
    [["a", "b"], ["a"], ["a"]] := by decide +kernel

end Example

/-! ### The phrase of words in a row -/

namespace InRow

variable (h : InRow phrase.toList tokens)
include h

/-- A row spells out its words, and nothing else. -/
theorem eq_of_spellsOut (hspells : SpellsOut tokens phrase ws) : ws = tokens.map (·.text) := by
  obtain ⟨path, hpath, hlast, rfl⟩ := hspells
  exact h.onePerSlot.map_text_of_isPath_roots hpath hlast

/-- The graph of a row has one phrase, with the text as it was written and the words of the row. -/
theorem exists_literalPhrases_eq (hne : tokens ≠ []) : ∃ p,
    (TokenGraph.ofTokens tokens phrase).literalPhrases = .ofList [p] ∧ p.literal = phrase ∧
      p.join " " = " ".intercalate (tokens.map (·.text)) := by
  obtain ⟨m, out, hn⟩ := exists_normalForm tokens phrase
  have hc : SlotConsistent tokens := h.onePerSlot.slotConsistent
  have hroots : (TokenGraph.ofTokens tokens phrase).roots ≠ [] := by
    rw [h.onePerSlot.roots_ofTokens hne]
    exact List.cons_ne_nil _ _
  obtain ⟨p, hlisted, hp⟩ := (h.recites_ofTokens hne).expand_literal hroots
    (h.length_le_size_origins.trans (Nat.le_succ _))
  have hlisted : (TokenGraph.ofTokens tokens phrase).literalPhrases = .ofList [p] := hlisted
  have hmem : p ∈ (TokenGraph.ofTokens tokens phrase).literalPhrases.items :=
    hlisted ▸ List.mem_singleton_self p
  refine ⟨p, hlisted, hp, ?_⟩
  have htokens : p.tokens = tokens.map (·.text) :=
    h.eq_of_spellsOut ((hn.exists_tokens_eq_iff hc).1 ⟨p, hmem, rfl⟩)
  obtain ⟨path, -, -, rfl⟩ := (hn.mem_items_literalPhrases_iff (hn.keepsOrigins hc)).1 hmem
  rw [TokenGraph.join_phraseAlong, htokens]

end InRow

/-- However a phrase is cut into pieces, its graph lists the phrase itself. -/
theorem exists_literalPhrases_of_cut {a : WordAnalyzer} {pieces : List (List Char)}
    (hcut : pieces.flatten = phrase.toList) (hkept : a.analyzePieces pieces ≠ [])
    (hsynonyms : ∀ t ∈ a.analyzePieces pieces, t.isSynonym = false) :
    ∃ p, (TokenGraph.ofTokens (a.analyzePieces pieces) phrase).literalPhrases = .ofList [p] ∧
      p.literal = phrase ∧ p.join " " = " ".intercalate ((a.survivorsOf pieces).map (·.text)) := by
  rw [← WordAnalyzer.analyzePieces_eq_survivorsOf hsynonyms]
  exact (WordAnalyzer.inRow_analyzePieces hcut hsynonyms).exists_literalPhrases_eq hkept

/-- A phrase in which some word is kept and no synonym shows has one phrase of literal text. It is the
    phrase itself, byte for byte, and its words are those that are kept, in lower case. It does not matter
    how the phrase is cut into the pieces among which its words are found. -/
theorem ofPhrase_literalPhrases_eq (a : WordAnalyzer) (phrase : String) :
    (∀ pieces : List (List Char), pieces.flatten = phrase.toList → a.analyzePieces pieces ≠ [] →
      (∀ t ∈ a.analyzePieces pieces, t.isSynonym = false) →
      ∃ p, (TokenGraph.ofTokens (a.analyzePieces pieces) phrase).literalPhrases = .ofList [p] ∧
        p.literal = phrase ∧ p.join " " = " ".intercalate ((a.survivorsOf pieces).map (·.text))) ∧
    ∀ language, a.analyze phrase ≠ [] → (∀ t ∈ a.analyze phrase, t.isSynonym = false) →
      ∃ g p, TokenGraph.ofPhrase (.uniform a) phrase language = .ok g ∧
        g.literalPhrases = .ofList [p] ∧ p.literal = phrase ∧
        p.join " " = " ".intercalate ((a.survivingWords phrase).map (·.text)) := by
  refine ⟨fun pieces => exists_literalPhrases_of_cut, fun language hkept hsynonyms => ?_⟩
  obtain ⟨p, hp⟩ := exists_literalPhrases_of_cut Text.flatten_wordPieces hkept hsynonyms
  exact ⟨TokenGraph.ofTokens (a.analyze phrase) phrase, p, rfl, hp⟩

namespace Example

/-- A phrase in which the name of a town is not cut at its blank. -/
def theOldVienna : List (List Char) := ["The", " ", "old Vienna", "!"].map String.toList

/-- A phrase with signs and stop words before, between and after its words, and one that has a word with a
    blank in it. -/
theorem visit_literalPhrases :
    (WordAnalyzer.english.analyze " A visit in 2019: old Vienna, or so. " ≠ [] ∧
      (∀ t ∈ WordAnalyzer.english.analyze " A visit in 2019: old Vienna, or so. ",
        t.isSynonym = false) ∧
      ∃ g p, TokenGraph.ofPhrase (.uniform .english) " A visit in 2019: old Vienna, or so. " "en" =
          .ok g ∧ g.literalPhrases = .ofList [p] ∧
        p.literal = " A visit in 2019: old Vienna, or so. " ∧
        p.join " " = "visit 2019 old vienna so") ∧
    ∃ p, (TokenGraph.ofTokens (WordAnalyzer.english.analyzePieces theOldVienna)
          "The old Vienna!").literalPhrases = .ofList [p] ∧
        p.literal = "The old Vienna!" ∧ p.join " " = "old vienna" := by
  constructor
  · have hkept : WordAnalyzer.english.analyze " A visit in 2019: old Vienna, or so. " ≠ [] := by
      decide +kernel
    have hsynonyms : ∀ t ∈ WordAnalyzer.english.analyze " A visit in 2019: old Vienna, or so. ",
        t.isSynonym = false := by decide +kernel
    have hwords : " ".intercalate ((WordAnalyzer.english.survivingWords
        " A visit in 2019: old Vienna, or so. ").map (·.text)) = "visit 2019 old vienna so" := by
      decide +kernel
    obtain ⟨g, p, hg, hlisted, hliteral, hjoin⟩ :=
      (ofPhrase_literalPhrases_eq .english _).2 "en" hkept hsynonyms
    exact ⟨hkept, hsynonyms, g, p, hg, hlisted, hliteral, hjoin.trans hwords⟩
  · have hcut : theOldVienna.flatten = "The old Vienna!".toList := by decide +kernel
    have hkept : WordAnalyzer.english.analyzePieces theOldVienna ≠ [] := by decide +kernel
    have hsynonyms : ∀ t ∈ WordAnalyzer.english.analyzePieces theOldVienna,
        t.isSynonym = false := by decide +kernel
    have hwords : " ".intercalate ((WordAnalyzer.english.survivorsOf theOldVienna).map (·.text)) =
        "old vienna" := by decide +kernel
    obtain ⟨p, hlisted, hliteral, hjoin⟩ :=
      (ofPhrase_literalPhrases_eq .english _).1 theOldVienna hcut hkept hsynonyms
    exact ⟨p, hlisted, hliteral, hjoin.trans hwords⟩

end Example

end PhraseGraph
