import PhraseGraph.Graph
import PhraseGraph.Proofs.Matching.Literals
import PhraseGraph.Proofs.Normalization
import PhraseGraph.Proofs.Phrasings

/-!
# Synonyms match each other

A term whose words are those between its blanks is a single segment, as no longer term begins with it
(`WordAnalyzer.IsPlainTerm.exists_segments_eq`). So its tokens stand in a single stretch, off whose end
nothing hangs, and taking kin together changes nothing of what its graph accepts: all terms of its group
(`WordAnalyzer.IsPlainTerm.accepts_termWords`). The graphs of two terms of a group therefore share the
paths of all terms of the group, and match each other both ways (`WordAnalyzer.findMatch_terms`).
-/

namespace PhraseGraph

open Forest Text

/-! ### A run of words that is a term -/

namespace Synonyms

variable {d : Synonyms} {texts group : List String}

/-- Words that make up a term are the longest term that they begin with. -/
theorem longestTerm?_eq_some (hgroup : d.group? (" ".intercalate texts) = some group)
    (hne : texts ≠ []) (hlength : texts.length ≤ d.maxWords) :
    d.longestTerm? texts = some (texts.length, group) := by
  obtain ⟨n, hn⟩ := Nat.exists_eq_add_one_of_ne_zero fun h => hne (List.length_eq_zero_iff.1 h)
  have hwhole : texts.take (n + 1) = texts := List.take_of_length_le hn.le
  rw [longestTerm?, Nat.min_eq_right hlength, hn, longestUpTo?, hwhole, hgroup]

end Synonyms

theorem segments_eq_matched {d : Synonyms} {tokens : List Token} {group : List String}
    (hne : tokens ≠ []) (hrun : runLength tokens = tokens.length)
    (hlongest : d.longestTerm? (tokens.map (·.text)) = some (tokens.length, group)) :
    ∃ alternatives, segments d tokens = [.matched tokens alternatives] := by
  cases tokens with
  | nil => exact absurd rfl hne
  | cons t rest =>
    have hdone : ∀ steps, cutSegments d steps [] = [] := fun steps => by cases steps <;> rfl
    rw [segments, List.length_cons, cutSegments, hrun, List.take_length, hlongest]
    simp only [List.take_length, List.drop_length, hdone]
    exact ⟨_, rfl⟩

/-- Words take consecutive slots. -/
theorem runLength_wordTokens {position : Nat} {placed : List (Nat × List Char)}
    (f : Token → String) :
    runLength ((wordTokens position placed).map fun t => { t with text := f t }) =
      (wordTokens position placed).length := by
  induction placed generalizing position with
  | nil => rfl
  | cons p placed ih =>
    have ih := @ih (position + 1)
    cases placed with
    | nil => rfl
    | cons q placed =>
      simp only [wordTokens, List.map_cons, runLength, beq_self_eq_true, if_true] at ih ⊢
      rw [ih]
      rfl

namespace WordAnalyzer

variable {a : WordAnalyzer} {groups : List (List String)} {group : List String}
  {phrase term : String}

/-- The phrase is a term of the group, its words are those between its blanks, and none of them is a stop
    word. -/
structure IsPlainTerm (a : WordAnalyzer) (group : List String) (phrase : String) : Prop where
  mem : Synonyms.normalize phrase ∈ group
  words_eq : (words phrase).map (·.text) = blankSeparated phrase
  not_stopWord : ∀ w ∈ blankSeparated phrase, a.stopWords.contains (lowercase w) = false

namespace IsPlainTerm

theorem survivingWords_eq (h : a.IsPlainTerm group phrase) : a.survivingWords phrase =
    (words phrase).map fun t => { t with text := lowercase t.text } := by
  refine List.filter_eq_self.2 (List.forall_mem_map.2 fun t ht => ?_)
  have hmem : t.text ∈ blankSeparated phrase := h.words_eq ▸ List.mem_map_of_mem ht
  simp [h.not_stopWord _ hmem]

theorem map_text_survivingWords (h : a.IsPlainTerm group phrase) :
    (a.survivingWords phrase).map (·.text) = (blankSeparated phrase).map lowercase := by
  rw [h.survivingWords_eq, ← h.words_eq, List.map_map, List.map_map]
  rfl

variable (hd : Synonyms.ofGroups groups = .ok a.synonyms) (hgroup : group ∈ a.synonyms.groups)
include hd hgroup

/-- A plain term is a single segment. -/
theorem exists_segments_eq (h : a.IsPlainTerm group phrase) : ∃ typed alternatives,
    segments a.synonyms (a.survivingWords phrase) = [.matched typed alternatives] ∧
      a.synonyms.group? (" ".intercalate (typed.map (·.text))) = some group := by
  have hsound := Synonyms.sound_ofGroups hd
  have hterm : " ".intercalate ((a.survivingWords phrase).map (·.text)) ∈ group := by
    rw [h.map_text_survivingWords]
    exact h.mem
  have hnormal := hsound.isNormal group hgroup _ hterm
  have hne : (a.survivingWords phrase).map (·.text) ≠ [] := fun hnil =>
    Synonyms.not_isNormal_empty (by rwa [hnil, String.intercalate_nil] at hnormal)
  have hgroup? := hsound.group?_eq_some_iff.2 ⟨hgroup, hterm⟩
  -- As many words were typed as the term has.
  have hlength := hsound.length_le group hgroup _ hterm
  rw [hnormal.termWords_eq hne (List.forall_mem_map.2 fun t ht =>
    beginsBlank_of_mem_survivingWords ht)] at hlength
  have hlongest := Synonyms.longestTerm?_eq_some hgroup? hne hlength
  have hrun : runLength (a.survivingWords phrase) = (a.survivingWords phrase).length := by
    rw [h.survivingWords_eq, List.length_map]
    exact runLength_wordTokens _
  rw [List.length_map] at hlongest
  obtain ⟨alternatives, hsegments⟩ :=
    segments_eq_matched (fun hnil => hne (by rw [hnil]; rfl)) hrun hlongest
  exact ⟨_, alternatives, hsegments, hgroup?⟩

/-- The tokens of a plain term stand in one stretch. -/
theorem slotConsistent_analyze (h : a.IsPlainTerm group phrase) :
    SlotConsistent (a.analyze phrase) := by
  obtain ⟨typed, alternatives, hsegments, -⟩ := h.exists_segments_eq hd hgroup
  have hlaid := a.laidOut_analyze phrase
  rw [hsegments] at hlaid
  exact hlaid.slotConsistent

/-- The graph of a plain term accepts all terms of the group. -/
theorem accepts_termWords (h : a.IsPlainTerm group phrase) (hterm : term ∈ group) :
    (TokenGraph.ofTokens (a.analyze phrase) phrase).Accepts (Synonyms.termWords term) := by
  obtain ⟨typed, alternatives, hsegments, hgroup?⟩ := h.exists_segments_eq hd hgroup
  obtain ⟨m, out, hnormal⟩ := exists_normalForm (a.analyze phrase) phrase
  rw [(hnormal.gathers (h.slotConsistent_analyze hd hgroup)).accepts_iff,
    a.accepts_analyze_iff phrase]
  have hmem : Segment.matched typed alternatives ∈
      segments a.synonyms (a.survivingWords phrase) := by
    rw [hsegments]
    exact List.mem_cons_self
  have hread := readAcross_of_offers hd hmem (.matched hgroup? hterm)
  exact ⟨[Synonyms.termWords term], hsegments ▸ .cons hread .nil, by simp⟩

theorem findMatch_isSome {phrase' : String} (h : a.IsPlainTerm group phrase)
    (h' : a.IsPlainTerm group phrase') :
    (findMatch (TokenGraph.ofTokens (a.analyze phrase) phrase)
      (TokenGraph.ofTokens (a.analyze phrase') phrase') false ∅).isSome := by
  have hc := h.slotConsistent_analyze hd hgroup
  have hc' := h'.slotConsistent_analyze hd hgroup
  obtain ⟨m, out, hnormal⟩ := exists_normalForm (a.analyze phrase) phrase
  obtain ⟨m', out', hnormal'⟩ := exists_normalForm (a.analyze phrase') phrase'
  refine (findMatch_isSome_iff_meets (fun p => ?_) hnormal.children_ascend
    hnormal.roots_ascend hnormal'.children_ascend hnormal'.roots_ascend (hnormal'.gathers hc').acyclic).2 ?_
  · rw [variableAt?, Option.bind_eq_none_iff]
    exact fun _ _ => rfl
  · exact meets_of_accepts (h.accepts_termWords hd hgroup h.mem)
      (h'.accepts_termWords hd hgroup h.mem)

end IsPlainTerm

/-- Terms of one group match each other both ways. -/
theorem findMatch_terms (hd : Synonyms.ofGroups groups = .ok a.synonyms)
    (hgroup : group ∈ a.synonyms.groups) {phrase phrase' : String}
    (h : a.IsPlainTerm group phrase) (h' : a.IsPlainTerm group phrase') (language : String) :
    ∃ g g', TokenGraph.ofPhrase (.uniform a) phrase language = .ok g ∧
      TokenGraph.ofPhrase (.uniform a) phrase' language = .ok g' ∧
      (findMatch g g' false ∅).isSome ∧ (findMatch g' g false ∅).isSome :=
  ⟨_, _, rfl, rfl, h.findMatch_isSome hd hgroup h', h'.findMatch_isSome hd hgroup h⟩

end WordAnalyzer

namespace Example

/-- A city whose names begin with one another. -/
def newYork : WordAnalyzer := withGroups [["NY", "New York", "New York City"]]

/-- The longest name and the one that it begins with match each other. -/
theorem newYork_matches_city :
    Synonyms.ofGroups [["NY", "New York", "New York City"]] = .ok newYork.synonyms ∧
      ["ny", "new york", "new york city"] ∈ newYork.synonyms.groups ∧
      newYork.IsPlainTerm ["ny", "new york", "new york city"] "New  york" ∧
      newYork.IsPlainTerm ["ny", "new york", "new york city"] "New York City" ∧
      ∃ g g', TokenGraph.ofPhrase (.uniform newYork) "New  york" "en" = .ok g ∧
        TokenGraph.ofPhrase (.uniform newYork) "New York City" "en" = .ok g' ∧
        (findMatch g g' false ∅).isSome ∧ (findMatch g' g false ∅).isSome := by
  have hd : Synonyms.ofGroups [["NY", "New York", "New York City"]] = .ok newYork.synonyms :=
    ofGroups_eq_ok (by decide +kernel)
  have hgroup : ["ny", "new york", "new york city"] ∈ newYork.synonyms.groups := by
    rw [Synonyms.groups_ofGroups hd]
    decide +kernel
  have h : newYork.IsPlainTerm ["ny", "new york", "new york city"] "New  york" :=
    ⟨by decide +kernel, by decide +kernel, by decide +kernel⟩
  have h' : newYork.IsPlainTerm ["ny", "new york", "new york city"] "New York City" :=
    ⟨by decide +kernel, by decide +kernel, by decide +kernel⟩
  exact ⟨hd, hgroup, h, h', WordAnalyzer.findMatch_terms hd hgroup h h' "en"⟩

end Example

end PhraseGraph
