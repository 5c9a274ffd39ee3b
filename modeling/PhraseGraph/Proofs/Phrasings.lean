import PhraseGraph.Proofs.Dictionary

/-!
# The phrasings that a graph encodes

A phrase stands for other ones: for each of its segments one may choose the word as it was typed, or the
words of any term of the group that was found (`Segment.Offers`). The forest of the phrase accepts every
such choice, each of its nodes is on a path from a root to an end, and the ends are the nodes that
nothing follows (`WordAnalyzer.accepts_choices`).

The other way round, the tokens of a stretch know each other by their slots only. Where two terms of a
group have more than one word, a path can begin with one of them and end with the other
(`Example.mixes_terms`). What the forest accepts is what can be read across the terms, and these are the
terms themselves where only one of them has more than one word (`WordAnalyzer.accepts_iff_readAcross`).
-/

namespace PhraseGraph

open Forest

theorem forall₂_imp_of_mem {α β : Type} {R S : α → β → Prop} {l : List α} {m : List β}
    (h : List.Forall₂ R l m) (himp : ∀ a ∈ l, ∀ b, R a b → S a b) : List.Forall₂ S l m := by
  induction h with
  | nil => exact .nil
  | cons hab _ ih =>
    obtain ⟨ha, hl⟩ := List.forall_mem_cons.1 himp
    exact .cons (ha _ hab) (ih hl)

namespace WordAnalyzer

variable {a : WordAnalyzer} {groups : List (List String)} {phrase : String} {s : Segment}
  {ws : List String}

/-- What may be chosen for a segment of a phrase are the words of its terms. -/
theorem offers_iff_mem_terms (hd : Synonyms.ofGroups groups = .ok a.synonyms)
    (hs : s ∈ segments a.synonyms (a.survivingWords phrase)) :
    s.Offers a.synonyms ws ↔ ws ∈ s.terms := by
  refine Segment.offers_iff (Synonyms.sound_ofGroups hd) (isCut_of_mem_segments hs) fun t ht => ?_
  have hmem : t ∈ (segments a.synonyms (a.survivingWords phrase)).flatMap Segment.typed :=
    List.mem_flatMap.2 ⟨s, hs, ht⟩
  rw [flatMap_typed_segments] at hmem
  exact beginsBlank_of_mem_survivingWords hmem

/-- What may be chosen for a segment can be read across its terms. -/
theorem readAcross_of_offers (hd : Synonyms.ofGroups groups = .ok a.synonyms)
    (hs : s ∈ segments a.synonyms (a.survivingWords phrase)) (h : s.Offers a.synonyms ws) :
    ReadAcross s.terms 0 ws := by
  have hmem := (offers_iff_mem_terms hd hs).1 h
  exact readAcross_of_mem hmem ((isCut_of_mem_segments hs).ne_nil_of_mem_terms hmem)

/-- Every choice of terms for the segments of a phrase is encoded in its forest, and nothing dangles:
    each node is on a path from a root to an end, and the ends are the nodes without children. -/
theorem accepts_choices (hd : Synonyms.ofGroups groups = .ok a.synonyms) (phrase : String) :
    (∀ parts, List.Forall₂ (Segment.Offers a.synonyms)
        (segments a.synonyms (a.survivingWords phrase)) parts →
      (ofTokens (a.analyze phrase) phrase).Accepts parts.flatten) ∧
    ∀ k < (ofTokens (a.analyze phrase) phrase).size,
      (∃ path, (ofTokens (a.analyze phrase) phrase).IsWhole
        (ofTokens (a.analyze phrase) phrase).roots path ∧ k ∈ path) ∧
      ((ofTokens (a.analyze phrase) phrase).isEnd k = true ↔
        (ofTokens (a.analyze phrase) phrase).children k = []) := by
  constructor
  · intro parts hparts
    have hread := forall₂_imp_of_mem hparts fun s hs ws hws => readAcross_of_offers hd hs hws
    exact (a.accepts_analyze_iff phrase).2 ⟨parts, hread, rfl⟩
  · intro k hk
    rw [size_ofTokens] at hk
    have hdangles := (a.laidOut_analyze phrase).noneDangles
    exact ⟨hdangles.exists_isWhole phrase hk, hdangles.isEnd_iff_children_eq_nil phrase hk⟩

/-- The forest of a phrase accepts what can be read across the terms of its segments, one after the
    other; and where no group that was found has two terms of more than one word, it accepts nothing but
    choices of whole terms. -/
theorem accepts_iff_readAcross (hd : Synonyms.ofGroups groups = .ok a.synonyms) (phrase : String) :
    (∀ ws, (ofTokens (a.analyze phrase) phrase).Accepts ws ↔
      ∃ parts, List.Forall₂ (fun (s : Segment) part => ReadAcross s.terms 0 part)
        (segments a.synonyms (a.survivingWords phrase)) parts ∧ parts.flatten = ws) ∧
    ((∀ s ∈ segments a.synonyms (a.survivingWords phrase), ∀ u v, s.Offers a.synonyms u →
        s.Offers a.synonyms v → 2 ≤ u.length → 2 ≤ v.length → u = v) →
      ∀ ws, (ofTokens (a.analyze phrase) phrase).Accepts ws → ∃ parts,
        List.Forall₂ (Segment.Offers a.synonyms)
          (segments a.synonyms (a.survivingWords phrase)) parts ∧ parts.flatten = ws) := by
  refine ⟨fun ws => a.accepts_analyze_iff phrase, fun hlong ws hws => ?_⟩
  obtain ⟨parts, hparts, rfl⟩ := (a.accepts_analyze_iff phrase).1 hws
  refine ⟨parts, forall₂_imp_of_mem hparts fun s hs part hpart => ?_, rfl⟩
  refine (offers_iff_mem_terms hd hs).2 (mem_of_readAcross (fun u hu v hv => ?_) hpart)
  exact hlong s hs u v ((offers_iff_mem_terms hd hs).2 hu) ((offers_iff_mem_terms hd hs).2 hv)

end WordAnalyzer

deriving instance DecidableEq for Segment

namespace Example

/-- The analyzer with the given groups of synonyms, if they can be put in a dictionary. -/
def withGroups (groups : List (List String)) : WordAnalyzer :=
  { synonyms := (Synonyms.ofGroups groups).toOption.getD .empty }

theorem ofGroups_eq_ok {groups : List (List String)} (h : (Synonyms.ofGroups groups).isOk = true) :
    Synonyms.ofGroups groups = .ok (withGroups groups).synonyms := by
  rw [withGroups]
  cases heq : Synonyms.ofGroups groups with
  | ok d => rfl
  | error e =>
    rw [heq] at h
    exact absurd h Bool.false_ne_true

/-- A city with two names of two words. -/
def bigApple : WordAnalyzer := withGroups [["new york", "big apple"]]

/-- A word, the city and a word. -/
theorem segments_bigApple : segments bigApple.synonyms (bigApple.survivingWords "In New York!") =
    [.single { text := "in", startOffset := 0, endOffset := 2, position := 0 },
      .matched [{ text := "new", startOffset := 3, endOffset := 6, position := 1 },
        { text := "york", startOffset := 7, endOffset := 11, position := 2 }] [["big", "apple"]]] := by
  decide +kernel

/-- The other name of the city may be chosen, so the forest accepts it, and none of its nodes
    dangles. -/
theorem accepts_big_apple :
    Synonyms.ofGroups [["new york", "big apple"]] = .ok bigApple.synonyms ∧
      (ofTokens (bigApple.analyze "In New York!") "In New York!").Accepts ["in", "big", "apple"] ∧
      ∀ k < (ofTokens (bigApple.analyze "In New York!") "In New York!").size,
        (∃ path, (ofTokens (bigApple.analyze "In New York!") "In New York!").IsWhole
          (ofTokens (bigApple.analyze "In New York!") "In New York!").roots path ∧ k ∈ path) ∧
        ((ofTokens (bigApple.analyze "In New York!") "In New York!").isEnd k = true ↔
          (ofTokens (bigApple.analyze "In New York!") "In New York!").children k = []) := by
  have hd : Synonyms.ofGroups [["new york", "big apple"]] = .ok bigApple.synonyms :=
    ofGroups_eq_ok (by decide +kernel)
  obtain ⟨haccepts, hdangles⟩ := WordAnalyzer.accepts_choices hd "In New York!"
  refine ⟨hd, haccepts [["in"], ["big", "apple"]] ?_, hdangles⟩
  have hgroup : bigApple.synonyms.group? "new york" = some ["new york", "big apple"] := by
    decide +kernel
  have hterm : Synonyms.termWords "big apple" = ["big", "apple"] := by decide +kernel
  rw [segments_bigApple]
  exact .cons (.single _) (.cons (hterm ▸ .matched hgroup (by decide)) .nil)

/-- A path begins with one name of the city and ends with the other one. -/
theorem mixes_terms :
    Synonyms.ofGroups [["new york", "big apple"]] = .ok bigApple.synonyms ∧
      (ofTokens (bigApple.analyze "In New York!") "In New York!").Accepts ["in", "new", "apple"] ∧
      ¬∃ parts, List.Forall₂ (Segment.Offers bigApple.synonyms)
        (segments bigApple.synonyms (bigApple.survivingWords "In New York!")) parts ∧
        parts.flatten = ["in", "new", "apple"] := by
  have hd : Synonyms.ofGroups [["new york", "big apple"]] = .ok bigApple.synonyms :=
    ofGroups_eq_ok (by decide +kernel)
  refine ⟨hd, ⟨[0, 1, 4], .inr ⟨⟨?_, ?_, ?_, trivial⟩, 4, rfl, ?_⟩, ?_⟩, ?_⟩
  any_goals decide +kernel
  rintro ⟨parts, hparts, hws⟩
  have hterms := forall₂_imp_of_mem hparts fun s hs ws hws =>
    (WordAnalyzer.offers_iff_mem_terms hd hs).1 hws
  rw [segments_bigApple] at hterms
  obtain ⟨u, _, hu, hrest, rfl⟩ := List.forall₂_cons_left_iff.1 hterms
  obtain ⟨v, _, hv, hnil, rfl⟩ := List.forall₂_cons_left_iff.1 hrest
  obtain rfl := List.forall₂_nil_left_iff.1 hnil
  obtain rfl := List.mem_singleton.1 hu
  rcases List.mem_pair.1 hv with rfl | rfl
  · exact absurd hws (by decide)
  · exact absurd hws (by decide)

/-- A city with a name of two words and one of a single word. -/
def nyc : WordAnalyzer := withGroups [["new york", "nyc"]]

theorem segments_nyc : segments nyc.synonyms (nyc.survivingWords "NYC") =
    [.matched [{ text := "nyc", startOffset := 0, endOffset := 3, position := 0 }]
      [["new", "york"]]] := by
  decide +kernel

/-- Only one of the names has more than one word, so every path is one of the names. -/
theorem only_names_of_nyc : Synonyms.ofGroups [["new york", "nyc"]] = .ok nyc.synonyms ∧
    ∀ ws, (ofTokens (nyc.analyze "NYC") "NYC").Accepts ws → ∃ parts,
      List.Forall₂ (Segment.Offers nyc.synonyms)
        (segments nyc.synonyms (nyc.survivingWords "NYC")) parts ∧ parts.flatten = ws := by
  have hd : Synonyms.ofGroups [["new york", "nyc"]] = .ok nyc.synonyms :=
    ofGroups_eq_ok (by decide +kernel)
  refine ⟨hd, (WordAnalyzer.accepts_iff_readAcross hd "NYC").2 fun s hs u v hu hv hlu hlv => ?_⟩
  rw [WordAnalyzer.offers_iff_mem_terms hd hs] at hu hv
  rw [segments_nyc, List.mem_singleton] at hs
  subst hs
  rcases List.mem_pair.1 hu with rfl | rfl
  · exact absurd hlu (by decide)
  · rcases List.mem_pair.1 hv with rfl | rfl
    · exact absurd hlv (by decide)
    · rfl

end Example

end PhraseGraph
