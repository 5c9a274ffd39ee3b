import PhraseGraph.Proofs.Matching.Accounting
import PhraseGraph.Proofs.StandIns
import PhraseGraph.Proofs.TokenPhrases

/-!
# The text of a phrase spells its words

A phrase of literal text is written one origin after the other, and an origin is made once, for one token
that the walk comes from. Where slots tell bytes it tells the same of every token that can come before
(`Tells.of_comesFrom`): all of them end at one byte, and if one of them is a synonym with the bytes of this
token, so are the others.

So what has been written up to some token is the text of pieces that are cut again as they are, whatever is
still to be written of the phrase as it was typed (`WordAnalyzer.Written`). A step passes over pieces of
which nothing is kept and writes those that stand in for the token, or it adds a blank and a word to a word
of letters. At the end the text is analyzed into the words of its tokens: `literalPhrases_spell_tokens`.
-/

namespace PhraseGraph

open Text Forest Provenance

namespace Provenance

variable {tokens : List Token} {phrase : String} {cs : List Char} {t u : Token}
  {before before' : Option Token} {k : Nat} {o : Origin}

/-- A synonym with the bytes of the synonym before it has a blank and its word. -/
theorem pieceText_of_alongside (h : t.Alongside u) : pieceText cs u (some t) = " " ++ u.text := by
  simp [pieceText, h.startOffset_eq, h.endOffset_eq, h.isSynonym_right]

/-- Nothing is passed over before a token with the bytes of the one before it. -/
theorem passedBefore_of_alongside (h : t.Alongside u) (hu : u.InText cs) :
    passedBefore cs t.endOffset u = "" := by
  rw [passedBefore, h.endOffset_eq, if_neg (Nat.not_lt.2 hu.start_lt_end.le)]

/-- What an origin tells is the same for every token that can come before. -/
theorem Tells.of_comesFrom (h : Tells tokens phrase k before o) (h' : ComesFrom tokens k before')
    (hin : InPhrase phrase.toList tokens) (htells : SlotsTellBytes tokens) (hk : k < tokens.length) :
    Tells tokens phrase k before' o := by
  have hdone := h.comesFrom.endOffset_eq h' htells
  refine ⟨h', hdone ▸ h.skippedPrefix_eq, h.text_eq.trans ?_, h.skippedSuffix_eq⟩
  have ht := (hin.inText _ (tokenAt_mem hk)).start_lt_end
  rcases h.comesFrom.endOffset_le_or hin hk with hle | ⟨p, rfl, hp⟩
  · rw [pieceText_eq (h.comesFrom.startOffset_ne hin hle),
      pieceText_eq (h'.startOffset_ne hin (hdone ▸ hle))]
  · rw [Option.map_some, Option.getD_some, hp.endOffset_eq] at hdone
    rcases h'.endOffset_le_or hin hk with hle | ⟨p', rfl, hp'⟩
    · omega
    · rw [pieceText_of_alongside hp, pieceText_of_alongside hp']

/-- A token that goes on is no last one, and nothing is passed over behind it. -/
theorem Tells.skippedSuffix_of_edge (h : Tells tokens phrase k before o)
    (hin : InPhrase phrase.toList tokens) (hk : k < tokens.length) {j : Nat}
    (hedge : (ofTokens tokens phrase).Edge k j) : o.skippedSuffix = "" := by
  have hgoes : (ofTokens tokens phrase).isEnd k = false := by
    by_contra hend
    rw [Bool.not_eq_false] at hend
    exact absurd (children_eq_nil_of_isEnd hk hend) (List.ne_nil_of_mem hedge)
  rw [h.skippedSuffix_eq_sliceOf hk (hin.inText _ (tokenAt_mem hk)).boundary_end.le_byteLength, hgoes,
    if_neg Bool.false_ne_true]

end Provenance

namespace WordAnalyzer

variable {a : WordAnalyzer} {phrase language : String} {groups : List (List String)}
  {A P Q : List (List Char)} {before : Option Token} {t u : Token} {k : Nat} {o : Origin}

/-! ### What has been written -/

/-- The pieces `Q` have been written up to the token `before`, and the pieces `A` of the phrase passed
    over. With what is left of the phrase they are cut again as they are. -/
structure Written (a : WordAnalyzer) (cs : List Char) (before : Option Token)
    (A P Q : List (List Char)) : Prop where
  wordPieces_eq : wordPieces cs = A ++ P
  byteLength_eq : byteLength A.flatten = (before.map (·.endOffset)).getD 0
  recuts : Recuts (Q ++ P)
  isJoiningWord : ∀ t ∈ before, t.isSynonym = true → ∃ w ∈ Q.getLast?, IsJoiningWord w

theorem written_nil {cs : List Char} : a.Written cs none [] (wordPieces cs) [] where
  wordPieces_eq := rfl
  byteLength_eq := rfl
  recuts := recuts_wordPieces
  isJoiningWord := fun _ ht => absurd ht (by simp)

namespace Written

variable {cs : List Char} (h : a.Written cs before A P Q)
include h

/-- A token behind the one before it is written by what stands in for it, and the pieces between them as
    they are. -/
theorem forward {A' M N R : List (List Char)} (hstands : a.Stands cs t A' M R N)
    (hle : (before.map (·.endOffset)).getD 0 ≤ t.startOffset) :
    ∃ G, A' = A ++ G ∧ a.Written cs (some t) (A' ++ M) R (Q ++ (G ++ N)) ∧
      passedBefore cs ((before.map (·.endOffset)).getD 0) t = String.ofList G.flatten := by
  have hpieces := h.wordPieces_eq.symm.trans hstands.wordPieces_eq
  have hne : ∀ p ∈ A ++ P, p ≠ [] := fun p hp =>
    ne_nil_of_mem_wordPieces p (h.wordPieces_eq ▸ hp : p ∈ wordPieces cs)
  rw [← h.byteLength_eq, ← hstands.startOffset_eq] at hle
  obtain ⟨G, rfl, rfl⟩ := exists_between hpieces hne hle
  refine ⟨G, rfl, ⟨?_, hstands.endOffset_eq, ?_, fun u hu hsynonym => ?_⟩, ?_⟩
  · rw [h.wordPieces_eq]
    simp
  · have hcut : Recuts ((Q ++ G) ++ (M ++ R)) := by simpa using h.recuts
    simpa using hstands.standIn.recuts hcut
  · obtain rfl := Option.some_inj.1 hu
    obtain ⟨w, hw, hword⟩ := hstands.standIn.isJoiningWord_of_isSynonym hsynonym
    refine ⟨w, ?_, hword⟩
    rw [List.getLast?_append, List.getLast?_append, Option.mem_def.1 hw]
    rfl
  · have hcs : cs = A.flatten ++ (G.flatten ++ (M ++ R).flatten) := by
      rw [← @flatten_wordPieces cs, h.wordPieces_eq, List.flatten_append, List.flatten_append]
    rw [← h.byteLength_eq, passedBefore_eq (hstands.startOffset_eq ▸ hle), ← hstands.startOffset_eq,
      List.flatten_append]
    conv_lhs => rw [hcs]
    exact sliceOf_eq

/-- A further word of a synonym is added behind a blank. -/
theorem alongside (hbefore : t ∈ before) (halong : t.Alongside u) (hword : a.IsTermWord u.text) :
    a.Written cs (some u) A P (Q ++ [[' '], u.text.toList]) := by
  obtain ⟨v, hv, hvword⟩ := h.isJoiningWord t hbefore halong.isSynonym_left
  obtain ⟨Q, rfl⟩ := List.getLast?_eq_some_iff.1 (Option.mem_def.1 hv)
  refine ⟨h.wordPieces_eq, ?_, ?_, fun u' hu' _ => ?_⟩
  · rw [h.byteLength_eq, Option.mem_def.1 hbefore]
    exact halong.endOffset_eq
  · have hcut : Recuts (Q ++ ([v] ++ P)) := by simpa using h.recuts
    have hjoining := hword.isJoiningWord
    have hreplaced := hcut.replace ⟨⟨v, rfl, hvword.isLetterWord⟩, ⟨v, rfl, hvword.isLetterWord⟩⟩
      (recuts_words hvword.isLetterWord hjoining) ⟨⟨v, rfl, hvword⟩, ⟨_, rfl, hjoining⟩⟩
    simpa using hreplaced
  · obtain rfl := Option.some_inj.1 hu'
    exact ⟨_, by simp, hword.isJoiningWord⟩

end Written

theorem kept_blank : a.kept [[' ']] = [] := by
  have hblank : isAlphanumeric ' ' = false := by decide +kernel
  simp [kept, hblank]

theorem kept_blank_cons {w : List Char} : a.kept [[' '], w] = a.kept [w] := by
  rw [← List.singleton_append, kept_append, kept_blank, List.nil_append]

section Along

variable (hd : Synonyms.ofGroups groups = .ok a.synonyms) (hterms : a.KeepsTerms)
  (htells : SlotsTellBytes (a.analyze phrase))
include hd hterms htells

/-- An origin is written as pieces of which the word of its token is kept. -/
theorem Written.step (h : a.Written phrase.toList before A P Q) (hk : k < (a.analyze phrase).length)
    (hfrom : ComesFrom (a.analyze phrase) k before) {before' : Option Token}
    (ho : Tells (a.analyze phrase) phrase k before' o) : ∃ A' P' N,
      a.Written phrase.toList (some (tokenAt (a.analyze phrase) k)) A' P' (Q ++ N) ∧
      a.kept N = [(tokenAt (a.analyze phrase) k).text] ∧
      o.skippedPrefix ++ o.text = String.ofList N.flatten := by
  have hin := a.inPhrase_analyze htells
  have htold := ho.of_comesFrom hfrom hin htells hk
  obtain ⟨A', M, R, N, hstands⟩ := exists_stands hd hterms (tokenAt_mem hk)
  rcases hfrom.endOffset_le_or hin hk with hle | ⟨p, hp, halong⟩
  · obtain ⟨G, rfl, hwritten, hpassed⟩ := h.forward hstands hle
    refine ⟨_, _, _, hwritten, ?_, ?_⟩
    · have hpieces : wordPieces phrase.toList = A ++ (G ++ (M ++ R)) := by
        rw [hstands.wordPieces_eq, List.append_assoc]
      rw [kept_append, hstands.standIn.kept_eq, kept_eq_nil_before hin hk hfrom hpieces
        h.byteLength_eq hstands.startOffset_eq, List.nil_append]
    · have hcs : phrase.toList = (A ++ G).flatten ++ (M.flatten ++ R.flatten) := by
        rw [← @flatten_wordPieces phrase.toList, hstands.wordPieces_eq, List.flatten_append,
          @List.flatten_append _ M]
      rw [htold.skippedPrefix_eq, htold.text_eq, hpassed, hstands.standIn.pieceText_eq hcs
        hstands.startOffset_eq hstands.endOffset_eq (hfrom.startOffset_ne hin hle),
        List.flatten_append, String.ofList_append]
  · have hword : a.IsTermWord (tokenAt (a.analyze phrase) k).text :=
      hstands.standIn.isTermWord halong.isSynonym_right
    refine ⟨_, _, _, h.alongside hp halong hword, ?_, ?_⟩
    · rw [kept_blank_cons, hword.kept_eq]
    · obtain rfl : before = some p := hp
      rw [htold.skippedPrefix_eq, htold.text_eq, pieceText_of_alongside halong, Option.map_some,
        Option.getD_some, passedBefore_of_alongside halong (hin.inText _ (tokenAt_mem hk))]
      simp

omit hd hterms in
/-- Behind a last token the rest of the phrase is written, and nothing is kept of it. -/
theorem Written.rest (h : a.Written phrase.toList (some (tokenAt (a.analyze phrase) k)) A P Q)
    (hk : k < (a.analyze phrase).length) (ho : Tells (a.analyze phrase) phrase k before o) :
    ∃ N, Recuts (Q ++ N) ∧ a.kept N = [] ∧ o.skippedSuffix = String.ofList N.flatten := by
  have hin := a.inPhrase_analyze htells
  have hend := (hin.inText _ (tokenAt_mem hk)).boundary_end.le_byteLength
  rw [ho.skippedSuffix_eq_sliceOf hk hend]
  split
  · next hisEnd =>
    refine ⟨P, h.recuts, kept_eq_nil_behind hin hk hisEnd h.wordPieces_eq h.byteLength_eq, ?_⟩
    have hcs : phrase.toList = A.flatten ++ (P.flatten ++ []) := by
      rw [List.append_nil, ← List.flatten_append, ← h.wordPieces_eq, flatten_wordPieces]
    have hlength : byteLength phrase.toList = byteLength (A.flatten ++ P.flatten) := by
      rw [hcs, List.append_nil]
    have hbytes : byteLength A.flatten = (tokenAt (a.analyze phrase) k).endOffset := h.byteLength_eq
    rw [hlength, ← hbytes, hcs]
    exact sliceOf_eq
  · exact ⟨[], by simpa using (recuts_append_iff.1 h.recuts).1, rfl, rfl⟩

/-- Along a path of origins pieces are written of which the words of the tokens are kept. -/
theorem Written.along {m : Merging} {out : List NodeId}
    (hn : NormalForm (a.analyze phrase) phrase m out) {ids path : List OriginId}
    (h : a.Written phrase.toList before A P Q)
    (hids : ∀ r ∈ ids, ∃ k < (a.analyze phrase).length, MadeFor (a.analyze phrase) phrase r k ∧
      ComesFrom (a.analyze phrase) k before)
    (hpath : (TokenGraph.ofTokens (a.analyze phrase) phrase).IsOriginPath ids path)
    (hne : path ≠ []) : ∃ N, Recuts (Q ++ N) ∧
      a.kept N = path.map (fun r =>
        (tokenAt (a.analyze phrase) (tokenOf (a.analyze phrase) phrase r)).text) ∧
      String.join (path.map fun r =>
        ((TokenGraph.ofTokens (a.analyze phrase) phrase).origin r).fullText) =
        String.ofList N.flatten := by
  induction path generalizing before A P Q ids with
  | nil => exact absurd rfl hne
  | cons r path ih =>
    obtain ⟨k, hk, hmade, hfrom⟩ := hids r hpath.1
    obtain ⟨before', ho⟩ := hn.exists_tells_origin hk hmade
    obtain ⟨A', P', N, hwritten, hkept, htext⟩ := h.step hd hterms htells hk hfrom ho
    obtain rfl : tokenOf (a.analyze phrase) phrase r = k := hmade.2
    cases path with
    | nil =>
      obtain ⟨N', hcut, hnone, hsuffix⟩ := hwritten.rest htells hk ho
      refine ⟨N ++ N', by simpa using hcut, by simp [hkept, hnone], ?_⟩
      rw [List.map_singleton, String.join_cons, String.join_nil, String.append_empty, Origin.fullText,
        htext, hsuffix, List.flatten_append, String.ofList_append]
    | cons r' path =>
      obtain ⟨j, hedge, -⟩ := (hn.mem_children_origin_iff hmade).1 hpath.2.1
      have hsuffix := ho.skippedSuffix_of_edge (a.inPhrase_analyze htells) hk hedge
      obtain ⟨N', hcut, hkept', htext'⟩ := ih hwritten (fun r'' hr'' => by
        obtain ⟨j, hedge, hmade'⟩ := (hn.mem_children_origin_iff hmade).1 hr''
        obtain ⟨-, hj, hanchor⟩ := Forest.edge_iff.1 hedge
        exact ⟨j, hj, hmade', .along hk hanchor⟩) hpath.2 (List.cons_ne_nil _ _)
      refine ⟨N ++ N', by simpa using hcut, by rw [kept_append, hkept, hkept']; rfl, ?_⟩
      rw [List.map_cons, String.join_cons, htext', Origin.fullText, htext, hsuffix,
        String.append_empty, List.flatten_append, String.ofList_append]

end Along

end WordAnalyzer

/-! ### The main statement -/

/-- The text of a phrase spells its words. Take a dictionary whose terms have words of letters that are no
    stop words, and a phrase whose slots tell bytes, and of which nothing is cut off. The phrases of literal
    text in its graph can be listed to the end, and the words that are kept of the text of each of them are
    its words. -/
theorem literalPhrases_spell_tokens {a : WordAnalyzer} {groups : List (List String)}
    {phrase language : String} (hd : Synonyms.ofGroups groups = .ok a.synonyms) (hterms : a.KeepsTerms)
    (htells : SlotsTellBytes (a.analyze phrase)) (hkept : ¬CutsOff (a.analyze phrase) phrase) :
    ∃ g listed, TokenGraph.ofPhrase (.uniform a) phrase language = .ok g ∧
      g.literalPhrases = .ofList listed ∧
      ∀ p ∈ listed, (a.survivingWords p.literal).map (·.text) = p.tokens := by
  obtain ⟨m, out, h⟩ := exists_normalForm (a.analyze phrase) phrase
  have hkeeps : KeepsOrigins (a.analyze phrase) phrase (.ofTokens (a.analyze phrase) phrase) :=
    h.keepsOrigins_iff.2 hkept
  have hfailure : (TokenGraph.ofTokens (a.analyze phrase) phrase).literalPhrases.failure = none :=
    TokenGraph.failure_literalPhrases fun r hr => (hkeeps r hr).node_lt
  refine ⟨.ofTokens (a.analyze phrase) phrase,
    (TokenGraph.ofTokens (a.analyze phrase) phrase).literalPhrases.items, rfl, ?_, fun p hp => ?_⟩
  · rw [Enumeration.ofList, ← hfailure]
  · obtain ⟨path, hpath, ⟨last, hlast, -⟩, rfl⟩ := (h.mem_items_literalPhrases_iff hkeeps).1 hp
    have hroots : ∀ r ∈ (TokenGraph.ofTokens (a.analyze phrase) phrase).originRoots,
        (TokenGraph.ofTokens (a.analyze phrase) phrase).OriginReached r := fun r hr => ⟨r, hr, .refl⟩
    obtain ⟨N, hcut, hwords, htext⟩ := WordAnalyzer.written_nil.along hd hterms htells h (fun r hr => by
      obtain ⟨hk, hmade⟩ := h.madeFor_tokenOf (hroots r hr)
      have hroot := (h.mem_originRoots_iff_mem_roots hmade hk).1 hr
      exact ⟨_, hk, hmade, .outside (Forest.mem_roots_iff.1 hroot).2⟩) hpath
      (List.ne_nil_of_mem (List.mem_of_getLast? hlast))
    have hcut : wordPieces N.flatten = N := hcut
    rw [WordAnalyzer.map_text_survivingWords, TokenGraph.literal_phraseAlong, htext,
      String.toList_ofList, hcut, hwords, TokenGraph.tokens_phraseAlong]
    exact (List.map_congr_left fun r hr =>
      hkeeps.text_origin (hpath.reached_of_mem hroots hr)).symm

namespace Example

/-- The city may be put by any of its names. -/
theorem visit_spells_tokens :
    Synonyms.ofGroups [["ny", "new york", "new york city"]] = .ok travels.synonyms ∧
      travels.KeepsTerms ∧ SlotsTellBytes (travels.analyze " Visit NY, in 2019!") ∧
      ¬CutsOff (travels.analyze " Visit NY, in 2019!") " Visit NY, in 2019!" ∧
      ∃ g listed, TokenGraph.ofPhrase (.uniform travels) " Visit NY, in 2019!" "en" = .ok g ∧
        g.literalPhrases = .ofList listed ∧
        ∀ p ∈ listed, (travels.survivingWords p.literal).map (·.text) = p.tokens := by
  have hd : Synonyms.ofGroups [["ny", "new york", "new york city"]] = .ok travels.synonyms :=
    ofGroups_eq_ok (by decide +kernel)
  have hterms : travels.KeepsTerms := by decide +kernel
  have htells : SlotsTellBytes (travels.analyze " Visit NY, in 2019!") := by decide +kernel
  have hkept : ¬CutsOff (travels.analyze " Visit NY, in 2019!") " Visit NY, in 2019!" := by
    decide +kernel
  exact ⟨hd, hterms, htells, hkept, literalPhrases_spell_tokens hd hterms htells hkept⟩

/-- Two names of two words share their inner slot. The walk comes to `apple` from the typed `new`, which
    has other bytes, so its origin has no blank before the word. -/
theorem big_apple_runs_together :
    Synonyms.ofGroups [["new york", "big apple"]] = .ok bigApple.synonyms ∧ bigApple.KeepsTerms ∧
      ¬CutsOff (bigApple.analyze "new york") "new york" ∧
      ∃ p ∈ (TokenGraph.ofTokens (bigApple.analyze "new york") "new york").literalPhrases.items,
        p.tokens = ["big", "apple"] ∧ p.literal = "bigapple" ∧
        (bigApple.survivingWords p.literal).map (·.text) = ["bigapple"] :=
  ⟨ofGroups_eq_ok (by decide +kernel), by decide +kernel, by decide +kernel, by decide +kernel⟩

end Example

end PhraseGraph
