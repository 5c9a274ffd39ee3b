import PhraseGraph.Proofs.KeptWords
import PhraseGraph.Proofs.LowerCase
import PhraseGraph.Proofs.Offsets
import PhraseGraph.Proofs.OriginTexts

/-!
# What stands in for a token

A token covers some pieces of the phrase, and other pieces may be written in their place. A typed word is
written as its piece is. A synonym is written as its word, and this can take the place of the pieces if the
terms of the dictionary are made of words of letters: then the pieces begin and end with such words, since
they are words of a term when they are put in lower case (`WordAnalyzer.exists_standIn`). In both cases what
is written is cut again as it is, and the word of the token is kept of it.

Of the pieces before a token nothing is kept, back to the bytes of the token that it follows
(`WordAnalyzer.kept_eq_nil_before`), and nothing is kept behind a last token.
-/

namespace PhraseGraph

open Text Forest Provenance

variable {a : WordAnalyzer} {phrase w : String} {groups : List (List String)} {t : Token}
  {A B G M N P R : List (List Char)} {p : List Char} {k : Nat} {before : Option Token}

namespace WordAnalyzer

/-! ### The words of terms -/

/-- The terms of the dictionary have words of letters that join, and none is a stop word. -/
def KeepsTerms (a : WordAnalyzer) : Prop :=
  ∀ group ∈ a.synonyms.groups, ∀ term ∈ group, ∀ w ∈ Synonyms.termWords term,
    w.toList.all isJoiningLetter = true ∧ a.stopWords.contains w = false

instance : Decidable a.KeepsTerms :=
  inferInstanceAs (Decidable (∀ group ∈ a.synonyms.groups, ∀ term ∈ group,
    ∀ w ∈ Synonyms.termWords term, _ ∧ _))

/-- The word is made of letters that join, and is kept as it is. -/
structure IsTermWord (a : WordAnalyzer) (w : String) : Prop where
  isJoiningWord : IsJoiningWord w.toList
  kept_eq : a.kept [w.toList] = [w]

theorem KeepsTerms.isTermWord (h : a.KeepsTerms) (hd : Synonyms.ofGroups groups = .ok a.synonyms)
    {group : List String} {term : String} (hgroup : group ∈ a.synonyms.groups) (hterm : term ∈ group)
    (hw : w ∈ Synonyms.termWords term) : a.IsTermWord w := by
  obtain ⟨hall, hstop⟩ := h group hgroup term hterm w hw
  have hletters : ∀ c ∈ w.toList, isJoiningLetter c = true := List.all_eq_true.1 hall
  obtain ⟨hne, -⟩ :=
    ((Synonyms.sound_ofGroups hd).isNormal group hgroup term hterm).of_mem_termWords hw
  obtain ⟨v, rfl⟩ := Synonyms.exists_lowercase_eq hd hgroup hterm hw
  obtain ⟨c, hc⟩ := List.exists_mem_of_ne_nil _ hne
  refine ⟨⟨hne, hletters⟩, kept_singleton_iff.2 ⟨List.any_eq_true.2 ⟨c, hc, ?_⟩, ?_, hstop⟩⟩
  · rw [isAlphanumeric, (of_isJoiningLetter (hletters c hc)).1, Bool.true_or]
  · rw [String.ofList_toList, lowercase_lowercase]

/-- A piece that is kept as the word is a word of letters too. -/
theorem IsTermWord.isLetterWord (h : a.IsTermWord w) (hkept : a.kept [p] = [w]) : IsLetterWord p := by
  refine isLetterWord_of_lowercase ?_
  rw [(kept_singleton_iff.1 hkept).2.1]
  exact h.isJoiningWord.isLetterWord

/-! ### Stand-ins -/

/-- The pieces `N` may be written for the token in the place of the pieces `M`. -/
inductive StandIn (a : WordAnalyzer) (t : Token) : (M N : List (List Char)) → Prop
  | typed {p : List Char} : t.isSynonym = false → a.kept [p] = [t.text] → StandIn a t [p] [p]
  | synonym {M : List (List Char)} : t.isSynonym = true → BoundedBy IsLetterWord M →
      a.IsTermWord t.text → StandIn a t M [t.text.toList]

namespace StandIn

variable (h : a.StandIn t M N)
include h

theorem kept_eq : a.kept N = [t.text] := by
  cases h with
  | typed _ hkept => exact hkept
  | synonym _ _ hword => exact hword.kept_eq

/-- The pieces around them are cut as before. -/
theorem recuts (hcut : Recuts (A ++ (M ++ R))) : Recuts (A ++ (N ++ R)) := by
  cases h with
  | typed => exact hcut
  | synonym _ hM hword =>
    have hjoining := hword.isJoiningWord
    exact hcut.replace hM hjoining.isLetterWord.recuts ⟨⟨_, rfl, hjoining⟩, ⟨_, rfl, hjoining⟩⟩

theorem isTermWord (hsynonym : t.isSynonym = true) : a.IsTermWord t.text := by
  cases h with
  | typed htyped => exact absurd (hsynonym.symm.trans htyped) (by simp)
  | synonym _ _ hword => exact hword

theorem isJoiningWord_of_isSynonym (hsynonym : t.isSynonym = true) :
    ∃ w ∈ N.getLast?, IsJoiningWord w := by
  cases h with
  | typed htyped => exact absurd (hsynonym.symm.trans htyped) (by simp)
  | synonym _ _ hword => exact ⟨_, rfl, hword.isJoiningWord⟩

/-- A token that begins where the one before it does not is written so. -/
theorem pieceText_eq {cs : List Char} (hcs : cs = A.flatten ++ (M.flatten ++ R.flatten))
    (hstart : byteLength A.flatten = t.startOffset)
    (hend : byteLength (A ++ M).flatten = t.endOffset)
    (hbefore : ∀ u ∈ before, u.startOffset ≠ t.startOffset) :
    pieceText cs t before = String.ofList N.flatten := by
  rw [Provenance.pieceText_eq hbefore]
  cases h with
  | typed htyped =>
    rw [htyped, if_neg Bool.false_ne_true, ← hstart, ← hend, List.flatten_append, hcs]
    exact sliceOf_eq
  | synonym hsynonym =>
    rw [hsynonym, if_pos rfl, List.flatten_singleton, String.ofList_toList]

end StandIn

/-- The pieces `M` have the bytes of the token, and those of `N` may be written in their place. -/
structure Stands (a : WordAnalyzer) (cs : List Char) (t : Token) (A M R N : List (List Char)) : Prop where
  wordPieces_eq : wordPieces cs = A ++ (M ++ R)
  startOffset_eq : byteLength A.flatten = t.startOffset
  endOffset_eq : byteLength (A ++ M).flatten = t.endOffset
  standIn : a.StandIn t M N

theorem KeepsPiece.stands {cs : List Char} {v : Token} (h : a.KeepsPiece cs v A p R)
    (hsynonym : t.isSynonym = false) (htext : t.text = v.text) (hstart : t.startOffset = v.startOffset)
    (hend : t.endOffset = v.endOffset) : a.Stands cs t A [p] R [p] :=
  ⟨h.wordPieces_eq, h.startOffset_eq.trans hstart.symm, h.endOffset_eq.trans hend.symm,
    .typed hsynonym (by rw [htext, h.kept_eq])⟩

/-- The pieces from one kept word to another one have the bytes of the synonyms for the words from one to
    the other, if both are words of terms. -/
theorem KeepsPiece.exists_stands {cs : List Char} {first last : Token} {A' B' : List (List Char)}
    {q : List Char} (h : a.KeepsPiece cs first A p B) (h' : a.KeepsPiece cs last A' q B')
    (hle : first.startOffset ≤ last.startOffset) (hfirst : a.IsTermWord first.text)
    (hlast : a.IsTermWord last.text) : ∃ M, ∀ t : Token, t.isSynonym = true → a.IsTermWord t.text →
      t.startOffset = first.startOffset → t.endOffset = last.endOffset →
      a.Stands cs t A M B' [t.text.toList] := by
  have hne : ∀ r ∈ A ++ p :: B, r ≠ [] := fun r hr =>
    ne_nil_of_mem_wordPieces r (h.wordPieces_eq ▸ hr : r ∈ wordPieces cs)
  obtain ⟨G, rfl, hbetween⟩ := exists_between (h.wordPieces_eq.symm.trans h'.wordPieces_eq) hne
    (by rw [h.startOffset_eq, h'.startOffset_eq]; exact hle)
  have hbegins : p ∈ (G ++ [q]).head? := by
    cases G <;> exact congrArg some (List.cons_eq_cons.1 hbetween).1.symm
  refine ⟨G ++ [q], fun t hsynonym htext hstart hend => ⟨?_, h.startOffset_eq.trans hstart.symm, ?_,
    .synonym hsynonym ⟨?_, ?_⟩ htext⟩⟩
  · rw [h'.wordPieces_eq]
    simp
  · rw [hend, ← h'.endOffset_eq, List.append_assoc]
  · exact ⟨p, hbegins, hfirst.isLetterWord h.kept_eq⟩
  · exact ⟨q, by simp, hlast.isLetterWord h'.kept_eq⟩

variable (hd : Synonyms.ofGroups groups = .ok a.synonyms) (hterms : a.KeepsTerms)
include hd hterms

/-- The words that are typed for a term are words of terms, and so are those of its synonyms. -/
theorem isTermWord_of_group? {typed : List Token} (hne : typed ≠ [])
    (htyped : ∀ t ∈ typed, Synonyms.BeginsBlank t.text) {group : List String}
    (hgroup : a.synonyms.group? (" ".intercalate (typed.map (·.text))) = some group) :
    (∀ t ∈ typed, a.IsTermWord t.text) ∧
      ∀ term ∈ group, ∀ w ∈ Synonyms.termWords term, a.IsTermWord w := by
  have hsound := Synonyms.sound_ofGroups hd
  obtain ⟨hmem, hterm⟩ := hsound.group?_eq_some_iff.1 hgroup
  have hwords : Synonyms.termWords (" ".intercalate (typed.map (·.text))) = typed.map (·.text) :=
    (hsound.isNormal group hmem _ hterm).termWords_eq (by simpa using hne) (List.forall_mem_map.2 htyped)
  refine ⟨fun t ht => hterms.isTermWord hd hmem hterm ?_, fun term hterm w hw =>
    hterms.isTermWord hd hmem hterm hw⟩
  rw [hwords]
  exact List.mem_map_of_mem ht

/-- Every token has something that stands in for it. -/
theorem exists_stands (ht : t ∈ a.analyze phrase) : ∃ A M R N, a.Stands phrase.toList t A M R N := by
  have hlaid := a.laidOut_analyze phrase
  obtain ⟨stretch, hstretch, ht⟩ := (hlaid.mem_iff t).1 ht
  obtain ⟨s, hs, shift, -, rfl⟩ := exists_of_mem_stretches hstretch
  have hcut : s.IsCut a.synonyms := isCut_of_mem_segments hs
  have htyped : s.typed.Sublist (a.survivingWords phrase) := by
    have hsub := Segment.typed_sublist hs
    rwa [flatMap_typed_segments] at hsub
  obtain ⟨row, hrow, j, u, hu, rfl⟩ := Stretch.mem_tokens_iff.1 ht
  have hu : u ∈ row := List.mem_of_getElem? hu
  rcases hcut.eq_typed_or hrow with rfl | ⟨group, term, hgroup, hterm, rfl⟩
  · obtain ⟨A, p, B, hkeeps⟩ := exists_keepsPiece (htyped.subset hu)
    have hword : u.isSynonym = false :=
      (a.inRow_survivingWords phrase).not_isSynonym u (htyped.subset hu)
    exact ⟨A, [p], B, [p], hkeeps.stands hword rfl rfl rfl⟩
  · obtain ⟨htypedWords, htermWords⟩ := isTermWord_of_group? hd hterms hcut.typed_ne_nil
      (fun t ht => beginsBlank_of_mem_survivingWords (htyped.subset ht)) hgroup
    obtain ⟨w, hw, rfl⟩ := List.mem_map.1 hu
    obtain ⟨A, p, B, hfirst⟩ := exists_keepsPiece (htyped.subset hcut.first_mem)
    obtain ⟨A', q, B', hlast⟩ := exists_keepsPiece (htyped.subset hcut.last_mem)
    have hle : s.first.startOffset ≤ s.last.startOffset :=
      ((a.inRow_survivingWords phrase).sublist htyped).startOffset_headD_le hcut.last_mem
    obtain ⟨M, hstands⟩ := hfirst.exists_stands hlast hle (htypedWords _ hcut.first_mem)
      (htypedWords _ hcut.last_mem)
    exact ⟨A, M, B', _, hstands _ rfl (htermWords term hterm w hw) rfl rfl⟩

omit hd hterms

/-! ### Nothing in between -/

/-- A word that is kept has a token with its bytes. -/
theorem exists_token_of_mem_survivingWords {v : Token} (hv : v ∈ a.survivingWords phrase) :
    ∃ t ∈ a.analyze phrase, t.startOffset = v.startOffset ∧ t.endOffset = v.endOffset := by
  rw [← @flatMap_typed_segments a.synonyms (a.survivingWords phrase)] at hv
  obtain ⟨s, hs, hv⟩ := List.mem_flatMap.1 hv
  obtain ⟨shift, hstretch⟩ : ∃ shift, s.stretch shift ∈ stretches 0 _ := exists_mem_stretches hs
  obtain ⟨j, hj, rfl⟩ := List.getElem_of_mem hv
  exact ⟨_, (a.laidOut_analyze phrase).inColumn_mem hstretch
    (isCut_of_mem_segments hs).typed_mem_rows (List.getElem?_eq_getElem hj), rfl, rfl⟩

variable (hin : InPhrase phrase.toList (a.analyze phrase))
include hin

/-- Between a token and the one that it follows nothing is kept. -/
theorem kept_eq_nil_before (hk : k < (a.analyze phrase).length)
    (hfrom : ComesFrom (a.analyze phrase) k before)
    (hpieces : wordPieces phrase.toList = A ++ (G ++ B))
    (hA : byteLength A.flatten = (before.map (·.endOffset)).getD 0)
    (hG : byteLength (A ++ G).flatten = (tokenAt (a.analyze phrase) k).startOffset) :
    a.kept G = [] := by
  refine kept_eq_nil hpieces fun v hv hstart hend => ?_
  obtain ⟨t, ht, htstart, htend⟩ := exists_token_of_mem_survivingWords hv
  rw [← htstart, hA] at hstart
  rw [← htend, hG] at hend
  -- A token with the bytes of the word would have its slots before the token that follows.
  have hslots := hin.endPosition_le t ht _ (tokenAt_mem hk) hend
  have hmem : t.endPosition ∈ endSlots (a.analyze phrase) := List.mem_map_of_mem ht
  cases hfrom with
  | outside hanchor => exact absurd hslots (Nat.not_le.2 (anchorAt_eq_none_iff.1 hanchor _ hmem))
  | along hp hanchor =>
    have hbehind := hin.endPosition_le _ (tokenAt_mem hp) t ht hstart
    have hlast : t.endPosition ≤ _ := (anchorAt_eq_some_iff.1 hanchor).2 _ hmem hslots
    have hlt : t.position < t.endPosition := by
      simp only [Token.endPosition, Token.span]
      omega
    exact absurd (hlt.trans_le (hlast.trans hbehind)) (Nat.lt_irrefl _)

/-- Behind a last token nothing is kept. -/
theorem kept_eq_nil_behind (hk : k < (a.analyze phrase).length)
    (hend : (ofTokens (a.analyze phrase) phrase).isEnd k = true)
    (hpieces : wordPieces phrase.toList = A ++ P)
    (hA : byteLength A.flatten = (tokenAt (a.analyze phrase) k).endOffset) : a.kept P = [] := by
  refine kept_eq_nil (B := []) (by rwa [List.append_nil]) fun v hv hstart _ => ?_
  obtain ⟨t, ht, htstart, -⟩ := exists_token_of_mem_survivingWords hv
  rw [← htstart, hA] at hstart
  have hbehind := hin.endPosition_le _ (tokenAt_mem hk) t ht hstart
  obtain ⟨j, hj, rfl⟩ := List.getElem_of_mem ht
  have hlast := (Forest.isEnd_iff hk).1 hend j hj
  rw [← tokenAt_eq_getElem hj] at hbehind
  have hlt : (tokenAt (a.analyze phrase) j).position < endAt (a.analyze phrase) j := position_lt_endAt
  exact absurd (hlt.trans_le (hlast.trans hbehind)) (Nat.lt_irrefl _)

end WordAnalyzer

end PhraseGraph
