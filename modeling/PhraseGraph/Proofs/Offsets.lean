import PhraseGraph.Proofs.Dictionary
import PhraseGraph.Proofs.OriginTexts

/-!
# Bytes and slots

The tokens of a phrase cover bytes of the phrase besides their slots. The words as they were typed
cover bytes one after another, and each synonym covers all bytes of the words that it stands for
(`Stretch.StandsFor`). Of the stretches of a phrase one ends, in bytes, where the next one begins or
before.

Inside a stretch slots do not tell of bytes: a typed word and a word of a synonym can end in one slot
and at different bytes. Where they do tell (`SlotsTellBytes`), a token begins after the bytes of every
token that it can follow, or both are words of synonyms that cover the same bytes
(`InPhrase.follows`). The other way about, bytes always tell of slots (`InPhrase.endPosition_le`).
-/

namespace PhraseGraph

open Forest Provenance Text

/-! ### Words in a row -/

namespace InRow

variable {cs : List Char} {tokens row : List Token} {t : Token} {j : Nat}

theorem sublist (h : InRow cs tokens) (hrow : row.Sublist tokens) : InRow cs row where
  apart := h.apart.sublist hrow
  positionLength_eq t ht := h.positionLength_eq t (hrow.subset ht)
  not_isSynonym t ht := h.not_isSynonym t (hrow.subset ht)
  boundary_start t ht := h.boundary_start t (hrow.subset ht)
  boundary_end t ht := h.boundary_end t (hrow.subset ht)
  start_lt_end t ht := h.start_lt_end t (hrow.subset ht)

theorem startOffset_headD_le (h : InRow cs row) (ht : t ∈ row) :
    (row.headD default).startOffset ≤ t.startOffset := by
  cases row with
  | nil => exact absurd ht List.not_mem_nil
  | cons first row =>
    rcases List.mem_cons.1 ht with rfl | ht
    · exact Nat.le_refl _
    · have hle := ((List.pairwise_cons.1 h.apart).1 t ht).2
      exact (h.start_lt_end first List.mem_cons_self).le.trans hle

/-- Before the last word of a row a word has ended when the last one begins. -/
theorem endOffset_lt_getLastD (h : InRow cs row) (hj : j + 1 < row.length) :
    row[j].endOffset < (row.getLastD default).endOffset := by
  have hlast : row.length - 1 < row.length := by omega
  have happart := List.pairwise_iff_getElem.1 h.apart j (row.length - 1) (by omega) hlast (by omega)
  have hlt := h.start_lt_end _ (List.getElem_mem hlast)
  rw [List.getLastD_eq_getLast?, List.getLast?_eq_getElem?, List.getElem?_eq_getElem hlast,
    Option.getD_some]
  omega

theorem endOffset_le_getLastD (h : InRow cs row) (ht : t ∈ row) :
    t.endOffset ≤ (row.getLastD default).endOffset := by
  obtain ⟨j, hj, rfl⟩ := List.getElem_of_mem ht
  by_cases hlast : j + 1 < row.length
  · exact (h.endOffset_lt_getLastD hlast).le
  · obtain rfl : j = row.length - 1 := by omega
    rw [List.getLastD_eq_getLast?, List.getLast?_eq_getElem?, List.getElem?_eq_getElem hj,
      Option.getD_some]

end InRow

/-- The token covers bytes of the text, and as a synonym it does not begin with a blank. -/
structure Token.InText (cs : List Char) (t : Token) : Prop where
  boundary_start : Boundary cs t.startOffset
  boundary_end : Boundary cs t.endOffset
  start_lt_end : t.startOffset < t.endOffset
  not_blank : t.isSynonym = true → t.text.toList.head? ≠ some ' '

/-! ### Stretches -/

namespace Stretch

/-- One row has the words as they were typed. The tokens of the other rows are synonyms that stand for
    all of them. -/
structure StandsFor (cs : List Char) (typed : List Token) (s : Stretch) : Prop where
  inRow : InRow cs typed
  mem_rows : typed ∈ s.rows
  eq_or_synonyms : ∀ row ∈ s.rows, row = typed ∨ ∀ t ∈ row, t.isSynonym = true ∧
    t.text.toList.head? ≠ some ' ' ∧ t.startOffset = (typed.headD default).startOffset ∧
    t.endOffset = (typed.getLastD default).endOffset

variable {cs : List Char} {typed row row' : List Token} {s : Stretch} {t u : Token} {j : Nat}

theorem StandsFor.start_lt_end (h : s.StandsFor cs typed) (hs : s.Fits) :
    (typed.headD default).startOffset < (typed.getLastD default).endOffset := by
  obtain ⟨t, ht⟩ := List.exists_mem_of_ne_nil _ (hs.row_ne_nil typed h.mem_rows)
  calc (typed.headD default).startOffset ≤ t.startOffset := h.inRow.startOffset_headD_le ht
    _ < t.endOffset := h.inRow.start_lt_end t ht
    _ ≤ (typed.getLastD default).endOffset := h.inRow.endOffset_le_getLastD ht

/-- The tokens cover bytes from the first word to the last one. -/
theorem StandsFor.of_mem_tokens (h : s.StandsFor cs typed) (hs : s.Fits) (ht : t ∈ s.tokens) :
    t.InText cs ∧ (typed.headD default).startOffset ≤ t.startOffset ∧
      t.endOffset ≤ (typed.getLastD default).endOffset := by
  obtain ⟨row, hrow, j, u, hu, rfl⟩ := mem_tokens_iff.1 ht
  have hmem : u ∈ row := List.mem_of_getElem? hu
  have hne := hs.row_ne_nil typed h.mem_rows
  rcases h.eq_or_synonyms row hrow with rfl | hrow
  · have hfirst := h.inRow.startOffset_headD_le hmem
    have hlast := h.inRow.endOffset_le_getLastD hmem
    refine ⟨⟨h.inRow.boundary_start u hmem, h.inRow.boundary_end u hmem, h.inRow.start_lt_end u hmem,
      fun hsynonym => ?_⟩, hfirst, hlast⟩
    have hword : u.isSynonym = false := h.inRow.not_isSynonym u hmem
    exact absurd (hword.symm.trans hsynonym) Bool.false_ne_true
  · obtain ⟨-, hblank, hstart, hend⟩ := hrow u hmem
    have hlt := h.start_lt_end hs
    rw [← hstart, ← hend] at hlt
    refine ⟨⟨?_, ?_, hlt, fun _ => hblank⟩, hstart.symm.le, hend.le⟩
    · exact hstart ▸ h.inRow.boundary_start _ (headD_mem hne)
    · exact hend ▸ h.inRow.boundary_end _ (getLastD_mem hne)

/-- A token that covers the bytes behind those of another one has the slots behind it. -/
theorem StandsFor.endPosition_le_position (h : s.StandsFor cs typed) (hs : s.Fits)
    (ht : t ∈ s.tokens) (hu : u ∈ s.tokens) (hle : t.endOffset ≤ u.startOffset) :
    t.endPosition ≤ u.position := by
  have htbytes := h.of_mem_tokens hs ht
  have hubytes := h.of_mem_tokens hs hu
  have htlt := htbytes.1.start_lt_end
  have hult := hubytes.1.start_lt_end
  obtain ⟨row, hrow, i, v, hv, rfl⟩ := mem_tokens_iff.1 ht
  obtain ⟨row', hrow', j, w, hw, rfl⟩ := mem_tokens_iff.1 hu
  obtain ⟨hi, rfl⟩ := List.getElem?_eq_some_iff.1 hv
  obtain ⟨hj, rfl⟩ := List.getElem?_eq_some_iff.1 hw
  simp only [Token.inColumn] at hle htlt hult htbytes hubytes
  -- A synonym covers all bytes of the stretch, so both are typed words.
  rcases h.eq_or_synonyms row hrow with rfl | hsynonyms
  · rcases h.eq_or_synonyms row' hrow' with rfl | hsynonyms'
    · have hij : i < j := by
        by_contra hji
        rcases Nat.eq_or_lt_of_le (Nat.not_lt.1 hji) with rfl | hji
        · omega
        · have := (List.pairwise_iff_getElem.1 h.inRow.apart j i hj hi hji).2
          omega
      rw [hs.endPosition_inColumn hrow, if_neg (by omega)]
      exact Nat.add_le_add_left hij _
    · have := (hsynonyms' _ (List.getElem_mem hj)).2.2.1
      omega
  · have := (hsynonyms _ (List.getElem_mem hi)).2.2.2
    omega

end Stretch

/-! ### Tokens in stretches -/

/-- Tokens that end in one slot end at one byte. -/
def SlotsTellBytes (tokens : List Token) : Prop :=
  ∀ t ∈ tokens, ∀ u ∈ tokens, t.endPosition = u.endPosition → t.endOffset = u.endOffset

instance {tokens : List Token} : Decidable (SlotsTellBytes tokens) :=
  inferInstanceAs (Decidable (∀ t ∈ tokens, ∀ u ∈ tokens, _ → _))

/-- The tokens are synonyms that cover the same bytes. -/
structure Token.Alongside (t u : Token) : Prop where
  startOffset_eq : t.startOffset = u.startOffset
  endOffset_eq : t.endOffset = u.endOffset
  isSynonym_left : t.isSynonym = true
  isSynonym_right : u.isSynonym = true

/-- The tokens cover bytes of the text. A token that can follow another one covers bytes behind it, or
    both are synonyms with the same bytes; what is behind in bytes is behind in slots; and nothing
    dangles. -/
structure InPhrase (cs : List Char) (tokens : List Token) : Prop where
  inText : ∀ t ∈ tokens, t.InText cs
  noneDangles : NoneDangles tokens
  follows : ∀ t ∈ tokens, ∀ u ∈ tokens, anchor? (endSlots tokens) u.position = some t.endPosition →
    t.endOffset ≤ u.startOffset ∨ t.Alongside u
  endPosition_le : ∀ t ∈ tokens, ∀ u ∈ tokens, t.endOffset ≤ u.startOffset →
    t.endPosition ≤ u.position

namespace Provenance.ComesFrom

variable {cs : List Char} {tokens : List Token} {before before' : Option Token} {k : Nat}

/-- All tokens that one token can follow end at one byte. -/
theorem endOffset_eq (h : ComesFrom tokens k before) (h' : ComesFrom tokens k before')
    (htells : SlotsTellBytes tokens) :
    (before.map (·.endOffset)).getD 0 = (before'.map (·.endOffset)).getD 0 := by
  cases h with
  | outside hanchor =>
    cases h' with
    | outside => rfl
    | along _ hanchor' => exact absurd (hanchor.symm.trans hanchor') (by simp)
  | along hp hanchor =>
    cases h' with
    | outside hanchor' => exact absurd (hanchor'.symm.trans hanchor) (by simp)
    | along hp' hanchor' =>
      exact htells _ (tokenAt_mem hp) _ (tokenAt_mem hp')
        (Option.some_inj.1 (hanchor.symm.trans hanchor'))

/-- The token that the walk comes from ends before this one begins, or both are synonyms with the same
    bytes. -/
theorem endOffset_le_or (h : ComesFrom tokens k before) (hin : InPhrase cs tokens)
    (hk : k < tokens.length) :
    (before.map (·.endOffset)).getD 0 ≤ (tokenAt tokens k).startOffset ∨
      ∃ p ∈ before, p.Alongside (tokenAt tokens k) := by
  cases h with
  | outside => exact .inl (Nat.zero_le _)
  | along hp hanchor =>
    exact (hin.follows _ (tokenAt_mem hp) _ (tokenAt_mem hk) hanchor).imp_right fun h => ⟨_, rfl, h⟩

theorem startOffset_ne (h : ComesFrom tokens k before) (hin : InPhrase cs tokens)
    (hle : (before.map (·.endOffset)).getD 0 ≤ (tokenAt tokens k).startOffset) :
    ∀ p ∈ before, p.startOffset ≠ (tokenAt tokens k).startOffset := by
  cases h with
  | outside => exact fun p hp => absurd hp (by simp)
  | along hp =>
    rintro _ ⟨⟩
    exact ((hin.inText _ (tokenAt_mem hp)).start_lt_end.trans_le hle).ne

end Provenance.ComesFrom

/-- The bytes of one stretch end before those of the other one. -/
def Stretch.Before (s s' : Stretch) : Prop :=
  ∀ t ∈ s.tokens, ∀ u ∈ s'.tokens, t.endOffset ≤ u.startOffset

namespace LaidOut

variable {cs : List Char} {ss : List Stretch} {tokens typed row : List Token} {s s' : Stretch}
  {t u : Token} {j : Nat}

/-- What begins inside a stretch follows a token of it; slots that tell bytes keep the words of
    synonyms and the typed words apart. -/
theorem follows_inner (h : LaidOut ss tokens) (hs : s ∈ ss) (hstands : s.StandsFor cs typed)
    (htells : SlotsTellBytes tokens) (hrow : row ∈ s.rows) (hu : row[j + 1]? = some u)
    (ht : t ∈ s.tokens) (hend : t.endPosition = s.start + (j + 1)) :
    t.endOffset ≤ u.startOffset ∨ t.Alongside u := by
  have hfits := h.fits s hs
  obtain ⟨hj, rfl⟩ := List.getElem?_eq_some_iff.1 hu
  have hwidth := hfits.length_le row hrow
  -- The word before it in its own row ends in the same slot.
  have hbytes : t.endOffset = (row[j].inColumn s.start s.width row.length j).endOffset := by
    refine htells t ((h.mem_iff t).2 ⟨s, hs, ht⟩) _
      (h.inColumn_mem hs hrow (List.getElem?_eq_getElem (by omega))) ?_
    rw [hend, hfits.endPosition_inColumn hrow, if_neg (by omega)]
  replace hbytes : t.endOffset = row[j].endOffset := hbytes
  rcases hstands.eq_or_synonyms row hrow with rfl | hsynonyms
  · have happart := List.pairwise_iff_getElem.1 hstands.inRow.apart j (j + 1) (by omega) hj
      (Nat.lt_succ_self j)
    exact .inl (hbytes.trans_le happart.2)
  · obtain ⟨hsynonym, -, hstart, hlast⟩ := hsynonyms _ (List.getElem_mem hj)
    obtain ⟨-, -, -, hlast'⟩ := hsynonyms row[j] (List.getElem_mem (by omega))
    obtain ⟨row', hrow', i, v, hv, rfl⟩ := Stretch.mem_tokens_iff.1 ht
    obtain ⟨hi, rfl⟩ := List.getElem?_eq_some_iff.1 hv
    rw [hfits.endPosition_inColumn hrow', Stretch.stop] at hend
    have hinner : i + 1 < row'.length := by
      by_contra hlast
      rw [if_pos (by omega)] at hend
      omega
    rcases hstands.eq_or_synonyms row' hrow' with rfl | hsynonyms'
    · -- A typed word that ends inside the stretch ends before its last byte.
      have hlt : row'[i].endOffset < _ := hstands.inRow.endOffset_lt_getLastD hinner
      have hbytes : row'[i].endOffset = row[j].endOffset := hbytes
      omega
    · obtain ⟨hsynonym', -, hstart', hlast''⟩ := hsynonyms' row'[i] (List.getElem_mem hi)
      exact .inr ⟨hstart'.trans hstart.symm, hlast''.trans hlast.symm, hsynonym', hsynonym⟩

/-- Of two stretches the one with the earlier slots has the earlier bytes. -/
theorem before_of_stop_le (h : LaidOut ss tokens) (hbefore : ss.Pairwise Stretch.Before) (hs : s ∈ ss)
    (hs' : s' ∈ ss) (hle : s.stop ≤ s'.start) : s.Before s' := by
  have hwidth := (h.fits s hs).width_pos
  have hwidth' := (h.fits s' hs').width_pos
  rw [Stretch.stop] at hle
  rcases eq_or_of_pairwise (hbefore.and h.apart) hs hs' with rfl | ⟨hearlier, -⟩ | ⟨-, hle'⟩
  · omega
  · exact hearlier
  · rw [Stretch.stop] at hle'
    omega

/-- What ends where a stretch begins, or earlier, has earlier bytes. -/
theorem endOffset_le_startOffset (h : LaidOut ss tokens) (hbefore : ss.Pairwise Stretch.Before)
    (hs : s ∈ ss) (ht : t ∈ tokens) (hu : u ∈ s.tokens) (hle : t.endPosition ≤ s.start) :
    t.endOffset ≤ u.startOffset := by
  obtain ⟨s', hs', ht⟩ := (h.mem_iff t).1 ht
  have hbounds := (h.fits s' hs').bounds ht
  have hwidth := (h.fits s hs).width_pos
  have happart := h.eq_or_apart hs hs'
  simp only [Stretch.stop] at hbounds happart
  have hstop : s'.stop ≤ s.start := by
    rcases happart with rfl | happart | happart
    · omega
    · omega
    · exact happart
  exact h.before_of_stop_le hbefore hs' hs hstop t ht u hu

/-- What ends inside a stretch is one of its tokens. -/
theorem mem_tokens_of_endPosition (h : LaidOut ss tokens) (hs : s ∈ ss) (ht : t ∈ tokens)
    (hlt : s.start < t.endPosition) (hle : t.endPosition ≤ s.stop) : t ∈ s.tokens := by
  obtain ⟨s', hs', ht⟩ := (h.mem_iff t).1 ht
  have hbounds := (h.fits s' hs').bounds ht
  rcases h.eq_or_apart hs hs' with rfl | happart | happart
  · exact ht
  · omega
  · omega

/-- Tokens with earlier bytes have earlier slots. -/
theorem endPosition_le_position (h : LaidOut ss tokens)
    (hstands : ∀ s ∈ ss, ∃ typed, s.StandsFor cs typed) (hbefore : ss.Pairwise Stretch.Before)
    (ht : t ∈ tokens) (hu : u ∈ tokens) (hle : t.endOffset ≤ u.startOffset) :
    t.endPosition ≤ u.position := by
  obtain ⟨s, hs, ht⟩ := (h.mem_iff t).1 ht
  obtain ⟨s', hs', hu⟩ := (h.mem_iff u).1 hu
  obtain ⟨typed, htyped⟩ := hstands s hs
  obtain ⟨typed', htyped'⟩ := hstands s' hs'
  rcases h.eq_or_apart hs hs' with rfl | happart | happart
  · exact htyped.endPosition_le_position (h.fits s hs) ht hu hle
  · calc t.endPosition ≤ s.stop := ((h.fits s hs).bounds ht).2.2
      _ ≤ s'.start := happart
      _ ≤ u.position := ((h.fits s' hs').bounds hu).1
  · have hback := h.before_of_stop_le hbefore hs' hs happart u hu t ht
    have htlt := (htyped.of_mem_tokens (h.fits s hs) ht).1.start_lt_end
    have hult := (htyped'.of_mem_tokens (h.fits s' hs') hu).1.start_lt_end
    omega

theorem inPhrase (h : LaidOut ss tokens) (hstands : ∀ s ∈ ss, ∃ typed, s.StandsFor cs typed)
    (hbefore : ss.Pairwise Stretch.Before) (htells : SlotsTellBytes tokens) : InPhrase cs tokens where
  inText t ht := by
    obtain ⟨s, hs, ht⟩ := (h.mem_iff t).1 ht
    obtain ⟨typed, htyped⟩ := hstands s hs
    exact (htyped.of_mem_tokens (h.fits s hs) ht).1
  noneDangles := h.noneDangles
  endPosition_le t ht u hu := h.endPosition_le_position hstands hbefore ht hu
  follows t ht u hu hanchor := by
    obtain ⟨s, hs, hu⟩ := (h.mem_iff u).1 hu
    obtain ⟨row, hrow, j, v, hv, rfl⟩ := Stretch.mem_tokens_iff.1 hu
    obtain ⟨hj, -⟩ := List.getElem?_eq_some_iff.1 hv
    cases j with
    | zero =>
      have hle : t.endPosition ≤ s.start := (anchor?_eq_some_iff.1 hanchor).1.2
      exact .inl (h.endOffset_le_startOffset hbefore hs ht hu hle)
    | succ j =>
      have hend : t.endPosition = s.start + (j + 1) :=
        (Option.some_inj.1 ((h.anchor?_inner hs hrow hj).symm.trans hanchor)).symm
      have hlength := (h.fits s hs).length_le row hrow
      have hmem : t ∈ s.tokens :=
        h.mem_tokens_of_endPosition hs ht (by omega) (by rw [Stretch.stop]; omega)
      obtain ⟨typed, htyped⟩ := hstands s hs
      refine (h.follows_inner hs htyped htells hrow hv hmem hend).imp_right fun h => ?_
      exact ⟨h.startOffset_eq, h.endOffset_eq, h.isSynonym_left, h.isSynonym_right⟩

end LaidOut

/-! ### The tokens of a phrase -/

variable {cs : List Char} {d : Synonyms} {s : Segment} {segs : List Segment} {shift : Nat}

/-- The words that are cut, and the synonyms that stand for them. -/
theorem Segment.IsCut.standsFor (h : s.IsCut d) (hrow : InRow cs s.typed) :
    (s.stretch shift).StandsFor cs s.typed where
  inRow := hrow
  mem_rows := h.typed_mem_rows
  eq_or_synonyms row hmem := by
    refine (h.eq_typed_or hmem).imp_right ?_
    rintro ⟨group, term, -, -, rfl⟩ t ht
    obtain ⟨w, hw, rfl⟩ := List.mem_map.1 ht
    refine ⟨rfl, fun hblank => ?_, rfl, rfl⟩
    exact Synonyms.blank_not_mem_of_mem_termWords hw (List.mem_of_mem_head? hblank)

theorem Segment.typed_sublist (hs : s ∈ segs) : s.typed.Sublist (segs.flatMap Segment.typed) :=
  List.sublist_flatten_of_mem (List.mem_map_of_mem hs)

theorem before_stretches (hcut : ∀ s ∈ segs, s.IsCut d) (hrow : InRow cs (segs.flatMap Segment.typed)) :
    (stretches shift segs).Pairwise Stretch.Before := by
  induction segs generalizing shift with
  | nil => exact .nil
  | cons s segs ih =>
    obtain ⟨hs, hcut⟩ := List.forall_mem_cons.1 hcut
    rw [List.flatMap_cons] at hrow
    have hrest := hrow.sublist (List.sublist_append_right _ _)
    refine List.pairwise_cons.2 ⟨fun q hq t ht u hu => ?_, ih hcut hrest⟩
    obtain ⟨s', hs', shift', -, rfl⟩ := exists_of_mem_stretches hq
    have hrow' := hrest.sublist (Segment.typed_sublist hs')
    have hstands : (s.stretch shift).StandsFor cs s.typed :=
      hs.standsFor (hrow.sublist (List.sublist_append_left _ _))
    have hstands' : (s'.stretch shift').StandsFor cs s'.typed := (hcut s' hs').standsFor hrow'
    calc t.endOffset ≤ s.last.endOffset := (hstands.of_mem_tokens hs.fits ht).2.2
      _ ≤ s'.first.startOffset := ((List.pairwise_append.1 hrow.apart).2.2 _ hs.last_mem _
          (List.mem_flatMap.2 ⟨s', hs', (hcut s' hs').first_mem⟩)).2
      _ ≤ u.startOffset := (hstands'.of_mem_tokens (hcut s' hs').fits hu).2.1

/-- Where slots tell bytes, the tokens of a phrase cover its bytes in the order of their slots. -/
theorem WordAnalyzer.inPhrase_analyze {a : WordAnalyzer} {phrase : String}
    (htells : SlotsTellBytes (a.analyze phrase)) : InPhrase phrase.toList (a.analyze phrase) := by
  have hcut : ∀ s ∈ segments a.synonyms (a.survivingWords phrase), s.IsCut a.synonyms :=
    fun s hs => isCut_of_mem_segments hs
  have hrow := a.inRow_survivingWords phrase
  rw [← @flatMap_typed_segments a.synonyms (a.survivingWords phrase)] at hrow
  refine (a.laidOut_analyze phrase).inPhrase (fun p hp => ?_) (before_stretches hcut hrow) htells
  obtain ⟨s, hs, shift, -, rfl⟩ := exists_of_mem_stretches hp
  exact ⟨s.typed, (hcut s hs).standsFor (hrow.sublist (Segment.typed_sublist hs))⟩

end PhraseGraph
