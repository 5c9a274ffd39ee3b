import PhraseGraph.Analyzer
import PhraseGraph.Proofs.Slices
import PhraseGraph.Proofs.Sorting

/-!
# Words in a row

The words of a text stand in a row: each begins where the one before has ended or later, in bytes and
in slots (`InRow`). This stays so when stop words are left out. A term of a group of synonyms puts at
least one token in, so where no synonym is put in the tokens of a text are its words as they are
(`WordAnalyzer.analyzePieces_eq_survivorsOf`).

All this does not depend on where words begin and end. The words are found among the pieces that a text is
cut into, and the pieces may be any that make up the text.
-/

namespace PhraseGraph

open Text

/-- Tokens one after another in the text, each of one slot, none of them a synonym. -/
structure InRow (cs : List Char) (tokens : List Token) : Prop where
  apart : tokens.Pairwise fun t u => t.position < u.position ∧ t.endOffset ≤ u.startOffset
  positionLength_eq : ∀ t ∈ tokens, t.positionLength = 1
  not_isSynonym : ∀ t ∈ tokens, t.isSynonym = false
  boundary_start : ∀ t ∈ tokens, Boundary cs t.startOffset
  boundary_end : ∀ t ∈ tokens, Boundary cs t.endOffset
  start_lt_end : ∀ t ∈ tokens, t.startOffset < t.endOffset

namespace InRow

variable {cs : List Char} {tokens : List Token}

theorem filter (h : InRow cs tokens) (p : Token → Bool) : InRow cs (tokens.filter p) where
  apart := h.apart.filter p
  positionLength_eq t ht := h.positionLength_eq t (List.mem_filter.1 ht).1
  not_isSynonym t ht := h.not_isSynonym t (List.mem_filter.1 ht).1
  boundary_start t ht := h.boundary_start t (List.mem_filter.1 ht).1
  boundary_end t ht := h.boundary_end t (List.mem_filter.1 ht).1
  start_lt_end t ht := h.start_lt_end t (List.mem_filter.1 ht).1

/-- Other texts in the place of the words change nothing. -/
theorem map_text (h : InRow cs tokens) (f : Token → String) :
    InRow cs (tokens.map fun t => { t with text := f t }) where
  apart := List.pairwise_map.2 h.apart
  positionLength_eq := List.forall_mem_map.2 h.positionLength_eq
  not_isSynonym := List.forall_mem_map.2 h.not_isSynonym
  boundary_start := List.forall_mem_map.2 h.boundary_start
  boundary_end := List.forall_mem_map.2 h.boundary_end
  start_lt_end := List.forall_mem_map.2 h.start_lt_end

end InRow

/-! ### The words of a text -/

/-- Pieces of a text one after another, each with the byte where it begins. -/
structure PiecesInRow (cs : List Char) (placed : List (Nat × List Char)) : Prop where
  apart : placed.Pairwise fun p q => p.1 + byteLength p.2 ≤ q.1
  boundary_start : ∀ p ∈ placed, Boundary cs p.1
  boundary_end : ∀ p ∈ placed, Boundary cs (p.1 + byteLength p.2)

theorem PiecesInRow.filter {cs : List Char} {placed : List (Nat × List Char)} (h : PiecesInRow cs placed)
    (keep : Nat × List Char → Bool) : PiecesInRow cs (placed.filter keep) where
  apart := h.apart.filter keep
  boundary_start p hp := h.boundary_start p (List.mem_filter.1 hp).1
  boundary_end p hp := h.boundary_end p (List.mem_filter.1 hp).1

theorem piecesInRow_withOffsets {before : List Char} {pieces : List (List Char)} :
    PiecesInRow (before ++ pieces.flatten) (withOffsets (byteLength before) pieces) ∧
      ∀ p ∈ withOffsets (byteLength before) pieces, byteLength before ≤ p.1 := by
  induction pieces generalizing before with
  | nil => exact ⟨⟨.nil, by simp [withOffsets], by simp [withOffsets]⟩, by simp [withOffsets]⟩
  | cons piece pieces ih =>
    have hstart : Boundary (before ++ (piece :: pieces).flatten) (byteLength before) :=
      ⟨before, List.prefix_append _ _, rfl⟩
    have hend : Boundary (before ++ (piece :: pieces).flatten)
        (byteLength before + byteLength piece) :=
      ⟨before ++ piece, by simp, byteLength_append⟩
    obtain ⟨hrest, hle⟩ := @ih (before ++ piece)
    rw [byteLength_append, List.append_assoc, ← List.flatten_cons] at hrest
    rw [byteLength_append] at hle
    rw [withOffsets]
    refine ⟨⟨?_, ?_, ?_⟩, ?_⟩
    · exact List.pairwise_cons.2 ⟨hle, hrest.apart⟩
    · exact List.forall_mem_cons.2 ⟨hstart, hrest.boundary_start⟩
    · exact List.forall_mem_cons.2 ⟨hend, hrest.boundary_end⟩
    · refine List.forall_mem_cons.2 ⟨Nat.le_refl _, fun p hp => ?_⟩
      have := hle p hp
      omega

theorem of_mem_wordTokens {placed : List (Nat × List Char)} {position : Nat} {t : Token}
    (ht : t ∈ wordTokens position placed) :
    position ≤ t.position ∧ t.positionLength = 1 ∧ t.isSynonym = false ∧
      ∃ p ∈ placed, t.startOffset = p.1 ∧ t.endOffset = p.1 + byteLength p.2 := by
  induction placed generalizing position with
  | nil => exact absurd ht List.not_mem_nil
  | cons p placed ih =>
    rcases List.mem_cons.1 ht with rfl | ht
    · refine ⟨Nat.le_refl _, rfl, ?_, p, List.mem_cons_self, rfl, rfl⟩
      by_cases hnumber : p.2.all isNumeric <;> simp [Token.isSynonym, wordKind, hnumber]
    · obtain ⟨hposition, hlength, hsynonym, q, hq, hoffsets⟩ := ih ht
      exact ⟨by omega, hlength, hsynonym, q, List.mem_cons_of_mem _ hq, hoffsets⟩

theorem inRow_wordTokens {cs : List Char} {placed : List (Nat × List Char)} {position : Nat}
    (h : PiecesInRow cs placed) (hne : ∀ p ∈ placed, p.2 ≠ []) :
    InRow cs (wordTokens position placed) where
  apart := by
    have happart := h.apart
    clear h hne
    induction placed generalizing position with
    | nil => exact .nil
    | cons p placed ih =>
      obtain ⟨hp, happart⟩ := List.pairwise_cons.1 happart
      refine List.pairwise_cons.2 ⟨fun t ht => ?_, ih happart⟩
      obtain ⟨hposition, -, -, q, hq, hstart, -⟩ := of_mem_wordTokens ht
      exact ⟨hposition, (hp q hq).trans_eq hstart.symm⟩
  positionLength_eq t ht := (of_mem_wordTokens ht).2.1
  not_isSynonym t ht := (of_mem_wordTokens ht).2.2.1
  boundary_start t ht := by
    obtain ⟨-, -, -, p, hp, hstart, -⟩ := of_mem_wordTokens ht
    exact hstart ▸ h.boundary_start p hp
  boundary_end t ht := by
    obtain ⟨-, -, -, p, hp, -, hend⟩ := of_mem_wordTokens ht
    exact hend ▸ h.boundary_end p hp
  start_lt_end t ht := by
    obtain ⟨-, -, -, p, hp, hstart, hend⟩ := of_mem_wordTokens ht
    have hlength : byteLength p.2 ≠ 0 := fun hzero =>
      hne p hp (byteLength_eq_zero_iff.1 hzero)
    omega

/-- The words among the pieces that a text is cut into. -/
def wordsOf (pieces : List (List Char)) : List Token :=
  wordTokens 0 ((withOffsets 0 pieces).filter fun p => p.2.any isAlphanumeric)

/-- However a text is cut into pieces, the words among them stand in a row. -/
theorem inRow_wordsOf (pieces : List (List Char)) : InRow pieces.flatten (wordsOf pieces) := by
  have hpieces := (@piecesInRow_withOffsets [] pieces).1
  refine inRow_wordTokens (hpieces.filter _) fun p hp hnil => ?_
  -- There are letters or numbers in a word.
  have hword := (List.mem_filter.1 hp).2
  simp [hnil] at hword

namespace WordAnalyzer

variable (a : WordAnalyzer)

/-- The words among the pieces of a text in lower case, without stop words. -/
def survivorsOf (pieces : List (List Char)) : List Token :=
  ((wordsOf pieces).map fun t => { t with text := lowercase t.text }).filter fun t =>
    !a.stopWords.contains t.text

/-- The tokens of a text that is cut into the pieces. -/
def analyzePieces (pieces : List (List Char)) : List Token :=
  withSynonyms a.synonyms (a.survivorsOf pieces)

/-- A phrase is cut at its word boundaries. -/
theorem survivingWords_eq_survivorsOf (phrase : String) :
    a.survivingWords phrase = a.survivorsOf (wordPieces phrase.toList) := rfl

theorem analyze_eq_analyzePieces (phrase : String) :
    a.analyze phrase = a.analyzePieces (wordPieces phrase.toList) := rfl

theorem inRow_survivorsOf {cs : List Char} {pieces : List (List Char)} (hcut : pieces.flatten = cs) :
    InRow cs (a.survivorsOf pieces) :=
  hcut ▸ ((inRow_wordsOf pieces).map_text _).filter _

theorem inRow_survivingWords (phrase : String) : InRow phrase.toList (a.survivingWords phrase) := by
  rw [survivingWords_eq_survivorsOf]
  exact a.inRow_survivorsOf flatten_wordPieces

end WordAnalyzer

/-! ### Synonyms that are not put in -/

theorem Synonyms.of_longestUpTo?_eq_some {d : Synonyms} {words group : List String} {bound n : Nat}
    (h : d.longestUpTo? words bound = some (n, group)) : 0 < n ∧ n ≤ bound := by
  induction bound with
  | zero => simp [longestUpTo?] at h
  | succ bound ih =>
    rw [longestUpTo?] at h
    split at h
    · cases h
      exact ⟨Nat.succ_pos _, Nat.le_refl _⟩
    · obtain ⟨hpos, hle⟩ := ih h
      exact ⟨hpos, Nat.le_succ_of_le hle⟩

theorem Synonyms.termWords_ne_nil (term : String) : Synonyms.termWords term ≠ [] := by
  have hsplit : ∀ word cs, Synonyms.termWords.splitAt word cs ≠ [] := by
    intro word cs
    induction cs generalizing word with
    | nil => simp [Synonyms.termWords.splitAt]
    | cons c cs ih =>
      rw [Synonyms.termWords.splitAt]
      split
      · exact List.cons_ne_nil _ _
      · exact ih _
  exact hsplit _ _

theorem layOut_single {t : Token} (ht : t.positionLength = 1) : layOut t.position 1 [t] = [t] := by
  simp only [layOut]
  rw [← ht]

/-- Tokens in consecutive slots are laid out as they are. -/
theorem layOut_take_runLength {tokens : List Token} {t : Token} {n : Nat}
    (hlength : ∀ u ∈ t :: tokens, u.positionLength = 1) (hn : n ≤ runLength (t :: tokens)) :
    layOut t.position n ((t :: tokens).take n) = (t :: tokens).take n := by
  have ht := hlength t List.mem_cons_self
  induction tokens generalizing t n with
  | nil =>
    simp only [runLength] at hn
    obtain rfl | rfl : n = 0 ∨ n = 1 := by omega
    · rfl
    · exact layOut_single ht
  | cons u tokens ih =>
    match n with
    | 0 => rfl
    | 1 => exact layOut_single ht
    | n + 2 =>
      rw [runLength] at hn
      split at hn
      · next hu =>
        have hu : u.position = t.position + 1 := by simpa using hu
        have hrest := ih (t := u) (n := n + 1) (fun v hv => hlength v (List.mem_cons_of_mem _ hv))
          (by omega) (hlength u (by simp))
        rw [hu, List.take_succ_cons] at hrest
        rw [List.take_succ_cons, List.take_succ_cons, layOut, Nat.add_sub_cancel (n + 1) 1, hrest]
        congr 1
        rw [← ht]
      · omega

/-- A term that is put in shows as a synonym. -/
theorem exists_isSynonym_of_mem_layOut (position length startOffset endOffset : Nat)
    {words : List String} (hwords : words ≠ []) :
    ∃ u ∈ layOut position length (synonymTokens startOffset endOffset words),
      u.isSynonym = true := by
  match words with
  | [_] => exact ⟨_, List.mem_cons_self, rfl⟩
  | _ :: _ :: _ => exact ⟨_, List.mem_cons_self, rfl⟩

theorem Segment.tokens_matched {shift : Nat} {typed : List Token} (htyped : typed ≠ [])
    (alternatives : List (List String)) :
    (matched typed alternatives).tokens shift =
      layOut ((typed.head htyped).position + shift) (matched typed alternatives).width typed ++
        alternatives.flatMap fun words =>
          layOut ((typed.head htyped).position + shift) (matched typed alternatives).width
            (synonymTokens (typed.head htyped).startOffset (typed.getLast htyped).endOffset
              words) := by
  simp only [Segment.tokens, List.head?_eq_some_head htyped, List.getLast?_eq_some_getLast htyped]

theorem Segment.alternatives_eq_nil {shift : Nat} {typed : List Token}
    {alternatives : List (List String)} (htyped : typed ≠ [])
    (hwords : ∀ words ∈ alternatives, words ≠ [])
    (h : ∀ t ∈ (matched typed alternatives).tokens shift, t.isSynonym = false) :
    alternatives = [] := by
  rw [tokens_matched htyped] at h
  refine List.eq_nil_iff_forall_not_mem.2 fun words hmem => ?_
  obtain ⟨u, hu, hsynonym⟩ := exists_isSynonym_of_mem_layOut
    ((typed.head htyped).position + shift) (matched typed alternatives).width
    (typed.head htyped).startOffset (typed.getLast htyped).endOffset (hwords words hmem)
  have := h u (List.mem_append_right _ (List.mem_flatMap.2 ⟨words, hmem, hu⟩))
  exact Bool.false_ne_true (this.symm.trans hsynonym)

/-- Where no synonym shows, the tokens of the segments are those that were cut. -/
theorem placeSegments_cutSegments {d : Synonyms} {steps : Nat} {tokens : List Token}
    (hsteps : tokens.length ≤ steps) (hlength : ∀ t ∈ tokens, t.positionLength = 1)
    (h : ∀ t ∈ placeSegments 0 (cutSegments d steps tokens), t.isSynonym = false) :
    placeSegments 0 (cutSegments d steps tokens) = tokens := by
  induction steps generalizing tokens with
  | zero =>
    obtain rfl := List.length_eq_zero_iff.1 (Nat.le_zero.1 hsteps)
    rfl
  | succ steps ih =>
    rcases tokens with _ | ⟨t, rest⟩
    · rfl
    rw [cutSegments] at h ⊢
    rw [List.length_cons] at hsteps
    split at h
    · next hnone =>
      rw [placeSegments] at h ⊢
      refine congrArg (t :: ·) (ih (Nat.le_of_succ_le_succ hsteps)
        (fun u hu => hlength u (List.mem_cons_of_mem _ hu)) fun u hu => ?_)
      exact h u (List.mem_append_right _ hu)
    · next n group hsome =>
      obtain ⟨hpos, hn⟩ := Synonyms.of_longestUpTo?_eq_some hsome
      -- A term takes no more words than stand in consecutive slots.
      simp only [List.length_map, List.length_take, le_inf_iff] at hn
      obtain ⟨-, hrun, hcount⟩ := hn
      have htyped : (t :: rest).take n ≠ [] := by simp; omega
      rw [placeSegments] at h ⊢
      -- No synonym shows, so the group has no other term and the segment is as wide as it was typed.
      have hnil := Segment.alternatives_eq_nil htyped (List.forall_mem_map.2 fun term _ =>
        Synonyms.termWords_ne_nil term) fun u hu => h u (List.mem_append_left _ hu)
      have hshift : (Segment.matched ((t :: rest).take n) []).width
          - (Segment.matched ((t :: rest).take n) []).typedLength = 0 := Nat.sub_self _
      have hwidth : (Segment.matched ((t :: rest).take n) []).width = n := by
        rw [Segment.width, List.map_nil, List.foldl_nil, List.length_take,
          Nat.min_eq_left hcount]
      have hhead : ((t :: rest).take n).head htyped = t := List.head_take htyped
      have hdrop : ((t :: rest).drop n).length ≤ steps := by
        rw [List.length_drop, List.length_cons]
        omega
      rw [hnil, hshift] at h ⊢
      rw [Segment.tokens_matched htyped, List.flatMap_nil, List.append_nil, hwidth, hhead,
        Nat.add_zero, layOut_take_runLength hlength hrun, ih hdrop
          (fun u hu => hlength u (List.mem_of_mem_drop hu))
          fun u hu => h u (List.mem_append_right _ hu), List.take_append_drop]

namespace WordAnalyzer

variable {a : WordAnalyzer} {cs : List Char} {pieces : List (List Char)}

/-- Where no synonym is put in, the tokens of a text are its words. -/
theorem analyzePieces_eq_survivorsOf (h : ∀ t ∈ a.analyzePieces pieces, t.isSynonym = false) :
    a.analyzePieces pieces = a.survivorsOf pieces := by
  have hrow := @a.inRow_survivorsOf _ pieces rfl
  rw [analyzePieces, withSynonyms] at h ⊢
  by_cases hempty : a.synonyms.isEmpty = true
  · rw [if_pos hempty]
  · rw [if_neg hempty] at h ⊢
    have hplace : placeSegments 0 (segments a.synonyms (a.survivorsOf pieces))
        = a.survivorsOf pieces :=
      placeSegments_cutSegments (Nat.le_refl _) hrow.positionLength_eq fun t ht =>
        h t (stableSort_perm.mem_iff.2 ht)
    rw [hplace]
    exact stableSort_of_pairwise (hrow.apart.imp fun htu => by simpa using Nat.le_of_lt htu.1)

/-- A text in which no synonym shows has its tokens in a row. -/
theorem inRow_analyzePieces (hcut : pieces.flatten = cs)
    (h : ∀ t ∈ a.analyzePieces pieces, t.isSynonym = false) : InRow cs (a.analyzePieces pieces) := by
  rw [analyzePieces_eq_survivorsOf h]
  exact a.inRow_survivorsOf hcut

theorem inRow_analyze {phrase : String} (h : ∀ t ∈ a.analyze phrase, t.isSynonym = false) :
    InRow phrase.toList (a.analyze phrase) := by
  rw [analyze_eq_analyzePieces] at h ⊢
  exact inRow_analyzePieces flatten_wordPieces h

end WordAnalyzer

end PhraseGraph
