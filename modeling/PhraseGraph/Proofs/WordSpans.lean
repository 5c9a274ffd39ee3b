import PhraseGraph.Proofs.KeptWords
import PhraseGraph.Proofs.Recutting

/-!
# The bytes of words

A text is cut into pieces, and those with a letter or a number are its words. Whatever the cut is, as
long as the pieces make up the text, the words tell exactly where they stand (`areWordsOf_wordsOf`): they
are numbered in order, each has the characters between its bytes, and each letter and number of the text
lies inside one word.

* A character of the text stands in one of the pieces (`exists_piece_of_flatten_eq`), and its piece is a
  word if the character is a letter or a number.
* There is no second word with the character in it, as no two words share a byte
  (`InRow.eq_of_encloses`).

A text is cut at its word boundaries, and there is none inside a piece, as a text can be cut at each of
them (`Token.IsPiece.betweenBoundaries`). `areWordsOf_words` puts both together.
-/

namespace PhraseGraph

open Text

variable {cs before after : List Char} {c : Char} {A B P : List (List Char)} {p : List Char}
  {tokens : List Token} {t u : Token}

/-! ### Numbers of words -/

/-- Words are numbered in order. -/
theorem map_position_wordTokens {position : Nat} {placed : List (Nat × List Char)} :
    (wordTokens position placed).map (·.position) =
      List.range' position (wordTokens position placed).length := by
  induction placed generalizing position with
  | nil => rfl
  | cons q placed ih => exact congrArg (position :: ·) ih

/-! ### Characters inside of words -/

/-- The character that stands behind `before` in a text has its bytes inside the token's. -/
structure Token.Encloses (t : Token) (before : List Char) (c : Char) : Prop where
  start_le : t.startOffset ≤ byteLength before
  le_end : byteLength (before ++ [c]) ≤ t.endOffset

/-- A character of a text stands in one of its pieces. -/
theorem exists_piece_of_flatten_eq (h : P.flatten = before ++ c :: after) :
    ∃ A l r B, P = A ++ (l ++ c :: r) :: B ∧ before = A.flatten ++ l := by
  rcases List.flatten_eq_append_iff.1 h with ⟨A, rest, rfl, rfl, hrest⟩ |
    ⟨A, l, d, r, B, rfl, rfl, hrest⟩
  · -- The character begins a piece, and only empty pieces lie between it and what stands before.
    obtain ⟨E, r, B, rfl, hE, -⟩ := List.flatten_eq_cons_iff.1 hrest.symm
    refine ⟨A ++ E, [], r, B, by simp, ?_⟩
    rw [List.flatten_append, List.flatten_eq_nil_iff.2 hE, List.append_nil, List.append_nil]
  · obtain ⟨rfl, -⟩ := List.cons_eq_cons.1 hrest
    exact ⟨A, l, r, B, rfl, rfl⟩

/-- A piece encloses each of its characters. -/
theorem Token.IsPiece.encloses {l r : List Char} (h : t.IsPiece A (l ++ c :: r)) :
    t.Encloses (A.flatten ++ l) c where
  start_le := by
    rw [← h.startOffset_eq, byteLength_append]
    omega
  le_end := by
    rw [← h.endOffset_eq]
    simp only [List.flatten_append, List.flatten_singleton, byteLength_append, byteLength_cons,
      byteLength_nil]
    omega

/-- A letter or a number of a text lies inside a word. -/
theorem exists_encloses_of_isAlphanumeric (h : P.flatten = before ++ c :: after)
    (hc : isAlphanumeric c = true) : ∃ t ∈ wordsOf P, t.Encloses before c := by
  obtain ⟨A, l, r, B, rfl, rfl⟩ := exists_piece_of_flatten_eq h
  have hword : (l ++ c :: r).any isAlphanumeric = true := List.any_eq_true.2 ⟨c, by simp, hc⟩
  obtain ⟨t, ht, hpiece⟩ := @exists_mem_wordsOf A B _ hword
  exact ⟨t, ht, hpiece.encloses⟩

/-- A character lies inside one word at most. -/
theorem InRow.eq_of_encloses (h : InRow cs tokens) (ht : t ∈ tokens) (hu : u ∈ tokens)
    (htc : t.Encloses before c) (huc : u.Encloses before c) : t = u := by
  refine (eq_or_of_pairwise h.apart ht hu).resolve_right fun happart => ?_
  have hsize : byteLength before < byteLength (before ++ [c]) := by
    have := c.utf8Size_pos
    simp only [byteLength_append, byteLength_cons, byteLength_nil]
    omega
  rcases happart with ⟨-, hle⟩ | ⟨-, hle⟩
  · exact absurd ((htc.le_end.trans hle).trans huc.start_le) hsize.not_ge
  · exact absurd ((huc.le_end.trans hle).trans htc.start_le) hsize.not_ge

/-! ### The words of any cut -/

/-- The tokens are the words of a text. They stand in a row, each from one place between characters to
    another one; they are numbered from zero on, have the text between their bytes, and share out the
    letters and numbers of the text among them. -/
structure AreWordsOf (cs : List Char) (tokens : List Token) : Prop extends InRow cs tokens where
  positions_eq : tokens.map (·.position) = List.range tokens.length
  text_eq_slice : ∀ t ∈ tokens, t.text = sliceOf cs t.startOffset t.endOffset
  any_isAlphanumeric : ∀ t ∈ tokens, t.text.toList.any isAlphanumeric = true
  existsUnique_encloses : ∀ before c after, cs = before ++ c :: after → isAlphanumeric c = true →
    ∃! t, t ∈ tokens ∧ t.Encloses before c

/-- A piece has the characters between its bytes. -/
theorem Token.IsPiece.text_eq_slice (h : t.IsPiece A p) :
    t.text = sliceOf (A ++ p :: B).flatten t.startOffset t.endOffset := by
  rw [h.text_eq, ← h.startOffset_eq, ← h.endOffset_eq, List.flatten_append, List.flatten_append,
    List.flatten_cons, List.flatten_singleton, sliceOf_eq]

/-- However a text is cut into pieces, the words among them are its words. -/
theorem areWordsOf_wordsOf (P : List (List Char)) : AreWordsOf P.flatten (wordsOf P) where
  toInRow := inRow_wordsOf P
  positions_eq := by
    rw [List.range_eq_range']
    exact map_position_wordTokens
  text_eq_slice t ht := by
    obtain ⟨A, p, B, rfl, -, hpiece⟩ := exists_isPiece_of_mem ht
    exact hpiece.text_eq_slice
  any_isAlphanumeric t ht := by
    obtain ⟨A, p, B, rfl, hword, hpiece⟩ := exists_isPiece_of_mem ht
    rwa [hpiece.text_eq, String.toList_ofList]
  existsUnique_encloses before c after heq hc := by
    obtain ⟨t, ht, htc⟩ := exists_encloses_of_isAlphanumeric heq hc
    exact ⟨t, ⟨ht, htc⟩, fun u hu => (inRow_wordsOf P).eq_of_encloses hu.1 ht hu.2 htc⟩

/-! ### The cut at the word boundaries -/

/-- Of the places in a text from where the token begins to where it ends, these two are word boundaries,
    and no other. -/
def Token.BetweenBoundaries (cs : List Char) (t : Token) : Prop :=
  ∀ before after, cs = before ++ after → t.startOffset ≤ byteLength before →
    byteLength before ≤ t.endOffset → (isWordBoundary before.reverse after = true ↔
      byteLength before = t.startOffset ∨ byteLength before = t.endOffset)

/-- Where some pieces are taken apart no further in front than before a piece, and no further behind than
    after it, this is in one of the two places. -/
theorem byteLength_eq_or_of_append_eq {Q : List (List Char)} (h : A ++ p :: B = P ++ Q)
    (hstart : byteLength A.flatten ≤ byteLength P.flatten)
    (hend : byteLength P.flatten ≤ byteLength (A ++ [p]).flatten) :
    byteLength P.flatten = byteLength A.flatten ∨
      byteLength P.flatten = byteLength (A ++ [p]).flatten := by
  have hle : ∀ P Q : List (List Char), byteLength P.flatten ≤ byteLength (P ++ Q).flatten := by
    intro P Q
    rw [List.flatten_append, byteLength_append]
    exact Nat.le_add_right _ _
  rcases List.append_eq_append_iff.1 h with ⟨M, rfl, hM⟩ | ⟨M, rfl, -⟩
  · cases M with
    | nil => exact .inl (by rw [List.append_nil])
    | cons q M =>
      obtain ⟨rfl, -⟩ := List.cons_eq_cons.1 hM
      have hbehind := hle (A ++ [p]) M
      rw [List.append_assoc, List.singleton_append] at hbehind
      exact .inr (Nat.le_antisymm hend hbehind)
  · exact .inl (Nat.le_antisymm (hle P M) hstart)

/-- A piece of a text is what lies between two neighbouring word boundaries. -/
theorem Token.IsPiece.betweenBoundaries (h : t.IsPiece A p) (hpieces : wordPieces cs = A ++ p :: B) :
    t.BetweenBoundaries cs := by
  rintro before after rfl hstart hend
  rw [← h.startOffset_eq] at hstart ⊢
  rw [← h.endOffset_eq] at hend ⊢
  constructor
  · intro hboundary
    have hcut : A ++ p :: B = wordPieces before ++ wordPieces after :=
      hpieces.symm.trans (wordPieces_append hboundary)
    have hplace := byteLength_eq_or_of_append_eq hcut
    rw [flatten_wordPieces] at hplace
    exact hplace hstart hend
  · have hpieces' : wordPieces (before ++ after) = (A ++ [p]) ++ B := by
      rw [hpieces, List.append_assoc, List.singleton_append]
    rintro (hlength | hlength)
    · exact isWordBoundary_of_byteLength_eq hpieces hlength
    · exact isWordBoundary_of_byteLength_eq hpieces' hlength

/-- The words of a text are numbered from zero on, each is the slice of the text between its bytes, they
    stand apart from each other in the order of the text, and each letter and number of the text lies
    inside exactly one of them. Each is what lies between two neighbouring word boundaries. -/
theorem areWordsOf_words (text : String) :
    AreWordsOf text.toList (words text) ∧ ∀ t ∈ words text, t.BetweenBoundaries text.toList := by
  constructor
  · have hwords := areWordsOf_wordsOf (wordPieces text.toList)
    rwa [flatten_wordPieces] at hwords
  · intro t ht
    obtain ⟨A, p, B, hpieces, -, hpiece⟩ := exists_isPiece_of_mem ht
    exact hpiece.betweenBoundaries hpieces

/-- Letters of two bytes, a mark that belongs to the letter before it, and signs between words. -/
example : (words "Dvořák, cafe\u0301!").map (fun t => (t.position, t.startOffset, t.endOffset)) =
    [(0, 0, 8), (1, 10, 16)] := by decide +kernel

end PhraseGraph
