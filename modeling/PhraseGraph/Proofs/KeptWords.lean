import PhraseGraph.Proofs.Rows

/-!
# Pieces whose words are kept

The words of a text are its pieces with a letter or a number, and stand where these do: behind the bytes
of the pieces before them (`Token.IsPiece`). Which of them an analyzer keeps can be told from the pieces,
one after the other (`WordAnalyzer.kept`, `WordAnalyzer.map_text_survivingWords`), and a word that is kept
still stands where its piece does (`WordAnalyzer.KeepsPiece`). So where no kept word stands between two
bytes, nothing is kept of the pieces between them (`WordAnalyzer.kept_eq_nil`).
-/

namespace PhraseGraph

open Text

variable {cs : List Char} {P Q A A' B B' G : List (List Char)} {p : List Char} {n offset position : Nat}

/-! ### Places of pieces -/

theorem mem_withOffsets_iff {q : Nat × List Char} : q ∈ withOffsets offset P ↔
    ∃ A B, P = A ++ q.2 :: B ∧ offset + byteLength A.flatten = q.1 := by
  obtain ⟨n, p⟩ := q
  induction P generalizing offset with
  | nil => simp [withOffsets]
  | cons piece P ih =>
    rw [withOffsets, List.mem_cons, ih]
    constructor
    · rintro (heq | ⟨A, B, rfl, hn⟩)
      · obtain ⟨rfl, rfl⟩ := Prod.mk.inj heq
        exact ⟨[], P, rfl, Nat.add_zero _⟩
      · refine ⟨piece :: A, B, rfl, ?_⟩
        rw [List.flatten_cons, byteLength_append, ← Nat.add_assoc]
        exact hn
    · rintro ⟨A, B, hP, hn⟩
      rcases List.cons_eq_append_iff.1 hP with ⟨rfl, hP⟩ | ⟨A, rfl, rfl⟩
      · obtain ⟨rfl, rfl⟩ := List.cons_eq_cons.1 hP
        exact .inl (Prod.ext hn.symm rfl)
      · refine .inr ⟨A, B, rfl, ?_⟩
        rw [List.flatten_cons, byteLength_append, ← Nat.add_assoc] at hn
        exact hn

theorem map_snd_withOffsets : (withOffsets offset P).map (·.2) = P := by
  induction P generalizing offset with
  | nil => rfl
  | cons piece P ih => exact congrArg (piece :: ·) ih

/-- A word has the characters of its piece and the bytes that the piece has. -/
theorem map_wordTokens {placed : List (Nat × List Char)} :
    (wordTokens position placed).map (fun t => (t.text, t.startOffset, t.endOffset)) =
      placed.map fun q => (String.ofList q.2, q.1, q.1 + byteLength q.2) := by
  induction placed generalizing position with
  | nil => rfl
  | cons q placed ih => exact congrArg (_ :: ·) ih

/-- The token is the piece `p` of a text as it stands behind the pieces `A`. -/
structure Token.IsPiece (t : Token) (A : List (List Char)) (p : List Char) : Prop where
  text_eq : t.text = String.ofList p
  startOffset_eq : byteLength A.flatten = t.startOffset
  endOffset_eq : byteLength (A ++ [p]).flatten = t.endOffset

/-- Each word is a piece with a letter or a number. -/
theorem exists_isPiece_of_mem {t : Token} (ht : t ∈ wordsOf P) :
    ∃ A p B, P = A ++ p :: B ∧ p.any isAlphanumeric = true ∧ t.IsPiece A p := by
  have hplaced : (t.text, t.startOffset, t.endOffset) ∈ _ :=
    map_wordTokens ▸ List.mem_map_of_mem (f := fun t : Token => (t.text, t.startOffset, t.endOffset)) ht
  obtain ⟨⟨n, p⟩, hq, heq⟩ := List.mem_map.1 hplaced
  obtain ⟨hq, hword⟩ := List.mem_filter.1 hq
  obtain ⟨A, B, hpieces, hn⟩ := mem_withOffsets_iff.1 hq
  simp only [Prod.mk.injEq] at heq hn
  obtain ⟨htext, hstart, hend⟩ := heq
  rw [Nat.zero_add] at hn
  refine ⟨A, p, B, hpieces, hword, htext.symm, hn.trans hstart, ?_⟩
  rw [List.flatten_append, List.flatten_singleton, byteLength_append, hn]
  exact hend

/-- Each piece with a letter or a number is a word. -/
theorem exists_mem_wordsOf (hword : p.any isAlphanumeric = true) :
    ∃ t ∈ wordsOf (A ++ p :: B), t.IsPiece A p := by
  have hq : (byteLength A.flatten, p) ∈ withOffsets 0 (A ++ p :: B) :=
    mem_withOffsets_iff.2 ⟨A, B, rfl, Nat.zero_add _⟩
  have hplaced : (String.ofList p, byteLength A.flatten, byteLength A.flatten + byteLength p) ∈
      (wordsOf (A ++ p :: B)).map fun t => (t.text, t.startOffset, t.endOffset) := by
    rw [wordsOf, map_wordTokens]
    exact List.mem_map_of_mem (f := fun q : Nat × List Char =>
      (String.ofList q.2, q.1, q.1 + byteLength q.2)) (List.mem_filter.2 ⟨hq, hword⟩)
  obtain ⟨t, ht, heq⟩ := List.mem_map.1 hplaced
  simp only [Prod.mk.injEq] at heq
  obtain ⟨htext, hstart, hend⟩ := heq
  refine ⟨t, ht, htext, hstart.symm, ?_⟩
  rw [List.flatten_append, List.flatten_singleton, byteLength_append]
  exact hend.symm

/-- Of two ways to take a text's pieces apart the one with fewer bytes in front leaves more behind. -/
theorem exists_between (h : A ++ B = A' ++ B') (hne : ∀ p ∈ A ++ B, p ≠ [])
    (hle : byteLength A.flatten ≤ byteLength A'.flatten) : ∃ G, A' = A ++ G ∧ B = G ++ B' := by
  rcases List.append_eq_append_iff.1 h with ⟨G, rfl, rfl⟩ | ⟨G, rfl, rfl⟩
  · exact ⟨G, rfl, rfl⟩
  · rw [List.flatten_append, byteLength_append] at hle
    have hflat : G.flatten = [] := byteLength_eq_zero_iff.1 (by omega)
    obtain rfl : G = [] := List.eq_nil_iff_forall_not_mem.2 fun p hp =>
      hne p (by simp [hp]) (List.flatten_eq_nil_iff.1 hflat p hp)
    exact ⟨[], by simp, rfl⟩

namespace WordAnalyzer

variable {a : WordAnalyzer} {phrase w : String}

/-! ### What is kept -/

/-- The words of some pieces in lower case, without stop words. -/
def kept (a : WordAnalyzer) (pieces : List (List Char)) : List String :=
  ((pieces.filter fun p => p.any isAlphanumeric).map fun p => lowercase (String.ofList p)).filter
    fun w => !a.stopWords.contains w

@[simp] theorem kept_append : a.kept (P ++ Q) = a.kept P ++ a.kept Q := by
  simp [kept]

theorem map_text_survivingWords :
    (a.survivingWords phrase).map (·.text) = a.kept (wordPieces phrase.toList) := by
  have hwords : (words phrase).map (·.text) = ((wordPieces phrase.toList).filter
      fun p => p.any isAlphanumeric).map String.ofList := by
    have h := congrArg (List.map Prod.fst) (@map_wordTokens 0 ((withOffsets 0
      (wordPieces phrase.toList)).filter fun p => p.2.any isAlphanumeric))
    rw [List.map_map, List.map_map] at h
    refine h.trans ?_
    conv_rhs => rw [← @map_snd_withOffsets (wordPieces phrase.toList) 0]
    rw [List.filter_map, List.map_map]
    rfl
  have hlower : (words phrase).map (fun t => lowercase t.text) = ((wordPieces phrase.toList).filter
      fun p => p.any isAlphanumeric).map fun p => lowercase (String.ofList p) := by
    have h := congrArg (List.map lowercase) hwords
    rwa [List.map_map, List.map_map] at h
  rw [kept, ← hlower, survivingWords, List.filter_map, List.filter_map, List.map_map]
  rfl

/-- A piece is kept as the word if it has a letter or a number and is no stop word. -/
theorem kept_singleton_iff : a.kept [p] = [w] ↔
    p.any isAlphanumeric = true ∧ lowercase (String.ofList p) = w ∧ a.stopWords.contains w = false := by
  by_cases hword : p.any isAlphanumeric = true
  · by_cases hstop : a.stopWords.contains (lowercase (String.ofList p)) = true
    · simp only [kept, hword, hstop, List.filter_cons_of_pos, List.filter_nil, List.map_cons,
        List.map_nil, Bool.not_true, Bool.false_eq_true, not_false_eq_true, List.filter_cons_of_neg,
        List.nil_eq, List.cons_ne_nil, true_and, false_iff, not_and, Bool.not_eq_false]
      rintro rfl
      exact hstop
    · rw [Bool.not_eq_true] at hstop
      simp only [kept, hword, hstop, List.filter_cons_of_pos, List.filter_nil, List.map_cons,
        List.map_nil, Bool.not_false, List.cons.injEq, and_true, true_and]
      exact ⟨fun h => ⟨h, h ▸ hstop⟩, And.left⟩
  · simp [kept, hword]

theorem exists_kept_singleton (h : a.kept P ≠ []) : ∃ p ∈ P, ∃ w, a.kept [p] = [w] := by
  obtain ⟨w, hw⟩ := List.exists_mem_of_ne_nil _ h
  obtain ⟨hmem, hstop⟩ := List.mem_filter.1 hw
  obtain ⟨p, hp, rfl⟩ := List.mem_map.1 hmem
  obtain ⟨hp, hword⟩ := List.mem_filter.1 hp
  exact ⟨p, hp, _, kept_singleton_iff.2 ⟨hword, rfl, by simpa using hstop⟩⟩

/-! ### Where kept words stand -/

/-- The word `t` is what is kept of the piece `p` of a text, and has its bytes. The pieces `A` are before
    it, and the pieces `B` behind it. -/
structure KeepsPiece (a : WordAnalyzer) (cs : List Char) (t : Token) (A : List (List Char))
    (p : List Char) (B : List (List Char)) : Prop where
  wordPieces_eq : wordPieces cs = A ++ p :: B
  startOffset_eq : byteLength A.flatten = t.startOffset
  endOffset_eq : byteLength (A ++ [p]).flatten = t.endOffset
  kept_eq : a.kept [p] = [t.text]

/-- A word that is kept has its piece. -/
theorem exists_keepsPiece {t : Token} (ht : t ∈ a.survivingWords phrase) :
    ∃ A p B, a.KeepsPiece phrase.toList t A p B := by
  obtain ⟨hmem, hstop⟩ := List.mem_filter.1 ht
  obtain ⟨u, hu, rfl⟩ := List.mem_map.1 hmem
  obtain ⟨A, p, B, hpieces, hword, hpiece⟩ := exists_isPiece_of_mem hu
  refine ⟨A, p, B, hpieces, hpiece.startOffset_eq, hpiece.endOffset_eq,
    kept_singleton_iff.2 ⟨hword, ?_, by simpa using hstop⟩⟩
  rw [hpiece.text_eq]

/-- A piece whose word is kept has the word. -/
theorem exists_mem_survivingWords (hpieces : wordPieces phrase.toList = A ++ p :: B)
    (hkept : a.kept [p] = [w]) :
    ∃ t ∈ a.survivingWords phrase, a.KeepsPiece phrase.toList t A p B := by
  obtain ⟨hword, htext, hstop⟩ := kept_singleton_iff.1 hkept
  obtain ⟨u, hu, hpiece⟩ := @exists_mem_wordsOf A B p hword
  rw [← hpieces] at hu
  have hlower : lowercase u.text = w := by rw [hpiece.text_eq, htext]
  refine ⟨{ u with text := lowercase u.text },
    List.mem_filter.2 ⟨List.mem_map_of_mem hu, by simpa [hlower] using hstop⟩, hpieces,
    hpiece.startOffset_eq, hpiece.endOffset_eq, hkept.trans (congrArg (fun w => [w]) hlower.symm)⟩

/-- Where no kept word stands nothing is kept. -/
theorem kept_eq_nil (hpieces : wordPieces phrase.toList = A ++ (G ++ B))
    (hnone : ∀ t ∈ a.survivingWords phrase, byteLength A.flatten ≤ t.startOffset →
      ¬t.endOffset ≤ byteLength (A ++ G).flatten) : a.kept G = [] := by
  by_contra hkept
  obtain ⟨p, hp, w, hw⟩ := exists_kept_singleton hkept
  obtain ⟨G, H, rfl⟩ := List.append_of_mem hp
  have hplace : wordPieces phrase.toList = (A ++ G) ++ p :: (H ++ B) := by simpa using hpieces
  obtain ⟨t, ht, hkeeps⟩ := exists_mem_survivingWords hplace hw
  refine hnone t ht ?_ ?_
  · rw [← hkeeps.startOffset_eq, List.flatten_append, byteLength_append]
    omega
  · rw [← hkeeps.endOffset_eq]
    simp only [List.flatten_append, List.flatten_cons, List.flatten_nil, byteLength_append,
      byteLength_nil]
    omega

end WordAnalyzer

end PhraseGraph
