import PhraseGraph.Proofs.WordBoundaries
import PhraseGraph.Text.Alphabetic

/-!
# Texts that are cut again

A text that is put together at a word boundary is cut as its two parts are (`wordPieces_append`). So
pieces that are cut again as they are (`Recuts`) can be taken apart anywhere, and put together at a
boundary (`recuts_append_iff`).

A word of letters is one piece, and where one ends or begins it is not asked which letters it has. So
words of letters can take each other's place: if some of the pieces begin and end with such words, other
pieces that do so too can stand there (`Recuts.replace`).
-/

namespace PhraseGraph.Text

open WordBreakClass

variable {before earlier later piece cs e l r w : List Char} {a b c : Char}
  {P Q A M N R : List (List Char)} {k : WordBreakClass}

/-! ### Cutting at a boundary -/

theorem wordPiecesFrom_append (h : isWordBoundary (l.reverse ++ before) r = true) :
    wordPiecesFrom before piece (l ++ r) =
      wordPiecesFrom before piece l ++ wordPiecesFrom (l.reverse ++ before) [] r := by
  induction l generalizing before piece with
  | nil =>
    cases piece with
    | nil => rfl
    | cons d piece =>
      cases r with
      | nil => rfl
      | cons c r =>
        rw [List.reverse_nil, List.nil_append] at h
        simp [wordPiecesFrom, h]
  | cons c l ih =>
    have hcut : isWordBoundary before (c :: (l ++ r)) = isWordBoundary before (c :: l) :=
      isWordBoundary_append_right (by simpa using h)
    have hrest : isWordBoundary (l.reverse ++ c :: before) r = true := by simpa using h
    rw [List.cons_append, wordPiecesFrom, wordPiecesFrom, hcut, List.reverse_cons, List.append_assoc,
      List.singleton_append]
    split
    · rw [ih hrest, List.cons_append]
    · rw [ih hrest]

theorem wordPiecesFrom_append_before (h : isWordBoundary before (e.reverse ++ cs) = true)
    (hpiece : e = [] → piece = []) :
    wordPiecesFrom (e ++ before) piece cs = wordPiecesFrom e piece cs := by
  induction cs generalizing e piece with
  | nil => rfl
  | cons c cs ih =>
    have hcut : (!piece.isEmpty && isWordBoundary (e ++ before) (c :: cs)) =
        (!piece.isEmpty && isWordBoundary e (c :: cs)) := by
      rcases List.eq_nil_or_concat e with rfl | ⟨e, x, rfl⟩
      · rw [hpiece rfl]
        rfl
      · rw [List.concat_eq_append] at h ⊢
        rw [List.reverse_append, List.reverse_singleton, List.append_assoc,
          List.singleton_append] at h
        rw [isWordBoundary_append_left h]
    have hrest : isWordBoundary before ((c :: e).reverse ++ cs) = true := by simpa using h
    rw [wordPiecesFrom, wordPiecesFrom, hcut, ← List.cons_append,
      ih hrest fun hnil => absurd hnil (List.cons_ne_nil _ _),
      ih hrest fun hnil => absurd hnil (List.cons_ne_nil _ _)]

/-- A text that is put together at a boundary is cut as its parts are. -/
theorem wordPieces_append (h : isWordBoundary l.reverse r = true) :
    wordPieces (l ++ r) = wordPieces l ++ wordPieces r := by
  have hbefore : wordPiecesFrom l.reverse [] r = wordPiecesFrom [] [] r :=
    wordPiecesFrom_append_before (e := []) h fun _ => rfl
  rw [wordPieces, wordPiecesFrom_append (by rwa [List.append_nil]), List.append_nil, hbefore]
  rfl

/-- Between its pieces a text has boundaries. -/
theorem isWordBoundary_of_wordPiecesFrom_eq (h : wordPiecesFrom before piece cs = P ++ Q)
    (hP : P ≠ []) : ∃ l, piece.reverse ++ l = P.flatten ∧ l ++ Q.flatten = cs ∧
      isWordBoundary (l.reverse ++ before) Q.flatten = true := by
  induction cs generalizing before piece P with
  | nil =>
    obtain ⟨p, P, rfl⟩ := List.exists_cons_of_ne_nil hP
    rw [wordPiecesFrom] at h
    split at h
    · exact absurd h.symm (List.cons_ne_nil _ _)
    · obtain ⟨rfl, hnil⟩ := List.cons_eq_cons.1 h
      obtain ⟨rfl, rfl⟩ := List.append_eq_nil_iff.1 hnil.symm
      exact ⟨[], by simp, rfl, isWordBoundary_nil_right⟩
  | cons c cs ih =>
    obtain ⟨p, P, rfl⟩ := List.exists_cons_of_ne_nil hP
    rw [wordPiecesFrom] at h
    split at h
    · next hcut =>
      obtain ⟨rfl, hrest⟩ := List.cons_eq_cons.1 h
      cases P with
      | nil =>
        obtain rfl : wordPiecesFrom (c :: before) [c] cs = Q := hrest
        have hflat : (wordPiecesFrom (c :: before) [c] cs).flatten = c :: cs := flatten_wordPiecesFrom
        rw [Bool.and_eq_true] at hcut
        exact ⟨[], by simp, hflat, hflat ▸ hcut.2⟩
      | cons q P =>
        obtain ⟨l, hl, rfl, hboundary⟩ := ih hrest (List.cons_ne_nil _ _)
        refine ⟨c :: l, ?_, rfl, by simpa using hboundary⟩
        rw [List.flatten_cons, ← hl]
        rfl
    · obtain ⟨l, hl, rfl, hboundary⟩ := ih h (List.cons_ne_nil _ _)
      exact ⟨c :: l, by simpa using hl, rfl, by simpa using hboundary⟩

theorem isWordBoundary_of_wordPieces_eq (h : wordPieces cs = P ++ Q) :
    isWordBoundary P.flatten.reverse Q.flatten = true := by
  cases P with
  | nil => exact isWordBoundary_nil_left
  | cons p P =>
    obtain ⟨l, hl, -, hboundary⟩ := isWordBoundary_of_wordPiecesFrom_eq h (List.cons_ne_nil _ _)
    rw [List.reverse_nil, List.nil_append] at hl
    rwa [List.append_nil, hl] at hboundary

/-- Where as many bytes lie before a place as there are in the first pieces, it is a boundary. -/
theorem isWordBoundary_of_byteLength_eq (hpieces : wordPieces (l ++ r) = P ++ Q)
    (hlength : byteLength l = byteLength P.flatten) : isWordBoundary l.reverse r = true := by
  have htext : l ++ r = P.flatten ++ Q.flatten := by
    rw [← List.flatten_append, ← hpieces, flatten_wordPieces]
  obtain ⟨rfl, rfl⟩ := eq_of_append_eq htext hlength
  exact isWordBoundary_of_wordPieces_eq hpieces

/-! ### Pieces that are cut again -/

/-- Put together, the pieces are cut again as they are. -/
def Recuts (pieces : List (List Char)) : Prop := wordPieces pieces.flatten = pieces

theorem recuts_wordPieces : Recuts (wordPieces cs) := by
  rw [Recuts, flatten_wordPieces]

theorem Recuts.ne_nil (h : Recuts P) : ∀ p ∈ P, p ≠ [] := fun p hp => by
  rw [← h] at hp
  exact ne_nil_of_mem_wordPieces p hp

/-- Where no piece is empty, as many pieces as have the same text are the same. -/
theorem eq_of_flatten_eq {P' Q' : List (List Char)} (h : P' ++ Q' = P ++ Q)
    (hflat : P'.flatten = P.flatten) (hne : ∀ p ∈ P ++ Q, p ≠ []) : P' = P ∧ Q' = Q := by
  have hnil : ∀ S : List (List Char), (∀ p ∈ S, p ∈ P ++ Q) → S.flatten = [] → S = [] :=
    fun S hS hempty => List.eq_nil_iff_forall_not_mem.2 fun p hp =>
      hne p (hS p hp) (List.flatten_eq_nil_iff.1 hempty p hp)
  rcases List.append_eq_append_iff.1 h with ⟨S, rfl, rfl⟩ | ⟨S, rfl, rfl⟩
  · rw [List.flatten_append, List.self_eq_append_right] at hflat
    rw [hnil S (by simp +contextual) hflat]
    simp
  · rw [List.flatten_append, List.append_right_eq_self] at hflat
    rw [hnil S (by simp +contextual) hflat]
    simp

/-- Pieces can be taken apart anywhere, and put together at a boundary. -/
theorem recuts_append_iff : Recuts (P ++ Q) ↔
    Recuts P ∧ Recuts Q ∧ isWordBoundary P.flatten.reverse Q.flatten = true := by
  constructor
  · intro h
    have hboundary := isWordBoundary_of_wordPieces_eq h
    have hne := h.ne_nil
    rw [Recuts, List.flatten_append, wordPieces_append hboundary] at h
    obtain ⟨hP, hQ⟩ := eq_of_flatten_eq h flatten_wordPieces hne
    exact ⟨hP, hQ, hboundary⟩
  · rintro ⟨hP, hQ, hboundary⟩
    rw [Recuts, List.flatten_append, wordPieces_append hboundary, hP, hQ]

/-! ### Words of letters -/

/-- The character is a letter that joins with its neighbours, and no pictograph. -/
def isJoiningLetter (c : Char) : Bool :=
  isAlphabetic c && wordBreakClass c == .letter && !pictographs.contains c.toNat

/-- The word is made of letters that join. Some of them may be pictographs as well. -/
def IsLetterWord (w : List Char) : Prop := w ≠ [] ∧ ∀ c ∈ w, wordBreakClass c = .letter

/-- The word is made of letters that join, and stays a word wherever it stands. -/
def IsJoiningWord (w : List Char) : Prop := w ≠ [] ∧ ∀ c ∈ w, isJoiningLetter c = true

theorem of_isJoiningLetter (h : isJoiningLetter c = true) :
    isAlphabetic c = true ∧ wordBreakClass c = .letter ∧ pictographs.contains c.toNat = false := by
  simpa [isJoiningLetter, and_assoc] using h

theorem IsJoiningWord.isLetterWord (h : IsJoiningWord w) : IsLetterWord w :=
  ⟨h.1, fun c hc => (of_isJoiningLetter (h.2 c hc)).2.1⟩

theorem wordBreakClass_of_classBefore (h : classBefore b earlier = .letter) :
    wordBreakClass b = .letter := by
  rw [classBefore] at h
  split at h
  · exact absurd h (by decide)
  · exact h

/-- Behind a letter a pictograph is what its class says. -/
theorem classBefore_cons_of_letter (hb : wordBreakClass b = .letter) :
    classBefore c (b :: earlier) = wordBreakClass c := by
  simp [classBefore, firstClass?, hb]

/-- What the rules of word boundaries ask of a class, answered for a letter. -/
theorem of_letter : letter.isLetter = true ∧ letter.joinsLetters = false ∧ letter.joinsDigits = false ∧
    (letter == hebrewLetter) = false ∧ (letter == singleQuote) = false ∧
    (letter == doubleQuote) = false ∧ (letter == numeric) = false ∧ (letter == katakana) = false ∧
    (letter == extendNumLet) = false := by
  decide

theorem keepsTogether_letter : keepsTogether .letter k earlier later =
    (k.isLetter || k.joinsLetters && (continuesWith isLetter later || continuesJoined later) ||
      k == .numeric || k == .extendNumLet) := by
  simp only [keepsTogether, of_letter, Bool.true_and, Bool.false_and, Bool.or_false]

theorem keepsTogether_before_letter : keepsTogether k .letter earlier later =
    (k.isLetter || k.joinsLetters && endsWith isLetter earlier || k == .numeric ||
      k == .extendNumLet) := by
  simp only [keepsTogether, of_letter, Bool.and_true, Bool.and_false, Bool.false_and, Bool.or_false]

theorem isWordBoundary_letters (hb : classBefore b earlier = .letter)
    (ha : wordBreakClass a = .letter) : isWordBoundary (b :: earlier) (a :: later) = false := by
  have hclass := wordBreakClass_of_classBefore hb
  have hskip : skipAttached (b :: earlier) = b :: earlier := skipAttached_cons (by rw [hclass]; rfl)
  rw [isWordBoundary_cons_cons, hclass, ha, comesApart, hskip]
  simp [hb, endsLine, isAttached, keepsTogether_letter, isLetter]

/-- Behind a letter it is not asked which letter it is, nor what stands before it. -/
theorem isWordBoundary_behind_letter {b' : Char} {earlier' : List Char}
    (hb : classBefore b earlier = .letter) (hb' : classBefore b' earlier' = .letter) :
    isWordBoundary (b :: earlier) r = isWordBoundary (b' :: earlier') r := by
  cases r with
  | nil => rfl
  | cons a later =>
    have hclass := wordBreakClass_of_classBefore hb
    have hclass' := wordBreakClass_of_classBefore hb'
    have hskip : skipAttached (b :: earlier) = b :: earlier := skipAttached_cons (by rw [hclass]; rfl)
    have hskip' : skipAttached (b' :: earlier') = b' :: earlier' :=
      skipAttached_cons (by rw [hclass']; rfl)
    rw [isWordBoundary_cons_cons, isWordBoundary_cons_cons, hclass, hclass', comesApart, comesApart,
      hskip, hskip']
    simp only [hb, hb', keepsTogether_letter]
    rfl

/-- Before a letter it is not asked which letter it is, nor what follows it. -/
theorem isWordBoundary_before_letter {c' : Char} {later' : List Char}
    (h : isWordBoundary before (c :: later) = true) (hc : wordBreakClass c = .letter)
    (hc' : wordBreakClass c' = .letter) (hjoined : pictographs.contains c'.toNat = false) :
    isWordBoundary before (c' :: later') = true := by
  cases before with
  | nil => rfl
  | cons b earlier =>
    have hapart : comesApart (b :: earlier) .letter later' = comesApart (b :: earlier) .letter later := by
      simp only [comesApart, keepsTogether_before_letter]
    have hnot := not_joined_of_boundary h
    rw [isWordBoundary_cons_cons, hc, hnot] at h
    rw [isWordBoundary_cons_cons, hc', hjoined, hapart]
    simpa using h

/-- A word of letters is one piece. -/
theorem IsLetterWord.recuts (h : IsLetterWord w) : Recuts [w] := by
  -- Behind a letter, what is left is read to its end.
  have hread : ∀ cs b earlier piece, (∀ c ∈ cs, wordBreakClass c = .letter) →
      classBefore b earlier = .letter →
      wordPiecesFrom (b :: earlier) (b :: piece) cs = [(b :: piece).reverse ++ cs] := by
    intro cs
    induction cs with
    | nil =>
      intro b earlier piece _ _
      rw [List.append_nil]
      rfl
    | cons c cs ih =>
      intro b earlier piece hcs hb
      obtain ⟨hc, hcs⟩ := List.forall_mem_cons.1 hcs
      rw [wordPiecesFrom, isWordBoundary_letters hb hc, Bool.and_false, if_neg Bool.false_ne_true,
        ih c (b :: earlier) (b :: piece) hcs]
      · simp
      · rw [classBefore_cons_of_letter (wordBreakClass_of_classBefore hb), hc]
  obtain ⟨hne, hw⟩ := h
  obtain ⟨c, cs, rfl⟩ := List.exists_cons_of_ne_nil hne
  obtain ⟨hc, hcs⟩ := List.forall_mem_cons.1 hw
  rw [Recuts, List.flatten_singleton, wordPieces]
  refine (hread cs c [] [] hcs ?_ :)
  simp [classBefore, firstClass?, hc]

theorem IsLetterWord.exists_reverse (h : IsLetterWord w) :
    ∃ b earlier, w.reverse = b :: earlier ∧ classBefore b earlier = .letter := by
  obtain ⟨b, earlier, hw⟩ : ∃ b earlier, w.reverse = b :: earlier :=
    List.exists_cons_of_ne_nil (by simpa using h.1)
  have hletter : ∀ c ∈ b :: earlier, wordBreakClass c = .letter := fun c hc =>
    h.2 c (List.mem_reverse.1 (hw ▸ hc))
  refine ⟨b, earlier, hw, ?_⟩
  cases earlier with
  | nil => simp [classBefore, firstClass?, hletter]
  | cons c earlier => rw [classBefore_cons_of_letter (hletter c (by simp)), hletter b (by simp)]

/-- A word of letters that are no pictographs ends like a letter, whatever stands before it. -/
theorem IsJoiningWord.exists_reverse_append (h : IsJoiningWord w) (l : List Char) :
    ∃ b earlier, w.reverse ++ l = b :: earlier ∧ classBefore b earlier = .letter := by
  obtain ⟨b, earlier, hw⟩ : ∃ b earlier, w.reverse = b :: earlier :=
    List.exists_cons_of_ne_nil (by simpa using h.1)
  have hb : b ∈ w := List.mem_reverse.1 (hw ▸ List.mem_cons_self)
  obtain ⟨-, hclass, hpictograph⟩ := of_isJoiningLetter (h.2 b hb)
  refine ⟨b, earlier ++ l, by rw [hw, List.cons_append], ?_⟩
  rw [classBefore, hpictograph, hclass]
  rfl

/-! ### Words in the place of others -/

/-- The first piece and the last one are as asked. -/
structure BoundedBy (good : List Char → Prop) (pieces : List (List Char)) : Prop where
  begins : ∃ p ∈ pieces.head?, good p
  ends : ∃ p ∈ pieces.getLast?, good p

/-- Pieces that begin and end with words of letters can take each other's place. -/
theorem Recuts.replace (h : Recuts (A ++ (M ++ R))) (hM : BoundedBy IsLetterWord M) (hN : Recuts N)
    (hbounded : BoundedBy IsJoiningWord N) : Recuts (A ++ (N ++ R)) := by
  obtain ⟨hA, hMR, hbefore⟩ := recuts_append_iff.1 h
  obtain ⟨-, hR, -⟩ := recuts_append_iff.1 hMR
  refine recuts_append_iff.2 ⟨hA, recuts_append_iff.2 ⟨hN, hR, ?_⟩, ?_⟩
  · obtain ⟨p, hp, hpword⟩ := hM.ends
    obtain ⟨w, hw, hword⟩ := hbounded.ends
    obtain ⟨M, rfl⟩ := List.getLast?_eq_some_iff.1 (Option.mem_def.1 hp)
    obtain ⟨N, rfl⟩ := List.getLast?_eq_some_iff.1 (Option.mem_def.1 hw)
    rw [List.append_assoc] at hMR
    obtain ⟨-, -, hbehind⟩ := recuts_append_iff.1 (recuts_append_iff.1 hMR).2.1
    obtain ⟨b, earlier, hreverse, hb⟩ := hpword.exists_reverse
    obtain ⟨b', earlier', hreverse', hb'⟩ := hword.exists_reverse_append N.flatten.reverse
    rw [List.flatten_singleton, hreverse] at hbehind
    rw [List.flatten_append, List.flatten_singleton, List.reverse_append, hreverse',
      ← isWordBoundary_behind_letter hb hb']
    exact hbehind
  · obtain ⟨p, hp, hpword⟩ := hM.begins
    obtain ⟨w, hw, hword⟩ := hbounded.begins
    obtain ⟨M, rfl⟩ := List.head?_eq_some_iff.1 (Option.mem_def.1 hp)
    obtain ⟨N, rfl⟩ := List.head?_eq_some_iff.1 (Option.mem_def.1 hw)
    obtain ⟨c, p, rfl⟩ := List.exists_cons_of_ne_nil hpword.1
    obtain ⟨c', w, rfl⟩ := List.exists_cons_of_ne_nil hword.1
    obtain ⟨-, hclass, hpictograph⟩ := of_isJoiningLetter (hword.2 c' List.mem_cons_self)
    exact isWordBoundary_before_letter hbefore (hpword.2 c List.mem_cons_self) hclass hpictograph

/-- A blank keeps words apart. -/
theorem recuts_words {v : List Char} (hv : IsLetterWord v) (hw : IsJoiningWord w) :
    Recuts [v, [' '], w] := by
  obtain ⟨b, earlier, hreverse, hb⟩ := hv.exists_reverse
  obtain ⟨c, cs, rfl⟩ := List.exists_cons_of_ne_nil hw.1
  have hblank : wordBreakClass ' ' = .space := by decide
  have hafter : isWordBoundary v.reverse (' ' :: c :: cs) = true := by
    have hclass := wordBreakClass_of_classBefore hb
    have hskip : skipAttached (b :: earlier) = b :: earlier :=
      skipAttached_cons (by rw [hclass]; rfl)
    rw [hreverse, isWordBoundary_cons_cons, hblank, hclass, comesApart, hskip]
    simp +decide [hb, keepsTogether_space]
  have hletter : isWordBoundary [' '] ['a'] = true := by decide +kernel
  have hbefore : isWordBoundary [' '] (c :: cs) = true :=
    isWordBoundary_before_letter hletter (by decide)
      (hw.isLetterWord.2 c List.mem_cons_self) (of_isJoiningLetter (hw.2 c List.mem_cons_self)).2.2
  have hrest : Recuts ([[' ']] ++ [c :: cs]) :=
    recuts_append_iff.2 ⟨by rw [Recuts]; decide +kernel, hw.isLetterWord.recuts, by simpa using hbefore⟩
  exact recuts_append_iff.2 ⟨hv.recuts, hrest, by simpa using hafter⟩

end PhraseGraph.Text
