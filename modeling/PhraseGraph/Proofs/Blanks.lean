import PhraseGraph.Token.Words
import PhraseGraph.Text.Blank
import PhraseGraph.Text.Case
import PhraseGraph.Proofs.Slices

/-!
# Blanks in words

The words of a text are cut at word boundaries and the words of a term at white space, and the two are
compared in lower case. A mark may be attached to a blank and be a letter all the same, so a piece of a
text may have blanks in it. But then it begins with one: a space that is not at the beginning of a piece
follows another space (`begins_of_space_mem_wordPieces`).

Lower case neither makes a blank of another character (`eq_of_mem_lowerChar`) nor changes the spaces that
keep together (`lowerChar_of_space`), so both also hold of words in lower case.
-/

namespace PhraseGraph.Text

open WordBreakClass

/-! ### Tables -/

theorem of_findRange?_eq_some {α : Type} {entries : Array α} {range : α → Nat × Nat} {n : Nat} {e : α}
    (h : findRange? entries range n = some e) :
    e ∈ entries ∧ (range e).1 ≤ n ∧ n ≤ (range e).2 := by
  have hgo : ∀ {steps low high : Nat}, findRange?.go entries range n steps low high = some e →
      e ∈ entries ∧ (range e).1 ≤ n ∧ n ≤ (range e).2 := by
    intro steps
    induction steps with
    | zero => exact fun h => absurd h (by simp [findRange?.go])
    | succ steps ih =>
      intro low high h
      rw [findRange?.go] at h
      split at h
      · split at h
        · exact absurd h (by simp)
        · next entry hentry =>
          split at h
          · exact ih h
          · split at h
            · exact ih h
            · cases h
              exact ⟨Array.mem_of_getElem? hentry, by omega, by omega⟩
      · exact absurd h (by simp)
  exact hgo h

/-! ### Lower case -/

/-- The ranges of the blanks. -/
def blankRanges : List (Nat × Nat) :=
  [(0x09, 0x0D), (0x20, 0x20), (0x85, 0x85), (0xA0, 0xA0), (0x1680, 0x1680), (0x2000, 0x200A),
    (0x2028, 0x2029), (0x202F, 0x202F), (0x205F, 0x205F), (0x3000, 0x3000)]

theorem isBlank_iff {c : Char} :
    isBlank c = true ↔ ∃ r ∈ blankRanges, r.1 ≤ c.toNat ∧ c.toNat ≤ r.2 := by
  simp only [isBlank, blankRanges, Bool.or_eq_true, Bool.and_eq_true, decide_eq_true_eq, beq_iff_eq,
    List.mem_cons, List.not_mem_nil, or_false, exists_eq_or_imp, exists_eq_left]
  omega

/-- No blank is the lower case of the characters in a run. -/
theorem lowerRuns_miss_blanks : ∀ r ∈ lowerRuns.toList, ∀ b ∈ blankRanges,
    b.2 < r.target ∨ r.target + (r.last - r.first) < b.1 := by
  decide +kernel

theorem toNat_ofNat_or (n : Nat) : (Char.ofNat n).toNat = n ∨ (Char.ofNat n).toNat = 0 := by
  by_cases hvalid : n.isValidChar
  · left
    rw [Char.ofNat, dif_pos hvalid]
    rfl
  · right
    rw [Char.ofNat, dif_neg hvalid]
    rfl

/-- Only a blank has a blank in its lower case, and it is the lower case of itself. -/
theorem eq_of_mem_lowerChar {c d : Char} (h : d ∈ lowerChar c) (hblank : isBlank d = true) :
    d = c := by
  rw [lowerChar] at h
  split at h
  · next hascii =>
    have hall : ∀ n < 0x80, isBlank (Char.ofNat n).toLower = true →
        (Char.ofNat n).toLower = Char.ofNat n := by decide +kernel
    rw [List.mem_singleton] at h
    have := hall c.toNat hascii
    rw [Char.ofNat_toNat, ← h] at this
    exact this hblank
  · split at h
    · rcases List.mem_cons.1 h with rfl | h
      · exact absurd hblank (by decide)
      · rw [List.mem_singleton.1 h] at hblank
        exact absurd hblank (by decide)
    · rw [List.mem_singleton] at h
      obtain ⟨b, hb, hlow, hhigh⟩ := isBlank_iff.1 hblank
      have hpos : ∀ b ∈ blankRanges, 0 < b.1 := by decide
      have hd : d.toNat = applyRuns lowerRuns c.toNat := by
        have := hpos b hb
        rw [h] at hlow ⊢
        exact (toNat_ofNat_or _).resolve_right (by omega)
      rw [applyRuns] at h hd
      split at h
      · next run hrun =>
        obtain ⟨hmem, hfirst, hlast⟩ := of_findRange?_eq_some hrun
        rw [hrun] at hd
        by_cases himage : (c.toNat - run.first) % run.step = 0
        · simp only [CaseRun.image?, himage, beq_self_eq_true, if_true, Option.getD_some] at hd
          rcases lowerRuns_miss_blanks run (Array.mem_toList_iff.2 hmem) b hb with hmiss | hmiss <;> omega
        · simp only [CaseRun.image?, beq_iff_eq, himage, if_false, Option.getD_none,
            Char.ofNat_toNat] at h
          exact h
      · rwa [Char.ofNat_toNat] at h

/-- The code points of the spaces that keep together. -/
def spaces : List Nat :=
  [0x20, 0x1680, 0x2000, 0x2001, 0x2002, 0x2003, 0x2004, 0x2005, 0x2006, 0x2008, 0x2009, 0x200A,
    0x205F, 0x3000]

theorem mem_spaces_of_wordBreakClass {c : Char} (h : wordBreakClass c = .space) :
    c.toNat ∈ spaces := by
  rw [wordBreakClass] at h
  split at h
  · next hascii =>
    have hall : ∀ n < 0x80, asciiWordBreakClass (Char.ofNat n) = .space → n ∈ spaces := by decide
    have := hall c.toNat hascii
    rw [Char.ofNat_toNat] at this
    exact this h
  · split at h
    · next table cls hfind =>
      obtain rfl : cls = .space := h
      -- Only one of the tables is of this class.
      have hwide : ∀ entry ∈ wordBreakTables, entry.2 = .space → entry.1.ranges = wideSpaces.ranges := by
        simp [wordBreakTables]
      have hcontains := List.find?_some hfind
      rw [CodePoints.contains, hwide _ (List.mem_of_find?_eq_some hfind) rfl,
        Option.isSome_iff_exists] at hcontains
      obtain ⟨range, hrange⟩ := hcontains
      obtain ⟨hmem, hlow, hhigh⟩ := of_findRange?_eq_some hrange
      have hall : ∀ r ∈ wideSpaces.ranges, ∀ i ≤ r.2 - r.1, r.1 + i ∈ spaces := by decide
      rw [id] at hlow hhigh
      have := hall range hmem (c.toNat - range.1) (by omega)
      rwa [Nat.add_sub_cancel' hlow] at this
    · exact absurd h (by simp)

/-- The spaces that keep together are blanks, and none has another lower case. -/
theorem of_mem_spaces : ∀ n ∈ spaces, isBlank (Char.ofNat n) = true ∧
    lowerChar (Char.ofNat n) = [Char.ofNat n] ∧ n ≠ 0x3A3 ∧ pictographs.contains n = false := by
  decide +kernel

theorem isBlank_of_space {c : Char} (h : wordBreakClass c = .space) : isBlank c = true := by
  have := (of_mem_spaces _ (mem_spaces_of_wordBreakClass h)).1
  rwa [Char.ofNat_toNat] at this

theorem lowerChar_of_space {c : Char} (h : wordBreakClass c = .space) : lowerChar c = [c] := by
  have := (of_mem_spaces _ (mem_spaces_of_wordBreakClass h)).2.1
  rwa [Char.ofNat_toNat] at this

variable {before piece cs ds : List Char} {c d : Char}

theorem lowerChar_ne_nil : lowerChar c ≠ [] := by
  rw [lowerChar]
  split
  · exact List.cons_ne_nil _ _
  · split <;> exact List.cons_ne_nil _ _

/-- A blank in lower case was there before. -/
theorem mem_of_isBlank_mem_lowerFrom (h : d ∈ lowerFrom before cs) (hblank : isBlank d = true) :
    d ∈ cs := by
  induction cs generalizing before with
  | nil => exact absurd h List.not_mem_nil
  | cons c cs ih =>
    rw [lowerFrom] at h
    rcases List.mem_append.1 h with h | h
    · refine List.mem_cons.2 (.inl ?_)
      split at h
      · -- The small sigmas are no blanks.
        rw [List.mem_singleton] at h
        rw [h] at hblank
        split at hblank <;> exact absurd hblank (by decide)
      · exact eq_of_mem_lowerChar h hblank
    · exact List.mem_cons_of_mem _ (ih h)

theorem lowerFrom_ne_nil (h : cs ≠ []) : lowerFrom before cs ≠ [] := by
  cases cs with
  | nil => exact absurd rfl h
  | cons c cs =>
    rw [lowerFrom]
    split
    · exact List.cons_ne_nil _ _
    · exact List.append_ne_nil_of_left_ne_nil lowerChar_ne_nil _

theorem lowerFrom_of_space (h : wordBreakClass c = .space) :
    lowerFrom before (c :: cs) = c :: lowerFrom (c :: before) cs := by
  have hsigma := (of_mem_spaces _ (mem_spaces_of_wordBreakClass h)).2.2.1
  rw [lowerFrom, if_neg (by simpa using hsigma), lowerChar_of_space h]
  rfl

/-! ### Pieces between word boundaries -/

theorem keepsTogether_space {left : WordBreakClass} : keepsTogether left .space before cs = false := by
  simp [keepsTogether, isLetter, joinsLetters, joinsDigits]

/-- Where a space does not begin a piece it follows another space. -/
theorem wordBreakClass_eq_of_not_boundary {b : Char} {earlier later : List Char}
    (hc : wordBreakClass c = .space) (h : isWordBoundary (b :: earlier) (c :: later) = false) :
    wordBreakClass b = .space := by
  have hpictograph := (of_mem_spaces _ (mem_spaces_of_wordBreakClass hc)).2.2.2
  by_contra hb
  have hb : (wordBreakClass b == .space) = false := by simpa using hb
  have hattached : space.isAttached = false := rfl
  have hfeed : (space == lineFeed) = false := rfl
  have hregional : (space == regionalIndicator) = false := rfl
  simp only [isWordBoundary, hc, hb, hpictograph, hattached, hfeed, hregional, keepsTogether_space,
    Bool.and_false, Bool.false_and, Bool.false_eq_true, if_false, Bool.not_false, ite_self] at h
  split at h
  · exact Bool.noConfusion h
  · split at h <;> exact Bool.noConfusion h

/-- A piece with a space in it begins with one, if the one being read does. -/
theorem begins_of_space_mem_wordPiecesFrom {p : List Char} (hp : p ∈ wordPiecesFrom before piece cs)
    (hlast : piece ≠ [] → piece.head? = before.head?)
    (hpiece : ∀ c ∈ piece, wordBreakClass c = .space →
      ∃ b ∈ piece.getLast?, wordBreakClass b = .space)
    (hc : c ∈ p) (hspace : wordBreakClass c = .space) : ∃ b ∈ p.head?, wordBreakClass b = .space := by
  induction cs generalizing before piece with
  | nil =>
    rw [wordPiecesFrom] at hp
    split at hp
    · exact absurd hp List.not_mem_nil
    · rw [List.mem_singleton] at hp
      rw [hp, List.mem_reverse] at hc
      rw [hp, List.head?_reverse]
      exact hpiece c hc hspace
  | cons d cs ih =>
    rw [wordPiecesFrom] at hp
    split at hp
    · rcases List.mem_cons.1 hp with rfl | hp
      · rw [List.mem_reverse] at hc
        rw [List.head?_reverse]
        exact hpiece c hc hspace
      · exact ih hp (fun _ => rfl) fun e he hspace => ⟨d, rfl, by rwa [← List.mem_singleton.1 he]⟩
    · next hboundary =>
      refine ih hp (fun _ => rfl) fun e he hspace => ?_
      cases piece with
      | nil => exact ⟨d, rfl, by rwa [← List.mem_singleton.1 he]⟩
      | cons b piece =>
        rw [List.getLast?_cons_cons]
        rcases List.mem_cons.1 he with rfl | he
        · -- The character before the space is a space of the piece.
          obtain ⟨earlier, rfl⟩ : ∃ earlier, before = b :: earlier := by
            have := hlast (List.cons_ne_nil _ _)
            cases before with
            | nil => exact absurd this (by simp)
            | cons b' earlier => exact ⟨earlier, by simpa using this.symm⟩
          have hb : wordBreakClass b = .space :=
            wordBreakClass_eq_of_not_boundary hspace (by simpa using hboundary)
          exact hpiece b List.mem_cons_self hb
        · exact hpiece e he hspace

/-- A piece of a text with a space in it begins with one. -/
theorem begins_of_space_mem_wordPieces {p : List Char} (hp : p ∈ wordPieces cs)
    (hc : c ∈ p) (hspace : wordBreakClass c = .space) : ∃ b ∈ p.head?, wordBreakClass b = .space :=
  begins_of_space_mem_wordPiecesFrom hp (fun h => absurd rfl h)
    (fun _ h => absurd h List.not_mem_nil) hc hspace

/-! ### Words between blanks -/

theorem of_mem_splitRuns {isSeparator : Char → Bool} {w word : List Char}
    (hw : w ∈ splitRuns isSeparator word cs) (hword : ∀ c ∈ word, isSeparator c = false) :
    w ≠ [] ∧ ∀ c ∈ w, isSeparator c = false := by
  have hdone : ∀ {word : List Char}, word.isEmpty = false → (∀ c ∈ word, isSeparator c = false) →
      word.reverse ≠ [] ∧ ∀ c ∈ word.reverse, isSeparator c = false := fun hne hword =>
    ⟨by simpa using hne, fun c hc => hword c (List.mem_reverse.1 hc)⟩
  have hnil : ∀ c ∈ ([] : List Char), isSeparator c = false := fun c hc => absurd hc List.not_mem_nil
  induction cs generalizing word with
  | nil =>
    rw [splitRuns] at hw
    split at hw
    · exact absurd hw List.not_mem_nil
    · next hne =>
      rw [List.mem_singleton.1 hw]
      exact hdone (by simpa using hne) hword
  | cons c cs ih =>
    rw [splitRuns] at hw
    split at hw
    · split at hw
      · exact ih hw hnil
      · next hne =>
        rcases List.mem_cons.1 hw with rfl | hw
        · exact hdone (by simpa using hne) hword
        · exact ih hw hnil
    · next hc => exact ih hw (List.forall_mem_cons.2 ⟨by simpa using hc, hword⟩)

theorem of_mem_blankSeparated {s w : String} (hw : w ∈ blankSeparated s) :
    w.toList ≠ [] ∧ ∀ c ∈ w.toList, isBlank c = false := by
  obtain ⟨cs, hcs, rfl⟩ := List.mem_map.1 hw
  rw [String.toList_ofList]
  exact of_mem_splitRuns hcs fun c hc => absurd hc List.not_mem_nil

end PhraseGraph.Text
