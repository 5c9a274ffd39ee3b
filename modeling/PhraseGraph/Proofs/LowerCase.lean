import PhraseGraph.Proofs.Recutting
import PhraseGraph.Synonym

/-!
# Words in lower case

A character that has another lower case is a letter (`lowerChar_eq_or_letter`), so what is a word of
letters in lower case has been one before (`isLetterWord_of_lowercase`). And lower case has no other
lower case (`lowercase_lowercase`).
-/

namespace PhraseGraph.Text

open WordBreakClass

variable {before cs w : List Char} {c d : Char}

/-- The characters of a run are letters, and what they turn into has no other lower case. -/
theorem of_mem_lowerRuns : ∀ run ∈ lowerRuns.toList, ∀ i ≤ run.last - run.first, i % run.step = 0 →
    wordBreakClass (Char.ofNat (run.first + i)) = .letter ∧
      lowerChar (Char.ofNat (run.target + i)) = [Char.ofNat (run.target + i)] ∧
      (Char.ofNat (run.target + i)).toNat ≠ 0x3A3 := by
  decide +kernel

theorem of_ascii : ∀ n < 0x80,
    ((Char.ofNat n).toLower = Char.ofNat n ∨ wordBreakClass (Char.ofNat n) = .letter) ∧
      lowerChar (Char.ofNat n).toLower = [(Char.ofNat n).toLower] ∧
      (Char.ofNat n).toLower.toNat ≠ 0x3A3 := by
  decide +kernel

/-- What is needed of the character whose lower case are two. -/
theorem of_dotted : wordBreakClass (Char.ofNat 0x130) = .letter ∧ lowerChar 'i' = ['i'] ∧
    lowerChar (Char.ofNat 0x307) = [Char.ofNat 0x307] := by
  decide +kernel

/-- Beyond ASCII a character is mapped by a run, or it is its own lower case. -/
theorem lowerChar_eq_or_run (hascii : ¬c.toNat < 0x80) (hdotted : c.toNat ≠ 0x130) :
    lowerChar c = [c] ∨ ∃ run ∈ lowerRuns, ∃ i ≤ run.last - run.first, i % run.step = 0 ∧
      run.first + i = c.toNat ∧ lowerChar c = [Char.ofNat (run.target + i)] := by
  rw [lowerChar, if_neg hascii, if_neg (by simpa using hdotted), applyRuns]
  split
  · next run hrun =>
    obtain ⟨hmem, hfirst, hlast⟩ := of_findRange?_eq_some hrun
    by_cases himage : (c.toNat - run.first) % run.step = 0
    · refine .inr ⟨run, hmem, c.toNat - run.first, by omega, himage, by omega, ?_⟩
      simp [CaseRun.image?, himage]
    · left
      simp [CaseRun.image?, himage, Char.ofNat_toNat]
  · left
    rw [Char.ofNat_toNat]

/-- A character that has another lower case is a letter. -/
theorem lowerChar_eq_or_letter : lowerChar c = [c] ∨ wordBreakClass c = .letter := by
  by_cases hascii : c.toNat < 0x80
  · have h := (of_ascii c.toNat hascii).1
    rw [Char.ofNat_toNat] at h
    rw [lowerChar, if_pos hascii]
    exact h.imp_left (congrArg fun d => [d])
  · by_cases hdotted : c.toNat = 0x130
    · have h := of_dotted.1
      rw [← hdotted, Char.ofNat_toNat] at h
      exact .inr h
    · refine (lowerChar_eq_or_run hascii hdotted).imp_right ?_
      rintro ⟨run, hrun, i, hi, hstep, hc, -⟩
      have h := (of_mem_lowerRuns run (Array.mem_toList_iff.2 hrun) i hi hstep).1
      rwa [hc, Char.ofNat_toNat] at h

/-- Lower case has no other lower case, and no capital sigma in it. -/
theorem of_mem_lowerChar (hc : c.toNat ≠ 0x3A3) (h : d ∈ lowerChar c) :
    lowerChar d = [d] ∧ d.toNat ≠ 0x3A3 := by
  by_cases hascii : c.toNat < 0x80
  · rw [lowerChar, if_pos hascii, List.mem_singleton] at h
    have := (of_ascii c.toNat hascii).2
    rwa [Char.ofNat_toNat, ← h] at this
  · by_cases hdotted : c.toNat = 0x130
    · rw [lowerChar, if_neg hascii, if_pos (by simpa using hdotted)] at h
      rcases List.mem_pair.1 h with rfl | rfl
      · exact ⟨of_dotted.2.1, by decide⟩
      · exact ⟨of_dotted.2.2, by decide⟩
    · rcases lowerChar_eq_or_run hascii hdotted with hself | ⟨run, hrun, i, hi, hstep, -, himage⟩
      · rw [hself, List.mem_singleton] at h
        exact h ▸ ⟨hself, hc⟩
      · rw [himage, List.mem_singleton] at h
        exact h ▸ (of_mem_lowerRuns run (Array.mem_toList_iff.2 hrun) i hi hstep).2

theorem of_mem_lowerFrom (h : d ∈ lowerFrom before cs) : lowerChar d = [d] ∧ d.toNat ≠ 0x3A3 := by
  induction cs generalizing before with
  | nil => exact absurd h List.not_mem_nil
  | cons c cs ih =>
    rw [lowerFrom] at h
    rcases List.mem_append.1 h with h | h
    · split at h
      · rw [List.mem_singleton] at h
        split at h
        · exact h ▸ ⟨by decide +kernel, by decide⟩
        · exact h ▸ ⟨by decide +kernel, by decide⟩
      · next hc => exact of_mem_lowerChar (by simpa using hc) h
    · exact ih h

theorem lowerFrom_eq_self (h : ∀ c ∈ cs, lowerChar c = [c] ∧ c.toNat ≠ 0x3A3) :
    lowerFrom before cs = cs := by
  induction cs generalizing before with
  | nil => rfl
  | cons c cs ih =>
    obtain ⟨⟨hself, hc⟩, hcs⟩ := List.forall_mem_cons.1 h
    rw [lowerFrom, if_neg (by simpa using hc), hself, ih hcs]
    rfl

/-- Lower case has no other lower case. -/
theorem lowercase_lowercase (s : String) : lowercase (lowercase s) = lowercase s := by
  rw [lowercase, lowercase, String.toList_ofList, lowerFrom_eq_self fun d hd => of_mem_lowerFrom hd]

/-- What is a word of letters in lower case has been one before. -/
theorem isLetterWord_of_lowercase (h : IsLetterWord (lowercase (String.ofList w)).toList) :
    IsLetterWord w := by
  rw [lowercase, String.toList_ofList, String.toList_ofList] at h
  obtain ⟨hne, hletters⟩ := h
  refine ⟨fun hnil => hne (by rw [hnil]; rfl), ?_⟩
  have hall : ∀ cs before, (∀ d ∈ lowerFrom before cs, wordBreakClass d = .letter) →
      ∀ c ∈ cs, wordBreakClass c = .letter := by
    intro cs
    induction cs with
    | nil => exact fun _ _ c hc => absurd hc List.not_mem_nil
    | cons c cs ih =>
      intro before hletters
      rw [lowerFrom, List.forall_mem_append] at hletters
      refine List.forall_mem_cons.2 ⟨?_, ih _ hletters.2⟩
      by_cases hsigma : c.toNat = 0x3A3
      · have h : wordBreakClass (Char.ofNat 0x3A3) = .letter := by decide +kernel
        rwa [← hsigma, Char.ofNat_toNat] at h
      · rw [if_neg (by simpa using hsigma)] at hletters
        refine lowerChar_eq_or_letter.elim (fun hself => ?_) id
        exact hletters.1 c (by rw [hself]; exact List.mem_singleton_self c)
  exact hall w [] hletters

end PhraseGraph.Text
