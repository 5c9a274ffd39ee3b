import PhraseGraph.Proofs.Sorting
import PhraseGraph.Proofs.VariablePlaces

/-!
# Signatures

The names of a signature are the texts between its bars, and put together they are the signature again
(`intercalate_signatureNames`). So different signatures have different lists of names. The other way
round, names can be read back from a signature if there are no bars in them and they are not empty
(`signatureNames_signature`). Variables have such names, so the names of a pattern's signature are those
of its places in another order (`signatureNames_perm`).
-/

namespace PhraseGraph.Pattern

variable {s t pattern name : String} {names : List String}

/-! ### Names between bars -/

theorem splitBars_eq {cs piece : List Char} :
    splitBars piece cs = (cs.splitOnPPrepend (· == '|') piece).map String.ofList := by
  induction cs generalizing piece with
  | nil => rfl
  | cons c cs ih =>
    rw [splitBars, List.splitOnPPrepend]
    split
    · rw [List.map_cons, ih]
    · rw [ih]

theorem signatureNames_empty : signatureNames "" = [] := rfl

theorem signatureNames_of_ne_empty (h : s ≠ "") :
    signatureNames s = (s.toList.splitOn '|').map String.ofList := by
  rw [signatureNames, if_neg (by simpa using h), splitBars_eq, List.splitOn,
    List.splitOnP_eq_splitOnPPrepend]

/-- The names of a signature make up the signature. -/
theorem intercalate_signatureNames (s : String) : "|".intercalate (signatureNames s) = s := by
  by_cases h : s = ""
  · rw [h, signatureNames_empty, String.intercalate_nil]
  · have htexts : (signatureNames s).map String.toList = s.toList.splitOn '|' := by
      rw [signatureNames_of_ne_empty h, List.map_map]
      exact List.map_id'' (fun _ => String.toList_ofList) _
    refine String.toList_injective ?_
    rw [String.toList_intercalate, htexts]
    exact List.intercalate_splitOn '|'

theorem signatureNames_inj (h : signatureNames s = signatureNames t) : s = t := by
  rw [← intercalate_signatureNames s, h, intercalate_signatureNames]

/-- Names without bars can be read back from their signature, if they are not empty. -/
theorem signatureNames_signature (h : ∀ name ∈ names, name ≠ "" ∧ '|' ∉ name.toList) :
    signatureNames (signature names) = stableSort textLe names := by
  have hsorted : ∀ name ∈ stableSort textLe names, name ≠ "" ∧ '|' ∉ name.toList :=
    fun name hname => h name (stableSort_perm.mem_iff.1 hname)
  rw [signature]
  generalize stableSort textLe names = sorted at hsorted
  cases sorted with
  | nil => rfl
  | cons name rest =>
    have htext : ("|".intercalate (name :: rest)).toList =
        ['|'].intercalate ((name :: rest).map String.toList) :=
      String.toList_intercalate
    have hne : "|".intercalate (name :: rest) ≠ "" := by
      intro hempty
      cases rest with
      | nil => exact (hsorted name List.mem_cons_self).1 (by simpa using hempty)
      | cons next rest => simp [String.intercalate_cons_cons] at hempty
    rw [signatureNames_of_ne_empty hne, htext,
      List.splitOn_intercalate '|' (by simpa using fun name hname => (hsorted name hname).2)
        (by simp), List.map_map]
    exact List.map_id'' (fun _ => String.ofList_toList) _

/-! ### Names of variables -/

theorem isVariableName_of_mem_placesFrom {before cs : List Char} {place : Place}
    (h : place ∈ placesFrom before cs) : IsVariableName place.name := by
  induction cs generalizing before with
  | nil => exact absurd h List.not_mem_nil
  | cons c cs ih =>
    rw [placesFrom] at h
    rcases List.mem_append.1 h with h | h
    · split at h
      · rw [placeAfter] at h
        split at h
        · exact absurd h List.not_mem_nil
        · next hne =>
          obtain rfl := List.mem_singleton.1 h
          exact ⟨_, hne, fun c hc => by simpa using List.mem_takeWhile_imp hc, rfl⟩
      · exact absurd h List.not_mem_nil
    · exact ih h

/-- The variables of a pattern have names of dollar signs and letters. -/
theorem isVariableName_of_mem_variableNames (h : name ∈ variableNames pattern) :
    IsVariableName name := by
  rw [← places_map_name] at h
  obtain ⟨place, hplace, rfl⟩ := List.mem_map.1 h
  exact isVariableName_of_mem_placesFrom hplace

theorem IsVariableName.no_bar (h : IsVariableName name) : name ≠ "" ∧ '|' ∉ name.toList := by
  obtain ⟨letters, -, hletters, rfl⟩ := h
  refine ⟨fun hempty => ?_, fun hbar => ?_⟩
  · exact List.cons_ne_nil _ _ (String.ofList_injective hempty)
  · rw [String.toList_ofList] at hbar
    rcases List.mem_cons.1 hbar with hbar | hbar
    · exact absurd hbar (by decide)
    · exact absurd (hletters '|' hbar) (by decide)

/-- The signature of a pattern names the variables of its places. -/
theorem signatureNames_perm (pattern : String) :
    (signatureNames (signature (variableNames pattern))).Perm (variableNames pattern) := by
  rw [signatureNames_signature fun name hname =>
    (isVariableName_of_mem_variableNames hname).no_bar]
  exact stableSort_perm

end PhraseGraph.Pattern
