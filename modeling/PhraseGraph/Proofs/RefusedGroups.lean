import Mathlib.Data.List.Find
import Mathlib.Data.List.TakeWhile
import PhraseGraph.Proofs.LongestTerms
import PhraseGraph.Proofs.Matching.Synonyms

/-!
# Groups that are refused

A group is refused at its first term that is in the index already. The terms in front of it have
been entered by then, under the number that the next group gets, and they stay (`Synonyms.add_eq`).
So a dictionary to which groups are offered one after another holds what a dictionary of the taken
groups alone holds, and the terms that the refused ones have left over (`History.Holds`): a term
that is left over is found in the group that was taken next, of which it is no member, and in none
as long as no group has been taken since (`History.Holds.group?_eq_some_iff`).

The groups and their number are not touched. What the dictionary finds is what that of the taken
groups finds, if and only if no group was taken after a refused one had left a term over; the number
of words of the longest term is the same if and only if no term that was left over is longer than
all terms of groups (`History.like_taken_iff`).
-/

namespace PhraseGraph

theorem takeWhile_congr {α : Type} {p q : α → Bool} {l : List α} (h : ∀ a ∈ l, p a = q a) :
    l.takeWhile p = l.takeWhile q := by
  induction l with
  | nil => rfl
  | cons a l ih =>
    obtain ⟨ha, hl⟩ := List.forall_mem_cons.1 h
    rw [List.takeWhile_cons, List.takeWhile_cons, ha, ih hl]

namespace Synonyms

variable {d d' : Synonyms} {terms : List String} {term : String} {number n : Nat}

/-! ### What a group changes -/

/-- The dictionary with more terms in the index, under one number. -/
def enter (d : Synonyms) (number : Nat) (terms : List String) : Synonyms :=
  { d with index := terms.foldl (fun index term => index.insert term number) d.index,
           maxWords := terms.foldl (fun m term => max m (termWords term).length) d.maxWords }

/-- The terms in front of the first one that is in the index. -/
def fresh (d : Synonyms) (terms : List String) : List String :=
  terms.takeWhile fun term => !d.index.contains term

theorem get?_enter : (d.enter number terms).index.get? term =
    if term ∈ terms then some number else d.index.get? term := by
  show (terms.foldl (fun index term => index.insert term number) d.index).get? term = _
  induction terms using List.reverseRecOn with
  | nil => rfl
  | append_singleton terms t ih =>
    rw [List.foldl_concat, Dict.get?_insert, ih]
    by_cases ht : term = t <;> simp [ht]

theorem maxWords_enter_le_iff : (d.enter number terms).maxWords ≤ n ↔
    d.maxWords ≤ n ∧ ∀ term ∈ terms, (termWords term).length ≤ n := by
  show terms.foldl (fun m term => max m (termWords term).length) d.maxWords ≤ n ↔ _
  induction terms using List.reverseRecOn with
  | nil => simp
  | append_singleton terms t ih =>
    rw [List.foldl_concat, Nat.max_le, ih, List.forall_mem_append, List.forall_mem_singleton,
      and_assoc]

theorem get?_eq_none_of_mem_fresh (h : term ∈ d.fresh terms) : d.index.get? term = none := by
  have hnew := List.all_takeWhile (p := fun term => !d.index.contains term) (l := terms)
  simpa [Dict.contains] using List.all_eq_true.1 hnew term h

/-- Terms are entered up to the first one that was in the index before. -/
theorem enterTerms_eq (hnodup : terms.Nodup) : enterTerms number d terms =
    (d.enter number (d.fresh terms), (terms.find? d.index.contains).map .sharedSynonym) := by
  induction terms generalizing d with
  | nil => rfl
  | cons t terms ih =>
    obtain ⟨ht, hnodup⟩ := List.nodup_cons.1 hnodup
    rw [enterTerms]
    cases hold : d.index.contains t with
    | true => simp [fresh, hold, enter]
    | false =>
      -- The term that is entered is none of those behind it.
      have hsame : ∀ u ∈ terms, (d.enter number [t]).index.contains u = d.index.contains u := by
        intro u hu
        have hne : u ≠ t := fun heq => ht (heq ▸ hu)
        rw [Dict.contains, Dict.contains, get?_enter, if_neg (by simpa using hne)]
      have hfresh : (d.enter number [t]).fresh terms = d.fresh terms :=
        takeWhile_congr fun u hu => congrArg (!·) (hsame u hu)
      rw [if_neg Bool.false_ne_true]
      refine (ih (d := d.enter number [t]) hnodup).trans ?_
      rw [hfresh, List.find?_congr hsame, List.find?_cons_of_neg (by simp [hold]), fresh, fresh,
        List.takeWhile_cons_of_pos (by simp [hold])]
      rfl

/-- A group is left out, or taken as a whole, or refused at a term that is in the index. -/
theorem add_eq : d.add terms =
    if (distinctTerms terms).length < 2 then (d, none)
    else match (distinctTerms terms).find? d.index.contains with
      | none => ({ d.enter d.groups.length (distinctTerms terms) with
          groups := d.groups ++ [distinctTerms terms] }, none)
      | some term => (d.enter d.groups.length (d.fresh (distinctTerms terms)),
          some (.sharedSynonym term)) := by
  rw [add]
  split
  · rfl
  · rw [enterTerms_eq nodup_distinctTerms]
    cases hshared : (distinctTerms terms).find? d.index.contains with
    | some term => rfl
    | none =>
      have hnew : d.fresh (distinctTerms terms) = distinctTerms terms :=
        List.takeWhile_eq_self_iff.2 fun term hterm => by
          simpa using List.find?_eq_none.1 hshared term hterm
      rw [hnew]
      rfl

theorem ofGroups_concat {groups : List (List String)} (h : ofGroups groups = .ok d)
    (hadd : d.add terms = (d', none)) : ofGroups (groups ++ [terms]) = .ok d' := by
  rw [ofGroups, List.foldlM_append, ← ofGroups, h]
  simp [bind, Except.bind, pure, Except.pure, hadd]

end Synonyms

/-! ### Groups that are offered one after another -/

/-- A dictionary to which groups are offered one after another. -/
structure History where
  /-- The dictionary. -/
  dictionary : Synonyms := .empty
  /-- The groups that it took. -/
  taken : List (List String) := []
  /-- The terms that refused groups have left in the index, each with the number of groups that there
      were then. -/
  leftOver : List (String × Nat) := []

namespace History

open Synonyms

/-- One more group is offered. -/
def offer (h : History) (terms : List String) : History :=
  match h.dictionary.add terms with
  | (d, none) => { h with dictionary := d, taken := h.taken ++ [terms] }
  | (d, some _) =>
    { h with dictionary := d,
             leftOver := h.leftOver ++ (h.dictionary.fresh (distinctTerms terms)).map fun term =>
               (term, h.dictionary.groups.length) }

/-- All groups are offered to a dictionary that has none. -/
def ofOffers (offers : List (List String)) : History := offers.foldl offer {}

theorem dictionary_offer (h : History) (terms : List String) :
    (h.offer terms).dictionary = (h.dictionary.add terms).1 := by
  rw [offer]
  split <;> next heq => rw [heq]

/-- The dictionary is what is left of one addition after the other. -/
theorem dictionary_foldl_offer (h : History) (offers : List (List String)) :
    (offers.foldl offer h).dictionary =
      offers.foldl (fun d terms => (d.add terms).1) h.dictionary := by
  induction offers generalizing h with
  | nil => rfl
  | cons terms offers ih => rw [List.foldl_cons, List.foldl_cons, ih, dictionary_offer]

/-- The dictionary holds what that of the taken groups alone holds, and the terms that are left over. -/
structure Holds (h : History) (alone : Synonyms) : Prop where
  made : ofGroups h.taken = .ok alone
  groups_eq : h.dictionary.groups = alone.groups
  index_iff : ∀ term n, h.dictionary.index.get? term = some n ↔
    alone.index.get? term = some n ∨ (term, n) ∈ h.leftOver
  get?_eq_none : ∀ e ∈ h.leftOver, alone.index.get? e.1 = none
  maxWords_le_iff : ∀ n, h.dictionary.maxWords ≤ n ↔
    alone.maxWords ≤ n ∧ ∀ e ∈ h.leftOver, (termWords e.1).length ≤ n

variable {h : History} {alone : Synonyms} {terms group : List String} {term : String} {n : Nat}

theorem holds_empty : Holds {} .empty where
  made := rfl
  groups_eq := rfl
  index_iff term n := by simp
  get?_eq_none e he := absurd he List.not_mem_nil
  maxWords_le_iff n := by simp

/-- A term that is not in the index is in that of the taken groups neither. -/
theorem Holds.get?_eq_none_of_dictionary (hh : h.Holds alone)
    (hterm : h.dictionary.index.get? term = none) : alone.index.get? term = none := by
  refine Option.eq_none_iff_forall_ne_some.2 fun n hn => ?_
  exact absurd (hterm.symm.trans ((hh.index_iff term n).2 (.inl hn))) (by simp)

/-- A group that is taken is one that the dictionary of the taken groups alone takes too. -/
theorem Holds.take (hh : h.Holds alone)
    (hlong : ¬(distinctTerms terms).length < 2)
    (hshared : (distinctTerms terms).find? h.dictionary.index.contains = none) :
    ({ h with dictionary := { h.dictionary.enter h.dictionary.groups.length (distinctTerms terms)
                with groups := h.dictionary.groups ++ [distinctTerms terms] },
              taken := h.taken ++ [terms] } : History).Holds
      { alone.enter alone.groups.length (distinctTerms terms) with
        groups := alone.groups ++ [distinctTerms terms] } := by
  have hnew : ∀ term ∈ distinctTerms terms, h.dictionary.index.get? term = none := by
    intro term hterm
    simpa [Dict.contains] using List.find?_eq_none.1 hshared term hterm
  have halone : (distinctTerms terms).find? alone.index.contains = none :=
    List.find?_eq_none.2 fun term hterm => by
      simp [Dict.contains, hh.get?_eq_none_of_dictionary (hnew term hterm)]
  refine ⟨ofGroups_concat hh.made ?_, ?_, fun term n => ?_, fun e he => ?_, fun n => ?_⟩
  · rw [add_eq, if_neg hlong, halone]
  · exact congrArg (· ++ [distinctTerms terms]) hh.groups_eq
  · simp only [get?_enter, hh.groups_eq]
    by_cases hterm : term ∈ distinctTerms terms
    · -- A term of the group was not left over before.
      have hnot : (term, n) ∉ h.leftOver := fun hmem =>
        absurd ((hnew term hterm).symm.trans ((hh.index_iff term n).2 (.inr hmem))) (by simp)
      simp [hterm, hnot]
    · simp [hterm, hh.index_iff]
  · have hnot : e.1 ∉ distinctTerms terms := fun hmem =>
      absurd ((hnew e.1 hmem).symm.trans ((hh.index_iff e.1 e.2).2 (.inr he))) (by simp)
    simp only [get?_enter, if_neg hnot]
    exact hh.get?_eq_none e he
  · show (h.dictionary.enter h.dictionary.groups.length _).maxWords ≤ n ↔
      (alone.enter alone.groups.length _).maxWords ≤ n ∧ _
    rw [maxWords_enter_le_iff, maxWords_enter_le_iff, hh.maxWords_le_iff, and_right_comm]

/-- A group that is refused leaves the terms in front of the first shared one over. -/
theorem Holds.refuse (hh : h.Holds alone) :
    ({ h with dictionary := h.dictionary.enter h.dictionary.groups.length
                (h.dictionary.fresh (distinctTerms terms)),
              leftOver := h.leftOver ++ (h.dictionary.fresh (distinctTerms terms)).map fun term =>
                (term, h.dictionary.groups.length) } : History).Holds alone where
  made := hh.made
  groups_eq := hh.groups_eq
  index_iff term n := by
    simp only [get?_enter, List.mem_append, List.mem_map, Prod.mk.injEq]
    by_cases hterm : term ∈ h.dictionary.fresh (distinctTerms terms)
    · have hnone := get?_eq_none_of_mem_fresh hterm
      have hnot : (term, n) ∉ h.leftOver := fun hmem =>
        absurd (hnone.symm.trans ((hh.index_iff term n).2 (.inr hmem))) (by simp)
      simp [hterm, hnot, hh.get?_eq_none_of_dictionary hnone]
    · have hnot : ¬∃ t ∈ h.dictionary.fresh (distinctTerms terms),
          t = term ∧ h.dictionary.groups.length = n := by
        rintro ⟨t, ht, rfl, -⟩
        exact hterm ht
      rw [if_neg hterm, hh.index_iff, or_iff_left hnot]
  get?_eq_none e he := by
    rcases List.mem_append.1 he with he | he
    · exact hh.get?_eq_none e he
    · obtain ⟨term, hterm, rfl⟩ := List.mem_map.1 he
      exact hh.get?_eq_none_of_dictionary (get?_eq_none_of_mem_fresh hterm)
  maxWords_le_iff n := by
    rw [maxWords_enter_le_iff, hh.maxWords_le_iff, and_assoc, List.forall_mem_append,
      List.forall_mem_map]

theorem Holds.offer (hh : h.Holds alone) (terms : List String) :
    ∃ alone', (h.offer terms).Holds alone' := by
  rw [History.offer, add_eq]
  split_ifs with hshort
  · -- A group that says nothing is taken and changes nothing.
    refine ⟨alone, ofGroups_concat hh.made ?_, hh.groups_eq, hh.index_iff, hh.get?_eq_none,
      hh.maxWords_le_iff⟩
    rw [add_eq, if_pos hshort]
  · cases hshared : (distinctTerms terms).find? h.dictionary.index.contains with
    | none => exact ⟨_, hh.take hshort hshared⟩
    | some term => exact ⟨_, hh.refuse⟩

theorem exists_holds (offers : List (List String)) : ∃ alone, (ofOffers offers).Holds alone := by
  induction offers using List.reverseRecOn with
  | nil => exact ⟨_, holds_empty⟩
  | append_singleton offers terms ih =>
    obtain ⟨alone, hh⟩ := ih
    rw [ofOffers, List.foldl_concat]
    exact hh.offer terms

/-! ### What is found -/

namespace Holds

variable (hh : h.Holds alone)
include hh

/-- A term that is left over is found in the group that was taken next. -/
theorem group?_eq_some_iff : h.dictionary.group? term = some group ↔
    alone.group? term = some group ∨
      ∃ n, (term, n) ∈ h.leftOver ∧ alone.groups[n]? = some group := by
  simp only [group?, Option.bind_eq_some_iff, hh.groups_eq, hh.index_iff, or_and_right, exists_or]

/-- The dictionary of the taken groups does not find what is left over. -/
theorem group?_alone_eq_none {e : String × Nat} (he : e ∈ h.leftOver) :
    alone.group? e.1 = none := by
  rw [group?, hh.get?_eq_none e he]
  rfl

theorem bounds : h.dictionary.Bounds := fun term hsome => by
  obtain ⟨halone, hleft⟩ := (hh.maxWords_le_iff _).1 (Nat.le_refl _)
  obtain ⟨group, hgroup⟩ := Option.isSome_iff_exists.1 hsome
  rcases hh.group?_eq_some_iff.1 hgroup with hgroup | ⟨n, hn, -⟩
  · exact ((sound_ofGroups hh.made).bounds term (Option.isSome_iff_exists.2 ⟨_, hgroup⟩)).trans halone
  · exact hleft _ hn

theorem maxWords_eq_iff : h.dictionary.maxWords = alone.maxWords ↔
    ∀ e ∈ h.leftOver, (termWords e.1).length ≤ alone.maxWords := by
  have hle := ((hh.maxWords_le_iff _).1 (Nat.le_refl _)).1
  rw [← and_iff_right (Nat.le_refl alone.maxWords) (b := ∀ e ∈ h.leftOver, _),
    ← hh.maxWords_le_iff]
  exact ⟨Nat.le_of_eq, fun hge => Nat.le_antisymm hge hle⟩

/-- Where no group was taken since, nothing else is found than without the terms that are left over. -/
theorem group?_eq (hlate : ∀ e ∈ h.leftOver, alone.groups.length ≤ e.2) (term : String) :
    h.dictionary.group? term = alone.group? term := by
  refine Option.ext fun group => hh.group?_eq_some_iff.trans (or_iff_left ?_)
  rintro ⟨n, hn, hgroup⟩
  rw [List.getElem?_eq_none (hlate _ hn)] at hgroup
  exact absurd hgroup (by simp)

/-- A term that is left over is found wrongly once a group has been taken. -/
theorem exists_group?_eq_some {e : String × Nat} (he : e ∈ h.leftOver)
    (hearly : e.2 < alone.groups.length) :
    ∃ group, h.dictionary.group? e.1 = some group ∧ e.1 ∉ group := by
  have hgroup := List.getElem?_eq_getElem hearly
  refine ⟨_, hh.group?_eq_some_iff.2 (.inr ⟨e.2, he, hgroup⟩), fun hmem => ?_⟩
  have hindex := ((sound_ofGroups hh.made).index_iff e.1 e.2).2 ⟨_, hgroup, hmem⟩
  exact absurd ((hh.get?_eq_none e he).symm.trans hindex) (by simp)

end Holds

/-- **What refused groups leave behind.** Groups are offered to a dictionary one after another. The
    taken ones make up a dictionary by themselves, which has the same groups. Both dictionaries find the
    same, and a term is found in no group but its own, exactly if no group was taken after a refused one
    had left a term over. Their longest terms have the same number of words exactly if no term that was
    left over has more. -/
theorem like_taken_iff (offers : List (List String)) :
    (ofOffers offers).dictionary = offers.foldl (fun d terms => (d.add terms).1) .empty ∧
    ∃ alone, ofGroups (ofOffers offers).taken = .ok alone ∧
      (ofOffers offers).dictionary.groups = alone.groups ∧
      ((ofOffers offers).dictionary.maxWords = alone.maxWords ↔
        ∀ e ∈ (ofOffers offers).leftOver, (termWords e.1).length ≤ alone.maxWords) ∧
      ((∀ term, (ofOffers offers).dictionary.group? term = alone.group? term) ↔
        ∀ e ∈ (ofOffers offers).leftOver, alone.groups.length ≤ e.2) ∧
      ((∀ words, (ofOffers offers).dictionary.longestTerm? words = alone.longestTerm? words) ↔
        ∀ e ∈ (ofOffers offers).leftOver, alone.groups.length ≤ e.2) ∧
      ((∀ term group, (ofOffers offers).dictionary.group? term = some group → term ∈ group) ↔
        ∀ e ∈ (ofOffers offers).leftOver, alone.groups.length ≤ e.2) := by
  obtain ⟨alone, hh⟩ := exists_holds offers
  have hsound := sound_ofGroups hh.made
  refine ⟨dictionary_foldl_offer {} offers, alone, hh.made, hh.groups_eq, hh.maxWords_eq_iff,
    ⟨fun hsame e he => ?_, hh.group?_eq⟩,
    ⟨fun hsame e he => ?_, fun hlate words => ?_⟩, ⟨fun hmem e he => ?_, fun hlate term group => ?_⟩⟩
  · by_contra hearly
    obtain ⟨group, hgroup, -⟩ := hh.exists_group?_eq_some he (Nat.not_le.1 hearly)
    rw [hsame, hh.group?_alone_eq_none he] at hgroup
    exact absurd hgroup (by simp)
  · by_contra hearly
    obtain ⟨group, hgroup, -⟩ := hh.exists_group?_eq_some he (Nat.not_le.1 hearly)
    -- The term is looked up as a single word.
    have hword : " ".intercalate [e.1] = e.1 := String.intercalate_singleton
    have hlength := hh.bounds e.1 (Option.isSome_iff_exists.2 ⟨_, hgroup⟩)
    have hpos := List.length_pos_iff.2 (termWords_ne_nil e.1)
    have hsingle : (ofOffers offers).dictionary.group? (" ".intercalate [e.1]) = some group :=
      hword.symm ▸ hgroup
    have hfound := longestTerm?_eq_some hsingle (List.cons_ne_nil _ _) (Nat.le_trans hpos hlength)
    rw [hsame] at hfound
    have hnone := group?_of_longestUpTo?_eq_some hfound
    rw [List.take_length, hword, hh.group?_alone_eq_none he] at hnone
    exact absurd hnone (by simp)
  · exact hh.bounds.longestTerm?_congr hsound.bounds (hh.group?_eq hlate)
  · by_contra hearly
    obtain ⟨group, hgroup, hnot⟩ := hh.exists_group?_eq_some he (Nat.not_le.1 hearly)
    exact hnot (hmem _ _ hgroup)
  · rw [hh.group?_eq hlate]
    exact fun hgroup => (hsound.group?_eq_some_iff.1 hgroup).2

end History

namespace Example

/-- The second group has a term of the first one. -/
def sizesAndAges : List (List String) := [["big", "large"], ["huge", "big"], ["old", "ancient"]]

/-- What is huge is found to be old, but not by the dictionary of the groups that were taken. -/
theorem huge_found_old :
    (History.ofOffers sizesAndAges).taken = [["big", "large"], ["old", "ancient"]] ∧
      Synonyms.ofGroups [["big", "large"], ["old", "ancient"]] =
        .ok (withGroups [["big", "large"], ["old", "ancient"]]).synonyms ∧
      (History.ofOffers sizesAndAges).dictionary.group? "huge" = some ["old", "ancient"] ∧
      (withGroups [["big", "large"], ["old", "ancient"]]).synonyms.group? "huge" = none := by
  refine ⟨?_, ofGroups_eq_ok ?_, ?_, ?_⟩ <;> decide +kernel

end Example

end PhraseGraph
