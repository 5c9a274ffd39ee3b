import PhraseGraph.Enumeration
import PhraseGraph.Proofs.Merging.Basic
import PhraseGraph.Proofs.Phrasings

/-!
# The longest term

Words are compared with the terms of a dictionary from the longest beginning down to the first word,
where the number of words of the longest term says how far it is worth to look. Nothing is missed by
that: each word brings one piece between blanks at least into the text, so words that make up a term
are not more than the words of the term (`Synonyms.group?_eq_none_of_maxWords_lt`). Hence the
look-up depends on the groups of the terms only (`Synonyms.longestTerm?_eq_longestUpTo?`).

In a dictionary that is made of groups, a term is found in the one group that lists it, if this
group has another term (`Synonyms.group?_ofGroups_eq_some_iff`). So the longest term at the
beginning of some words is told by the groups as they were given: their terms in normal form,
without those that have no words and without repetitions (`Synonyms.longestTerm?_exact`).
-/

namespace PhraseGraph

open Text

namespace Synonyms

variable {d d' : Synonyms} {words group terms : List String} {groups : List (List String)}
  {term : String} {n m bound : Nat}

/-! ### Looking from the longest beginning down -/

theorem longestUpTo?_eq_some_iff : d.longestUpTo? words bound = some (n, group) ↔
    (0 < n ∧ n ≤ bound ∧ d.group? (" ".intercalate (words.take n)) = some group) ∧
      ∀ m, n < m → m ≤ bound → d.group? (" ".intercalate (words.take m)) = none := by
  induction bound with
  | zero =>
    refine iff_of_false (by simp [longestUpTo?]) fun h => ?_
    exact absurd h.1.2.1 (Nat.not_le.2 h.1.1)
  | succ bound ih =>
    rw [longestUpTo?]
    cases hlast : d.group? (" ".intercalate (words.take (bound + 1))) with
    | some last =>
      simp only [Option.some.injEq, Prod.mk.injEq]
      constructor
      · rintro ⟨rfl, rfl⟩
        exact ⟨⟨Nat.succ_pos _, Nat.le_refl _, hlast⟩, fun m hlt hle => by omega⟩
      · rintro ⟨⟨-, hle, hgroup⟩, hlonger⟩
        -- A shorter beginning is not the longest one, as the whole is found.
        have heq : bound + 1 = n := by
          by_contra hne
          have := hlonger (bound + 1) (by omega) (Nat.le_refl _)
          exact absurd (hlast.symm.trans this) (by simp)
        exact ⟨heq, Option.some_inj.1 (hlast.symm.trans (heq ▸ hgroup))⟩
    | none =>
      rw [ih]
      constructor
      · rintro ⟨⟨hpos, hle, hgroup⟩, hlonger⟩
        refine ⟨⟨hpos, Nat.le_succ_of_le hle, hgroup⟩, fun m hlt hle => ?_⟩
        rcases Nat.lt_succ_iff_lt_or_eq.1 (Nat.lt_succ_of_le hle) with hle | rfl
        · exact hlonger m hlt (Nat.le_of_lt_succ hle)
        · exact hlast
      · rintro ⟨⟨hpos, hle, hgroup⟩, hlonger⟩
        have hne : n ≠ bound + 1 := by
          rintro rfl
          exact absurd (hlast.symm.trans hgroup) (by simp)
        exact ⟨⟨hpos, by omega, hgroup⟩, fun m hlt hle => hlonger m hlt (Nat.le_succ_of_le hle)⟩

theorem longestUpTo?_eq_none_iff : d.longestUpTo? words bound = none ↔
    ∀ m, 0 < m → m ≤ bound → d.group? (" ".intercalate (words.take m)) = none := by
  induction bound with
  | zero => exact iff_of_true rfl fun m hpos hle => absurd hpos (Nat.not_lt.2 hle)
  | succ bound ih =>
    rw [longestUpTo?]
    cases hlast : d.group? (" ".intercalate (words.take (bound + 1))) with
    | some last =>
      refine iff_of_false (by simp) fun h => ?_
      exact absurd (hlast.symm.trans (h _ (Nat.succ_pos _) (Nat.le_refl _))) (by simp)
    | none =>
      rw [ih]
      refine ⟨fun h m hpos hle => ?_, fun h m hpos hle => h m hpos (Nat.le_succ_of_le hle)⟩
      rcases Nat.lt_succ_iff_lt_or_eq.1 (Nat.lt_succ_of_le hle) with hle | rfl
      · exact h m hpos (Nat.le_of_lt_succ hle)
      · exact hlast

/-- Where no longer beginning is found, it makes no difference to look at it. -/
theorem longestUpTo?_eq_of_le (hle : n ≤ bound)
    (h : ∀ m, n < m → m ≤ bound → d.group? (" ".intercalate (words.take m)) = none) :
    d.longestUpTo? words bound = d.longestUpTo? words n := by
  induction hle with
  | refl => rfl
  | step hle ih =>
    rw [longestUpTo?, h _ (Nat.lt_succ_of_le hle) (Nat.le_refl _)]
    exact ih fun m hlt hm => h m hlt (Nat.le_succ_of_le hm)

/-! ### How far it is worth to look -/

/-- No term that is found has more words than the dictionary says. -/
def Bounds (d : Synonyms) : Prop :=
  ∀ term, (d.group? term).isSome → (termWords term).length ≤ d.maxWords

theorem length_le_length_termWords (h : words ≠ []) :
    words.length ≤ (termWords (" ".intercalate words)).length := by
  rw [termWords_intercalate h]
  exact Enumeration.length_le_length_flatMap termWords_ne_nil words

/-- More words than the longest term has make up no term. -/
theorem Bounds.group?_eq_none_of_maxWords_lt (h : d.Bounds) (hm : d.maxWords < m)
    (hle : m ≤ words.length) : d.group? (" ".intercalate (words.take m)) = none := by
  by_contra hsome
  have hlength : (words.take m).length = m := List.length_take_of_le hle
  have hne : words.take m ≠ [] := List.ne_nil_of_length_pos (by omega)
  have hbound := h _ (Option.isSome_iff_ne_none.2 hsome)
  have hpieces := length_le_length_termWords hne
  omega

theorem Bounds.longestTerm?_eq_longestUpTo? (h : d.Bounds) :
    d.longestTerm? words = d.longestUpTo? words words.length :=
  (longestUpTo?_eq_of_le (Nat.min_le_right _ _) fun m hlt hle =>
    h.group?_eq_none_of_maxWords_lt (by omega) hle).symm

theorem longestUpTo?_congr (h : ∀ term, d.group? term = d'.group? term) :
    d.longestUpTo? words bound = d'.longestUpTo? words bound := by
  induction bound with
  | zero => rfl
  | succ bound ih => rw [longestUpTo?, longestUpTo?, h, ih]

/-- Dictionaries that find the same groups find the same longest terms, whatever their bounds are. -/
theorem Bounds.longestTerm?_congr (hd : d.Bounds) (hd' : d'.Bounds)
    (h : ∀ term, d.group? term = d'.group? term) : d.longestTerm? words = d'.longestTerm? words := by
  rw [hd.longestTerm?_eq_longestUpTo?, hd'.longestTerm?_eq_longestUpTo?, longestUpTo?_congr h]

theorem Sound.bounds (h : d.Sound) : d.Bounds := fun term hsome => by
  obtain ⟨group, hgroup⟩ := Option.isSome_iff_exists.1 hsome
  obtain ⟨hmem, hterm⟩ := h.group?_eq_some_iff.1 hgroup
  exact h.length_le group hmem term hterm

/-! ### The terms of a group -/

/-- The terms of a group as it is given: those that have words, in normal form, each where it comes
    first. -/
def listedTerms (terms : List String) : List String :=
  ((terms.map normalize).filter fun t => !t.isEmpty).eraseDups

theorem distinctTerms_eq_listedTerms : distinctTerms terms = listedTerms terms := by
  induction terms using List.reverseRecOn with
  | nil => rfl
  | append_singleton terms term ih =>
    have hconcat : distinctTerms (terms ++ [term]) =
        if (normalize term).isEmpty || (distinctTerms terms).contains (normalize term) then
          distinctTerms terms
        else distinctTerms terms ++ [normalize term] := List.foldl_concat ..
    rw [hconcat, ih, listedTerms, listedTerms, List.map_append, List.filter_append,
      List.eraseDups_append, List.map_singleton]
    generalize (terms.map normalize).filter (fun t => !t.isEmpty) = kept
    cases hempty : (normalize term).isEmpty with
    | true => simp [hempty, List.removeAll]
    | false =>
      by_cases hmem : normalize term ∈ kept
      · simp [hempty, hmem, List.removeAll]
      · simp [hempty, hmem, List.removeAll, List.eraseDups_cons]

theorem nodup_distinctTerms : (distinctTerms terms).Nodup := by
  rw [distinctTerms_eq_listedTerms]
  exact nodup_eraseDups _

/-- A term is found in the group that lists it, if the group lists another one. -/
theorem group?_ofGroups_eq_some_iff (h : ofGroups groups = .ok d) :
    d.group? term = some group ↔
      (∃ terms ∈ groups, listedTerms terms = group) ∧ 2 ≤ group.length ∧ term ∈ group := by
  rw [(sound_ofGroups h).group?_eq_some_iff, groups_ofGroups h, List.mem_filter, List.mem_map,
    and_assoc, decide_eq_true_iff]
  simp only [distinctTerms_eq_listedTerms]

/-! ### The longest term of some groups -/

/-- The first `n` words, with single blanks between them, are one of the two or more terms that a group
    lists, which are `group`. -/
structure BeginsWith (groups : List (List String)) (words : List String) (n : Nat)
    (group : List String) : Prop where
  pos : 1 ≤ n
  le_length : n ≤ words.length
  exists_listed : ∃ terms ∈ groups, listedTerms terms = group
  two_le_length : 2 ≤ group.length
  mem : " ".intercalate (words.take n) ∈ group

theorem beginsWith_iff (h : ofGroups groups = .ok d) : BeginsWith groups words n group ↔
    1 ≤ n ∧ n ≤ words.length ∧ d.group? (" ".intercalate (words.take n)) = some group := by
  rw [group?_ofGroups_eq_some_iff h]
  exact ⟨fun ⟨hpos, hle, hlisted, htwo, hmem⟩ => ⟨hpos, hle, hlisted, htwo, hmem⟩,
    fun ⟨hpos, hle, hlisted, htwo, hmem⟩ => ⟨hpos, hle, hlisted, htwo, hmem⟩⟩

/-- **The longest term is found.** What a dictionary of groups finds at the beginning of some words
    is the largest number of words that make up a term of a group with two terms or more, and with
    it all terms of that group. It finds nothing only if there is no such number. -/
theorem longestTerm?_exact (h : ofGroups groups = .ok d) (words : List String) :
    (∀ n group, d.longestTerm? words = some (n, group) ↔
      BeginsWith groups words n group ∧ ∀ m group', BeginsWith groups words m group' → m ≤ n) ∧
    (d.longestTerm? words = none ↔ ∀ n group, ¬BeginsWith groups words n group) := by
  have hbounds := (sound_ofGroups h).bounds
  simp only [beginsWith_iff h, hbounds.longestTerm?_eq_longestUpTo?]
  constructor
  · intro n group
    rw [longestUpTo?_eq_some_iff]
    refine and_congr_right fun _ => ⟨fun hlonger m group' ⟨_, hle, hgroup'⟩ => ?_,
      fun hleast m hlt hle => ?_⟩
    · by_contra hlt
      exact absurd (hgroup'.symm.trans (hlonger m (Nat.not_le.1 hlt) hle)) (by simp)
    · by_contra hsome
      obtain ⟨group', hgroup'⟩ := Option.ne_none_iff_exists'.1 hsome
      exact absurd (hleast m group' ⟨by omega, hle, hgroup'⟩) (Nat.not_le.2 hlt)
  · rw [longestUpTo?_eq_none_iff]
    refine ⟨fun hnone n group ⟨hpos, hle, hgroup⟩ => ?_, fun hnone m hpos hle => ?_⟩
    · exact absurd (hgroup.symm.trans (hnone n hpos hle)) (by simp)
    · exact Option.eq_none_iff_forall_ne_some.2 fun group hgroup =>
        hnone m group ⟨hpos, hle, hgroup⟩

end Synonyms

namespace Example

/-- The groups of a new thing, and of a city, as someone wrote them. -/
def newGroups : List (List String) :=
  [["new", "Fresh", "FRESH"], [" New \t York", "", "NYC"], ["york", " York "]]

/-- The city is found at the beginning of the words, not what is new. -/
theorem finds_city : Synonyms.ofGroups newGroups = .ok (withGroups newGroups).synonyms ∧
    (withGroups newGroups).synonyms.longestTerm? ["new", "york", "marathon"] =
      some (2, ["new york", "nyc"]) := by
  have hd : Synonyms.ofGroups newGroups = .ok (withGroups newGroups).synonyms :=
    ofGroups_eq_ok (by decide +kernel)
  refine ⟨hd, ((Synonyms.longestTerm?_exact hd _).1 _ _).2 ⟨?_, fun m group' hbegins => ?_⟩⟩
  · exact ⟨by decide, by decide, by decide +kernel, by decide, by decide⟩
  · -- All three words are in no group.
    obtain ⟨-, hle, ⟨terms, hterms, rfl⟩, -, hmem⟩ := hbegins
    have hwhole : ∀ terms ∈ newGroups,
        "new york marathon" ∉ Synonyms.listedTerms terms := by decide +kernel
    by_contra hlt
    obtain rfl : m = 3 := Nat.le_antisymm hle (Nat.not_le.1 hlt)
    exact hwhole terms hterms hmem

end Example

end PhraseGraph
