import PhraseGraph.Proofs.Blanks
import PhraseGraph.Proofs.Entries
import PhraseGraph.Proofs.KeptWords
import PhraseGraph.Proofs.Segments

/-!
# The terms of a dictionary

A dictionary has the groups that it was made of, as far as they have two distinct terms
(`Synonyms.groups_ofGroups`). Each term has the number of the one group that it is in (`Synonyms.Sound`),
and a term is made of words without blanks, with a single blank between them (`Synonyms.IsNormal`).

A run of words of a text that is a term has as many words as the term: a word of a text that has a blank
in it begins with one, and no word of a term does (`Synonyms.IsNormal.termWords_eq`). So the rows of a
segment spell the terms of its group and nothing else (`Segment.offers_iff`).
-/

namespace PhraseGraph

open Text

namespace Synonyms

/-! ### The words of a term -/

variable {term : String} {texts : List String}

theorem splitAt_append (word cs ds : List Char) :
    termWords.splitAt word (cs ++ ' ' :: ds) = termWords.splitAt word cs ++ termWords.splitAt [] ds := by
  induction cs generalizing word with
  | nil => rfl
  | cons c cs ih =>
    rw [List.cons_append, termWords.splitAt, termWords.splitAt]
    split
    · rw [ih, List.cons_append]
    · exact ih _

theorem splitAt_of_blank_not_mem (word : List Char) {cs : List Char} (h : ' ' ∉ cs) :
    termWords.splitAt word cs = [String.ofList (word.reverse ++ cs)] := by
  induction cs generalizing word with
  | nil => simp [termWords.splitAt]
  | cons c cs ih =>
    obtain ⟨hc, hcs⟩ := List.ne_and_not_mem_of_not_mem_cons h
    rw [termWords.splitAt, if_neg (by simpa using Ne.symm hc), ih _ hcs]
    simp

theorem exists_mem_splitAt {word cs : List Char} {c : Char} (h : c ∈ word ∨ c ∈ cs) (hc : c ≠ ' ') :
    ∃ w ∈ termWords.splitAt word cs, c ∈ w.toList := by
  induction cs generalizing word with
  | nil =>
    have hword : c ∈ word := h.resolve_right List.not_mem_nil
    exact ⟨_, List.mem_cons_self, by simpa using hword⟩
  | cons d cs ih =>
    rw [termWords.splitAt]
    split
    · next hd =>
      obtain rfl : d = ' ' := by simpa using hd
      rcases h with hword | h
      · exact ⟨_, List.mem_cons_self, by simpa using hword⟩
      · obtain ⟨w, hw, hmem⟩ := @ih [] (.inr ((List.mem_cons.1 h).resolve_left hc))
        exact ⟨w, List.mem_cons_of_mem _ hw, hmem⟩
    · refine ih ?_
      rcases h with hword | h
      · exact .inl (List.mem_cons_of_mem _ hword)
      · exact (List.mem_cons.1 h).imp_left fun hcd => List.mem_cons.2 (.inl hcd)

theorem termWords_of_blank_not_mem (h : ' ' ∉ term.toList) : termWords term = [term] := by
  rw [termWords, splitAt_of_blank_not_mem [] h]
  simp

theorem termWords_intercalate (h : texts ≠ []) :
    termWords (" ".intercalate texts) = texts.flatMap termWords := by
  induction texts with
  | nil => exact absurd rfl h
  | cons t texts ih =>
    cases texts with
    | nil => simp
    | cons u texts =>
      rw [String.intercalate_cons_cons, List.flatMap_cons, ← ih (List.cons_ne_nil _ _)]
      simp only [termWords, String.toList_append]
      rw [List.append_assoc]
      exact splitAt_append [] _ _

theorem termWords_intercalate_of_blank_not_mem (hne : texts ≠ [])
    (h : ∀ t ∈ texts, ' ' ∉ t.toList) : termWords (" ".intercalate texts) = texts := by
  rw [termWords_intercalate hne, List.flatMap_congr fun t ht => termWords_of_blank_not_mem (h t ht)]
  simp

/-- The blanks of a term are not in its words. -/
theorem blank_not_mem_of_mem_termWords {w : String} (hw : w ∈ termWords term) : ' ' ∉ w.toList := by
  have hsplit : ∀ {word cs : List Char}, ' ' ∉ word → ∀ w ∈ termWords.splitAt word cs,
      ' ' ∉ w.toList := by
    intro word cs hword
    induction cs generalizing word with
    | nil => simpa [termWords.splitAt] using hword
    | cons c cs ih =>
      rw [termWords.splitAt]
      split
      · exact List.forall_mem_cons.2 ⟨by simpa using hword, ih List.not_mem_nil⟩
      · next hc =>
        refine ih fun hmem => ?_
        rcases List.mem_cons.1 hmem with rfl | hmem
        · exact hc (beq_self_eq_true _)
        · exact hword hmem
  exact hsplit List.not_mem_nil w hw

/-- Words without blanks, with a single blank between them. -/
def IsNormal (term : String) : Prop :=
  ∃ ws ≠ [], (∀ w ∈ ws, w.toList ≠ [] ∧ ∀ c ∈ w.toList, isBlank c = false) ∧
    " ".intercalate ws = term

/-- The words of a term are not empty and have no blanks in them. -/
theorem IsNormal.of_mem_termWords (h : IsNormal term) {w : String} (hw : w ∈ termWords term) :
    w.toList ≠ [] ∧ ∀ c ∈ w.toList, isBlank c = false := by
  obtain ⟨ws, hne, hws, rfl⟩ := h
  have hblank : isBlank ' ' = true := by decide
  have hwords : termWords (" ".intercalate ws) = ws :=
    termWords_intercalate_of_blank_not_mem hne fun w hw hmem =>
      Bool.false_ne_true (((hws w hw).2 _ hmem).symm.trans hblank)
  exact hws w (hwords ▸ hw)

theorem not_isNormal_empty : ¬IsNormal "" := fun h => (h.of_mem_termWords List.mem_cons_self).1 rfl

/-- In lower case a word between blanks is still no empty word, and has no blanks in it. -/
theorem of_mem_map_lowercase {w : String} (hw : w ∈ (blankSeparated term).map lowercase) :
    w.toList ≠ [] ∧ ∀ c ∈ w.toList, isBlank c = false := by
  obtain ⟨v, hv, rfl⟩ := List.mem_map.1 hw
  obtain ⟨hne, hblank⟩ := of_mem_blankSeparated hv
  rw [lowercase, String.toList_ofList]
  refine ⟨lowerFrom_ne_nil hne, fun c hc => ?_⟩
  by_contra hcblank
  have hcblank : isBlank c = true := by simpa using hcblank
  have := hblank c (mem_of_isBlank_mem_lowerFrom hc hcblank)
  exact Bool.false_ne_true (this.symm.trans hcblank)

theorem map_lowercase_ne_nil (h : normalize term ≠ "") :
    (blankSeparated term).map lowercase ≠ [] := fun hnil => h (by
  rw [normalize, hnil, String.intercalate_nil])

theorem isNormal_normalize (h : normalize term ≠ "") : IsNormal (normalize term) :=
  ⟨_, map_lowercase_ne_nil h, fun _ => of_mem_map_lowercase, rfl⟩

theorem termWords_normalize (h : normalize term ≠ "") :
    termWords (normalize term) = (blankSeparated term).map lowercase := by
  have hblank : isBlank ' ' = true := by decide
  exact termWords_intercalate_of_blank_not_mem (map_lowercase_ne_nil h) fun w hw hmem =>
    Bool.false_ne_true (((of_mem_map_lowercase hw).2 _ hmem).symm.trans hblank)

/-- A word with a blank in it begins with a blank. -/
def BeginsBlank (text : String) : Prop :=
  ' ' ∈ text.toList → ∃ c ∈ text.toList.head?, isBlank c = true

/-- Words that make up a term have no blanks in them. -/
theorem IsNormal.blank_not_mem (h : IsNormal (" ".intercalate texts))
    (htexts : ∀ t ∈ texts, BeginsBlank t) : ∀ t ∈ texts, ' ' ∉ t.toList := by
  intro t ht hblank
  have hwords : ∀ w ∈ termWords t, w.toList ≠ [] ∧ ∀ c ∈ w.toList, isBlank c = false :=
    fun w hw => h.of_mem_termWords <| by
      rw [termWords_intercalate (List.ne_nil_of_mem ht)]
      exact List.mem_flatMap.2 ⟨t, ht, hw⟩
  obtain ⟨c, hc, hcblank⟩ := htexts t ht hblank
  obtain ⟨cs, hcs⟩ := List.head?_eq_some_iff.1 (Option.mem_def.1 hc)
  by_cases hspace : c = ' '
  · -- The piece before the blank is empty.
    have hempty : "" ∈ termWords t := by
      rw [termWords, hcs, hspace, termWords.splitAt]
      exact List.mem_cons_self
    exact (hwords "" hempty).1 rfl
  · obtain ⟨w, hw, hcw⟩ :=
      @exists_mem_splitAt [] t.toList c (.inr (hcs ▸ List.mem_cons_self)) hspace
    exact Bool.false_ne_true (((hwords w hw).2 c hcw).symm.trans hcblank)

theorem IsNormal.termWords_eq (h : IsNormal (" ".intercalate texts)) (hne : texts ≠ [])
    (htexts : ∀ t ∈ texts, BeginsBlank t) : termWords (" ".intercalate texts) = texts :=
  termWords_intercalate_of_blank_not_mem hne (h.blank_not_mem htexts)

/-! ### Groups -/

/-- Each term has the number of its group, its words are without blanks, and there are not more of them
    than the dictionary says. -/
structure Sound (d : Synonyms) : Prop where
  index_iff : ∀ term n, d.index.get? term = some n ↔ ∃ group, d.groups[n]? = some group ∧ term ∈ group
  isNormal : ∀ group ∈ d.groups, ∀ term ∈ group, IsNormal term
  length_le : ∀ group ∈ d.groups, ∀ term ∈ group, (termWords term).length ≤ d.maxWords

variable {d d' : Synonyms} {terms group : List String} {n : Nat}

theorem exists_of_mem_distinctTerms (h : term ∈ distinctTerms terms) :
    ∃ t, normalize t = term ∧ term ≠ "" := by
  have hfold : ∀ {terms group : List String}, (∀ term ∈ group, ∃ t, normalize t = term ∧ term ≠ "") →
      ∀ term ∈ terms.foldl (fun group term =>
        let t := normalize term
        if t.isEmpty || group.contains t then group else group ++ [t]) group,
        ∃ t, normalize t = term ∧ term ≠ "" := by
    intro terms
    induction terms with
    | nil => exact fun h => h
    | cons u terms ih =>
      intro group hgroup
      rw [List.foldl_cons]
      refine ih ?_
      dsimp only
      split
      · exact hgroup
      · next hnew =>
        refine List.forall_mem_append.2 ⟨hgroup, fun t ht => ?_⟩
        rw [List.mem_singleton.1 ht]
        simp only [Bool.or_eq_true, not_or, Bool.not_eq_true, String.isEmpty_eq_false_iff] at hnew
        exact ⟨u, rfl, hnew.1⟩
  exact hfold (fun t ht => absurd ht List.not_mem_nil) term h

theorem isNormal_of_mem_distinctTerms (h : term ∈ distinctTerms terms) : IsNormal term := by
  obtain ⟨t, rfl, hne⟩ := exists_of_mem_distinctTerms h
  exact isNormal_normalize hne

/-- What entering terms changes, if it succeeds: none of them was there, and all are in the end. -/
theorem enterTerms_spec (h : enterTerms n d terms = (d', none)) :
    d'.groups = d.groups ∧ d.maxWords ≤ d'.maxWords ∧
      (∀ term, d'.index.get? term = if term ∈ terms then some n else d.index.get? term) ∧
      ∀ term ∈ terms, d.index.get? term = none ∧ (termWords term).length ≤ d'.maxWords := by
  induction terms generalizing d with
  | nil =>
    obtain rfl : d = d' := congrArg Prod.fst h
    simp
  | cons t terms ih =>
    rw [enterTerms] at h
    split at h
    · exact absurd (congrArg Prod.snd h) (by simp)
    · next hnew =>
      have hnone : d.index.get? t = none := by simpa [Dict.contains] using hnew
      obtain ⟨hgroups, hmax, hindex, hterms⟩ := ih h
      simp only [Dict.get?_insert, Nat.max_le] at hmax hindex hterms
      refine ⟨hgroups, hmax.1, fun term => ?_, List.forall_mem_cons.2 ⟨⟨hnone, hmax.2⟩, ?_⟩⟩
      · rw [hindex]
        by_cases hterm : term ∈ terms <;> by_cases ht : term = t <;> simp [hterm, ht]
      · intro term hterm
        obtain ⟨hindex, hlength⟩ := hterms term hterm
        split at hindex
        · exact absurd hindex (by simp)
        · exact ⟨hindex, hlength⟩

theorem sound_empty : Sound empty where
  index_iff term n := by simp [empty, Dict.get?, EmptyCollection.emptyCollection, Dict.empty]
  isNormal group hgroup := absurd hgroup List.not_mem_nil
  length_le group hgroup := absurd hgroup List.not_mem_nil

theorem getElem?_concat_eq_some_iff {α : Type} {l : List α} {a b : α} :
    (l ++ [a])[n]? = some b ↔ l[n]? = some b ∨ n = l.length ∧ a = b := by
  rcases Nat.lt_trichotomy n l.length with hlt | rfl | hlt
  · simp [List.getElem?_append_left hlt, Nat.ne_of_lt hlt]
  · simp
  · have hlength : (l ++ [a]).length ≤ n := by
      rw [List.length_append, List.length_singleton]
      exact hlt
    rw [List.getElem?_eq_none hlength, List.getElem?_eq_none hlt.le]
    simp [Nat.ne_of_gt hlt]

/-- A group that is added keeps the dictionary sound. -/
theorem Sound.add (h : d.Sound) (hadd : d.add terms = (d', none)) : d'.Sound := by
  rw [Synonyms.add] at hadd
  split at hadd
  · obtain rfl : d = d' := congrArg Prod.fst hadd
    exact h
  · split at hadd
    · exact absurd (congrArg Prod.snd hadd) (by simp)
    · next d₁ henter =>
      obtain rfl := congrArg Prod.fst hadd
      obtain ⟨hgroups, hmax, hindex, hterms⟩ := enterTerms_spec henter
      refine ⟨fun term n => ?_, ?_, ?_⟩
      · -- A term of the group was in no group before.
        rw [hindex, hgroups]
        simp only [getElem?_concat_eq_some_iff, or_and_right, exists_or, ← h.index_iff]
        by_cases hterm : term ∈ distinctTerms terms
        · simp [hterm, (hterms term hterm).1, eq_comm]
        · simp [hterm]
      · rw [hgroups]
        exact List.forall_mem_append.2 ⟨h.isNormal, List.forall_mem_singleton.2 fun term hterm =>
          isNormal_of_mem_distinctTerms hterm⟩
      · rw [hgroups]
        exact List.forall_mem_append.2
          ⟨fun group hgroup term hterm => (h.length_le group hgroup term hterm).trans hmax,
            List.forall_mem_singleton.2 fun term hterm => (hterms term hterm).2⟩

/-- What holds without groups, and of one more group if it is added, holds of a dictionary of groups. -/
theorem ofGroups_induction {P : List (List String) → Synonyms → Prop} (hempty : P [] empty)
    (hadd : ∀ {groups d terms d'}, P groups d → d.add terms = (d', none) → P (groups ++ [terms]) d')
    {groups : List (List String)} (h : ofGroups groups = .ok d) : P groups d := by
  induction groups using List.reverseRecOn generalizing d with
  | nil =>
    obtain rfl : empty = d := Except.ok.inj h
    exact hempty
  | append_singleton groups terms ih =>
    rw [ofGroups, List.foldlM_append, ← ofGroups] at h
    cases hgroups : ofGroups groups with
    | error failure =>
      rw [hgroups] at h
      exact absurd h (by simp [bind, Except.bind])
    | ok d₁ =>
      rw [hgroups] at h
      rcases hterms : d₁.add terms with ⟨d₂, _ | failure⟩
      · have heq : d₂ = d := by simpa [bind, Except.bind, pure, Except.pure, hterms] using h
        exact heq ▸ hadd (ih hgroups) hterms
      · exact absurd h (by simp [bind, Except.bind, hterms])

/-- A dictionary of groups is sound. -/
theorem sound_ofGroups {groups : List (List String)} (h : ofGroups groups = .ok d) : d.Sound :=
  ofGroups_induction (P := fun _ d => d.Sound) sound_empty (fun hd hadd => hd.add hadd) h

/-- The groups of a dictionary are those with two distinct terms or more. -/
theorem groups_ofGroups {groups : List (List String)} (h : ofGroups groups = .ok d) :
    d.groups = (groups.map distinctTerms).filter fun group => 2 ≤ group.length := by
  refine ofGroups_induction (P := fun groups d =>
    d.groups = (groups.map distinctTerms).filter fun group => 2 ≤ group.length) rfl
    (fun {groups d terms d'} hgroups hadd => ?_) h
  rw [List.map_append, List.filter_append, ← hgroups, List.map_singleton]
  rw [Synonyms.add] at hadd
  split at hadd
  · next hshort =>
    obtain rfl : d = d' := congrArg Prod.fst hadd
    simp [Nat.not_le.2 hshort]
  · next hlong =>
    split at hadd
    · exact absurd (congrArg Prod.snd hadd) (by simp)
    · next d₁ henter =>
      obtain rfl := congrArg Prod.fst hadd
      simp [(enterTerms_spec henter).1, Nat.not_lt.1 hlong]

/-- The words of a dictionary are the lower case of words. -/
theorem exists_lowercase_eq {groups : List (List String)} (h : ofGroups groups = .ok d)
    (hgroup : group ∈ d.groups) (hterm : term ∈ group) {w : String} (hw : w ∈ termWords term) :
    ∃ v, lowercase v = w := by
  rw [groups_ofGroups h] at hgroup
  obtain ⟨terms, -, rfl⟩ := List.mem_map.1 (List.mem_filter.1 hgroup).1
  obtain ⟨t, rfl, hne⟩ := exists_of_mem_distinctTerms hterm
  rw [termWords_normalize hne] at hw
  obtain ⟨v, -, hv⟩ := List.mem_map.1 hw
  exact ⟨v, hv⟩

namespace Sound

variable (h : d.Sound)
include h

/-- A group that is found is the one that the term is in. -/
theorem group?_eq_some_iff : d.group? term = some group ↔ group ∈ d.groups ∧ term ∈ group := by
  rw [group?, Option.bind_eq_some_iff, List.mem_iff_getElem?]
  constructor
  · rintro ⟨n, hn, hgroup⟩
    obtain ⟨group', hgroup', hterm⟩ := (h.index_iff term n).1 hn
    obtain rfl : group' = group := Option.some_inj.1 (hgroup'.symm.trans hgroup)
    exact ⟨⟨n, hgroup⟩, hterm⟩
  · rintro ⟨⟨n, hn⟩, hterm⟩
    exact ⟨n, (h.index_iff term n).2 ⟨group, hn, hterm⟩, hn⟩

end Sound

end Synonyms

/-! ### The words of a text -/

open Synonyms (BeginsBlank)

/-- A piece of a text with a blank in its lower case begins with a blank. -/
theorem beginsBlank_lowercase {cs p : List Char} (hp : p ∈ wordPieces cs) :
    BeginsBlank (lowercase (String.ofList p)) := by
  intro hblank
  rw [lowercase, String.toList_ofList, String.toList_ofList] at hblank ⊢
  have hmem : ' ' ∈ p := mem_of_isBlank_mem_lowerFrom hblank (by decide)
  obtain ⟨b, hb, hspace⟩ := begins_of_space_mem_wordPieces hp hmem (by decide)
  obtain ⟨rest, rfl⟩ := List.head?_eq_some_iff.1 (Option.mem_def.1 hb)
  exact ⟨b, by rw [lowerFrom_of_space hspace]; rfl, isBlank_of_space hspace⟩

namespace WordAnalyzer

theorem beginsBlank_of_mem_survivingWords {a : WordAnalyzer} {phrase : String} {t : Token}
    (h : t ∈ a.survivingWords phrase) : BeginsBlank t.text := by
  obtain ⟨A, p, B, hkeeps⟩ := exists_keepsPiece h
  obtain ⟨-, htext, -⟩ := kept_singleton_iff.1 hkeeps.kept_eq
  have hp : p ∈ wordPieces phrase.toList := by simp [hkeeps.wordPieces_eq]
  rw [← htext]
  exact beginsBlank_lowercase hp

end WordAnalyzer

namespace Segment

/-- What may be chosen for a segment: the word by itself, or the words of a term of the group that was
    found. -/
inductive Offers (d : Synonyms) : Segment → List String → Prop
  | single (t : Token) : Offers d (.single t) [t.text]
  | matched {typed : List Token} {alternatives : List (List String)} {group : List String}
      {term : String} : d.group? (" ".intercalate (typed.map (·.text))) = some group → term ∈ group →
      Offers d (.matched typed alternatives) (Synonyms.termWords term)

/-- What may be chosen for a segment are the words of its terms. -/
theorem offers_iff {d : Synonyms} {s : Segment} {ws : List String} (hd : d.Sound) (hs : s.IsCut d)
    (htexts : ∀ t ∈ s.typed, BeginsBlank t.text) : s.Offers d ws ↔ ws ∈ s.terms := by
  cases hs with
  | single t =>
    constructor
    · rintro ⟨⟩
      exact List.mem_cons_self
    · intro hws
      obtain rfl := List.mem_singleton.1 hws
      exact .single t
  | @matched typed group hne hgroup =>
    obtain ⟨hmem, hterm⟩ := (hd.group?_eq_some_iff).1 hgroup
    -- The words that were typed are those of the term that was found.
    have htyped : Synonyms.termWords (" ".intercalate (typed.map (·.text))) = typed.map (·.text) :=
      (hd.isNormal group hmem _ hterm).termWords_eq (by simpa using hne)
        (List.forall_mem_map.2 htexts)
    constructor
    · intro h
      cases h with
      | @matched _ _ group' term hgroup' hterm' =>
        obtain rfl : group = group' := Option.some_inj.1 (hgroup.symm.trans hgroup')
        by_cases heq : term = " ".intercalate (typed.map (·.text))
        · rw [heq, htyped]
          exact List.mem_cons_self
        · refine List.mem_cons_of_mem _ (List.mem_map_of_mem (List.mem_filter.2 ⟨hterm', ?_⟩))
          simpa using heq
    · intro hws
      rcases List.mem_cons.1 hws with rfl | hws
      · rw [← htyped]
        exact .matched hgroup hterm
      · obtain ⟨term, hterm, rfl⟩ := List.mem_map.1 hws
        exact .matched hgroup (List.mem_filter.1 hterm).1

end Segment

end PhraseGraph
