import Mathlib.Data.List.TakeWhile
import PhraseGraph.Proofs.Entries
import PhraseGraph.Proofs.Expansion
import PhraseGraph.Proofs.Matching.Exactness
import PhraseGraph.Proofs.Matching.Tiling
import PhraseGraph.Proofs.Results

/-!
# The phrases of a pattern in a row

Where no synonym is put into a pattern its graph is a row of nodes, each with one origin
(`InRow.isRow_ofTokens`). A phrase of the whole pattern has one binding for each node
(`Phrase.Binds`).

What is listed along a row may be shorter. A node is taken for an end if nothing is listed below it, and
nothing is listed below a node whose successor has no phrases of its own, as a table without values. So the
listing goes up to the first node without a phrase, and has the choices of phrases for the nodes before it
(`IsRow.expand_eq`). The phrases are whole if and only if there is no such node, or it is the first one of
all (`listsWhole_listed_iff`).
-/

namespace PhraseGraph

/-! ### Choices -/

/-- The phrases that have a part from each list, in the order of the lists. The first part changes
    first. -/
def Phrase.choices : List (List Phrase) → List Phrase
  | [] => [⟨[]⟩]
  | own :: rest => (choices rest).flatMap fun p => own.map fun first => first.append p

/-- The lists before the first one that is empty. -/
def beforeGap (parts : List (List Phrase)) : List (List Phrase) :=
  parts.takeWhile fun own => !own.isEmpty

/-- What is listed along a row of nodes that have the given phrases of their own. -/
def listedAlongRow (parts : List (List Phrase)) : List Phrase :=
  if beforeGap parts = [] then [] else Phrase.choices (beforeGap parts)

/-- Every phrase of the list is a single binding. -/
def SingleBindings (own : List Phrase) : Prop := ∀ q ∈ own, ∃ b, q = ⟨[b]⟩

/-- The phrase has one binding for each list, which is a phrase of the list. -/
def Phrase.Binds (parts : List (List Phrase)) (p : Phrase) : Prop :=
  List.Forall₂ (fun own b => (⟨[b]⟩ : Phrase) ∈ own) parts p.values

/-- Every phrase binds all nodes of a row, and where a node has no phrase none is listed. -/
def ListsWhole (parts : List (List Phrase)) (listed : List Phrase) : Prop :=
  (∀ p ∈ listed, p.Binds parts) ∧ ([] ∈ parts → listed = [])

section Choices

variable {own : List Phrase} {parts : List (List Phrase)} {p : Phrase}

theorem ne_nil_of_mem_beforeGap (h : own ∈ beforeGap parts) : own ≠ [] := by
  simpa using List.mem_takeWhile_imp h

theorem beforeGap_cons (h : own ≠ []) : beforeGap (own :: parts) = own :: beforeGap parts := by
  rw [beforeGap, List.takeWhile_cons_of_pos (by simpa using h)]
  rfl

theorem beforeGap_eq_self (h : [] ∉ parts) : beforeGap parts = parts := by
  refine List.takeWhile_eq_self_iff.2 fun own hown => ?_
  simp only [Bool.not_eq_true', List.isEmpty_eq_false_iff]
  rintro rfl
  exact h hown

theorem choices_ne_nil (h : ∀ own ∈ parts, own ≠ []) : Phrase.choices parts ≠ [] := by
  induction parts with
  | nil => exact List.cons_ne_nil _ _
  | cons own parts ih =>
    obtain ⟨first, hfirst⟩ := List.exists_mem_of_ne_nil own (h own List.mem_cons_self)
    obtain ⟨p, hp⟩ := List.exists_mem_of_ne_nil _ (ih fun l hl => h l (List.mem_cons_of_mem _ hl))
    exact List.ne_nil_of_mem (List.mem_flatMap.2 ⟨p, hp, List.mem_map_of_mem hfirst⟩)

theorem listedAlongRow_eq_nil_iff : listedAlongRow parts = [] ↔ beforeGap parts = [] := by
  rw [listedAlongRow]
  split
  · next h => simp [h]
  · next h => simp [h, choices_ne_nil fun own => ne_nil_of_mem_beforeGap]

/-- Where the parts are single bindings, a choice is a phrase that binds each list. -/
theorem mem_choices_iff (hsingle : ∀ own ∈ parts, SingleBindings own) :
    p ∈ Phrase.choices parts ↔ p.Binds parts := by
  induction parts generalizing p with
  | nil =>
    obtain ⟨values⟩ := p
    simp [Phrase.choices, Phrase.Binds]
  | cons own parts ih =>
    have ih : ∀ q, q ∈ Phrase.choices parts ↔ q.Binds parts := fun q =>
      ih fun l hl => hsingle l (List.mem_cons_of_mem _ hl)
    simp only [Phrase.choices, List.mem_flatMap, List.mem_map]
    constructor
    · rintro ⟨rest, hrest, first, hfirst, rfl⟩
      obtain ⟨b, rfl⟩ := hsingle own List.mem_cons_self first hfirst
      exact .cons hfirst ((ih rest).1 hrest)
    · intro hp
      obtain ⟨values⟩ := p
      cases hp with
      | @cons _ b _ values hb hvalues =>
        exact ⟨⟨values⟩, (ih ⟨values⟩).2 hvalues, ⟨[b]⟩, hb, rfl⟩

/-- What is listed binds the nodes before the first one without a phrase. -/
theorem mem_listedAlongRow_iff (hsingle : ∀ own ∈ parts, SingleBindings own) :
    p ∈ listedAlongRow parts ↔ beforeGap parts ≠ [] ∧ p.Binds (beforeGap parts) := by
  have hbefore := @mem_choices_iff (beforeGap parts) p fun own hown =>
    hsingle own (List.takeWhile_subset _ hown)
  rw [listedAlongRow]
  split
  · next h => simp [h]
  · next h => rw [hbefore, and_iff_right h]

/-- What is listed is whole if and only if no node is without a phrase, or the first one is. -/
theorem listsWhole_listed_iff (hsingle : ∀ own ∈ parts, SingleBindings own) :
    ListsWhole parts (listedAlongRow parts) ↔ [] ∉ parts ∨ parts.head? = some [] := by
  constructor
  · rintro ⟨-, hnone⟩
    refine or_iff_not_imp_left.2 fun hgap => ?_
    have hnil := listedAlongRow_eq_nil_iff.1 (hnone (not_not.1 hgap))
    cases parts with
    | nil => exact absurd List.not_mem_nil hgap
    | cons own parts =>
      by_contra hown
      have hown : own ≠ [] := fun heq => hown (congrArg some heq)
      exact List.cons_ne_nil _ _ ((beforeGap_cons hown).symm.trans hnil)
  · rintro (hgap | hfirst)
    · refine ⟨fun p hp => ?_, fun hmem => absurd hmem hgap⟩
      have hbinds := ((mem_listedAlongRow_iff hsingle).1 hp).2
      rwa [beforeGap_eq_self hgap] at hbinds
    · have hnil : listedAlongRow parts = [] := by
        obtain ⟨rest, rfl⟩ := List.head?_eq_some_iff.1 hfirst
        rfl
      exact ⟨fun p hp => absurd (hnil ▸ hp) List.not_mem_nil, fun _ => hnil⟩

end Choices

/-! ### Listing along a row -/

theorem Enumeration.gather_singleton {α β : Type} {a : α} {f : α → Enumeration β} :
    gather [a] f = f a := by
  rw [gather_cons]
  exact append_empty _

theorem Enumeration.exists_of_mem_items_gather {α β : Type} {l : List α} {f : α → Enumeration β}
    {x : β} (h : x ∈ (gather l f).items) : ∃ a ∈ l, x ∈ (f a).items := by
  induction l with
  | nil => exact absurd h List.not_mem_nil
  | cons a l ih =>
    rw [gather_cons, append] at h
    split at h
    · exact ⟨a, List.mem_cons_self, h⟩
    · rcases List.mem_append.1 h with h | h
      · exact ⟨a, List.mem_cons_self, h⟩
      · obtain ⟨b, hb, hx⟩ := ih h
        exact ⟨b, List.mem_cons_of_mem _ hb, hx⟩

theorem Variable.singleBindings_phrases {v : Variable} {now : Int} {pre suf : String}
    {own : List Phrase} (h : v.phrases now pre suf = .ok own) : SingleBindings own := by
  intro q hq
  cases v with
  | year start =>
    obtain rfl := Except.ok.inj h
    obtain ⟨y, -, rfl⟩ := List.mem_map.1 hq
    exact ⟨_, rfl⟩
  | table name values =>
    rw [phrases, Enumeration.all] at h
    split at h
    · obtain rfl := Except.ok.inj h
      obtain ⟨⟨value, g⟩, -, hq⟩ := Enumeration.exists_of_mem_items_gather hq
      obtain ⟨p, -, rfl⟩ := List.mem_map.1 hq
      exact ⟨_, rfl⟩
    · exact absurd h (by simp)

section Through

variable {own : List Phrase} {parts : List (List Phrase)} {isEnd : Bool}

theorem phrasesThrough_ofList {below : List Phrase} : phrasesThrough own isEnd (.ofList below) =
    .ofList ((below.flatMap fun rest => own.map fun first => first.append rest) ++
      if isEnd || below.isEmpty then own else []) := rfl

/-- What is listed through a node of a row, where a phrase may end at the last node only. -/
theorem phrasesThrough_listedAlongRow (hend : isEnd = true → parts = []) :
    phrasesThrough own isEnd (.ofList (listedAlongRow parts)) =
      .ofList (listedAlongRow (own :: parts)) := by
  rw [phrasesThrough_ofList]
  by_cases hown : own = []
  · subst hown
    rw [ite_self, List.append_nil, List.flatMap_eq_nil_iff.2 fun _ _ => List.map_nil]
    rfl
  · rw [listedAlongRow, listedAlongRow, beforeGap_cons hown, if_neg (List.cons_ne_nil _ _),
      Phrase.choices]
    by_cases hgap : beforeGap parts = []
    · -- Nothing is listed below, so the node is taken for an end.
      simp [hgap, Phrase.choices, Phrase.append]
    · have hfalse : isEnd = false := by
        rw [← Bool.not_eq_true]
        exact fun h => hgap (by rw [hend h]; rfl)
      have hsome : Phrase.choices (beforeGap parts) ≠ [] :=
        choices_ne_nil fun own => ne_nil_of_mem_beforeGap
      simp [hgap, hfalse, hsome]

end Through

namespace TokenGraph

variable {g : TokenGraph} {now : Int} {vars : Variables} {ids row : List NodeId} {id : NodeId}
  {r : OriginId} {steps : Nat}

/-- The phrases that a node contributes by itself: those of its first origin. -/
def phrasesAt (g : TokenGraph) (now : Int) (vars : Variables) (id : NodeId) :
    Except Failure (List Phrase) :=
  match g.firstOrigin? id with
  | some o => g.ownPhrases now vars o
  | none => .ok []

theorem singleBindings_ownPhrases {o : Origin} {own : List Phrase}
    (h : g.ownPhrases now vars o = .ok own) : SingleBindings own := by
  rw [ownPhrases] at h
  split at h
  · exact Variable.singleBindings_phrases h
  · obtain ⟨p, hp, hown⟩ := bind_eq_ok_iff.1 h
    obtain ⟨n, -, hliteral⟩ := bind_eq_ok_iff.1 hp
    obtain rfl := Except.ok.inj hown
    obtain rfl := Except.ok.inj hliteral
    exact fun q hq => ⟨_, List.mem_singleton.1 hq⟩

theorem singleBindings_phrasesAt {own : List Phrase} (h : g.phrasesAt now vars id = .ok own) :
    SingleBindings own := by
  rw [phrasesAt] at h
  split at h
  · exact singleBindings_ownPhrases h
  · obtain rfl := Except.ok.inj h
    exact fun q hq => absurd hq List.not_mem_nil

theorem singleBindings_of_mapM {parts : List (List Phrase)}
    (h : row.mapM (g.phrasesAt now vars) = .ok parts) : ∀ own ∈ parts, SingleBindings own := by
  intro own hown
  obtain ⟨hlength, heach⟩ := List.forall₂_iff_get.1 (mapM_eq_ok_iff.1 h)
  obtain ⟨i, hi, rfl⟩ := List.getElem_of_mem hown
  exact singleBindings_phrasesAt (heach i (hlength ▸ hi) hi)

theorem Sole.contribution_eq (h : g.Sole id r) :
    g.contribution (g.ownPhrases now vars) (g.origin r) =
      (g.phrasesAt now vars id).map fun own => (own, g.isEnd id) := by
  have hnode : g.nodeOf (g.origin r) = .ok (g.node id) := by
    rw [nodeOf_eq_ok (h.node_eq ▸ h.lt_size), h.node_eq]
  have hown : g.phrasesAt now vars id = g.ownPhrases now vars (g.origin r) := by
    rw [phrasesAt, h.firstOrigin?_eq]
  rw [contribution, hnode, hown]
  cases g.ownPhrases now vars (g.origin r) <;> rfl

/-- What is listed along a row whose nodes stand for one token each: what the nodes have by themselves
    up to the first one without a phrase, or the first failure of a node. -/
theorem IsRow.expand_eq (hrow : g.IsRow ids row) (hsole : ∀ id ∈ row, ∃ r, g.Sole id r)
    (hsteps : row.length ≤ steps) :
    g.expand (g.ownPhrases now vars) steps (g.originsOf ids) =
      match row.mapM (g.phrasesAt now vars) with
      | .error failure => .failed failure
      | .ok parts => .ofList (listedAlongRow parts) := by
  induction row generalizing ids steps with
  | nil =>
    obtain rfl : ids = [] := hrow
    cases steps <;> rfl
  | cons id row ih =>
    obtain ⟨rfl, hend, hbelow⟩ := hrow
    obtain ⟨steps, rfl⟩ := Nat.exists_eq_add_one_of_ne_zero (Nat.ne_zero_of_lt hsteps)
    obtain ⟨r, hr⟩ := hsole id List.mem_cons_self
    have ih := ih hbelow (fun c hc => hsole c (List.mem_cons_of_mem _ hc))
      (Nat.le_of_succ_le_succ hsteps)
    have horigins : g.originsOf [id] = [r] := by simp [originsOf, hr.origins_eq]
    rw [horigins, expand, Enumeration.gather_singleton, hr.contribution_eq, hr.children_eq, ih,
      List.mapM_cons]
    cases g.phrasesAt now vars id with
    | error failure => rfl
    | ok own =>
      cases hparts : row.mapM (g.phrasesAt now vars) with
      | error failure => rfl
      | ok parts =>
        have hend : g.isEnd id = true → parts = [] := fun he => by
          rw [hend he] at hparts
          exact (Except.ok.inj hparts).symm
        exact phrasesThrough_listedAlongRow hend

end TokenGraph

/-! ### The row of a pattern -/

namespace InRow

variable {tokens : List Token} {pattern : String}

theorem isRow_from (h : InRow pattern.toList tokens) {k n : Nat} (hn : k + n = tokens.length) :
    (TokenGraph.ofTokens tokens pattern).IsRow (if k < tokens.length then [k] else [])
      (List.range' k n) := by
  induction n generalizing k with
  | zero => exact if_neg (by omega)
  | succ n ih =>
    have hk : k < tokens.length := by omega
    refine ⟨if_pos hk, fun hend => ?_, ?_⟩
    · have hleaf := h.onePerSlot.isEnd_iff_children_eq_nil hk |>.1 hend
      rw [h.onePerSlot.children_ofTokens, h.onePerSlot.children_forest] at hleaf
      have hlast : ¬ k + 1 < tokens.length := fun hlt => by simp [hlt] at hleaf
      obtain rfl : n = 0 := by omega
      rfl
    · rw [h.onePerSlot.children_ofTokens, h.onePerSlot.children_forest]
      exact ih (by omega)

/-- The nodes of a row are its tokens in order. -/
theorem isRow_ofTokens (h : InRow pattern.toList tokens) :
    (TokenGraph.ofTokens tokens pattern).IsRow (TokenGraph.ofTokens tokens pattern).roots
      (List.range' 0 tokens.length) := by
  have hrow := h.isRow_from (k := 0) (Nat.zero_add _)
  by_cases hne : tokens = []
  · subst hne
    rfl
  · rw [h.onePerSlot.roots_ofTokens hne]
    rwa [if_pos (List.length_pos_iff.2 hne)] at hrow

theorem exists_sole (h : InRow pattern.toList tokens) {id : NodeId}
    (hid : id ∈ List.range' 0 tokens.length) :
    ∃ r, (TokenGraph.ofTokens tokens pattern).Sole id r := by
  have hlt : id < tokens.length := by
    simpa using List.mem_range'_1.1 hid
  obtain ⟨r, hr, -⟩ := Provenance.existsUnique_madeFor pattern hlt
  exact ⟨r, h.sole hlt hr⟩

end InRow

/-- The phrases of a pattern in which no synonym shows: the choices for its nodes up to the first one
    without a phrase. They bind every node if and only if there is no such node, or it is the first
    one. -/
theorem ofPhrase_phrases_eq (a : WordAnalyzer) (pattern language : String) (now : Int)
    (vars : Variables) (hsynonyms : ∀ t ∈ a.analyze pattern, t.isSynonym = false) :
    ∃ g row, TokenGraph.ofPhrase (.uniform a) pattern language = .ok g ∧ g.IsRow g.roots row ∧
      row.length = (a.analyze pattern).length ∧
      match row.mapM (g.phrasesAt now vars) with
      | .error failure => g.phrases now vars = .failed failure
      | .ok parts => ∃ listed, g.phrases now vars = .ofList listed ∧ listed = listedAlongRow parts ∧
          (∀ p, p ∈ listed ↔ beforeGap parts ≠ [] ∧ p.Binds (beforeGap parts)) ∧
          (ListsWhole parts listed ↔ [] ∉ parts ∨ parts.head? = some []) := by
  have hinrow := WordAnalyzer.inRow_analyze hsynonyms
  refine ⟨TokenGraph.ofTokens (a.analyze pattern) pattern,
    List.range' 0 (a.analyze pattern).length, rfl, hinrow.isRow_ofTokens, List.length_range', ?_⟩
  have hsteps : (List.range' 0 (a.analyze pattern).length).length ≤
      (TokenGraph.ofTokens (a.analyze pattern) pattern).origins.size + 1 :=
    List.length_range'.trans_le (hinrow.length_le_size_origins.trans (Nat.le_succ _))
  have hexpand : (TokenGraph.ofTokens (a.analyze pattern) pattern).phrases now vars = _ :=
    hinrow.isRow_ofTokens.expand_eq (fun id => hinrow.exists_sole) hsteps
  split
  · next failure hfailure =>
    rw [hfailure] at hexpand
    exact hexpand
  · next parts hparts =>
    rw [hparts] at hexpand
    have hsingle := TokenGraph.singleBindings_of_mapM hparts
    exact ⟨listedAlongRow parts, hexpand, rfl, fun p => mem_listedAlongRow_iff hsingle,
      listsWhole_listed_iff hsingle⟩

namespace Example

/-- The congresses from 2023 on, with a stop word between the two words. -/
theorem congress_phrases :
    (∀ t ∈ WordAnalyzer.english.analyze "Congress in $Year", t.isSynonym = false) ∧
      ∃ g row, TokenGraph.ofPhrase (.uniform .english) "Congress in $Year" "en" = .ok g ∧
        g.IsRow g.roots row ∧
        row.length = (WordAnalyzer.english.analyze "Congress in $Year").length ∧
        match row.mapM (g.phrasesAt 2024 (.ofVariables [.year 2023])) with
        | .error failure => g.phrases 2024 (.ofVariables [.year 2023]) = .failed failure
        | .ok parts => ∃ listed, g.phrases 2024 (.ofVariables [.year 2023]) = .ofList listed ∧
            listed = listedAlongRow parts ∧
            (∀ p, p ∈ listed ↔ beforeGap parts ≠ [] ∧ p.Binds (beforeGap parts)) ∧
            (ListsWhole parts listed ↔ [] ∉ parts ∨ parts.head? = some []) := by
  have hsynonyms : ∀ t ∈ WordAnalyzer.english.analyze "Congress in $Year", t.isSynonym = false := by
    decide +kernel
  exact ⟨hsynonyms, ofPhrase_phrases_eq .english _ "en" _ _ hsynonyms⟩

/-- No place is known. -/
def noPlaces : Variables := .ofVariables [.table "$Place" ∅]

/-- No place comes up, whatever year it is, and the pattern is listed without it. -/
theorem congress_without_place_cut_short :
    (∀ t ∈ WordAnalyzer.english.analyze "congress $Place", t.isSynonym = false) ∧
      ∃ row parts listed,
        (graphOf "congress $Place").IsRow (graphOf "congress $Place").roots row ∧
        ∀ now, row.mapM ((graphOf "congress $Place").phrasesAt now noPlaces) = .ok parts ∧
          (graphOf "congress $Place").phrases now noPlaces = .ofList listed ∧
          ¬ ListsWhole parts listed := by
  have hyears : noPlaces.Yearless := yearless_table
  refine ⟨by decide +kernel, [0, 1], [[.text "" "congress" "" "congress"], []],
    [.text "" "congress" "" "congress"], ?_, fun now => ⟨?_, ?_, fun h => ?_⟩⟩
  · have hleaf : (graphOf "congress $Place").children 1 = [] := by decide +kernel
    exact ⟨by decide +kernel, by decide +kernel, by decide +kernel, fun _ => rfl, hleaf⟩
  · unfold TokenGraph.phrasesAt
    rw [hyears.ownPhrases_eq _ 2024]
    decide +kernel
  · rw [hyears.phrases_eq _ 2024]
    decide +kernel
  · exact absurd (h.2 (by decide)) (by decide)

end Example

end PhraseGraph
