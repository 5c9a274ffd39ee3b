import PhraseGraph.Intent
import PhraseGraph.Proofs.CachedWork
import PhraseGraph.Proofs.Matching.Tiling

/-!
# The intents of queries

The text of a query is compared with the patterns of a grammar one after another. The search stops at the
first pattern that the text matches, and only then are the values of that match looked at: if they are not
valid, no intent is found (`searchIntent_eq`). So a pattern that matches with values that are not valid
hides the patterns behind it. The intent is that of the first match with valid values if and only if no
pattern hides one (`searchIntent_eq_firstValid_iff`).

Where the comparison with a pattern does not end, there is no intent and no answer that there is none. So
a pattern can hide that as well: a search that has stopped at it does not get to the pattern that it would
not come back from.
-/

namespace PhraseGraph

/-! ### Ways that hide others -/

namespace Outcome

variable {α : Type} {f : α → Outcome} {valid : Match → Bool} {l : List α} {o : Outcome} {a : α}
  {m : Match}

/-- Keeps a match only if it is valid. -/
def filter (valid : Match → Bool) (o : Outcome) : Outcome :=
  o.bind fun m => if valid m then found m else absent

/-- The first way that does not fail leads to a match that is not valid, though some way leads to a valid
    one or does not end. -/
def Hides (f : α → Outcome) (valid : Match → Bool) (l : List α) : Prop :=
  ∃ m, first l f = found m ∧ valid m = false ∧
    ∃ a ∈ l, (∃ m', f a = found m' ∧ valid m' = true) ∨ f a = unfinished

theorem filter_eq_absent_iff : o.filter valid = absent ↔
    ¬ ((∃ m, o = found m ∧ valid m = true) ∨ o = unfinished) := by
  cases o with
  | found m => cases h : valid m <;> simp [filter, bind, h]
  | absent => simp [filter, bind]
  | unfinished => simp [filter, bind]

/-- Nothing is found if and only if no way finds anything. -/
theorem first_eq_absent_iff : first l f = absent ↔ ∀ a ∈ l, f a = absent := by
  induction l with
  | nil => simp [first]
  | cons a l ih =>
    rw [first, List.forall_mem_cons]
    cases ha : f a <;> simp [orElse, ih]

/-- As long as the first result is none that would be left out, only it counts. -/
theorem first_filter_eq (h : first l f = o) (ho : ∀ m, o = found m → valid m = true) :
    first l (fun a => (f a).filter valid) = o := by
  induction l with
  | nil => exact h
  | cons a l ih =>
    rw [first] at h ⊢
    cases ha : f a with
    | found m =>
      rw [ha] at h
      simp [filter, bind, ho m h.symm, orElse, ← h]
    | absent =>
      rw [ha] at h
      exact ih h
    | unfinished =>
      rw [ha] at h
      simp [filter, bind, orElse, ← h]

theorem map_result_eq_none_iff {β : Type} {h : Match → β} :
    o.result.map (Option.map h) = .ok none ↔ o = absent := by
  cases o <;> simp [result, Except.map]

/-- To look at the first result only gives the first valid one if and only if no way hides another. -/
theorem map_result_filter_first_eq_iff {β : Type} {h : Match → β} :
    ((first l f).filter valid).result.map (Option.map h) =
      (first l fun a => (f a).filter valid).result.map (Option.map h) ↔ ¬ Hides f valid l := by
  by_cases ho : ∀ m, first l f = found m → valid m = true
  · have hkept : (first l f).filter valid = first l f := by
      cases hfirst : first l f with
      | found m => simp [filter, bind, ho m hfirst]
      | absent => rfl
      | unfinished => rfl
    rw [hkept, first_filter_eq rfl ho]
    refine iff_of_true rfl ?_
    rintro ⟨m, hfirst, hm, -⟩
    exact absurd (ho m hfirst) (by simp [hm])
  · push Not at ho
    obtain ⟨m, hfirst, hvalid⟩ := ho
    have hm : valid m = false := Bool.eq_false_iff.2 hvalid
    have hhides : Hides f valid l ↔
        ∃ a ∈ l, (∃ m', f a = found m' ∧ valid m' = true) ∨ f a = unfinished := by
      constructor
      · rintro ⟨-, -, -, h⟩
        exact h
      · exact fun h => ⟨m, hfirst, hm, h⟩
    have hleft : (first l f).filter valid = absent := by simp [hfirst, filter, bind, hm]
    rw [hleft, map_result_eq_none_iff.2 rfl, eq_comm, map_result_eq_none_iff, hhides, first_eq_absent_iff]
    simp only [filter_eq_absent_iff, not_exists, not_and]

end Outcome

/-! ### The first valid match -/

namespace Grammar

variable {g : Grammar (List TokenGraph)} {s : Surroundings} {q : Query} {text : TokenGraph}
  {phrase : String}

/-- How the search for a pattern in a whole text ends. -/
def wholeMatch (g : Grammar (List TokenGraph)) (s : Surroundings) (text pattern : TokenGraph) :
    Outcome :=
  outcomeOf text pattern false (s.variablesOf g.language)

/-- Whether the values of a match are valid for the intent. -/
def accepts (g : Grammar (List TokenGraph)) (s : Surroundings) (m : Match) : Bool :=
  validVariables g.intent (valuesOf m.values) s.oracle

/-- The match of a whole text with the first pattern for which there is one. -/
def firstMatch (g : Grammar (List TokenGraph)) (s : Surroundings) (text : TokenGraph) : Outcome :=
  .first g.patterns (g.wholeMatch s text)

/-- The match of a whole text with the first pattern for which there is one with valid values. -/
def firstValid (g : Grammar (List TokenGraph)) (s : Surroundings) (text : TokenGraph) : Outcome :=
  .first g.patterns fun pattern => (g.wholeMatch s text pattern).filter (g.accepts s)

/-- The intent of the match that is found, if one is. -/
def intentFound (g : Grammar (List TokenGraph)) (s : Surroundings) (o : Outcome) :
    Except Failure (Option Intent) :=
  o.result.map (Option.map fun m => g.intentOf s.filterNames m.values)

/-- A match of a whole text leaves nothing to be listed. -/
theorem continuationTexts_wholeMatch {pattern : TokenGraph} {m : Match}
    (h : g.wholeMatch s text pattern = .found m) : continuationTexts text m = .ok [] := by
  have hnil : m.continuation = [] := (derives_search m h).continuation_eq_nil rfl
  rw [continuationTexts, hnil]
  rfl

theorem continuationTexts_firstMatch {m : Match} (h : g.firstMatch s text = .found m) :
    continuationTexts text m = .ok [] :=
  Outcome.Ensures.first (P := fun m => continuationTexts text m = .ok [])
    (fun _ _ _ hm => continuationTexts_wholeMatch hm) m h

/-- The intent of a text is that of the first match, if its values are valid. -/
theorem map_intentOfText : (g.intentOfText s text false).map (Option.map PartialIntent.intent) =
    g.intentFound s ((g.firstMatch s text).filter (g.accepts s)) := by
  have hmatch : matchPatterns text g.patterns false (s.variablesOf g.language) =
      g.firstMatch s text := rfl
  rw [intentOfText, hmatch]
  cases hfirst : g.firstMatch s text with
  | absent => rfl
  | unfinished => rfl
  | found m =>
    show Except.map _ (if g.accepts s m = true then _ else _) = _
    cases hvalid : g.accepts s m with
    | true =>
      rw [if_pos rfl, continuationTexts_firstMatch hfirst, Outcome.filter, Outcome.bind, hvalid]
      rfl
    | false =>
      rw [if_neg Bool.false_ne_true, Outcome.filter, Outcome.bind, hvalid]
      rfl

/-- The intent of a query is that of the first pattern that its text matches, if the values are
    valid. -/
theorem searchIntent_eq (c : GraphCache) (hmeet : q.filters.meet g.filters = true)
    (hphrase : q.simpleText? = some phrase) : (Cached.perform c (g.searchIntent s q)).1 =
      (Cached.perform c (s.graphOfText phrase g.language)).1.bind fun text =>
        g.intentFound s ((g.firstMatch s text).filter (g.accepts s)) := by
  have hfind : g.findIntent s q false = (do
      let text ← s.graphOfText phrase g.language
      g.intentOfText s text false) := by
    rw [findIntent, hmeet, hphrase]
    rfl
  rw [searchIntent, hfind, Cached.perform_bind, Cached.perform_bind]
  rcases Cached.perform c (s.graphOfText phrase g.language) with ⟨failure | text, c'⟩
  · rfl
  · simp only [Cached.perform_lift, Except.bind, ← map_intentOfText]
    cases g.intentOfText s text false <;> rfl

/-- The intent of a query is that of the first pattern that its text matches, if the values are valid.
    It is that of the first match with valid values if and only if no pattern hides one. -/
theorem searchIntent_eq_firstValid_iff (c : GraphCache) (hmeet : q.filters.meet g.filters = true)
    (hphrase : q.simpleText? = some phrase) :
    (Cached.perform c (g.searchIntent s q)).1 =
        ((Cached.perform c (s.graphOfText phrase g.language)).1.bind fun text =>
          g.intentFound s ((g.firstMatch s text).filter (g.accepts s))) ∧
      ((Cached.perform c (g.searchIntent s q)).1 =
          ((Cached.perform c (s.graphOfText phrase g.language)).1.bind fun text =>
            g.intentFound s (g.firstValid s text)) ↔
        ∀ text, (Cached.perform c (s.graphOfText phrase g.language)).1 = .ok text →
          ¬ Outcome.Hides (g.wholeMatch s text) (g.accepts s) g.patterns) := by
  have heq := searchIntent_eq c (s := s) hmeet hphrase
  refine ⟨heq, ?_⟩
  rw [heq]
  cases (Cached.perform c (s.graphOfText phrase g.language)).1 with
  | error failure => exact iff_of_true rfl fun text htext => absurd htext (by simp)
  | ok text =>
    simp only [Except.bind, Except.ok.injEq, forall_eq']
    exact Outcome.map_result_filter_first_eq_iff

end Grammar

namespace Example

/-- Conventions by year, and one year more. -/
def congresses : Grammar (List TokenGraph) where
  hitType := landingPage
  language := "en"
  intent := "conventions"
  filters := ∅
  patterns := [graphOf "congress $Year", graphOf "congress 2018"]

/-- An archive with a single convention, in 2019. -/
def oneConvention : Surroundings where
  analyzer := .uniform .english
  byLanguage := .ofList [("en", .ofVariables [.year 1996])]
  oracle := some (Catalogue.addConvention {} "Moscow" "2019").oracle
  filterNames := defaultFilterNames

/-- A query for a term. -/
def askFor (term : String) : Query := { term }

/-- The convention that there is, is found. -/
theorem congress_2019_found :
    ((askFor "The Congress of 2019").filters.meet congresses.filters = true ∧
      (askFor "The Congress of 2019").simpleText? = some "The Congress of 2019") ∧
    ((Cached.perform .disabled
        (congresses.searchIntent oneConvention (askFor "The Congress of 2019"))).1 =
        ((Cached.perform .disabled
          (oneConvention.graphOfText "The Congress of 2019" congresses.language)).1.bind fun text =>
            congresses.intentFound oneConvention
              ((congresses.firstMatch oneConvention text).filter (congresses.accepts oneConvention))) ∧
      ((Cached.perform .disabled
          (congresses.searchIntent oneConvention (askFor "The Congress of 2019"))).1 =
          ((Cached.perform .disabled
            (oneConvention.graphOfText "The Congress of 2019" congresses.language)).1.bind fun text =>
              congresses.intentFound oneConvention (congresses.firstValid oneConvention text)) ↔
        ∀ text, (Cached.perform .disabled
            (oneConvention.graphOfText "The Congress of 2019" congresses.language)).1 = .ok text →
          ¬ Outcome.Hides (congresses.wholeMatch oneConvention text)
            (congresses.accepts oneConvention) congresses.patterns)) := by
  have hmeet : (askFor "The Congress of 2019").filters.meet congresses.filters = true :=
    rfl
  have hphrase : (askFor "The Congress of 2019").simpleText? =
      some "The Congress of 2019" := by decide +kernel
  exact ⟨⟨hmeet, hphrase⟩, Grammar.searchIntent_eq_firstValid_iff .disabled hmeet hphrase⟩

/-- There was no convention in 2018, so the first pattern hides the second one. -/
theorem congress_2018_hidden :
    (askFor "congress 2018").filters.meet congresses.filters = true ∧
      (askFor "congress 2018").simpleText? = some "congress 2018" ∧
      (Cached.perform .disabled
        (oneConvention.graphOfText "congress 2018" congresses.language)).1 =
          .ok (graphOf "congress 2018") ∧
      congresses.firstValid oneConvention (graphOf "congress 2018") =
        .found { values := [.text "" "congress" "" "congress", .text " " "2018" "" "2018"] } ∧
      (Cached.perform .disabled
        (congresses.searchIntent oneConvention (askFor "congress 2018"))).1 = .ok none := by
  refine ⟨rfl, by decide +kernel, rfl, by decide +kernel, by decide +kernel⟩

end Example

end PhraseGraph
