import Mathlib.Tactic.Choose
import PhraseGraph.Engine
import PhraseGraph.Proofs.CachedWork

/-!
# Work that does not depend on the cache

A cache that work is done with holds graphs of one analyzer, each of which is the one that the analyzer
makes for its key (`GraphCache.MadeBy`). Work is transparent if it has the same result with all such caches
and leaves one of them (`Cached.Transparent`). To get the graph of a phrase is transparent, and so is all
work that is made up of transparent steps: loading tables (`Tables.transparent_load`) and matching and
searching queries (`Grammar.transparent_findIntent`, `Grammar.transparent_suggestions`).
-/

namespace PhraseGraph

/-- Each graph that is kept is the one that the analyzer makes for its key. -/
def GraphCache.MadeBy (analyzer : Analyzer) : GraphCache → Prop :=
  GraphCache.Keeps fun key g => TokenGraph.ofPhrase analyzer key.phrase key.language = .ok g

namespace Cached

/-- From all caches with graphs of the analyzer the work has the same result, and it leaves such a cache. -/
def Transparent {α : Type} (analyzer : Analyzer) (work : Cached α) : Prop :=
  ∃ x, Yields (GraphCache.MadeBy analyzer) work fun r => r = x

section Steps

variable {α β : Type} {analyzer : Analyzer} {work : Cached α}

theorem transparent_pure {a : α} : Transparent analyzer (pure a) := ⟨.ok a, yields_pure rfl⟩

theorem transparent_lift {x : Except Failure α} : Transparent analyzer (liftM x) := ⟨x, yields_lift⟩

theorem transparent_throw {failure : Failure} : Transparent analyzer (throw failure : Cached α) :=
  ⟨.error failure, fun _ hc => ⟨rfl, hc⟩⟩

theorem transparent_cached {phrase language : String} :
    Transparent analyzer (TokenGraph.cached analyzer phrase language) :=
  ⟨_, yields_cachedBy (fun _ _ hc hpeek => hc.of_peek?_eq_some hpeek) fun _ _ hc hg => hc.store hg⟩

/-- The result is the same with all caches. -/
theorem Transparent.perform_eq (h : Transparent analyzer work) {c c' : GraphCache}
    (hc : c.MadeBy analyzer) (hc' : c'.MadeBy analyzer) : (perform c work).1 = (perform c' work).1 := by
  obtain ⟨x, hx⟩ := h
  exact (hx c hc).1.trans (hx c' hc').1.symm

theorem Transparent.madeBy_perform (h : Transparent analyzer work) {c : GraphCache}
    (hc : c.MadeBy analyzer) : (perform c work).2.MadeBy analyzer := by
  obtain ⟨x, hx⟩ := h
  exact (hx c hc).2

theorem Transparent.bind (h : Transparent analyzer work) {f : α → Cached β}
    (hf : ∀ a, Transparent analyzer (f a)) : Transparent analyzer (work >>= f) := by
  obtain ⟨x, hx⟩ := h
  choose y hy using hf
  refine ⟨x >>= y, hx.bind (fun failure hfailure => ?_) fun a ha => ?_⟩
  · rw [← hfailure]
    rfl
  · rw [← ha]
    exact hy a

theorem Transparent.tryCatch (h : Transparent analyzer work) {f : Failure → Cached α}
    (hf : ∀ failure, Transparent analyzer (f failure)) : Transparent analyzer (tryCatch work f) := by
  obtain ⟨x, hx⟩ := h
  choose y hy using hf
  refine ⟨MonadExcept.tryCatch x y, hx.tryCatch (fun a ha => ?_) fun failure hfailure => ?_⟩
  · rw [← ha]
    rfl
  · rw [← hfailure]
    exact hy failure

theorem transparent_mapM {f : α → Cached β} (l : List α) (hf : ∀ a, Transparent analyzer (f a)) :
    Transparent analyzer (l.mapM f) := by
  induction l with
  | nil =>
    rw [List.mapM_nil]
    exact transparent_pure
  | cons a l ih =>
    rw [List.mapM_cons]
    exact (hf a).bind fun b => ih.bind fun bs => transparent_pure

end Steps

end Cached

open Cached

/-! ### Loading -/

section Loading

variable {analyzer : Analyzer} {t : FileTree} {registered : IntentRegistry}

namespace PhrasingTables

theorem transparent_graphOfPhrasing {name language phrasing : String} :
    Transparent analyzer (graphOfPhrasing analyzer name language phrasing) :=
  transparent_cached.tryCatch fun _ => transparent_throw

theorem transparent_analyzeVariable {name : String} {byLanguage : Dict String PhrasingTable} :
    Transparent analyzer (analyzeVariable analyzer name byLanguage) := by
  refine (transparent_mapM _ fun (language, table) => ?_).bind fun _ => transparent_pure
  refine (transparent_mapM _ fun (value, phrasings) => ?_).bind fun _ => transparent_pure
  exact (transparent_mapM _ fun _ => transparent_graphOfPhrasing).bind fun _ => transparent_pure

theorem transparent_analyze {tables : PhrasingTables} : Transparent analyzer (tables.analyze analyzer) :=
  (transparent_mapM _ fun _ => transparent_analyzeVariable.bind fun _ => transparent_pure).bind
    fun _ => transparent_pure

end PhrasingTables

namespace SearchGrammars

theorem transparent_addRules {file hitType : String} {gs : SearchGrammars} (rules : List RuleLine) :
    Transparent analyzer (addRules registered file hitType analyzer gs rules) := by
  induction rules generalizing gs with
  | nil => exact transparent_pure
  | cons rule rest ih =>
    refine transparent_lift.bind fun filters => Transparent.bind ?_ fun g => ih
    exact transparent_cached.tryCatch fun _ => transparent_throw

theorem transparent_ofFile {path : String} :
    Transparent analyzer (ofFile t registered analyzer path) :=
  transparent_lift.bind fun _ => transparent_lift.bind fun rules => transparent_addRules rules

theorem transparent_addFiles {gs : SearchGrammars} (paths : List String) :
    Transparent analyzer (addFiles t registered analyzer gs paths) := by
  induction paths generalizing gs with
  | nil => exact transparent_pure
  | cons path rest ih => exact transparent_ofFile.bind fun _ => ih

theorem transparent_ofDirectory {directory : String} :
    Transparent analyzer (ofDirectory t registered analyzer directory) :=
  transparent_lift.bind fun paths => transparent_addFiles paths

end SearchGrammars

theorem Tables.transparent_load {config : Config} {now : Int} {files : FileTree} :
    Transparent analyzer (Tables.load config analyzer now files) := by
  rw [Tables.load]
  -- The steps after the directory of the variables stand in both of its cases.
  cases config.variablesDirectory with
  | none =>
    refine transparent_pure.bind fun _ => PhrasingTables.transparent_analyze.bind fun _ => ?_
    cases config.grammarsDirectory with
    | none => exact transparent_pure
    | some directory =>
      exact SearchGrammars.transparent_ofDirectory.bind fun _ =>
        transparent_lift.bind fun _ => transparent_pure
  | some directory =>
    refine transparent_lift.bind fun _ => PhrasingTables.transparent_analyze.bind fun _ => ?_
    cases config.grammarsDirectory with
    | none => exact transparent_pure
    | some directory =>
      exact SearchGrammars.transparent_ofDirectory.bind fun _ =>
        transparent_lift.bind fun _ => transparent_pure

end Loading

/-! ### Queries -/

section Queries

variable {g : Grammar (List TokenGraph)} {s : Surroundings} {q : Query}

theorem Surroundings.transparent_graphOfText {text language : String} :
    Transparent s.analyzer (s.graphOfText text language) :=
  transparent_cached.tryCatch fun _ => transparent_throw

namespace Grammar

theorem transparent_findIntent {allowPrefix : Bool} :
    Transparent s.analyzer (g.findIntent s q allowPrefix) := by
  rw [findIntent]
  split
  · exact transparent_pure
  · cases q.simpleText? with
    | none => exact transparent_pure
    | some phrase => exact Surroundings.transparent_graphOfText.bind fun _ => transparent_lift

theorem transparent_searchIntent : Transparent s.analyzer (g.searchIntent s q) :=
  transparent_findIntent.bind fun _ => transparent_pure

theorem transparent_suggestions {now : Int} :
    Transparent s.analyzer (g.suggestions s now q) := by
  rw [suggestions]
  cases q.simpleText? with
  | none => exact transparent_pure
  | some phrase =>
    exact Surroundings.transparent_graphOfText.bind fun _ => transparent_lift.bind fun _ =>
      transparent_pure

end Grammar

end Queries

end PhraseGraph
