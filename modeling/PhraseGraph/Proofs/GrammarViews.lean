import PhraseGraph.Grammar.Reading
import PhraseGraph.Proofs.CachedWork
import PhraseGraph.Proofs.Entries
import PhraseGraph.Proofs.FirstOrigins
import PhraseGraph.Proofs.Results

/-!
# The two views of grammars

Both views of the grammars of a directory are read in the same way, up to what is made of a rule
(`Grammars.ofDirectoryWith`). A function of patterns that keeps them in a row when they are appended may
as well be applied when everything has been read (`Grammars.map_ofDirectoryWith`). So it is enough to read
the texts of the patterns: these are the phrases of the graphs in the one view, and in the other one they
are sorted by signature (`Templates.ofPhrases`).

What is read for an intent in a language are its rules, in the order of the files and lines
(`Grammars.texts_ofDirectoryWith`).

The one view analyzes the patterns and the other one does not, so they may differ where a pattern cannot be
analyzed. Of the analyzer no more is asked than that this does not happen (`Analyzer.IsTotal`).
-/

namespace PhraseGraph

/-! ### Patterns by signature -/

namespace Templates

variable {s t : Templates} {signature pattern : String} {phrases phrases' : List String}

/-- The texts with the given signature. -/
def withSignature (signature : String) (phrases : List String) : List String :=
  phrases.filter fun p => Pattern.signature (Pattern.variableNames p) == signature

/-- The texts by signature. -/
def ofPhrases (phrases : List String) : Templates :=
  phrases.foldl (fun t pattern => t ++ single pattern) ⟨∅⟩

theorem ext_get? (h : ∀ signature, s.bySignature.get? signature = t.bySignature.get? signature) :
    s = t := by
  obtain ⟨d⟩ := s
  obtain ⟨d'⟩ := t
  exact congrArg mk (Dict.ext_get? h)

theorem get?_append : (s ++ t).bySignature.get? signature =
    (t.bySignature.get? signature).elim (s.bySignature.get? signature) fun patterns =>
      some ((s.bySignature.get? signature).getD [] ++ patterns) :=
  Dict.get?_foldl_alter s.bySignature t.bySignature
    (fun _ patterns earlier => earlier.getD [] ++ patterns) signature

theorem get?_single : (single pattern).bySignature.get? signature =
    if signature = Pattern.signature (Pattern.variableNames pattern) then some [pattern]
    else none := by
  rw [single, Dict.get?_insert, Dict.get?_empty]

theorem withSignature_append : withSignature signature (phrases ++ phrases') =
    withSignature signature phrases ++ withSignature signature phrases' :=
  List.filter_append ..

theorem withSignature_singleton : withSignature signature [pattern] =
    if signature = Pattern.signature (Pattern.variableNames pattern) then [pattern] else [] := by
  rw [withSignature, List.filter_singleton]
  split
  · next h => rw [h, beq_self_eq_true]; rfl
  · next h => rw [beq_eq_false_iff_ne.2 (Ne.symm h)]; rfl

/-- The texts of a signature are those that have it, in order. -/
theorem get?_ofPhrases : (ofPhrases phrases).bySignature.get? signature =
    if withSignature signature phrases = [] then none else some (withSignature signature phrases) := by
  induction phrases using List.reverseRecOn with
  | nil => rfl
  | append_singleton phrases pattern ih =>
    have hlast : ofPhrases (phrases ++ [pattern]) = ofPhrases phrases ++ single pattern := by
      rw [ofPhrases, List.foldl_append]
      rfl
    rw [hlast, get?_append, get?_single, ih, withSignature_append, withSignature_singleton]
    by_cases hpattern : signature = Pattern.signature (Pattern.variableNames pattern)
    · by_cases hnil : withSignature signature phrases = [] <;> simp [if_pos hpattern, hnil]
    · simp [if_neg hpattern]

theorem ofPhrases_append : ofPhrases (phrases ++ phrases') = ofPhrases phrases ++ ofPhrases phrases' := by
  refine ext_get? fun signature => ?_
  rw [get?_append, get?_ofPhrases, get?_ofPhrases, get?_ofPhrases, withSignature_append]
  by_cases h : withSignature signature phrases = [] <;>
    by_cases h' : withSignature signature phrases' = [] <;> simp [h, h']

theorem ofPhrases_singleton : ofPhrases [pattern] = single pattern := by
  refine ext_get? fun signature => ?_
  rw [get?_ofPhrases, get?_single, withSignature_singleton]
  split <;> rfl

end Templates

/-! ### Functions of patterns -/

variable {π ρ : Type}

/-- The grammar with `h` of its patterns. -/
def Grammar.map (h : π → ρ) (g : Grammar π) : Grammar ρ where
  hitType := g.hitType
  language := g.language
  intent := g.intent
  filters := g.filters
  patterns := h g.patterns

namespace Grammars

/-- The grammars of a language with `h` of their patterns. -/
def mapIntents (h : π → ρ) (byIntent : Dict String (Grammar π)) : Dict String (Grammar ρ) :=
  byIntent.map fun _ g => g.map h

/-- The grammars with `h` of their patterns. -/
def map (h : π → ρ) (gs : Grammars π) : Grammars ρ := Dict.map (fun _ => mapIntents h) gs

/-- The grammar of an intent in a language. -/
def find? (gs : Grammars π) (language intent : String) : Option (Grammar π) :=
  (gs.get? language).bind fun byIntent => byIntent.get? intent

variable {h : π → ρ} {gs : Grammars π} {language intent : String}

theorem find?_map : (gs.map h).find? language intent = (gs.find? language intent).map (Grammar.map h) := by
  rw [find?, map, Dict.get?_map, find?]
  cases gs.get? language with
  | none => rfl
  | some byIntent => exact Dict.get?_map

variable [Append π] [Append ρ]

theorem map_addIntent (hh : ∀ p q, h (p ++ q) = h p ++ h q) (byIntent : Dict String (Grammar π))
    (g : Grammar π) : mapIntents h (addIntent byIntent intent g) =
      addIntent (mapIntents h byIntent) intent (g.map h) := by
  refine Dict.map_alter fun earlier => ?_
  cases earlier with
  | none => rfl
  | some earlier => simp [Grammar.after, Grammar.map, hh]

theorem map_addRule (hh : ∀ p q, h (p ++ q) = h p ++ h q) (gs : Grammars π) (hitType : String)
    (filters : Filters) (rule : RuleLine) (p : π) : (gs.addRule hitType filters rule p).map h =
      (gs.map h).addRule hitType filters rule (h p) := by
  refine Dict.map_alter fun byIntent => ?_
  rw [map_addIntent hh]
  cases byIntent <;> rfl

/-- The grammars of a language with those of `more`. -/
def addIntents (byIntent more : Dict String (Grammar π)) : Dict String (Grammar π) :=
  more.entries.foldl (fun d e => addIntent d e.1 e.2) byIntent

theorem map_addIntents (hh : ∀ p q, h (p ++ q) = h p ++ h q)
    (byIntent more : Dict String (Grammar π)) : mapIntents h (addIntents byIntent more) =
      addIntents (mapIntents h byIntent) (mapIntents h more) := by
  refine Eq.trans (List.foldl_hom (mapIntents h) fun d e => ?_).symm (List.foldl_map ..).symm
  exact (map_addIntent hh d e.2).symm

theorem map_merge (hh : ∀ p q, h (p ++ q) = h p ++ h q) (gs more : Grammars π) :
    (gs.merge more).map h = (gs.map h).merge (more.map h) := by
  refine Eq.trans (List.foldl_hom (map h) fun gs e => ?_).symm (List.foldl_map ..).symm
  refine (Dict.map_alter fun byIntent => ?_).symm
  refine (map_addIntents hh (byIntent.getD ∅) e.2).trans ?_
  cases byIntent <;> rfl

end Grammars

/-! ### Reading -/

namespace Grammars

variable [Append π] [Append ρ]

/-- The grammars with what `mk` makes of the rules of a file. -/
def addRulesWith (mk : RuleLine → π) (registered : IntentRegistry) (file hitType : String)
    (gs : Grammars π) : List RuleLine → Except Failure (Grammars π)
  | [] => return gs
  | rule :: rest => do
    let filters ← registered.ofRule file rule
    addRulesWith mk registered file hitType (gs.addRule hitType filters rule (mk rule)) rest

/-- The grammars of a file, with what `mk` makes of its rules. -/
def ofFileWith (mk : RuleLine → π) (t : FileTree) (registered : IntentRegistry) (path : String) :
    Except Failure (Grammars π) := do
  let hitType ← hitTypeOf path
  let rules ← t.rules path
  addRulesWith mk registered path hitType ∅ rules

/-- The grammars so far with those of the files. -/
def addFilesWith (mk : RuleLine → π) (t : FileTree) (registered : IntentRegistry)
    (gs : Grammars π) : List String → Except Failure (Grammars π)
  | [] => return gs
  | path :: rest => do
    let more ← ofFileWith mk t registered path
    addFilesWith mk t registered (gs.merge more) rest

/-- The grammars of a directory, with what `mk` makes of the rules. -/
def ofDirectoryWith (mk : RuleLine → π) (t : FileTree) (registered : IntentRegistry)
    (directory : String) : Except Failure (Grammars π) := do
  addFilesWith mk t registered ∅ (← t.filesWith grammarExtension directory)

section Map

variable {h : π → ρ} (hh : ∀ p q, h (p ++ q) = h p ++ h q) {mk : RuleLine → π}
  {registered : IntentRegistry} {t : FileTree}
include hh

theorem map_addRulesWith {file hitType : String} {gs : Grammars π} {rules : List RuleLine} :
    (addRulesWith mk registered file hitType gs rules).map (map h) =
      addRulesWith (h ∘ mk) registered file hitType (gs.map h) rules := by
  induction rules generalizing gs with
  | nil => rfl
  | cons rule rest ih =>
    rw [addRulesWith, addRulesWith]
    cases registered.ofRule file rule with
    | error failure => rfl
    | ok filters =>
      refine ih.trans ?_
      rw [map_addRule hh]
      rfl

theorem map_ofFileWith {path : String} :
    (ofFileWith mk t registered path).map (map h) = ofFileWith (h ∘ mk) t registered path := by
  rw [ofFileWith, ofFileWith]
  cases hitTypeOf path with
  | error failure => rfl
  | ok hitType =>
    cases t.rules path with
    | error failure => rfl
    | ok rules => exact map_addRulesWith hh

theorem map_addFilesWith {gs : Grammars π} {paths : List String} :
    (addFilesWith mk t registered gs paths).map (map h) =
      addFilesWith (h ∘ mk) t registered (gs.map h) paths := by
  induction paths generalizing gs with
  | nil => rfl
  | cons path rest ih =>
    rw [addFilesWith, addFilesWith, ← map_ofFileWith hh]
    cases ofFileWith mk t registered path with
    | error failure => rfl
    | ok more =>
      refine ih.trans ?_
      rw [map_merge hh]
      rfl

/-- Patterns may be mapped rule by rule or when everything has been read. -/
theorem map_ofDirectoryWith {directory : String} :
    (ofDirectoryWith mk t registered directory).map (map h) =
      ofDirectoryWith (h ∘ mk) t registered directory := by
  rw [ofDirectoryWith, ofDirectoryWith]
  cases t.filesWith grammarExtension directory with
  | error failure => rfl
  | ok paths => exact map_addFilesWith hh

end Map

end Grammars

namespace TemplateGrammars

variable {registered : IntentRegistry} {t : FileTree}

/-- What a rule is for the view by signature. -/
def templatesOf (rule : RuleLine) : Templates := .single rule.value

theorem addRules_eq {file hitType : String} {gs : TemplateGrammars} {rules : List RuleLine} :
    addRules registered file hitType gs rules =
      Grammars.addRulesWith templatesOf registered file hitType gs rules := by
  induction rules generalizing gs with
  | nil => rfl
  | cons rule rest ih =>
    rw [addRules, Grammars.addRulesWith]
    exact congrArg _ (funext fun filters => ih)

theorem ofFile_eq {path : String} :
    ofFile t registered path = Grammars.ofFileWith templatesOf t registered path := by
  simp only [ofFile, Grammars.ofFileWith, addRules_eq]

theorem addFiles_eq {gs : TemplateGrammars} {paths : List String} :
    addFiles t registered gs paths = Grammars.addFilesWith templatesOf t registered gs paths := by
  induction paths generalizing gs with
  | nil => rfl
  | cons path rest ih =>
    rw [addFiles, Grammars.addFilesWith, ofFile_eq]
    exact congrArg _ (funext fun more => ih)

theorem ofDirectory_eq {directory : String} : ofDirectory t registered directory =
    Grammars.ofDirectoryWith templatesOf t registered directory := by
  simp only [ofDirectory, Grammars.ofDirectoryWith, addFiles_eq]

end TemplateGrammars

/-! ### Analyzers that never fail -/

/-- There are tokens for every phrase. The slots after words can be counted, and those after other tokens
    have to be such that they can. -/
def TokenSource.IsTotal : TokenSource → Prop
  | words _ => True
  | foreign tokens => ∀ phrase, ∃ ts, tokens phrase = .ok ts ∧ ∀ t ∈ ts, t.endPosition < 2 ^ 64

/-- The analyzer has tokens for every phrase in every language. -/
def Analyzer.IsTotal (analyzer : Analyzer) : Prop :=
  ∀ language, ∃ source, analyzer.source? language = some source ∧ source.IsTotal

section Total

variable {analyzer : Analyzer} {source : TokenSource} {phrase language : String} {g : TokenGraph}

theorem phrase_of_ofSource (h : TokenGraph.ofSource phrase source = .ok g) : g.phrase = phrase := by
  cases source with
  | words a =>
    obtain rfl := Except.ok.inj h
    exact TokenGraph.phrase_ofTokens
  | foreign tokens =>
    obtain ⟨ts, -, h⟩ := bind_eq_ok_iff.1 h
    obtain ⟨ends, -, h⟩ := bind_eq_ok_iff.1 h
    obtain rfl := Except.ok.inj h
    exact TokenGraph.phrase_ofTokens

/-- A graph that is made of a phrase is the graph of that phrase. -/
theorem phrase_of_ofPhrase (h : TokenGraph.ofPhrase analyzer phrase language = .ok g) :
    g.phrase = phrase := by
  rw [TokenGraph.ofPhrase] at h
  cases hsource : analyzer.source? language with
  | none => simp [hsource, Except.mapError] at h
  | some source =>
    simp only [hsource] at h
    cases hmade : TokenGraph.ofSource phrase source with
    | error failure => simp [hmade, Except.mapError] at h
    | ok g' =>
      rw [hmade] at h
      obtain rfl := Except.ok.inj h
      exact phrase_of_ofSource hmade

theorem TokenSource.IsTotal.exists_ofSource (h : source.IsTotal) (phrase : String) :
    ∃ g, TokenGraph.ofSource phrase source = .ok g := by
  cases source with
  | words a => exact ⟨_, rfl⟩
  | foreign tokens =>
    obtain ⟨ts, hts, hslots⟩ := h phrase
    refine ⟨TokenGraph.ofTokens ts phrase, ?_⟩
    rw [TokenGraph.ofSource, hts]
    exact ofForeignTokens_eq_ok hslots

/-- An analyzer that never fails has a graph for every phrase. -/
theorem Analyzer.IsTotal.exists_ofPhrase (h : analyzer.IsTotal) (phrase language : String) :
    ∃ g, TokenGraph.ofPhrase analyzer phrase language = .ok g := by
  obtain ⟨source, hsource, htotal⟩ := h language
  obtain ⟨g, hg⟩ := htotal.exists_ofSource phrase
  refine ⟨g, ?_⟩
  rw [TokenGraph.ofPhrase, hsource]
  simp only [hg, Except.mapError]

end Total

/-! ### What is read -/

namespace Grammars

section Find

variable {gs more : Grammars π} {language intent : String}

theorem get?_getD_empty {byIntent? : Option (Dict String (Grammar π))} :
    (byIntent?.getD ∅).get? intent = byIntent?.bind fun byIntent => byIntent.get? intent := by
  cases byIntent? <;> rfl

variable [Append π]

theorem find?_addRule {hitType : String} {filters : Filters} {rule : RuleLine} {p : π} :
    (gs.addRule hitType filters rule p).find? language intent =
      if language = rule.language ∧ intent = rule.key then
        some (Grammar.after { hitType, language, intent, filters, patterns := p }
          (gs.find? language intent))
      else gs.find? language intent := by
  rw [find?, addRule, add, Dict.get?_alter]
  by_cases hlanguage : language = rule.language
  · subst hlanguage
    simp only [if_pos, Option.bind_some, addIntent, Dict.get?_alter, get?_getD_empty, true_and]
    split
    · next h => rw [h]; rfl
    · rfl
  · rw [if_neg hlanguage, if_neg fun h => hlanguage h.1]
    rfl

theorem find?_merge : (gs.merge more).find? language intent =
    (more.find? language intent).elim (gs.find? language intent) fun g =>
      some (g.after (gs.find? language intent)) := by
  have hget : (gs.merge more).get? language = (more.get? language).elim (gs.get? language)
      fun byIntent => some (addIntents ((gs.get? language).getD ∅) byIntent) :=
    Dict.get?_foldl_alter gs more (fun _ byIntent earlier => addIntents (earlier.getD ∅) byIntent)
      language
  rw [find?, hget, find?]
  cases more.get? language with
  | none => rfl
  | some byIntent =>
    refine (Dict.get?_foldl_alter ((gs.get? language).getD ∅) byIntent
      (fun _ g => g.after) intent).trans ?_
    rw [get?_getD_empty]
    rfl

end Find

/-- The texts of the patterns of an intent in a language. -/
def texts (gs : Grammars (List String)) (language intent : String) : List String :=
  ((gs.find? language intent).map Grammar.patterns).getD []

/-- The values of the rules for an intent in a language. -/
def valuesFor (language intent : String) (rules : List RuleLine) : List String :=
  (rules.filter fun rule => rule.language == language && rule.key == intent).map RuleLine.value

section Texts

variable {gs more : Grammars (List String)} {language intent : String} {registered : IntentRegistry}
  {t : FileTree}

/-- A rule as its text. -/
def textOf (rule : RuleLine) : List String := [rule.value]

theorem valuesFor_append {rules rules' : List RuleLine} : valuesFor language intent (rules ++ rules') =
    valuesFor language intent rules ++ valuesFor language intent rules' := by
  rw [valuesFor, List.filter_append, List.map_append]
  rfl

theorem texts_addRule {hitType : String} {filters : Filters} {rule : RuleLine} :
    (gs.addRule hitType filters rule (textOf rule)).texts language intent =
      gs.texts language intent ++ valuesFor language intent [rule] := by
  rw [texts, find?_addRule, valuesFor, List.filter_singleton]
  by_cases h : language = rule.language ∧ intent = rule.key
  · obtain ⟨rfl, rfl⟩ := h
    cases hfind : gs.find? rule.language rule.key <;> simp [texts, hfind, Grammar.after, textOf]
  · have hne : (rule.language == language && rule.key == intent) = false := by
      simpa using fun hl hi => h ⟨hl.symm, hi.symm⟩
    simp [h, hne, texts]

theorem texts_merge : (gs.merge more).texts language intent =
    gs.texts language intent ++ more.texts language intent := by
  rw [texts, find?_merge, texts, texts]
  cases more.find? language intent with
  | none => simp
  | some g => cases gs.find? language intent <;> simp [Grammar.after]

theorem texts_addRulesWith {file hitType : String} {rules : List RuleLine}
    {result : Grammars (List String)}
    (h : addRulesWith textOf registered file hitType gs rules = .ok result) :
    result.texts language intent = gs.texts language intent ++ valuesFor language intent rules := by
  induction rules generalizing gs with
  | nil =>
    obtain rfl := Except.ok.inj h
    exact (List.append_nil _).symm
  | cons rule rest ih =>
    obtain ⟨filters, -, hrest⟩ := bind_eq_ok_iff.1 h
    rw [ih hrest, texts_addRule, List.append_assoc, ← valuesFor_append]
    rfl

theorem texts_ofFileWith {path : String} {result : Grammars (List String)}
    (h : ofFileWith textOf t registered path = .ok result) : ∃ rules, t.rules path = .ok rules ∧
      ∀ language intent, result.texts language intent = valuesFor language intent rules := by
  obtain ⟨hitType, -, h⟩ := bind_eq_ok_iff.1 h
  obtain ⟨rules, hrules, h⟩ := bind_eq_ok_iff.1 h
  exact ⟨rules, hrules, fun language intent => texts_addRulesWith h⟩

theorem texts_addFilesWith {paths : List String} {result : Grammars (List String)}
    (h : addFilesWith textOf t registered gs paths = .ok result) :
    ∃ rules, paths.mapM t.rules = .ok rules ∧ ∀ language intent, result.texts language intent =
      gs.texts language intent ++ valuesFor language intent rules.flatten := by
  induction paths generalizing gs with
  | nil =>
    obtain rfl := Except.ok.inj h
    exact ⟨[], rfl, fun language intent => (List.append_nil _).symm⟩
  | cons path rest ih =>
    obtain ⟨more, hmore, hrest⟩ := bind_eq_ok_iff.1 h
    obtain ⟨rules, hrules, hmoreTexts⟩ := texts_ofFileWith hmore
    obtain ⟨restRules, hrestRules, htexts⟩ := ih hrest
    refine ⟨rules :: restRules, ?_, fun language intent => ?_⟩
    · exact mapM_eq_ok_iff.2 (.cons hrules (mapM_eq_ok_iff.1 hrestRules))
    · rw [htexts, texts_merge, hmoreTexts, List.flatten_cons, valuesFor_append, List.append_assoc]

/-- What is read for an intent in a language are its rules, in the order of the files and lines. -/
theorem texts_ofDirectoryWith {directory : String} {result : Grammars (List String)}
    (h : ofDirectoryWith textOf t registered directory = .ok result) :
    ∃ paths rules, t.filesWith grammarExtension directory = .ok paths ∧
      paths.mapM t.rules = .ok rules ∧ ∀ language intent,
        result.texts language intent = valuesFor language intent rules.flatten := by
  obtain ⟨paths, hpaths, h⟩ := bind_eq_ok_iff.1 h
  obtain ⟨rules, hrules, htexts⟩ := texts_addFilesWith h
  exact ⟨paths, rules, hpaths, hrules, htexts⟩

end Texts

end Grammars

/-! ### The two views -/

/-- The grammars are the same but for their patterns, and the texts of a signature are those of the
    graphs' phrases that have it, in the same order. -/
structure Grammar.Agrees (g : Grammar (List TokenGraph)) (t : Grammar Templates) : Prop where
  hitType_eq : t.hitType = g.hitType
  language_eq : t.language = g.language
  intent_eq : t.intent = g.intent
  filters_eq : t.filters = g.filters
  patterns_eq : ∀ signature, (t.patterns.bySignature.get? signature).getD [] =
    Templates.withSignature signature (g.patterns.map TokenGraph.phrase)

/-- The views have the same intents in the same languages, and their grammars agree. -/
structure Grammars.Agree (gs : SearchGrammars) (ts : TemplateGrammars) : Prop where
  languages_eq : ts.keys = gs.keys
  intents_eq : ∀ language, (ts.get? language).map Dict.keys = (gs.get? language).map Dict.keys
  grammars : ∀ language intent,
    Option.Rel Grammar.Agrees (gs.find? language intent) (ts.find? language intent)

/-- The graphs of an intent in a language have the values of its rules as their phrases, one for each
    rule, in order. -/
def SearchGrammars.Holds (gs : SearchGrammars) (rules : List RuleLine) : Prop :=
  ∀ language intent, ((gs.find? language intent).map fun g => g.patterns.map TokenGraph.phrase).getD [] =
    Grammars.valuesFor language intent rules

section Views

variable {t : FileTree} {registered : IntentRegistry} {analyzer : Analyzer} {c : GraphCache}
  {directory : String}

theorem Dict.keys_map {κ α β : Type} [Ord κ] {d : Dict κ α} {f : κ → α → β} :
    (d.map f).keys = d.keys := by
  simp [keys, map]

/-- The texts of graphs and by signature agree with the graphs. -/
theorem agree_of_map_eq {gs : SearchGrammars} {ts : TemplateGrammars}
    (h : ts = (gs.map (List.map TokenGraph.phrase)).map Templates.ofPhrases) :
    Grammars.Agree gs ts := by
  subst h
  refine ⟨?_, fun language => ?_, fun language intent => ?_⟩
  · exact Dict.keys_map.trans Dict.keys_map
  · rw [Grammars.map, Dict.get?_map, Grammars.map, Dict.get?_map]
    cases gs.get? language with
    | none => rfl
    | some byIntent => exact congrArg some (Dict.keys_map.trans Dict.keys_map)
  · rw [Grammars.find?_map, Grammars.find?_map]
    cases gs.find? language intent with
    | none => exact .none
    | some g =>
      refine .some ⟨rfl, rfl, rfl, rfl, fun signature => ?_⟩
      show ((Templates.ofPhrases _).bySignature.get? signature).getD [] = _
      rw [Templates.get?_ofPhrases]
      split
      · next hnil => exact hnil.symm
      · rfl

/-- The view by signature sorts the texts of the rules. -/
theorem TemplateGrammars.ofDirectory_eq_map : ofDirectory t registered directory =
    (Grammars.ofDirectoryWith Grammars.textOf t registered directory).map
      (Grammars.map Templates.ofPhrases) := by
  have hsingle : Templates.ofPhrases ∘ Grammars.textOf = templatesOf :=
    funext fun rule => Templates.ofPhrases_singleton
  rw [Grammars.map_ofDirectoryWith fun p q => Templates.ofPhrases_append, hsingle, ofDirectory_eq]

namespace SearchGrammars

/-- The graph is that of the phrase that it is kept under. -/
def OfPhrase (key : GraphKey) (g : TokenGraph) : Prop := g.phrase = key.phrase

/-- The texts of the patterns. -/
def phrasesOf (gs : SearchGrammars) : Grammars (List String) := gs.map (List.map TokenGraph.phrase)

theorem map_append_phrase (p q : List TokenGraph) :
    (p ++ q).map TokenGraph.phrase = p.map TokenGraph.phrase ++ q.map TokenGraph.phrase :=
  List.map_append ..

theorem phrasesOf_merge {gs more : SearchGrammars} :
    phrasesOf (gs.merge more) = (phrasesOf gs).merge (phrasesOf more) :=
  Grammars.map_merge map_append_phrase gs more

variable (htotal : analyzer.IsTotal)
include htotal

theorem yields_graphOfRule {file : String} {rule : RuleLine} :
    Cached.Yields (GraphCache.Keeps OfPhrase) (graphOfRule file analyzer rule) fun r =>
      ∃ g, r = .ok g ∧ g.phrase = rule.value := by
  obtain ⟨made, hmade⟩ := htotal.exists_ofPhrase rule.value rule.language
  refine (Cached.yields_cached (fun _ _ _ => phrase_of_ofPhrase) rule.value rule.language).tryCatch ?_ ?_
  · rintro g (⟨g', hg, hphrase⟩ | ⟨failure, hfailure, -⟩)
    · obtain rfl := Except.ok.inj hg
      exact ⟨g, rfl, hphrase⟩
    · exact absurd hfailure (by simp)
  · rintro failure (⟨g', hg, -⟩ | ⟨failure', -, hfailure⟩)
    · exact absurd hg (by simp)
    · rw [hmade] at hfailure
      exact absurd hfailure (by simp)

theorem yields_addRules {file hitType : String} {gs : SearchGrammars} {rules : List RuleLine} :
    Cached.Yields (GraphCache.Keeps OfPhrase) (addRules registered file hitType analyzer gs rules)
      fun r => r.map phrasesOf =
        Grammars.addRulesWith Grammars.textOf registered file hitType (phrasesOf gs) rules := by
  induction rules generalizing gs with
  | nil => exact Cached.yields_pure rfl
  | cons rule rest ih =>
    rw [addRules, Grammars.addRulesWith]
    refine Cached.yields_lift_bind fun filters => (yields_graphOfRule htotal).bind ?_ ?_
    · rintro failure ⟨g, hg, -⟩
      exact absurd hg (by simp)
    · rintro g ⟨g', hg, hphrase⟩
      obtain rfl := Except.ok.inj hg
      have hrule : phrasesOf (gs.addRule hitType filters rule [g]) =
          (phrasesOf gs).addRule hitType filters rule (Grammars.textOf rule) := by
        rw [phrasesOf, Grammars.map_addRule map_append_phrase, Grammars.textOf, ← hphrase]
        rfl
      rw [← hrule]
      exact ih

theorem yields_ofFile {path : String} :
    Cached.Yields (GraphCache.Keeps OfPhrase) (ofFile t registered analyzer path) fun r =>
      r.map phrasesOf = Grammars.ofFileWith Grammars.textOf t registered path := by
  rw [ofFile, Grammars.ofFileWith]
  exact Cached.yields_lift_bind fun hitType => Cached.yields_lift_bind fun rules =>
    yields_addRules htotal

theorem yields_addFiles {gs : SearchGrammars} {paths : List String} :
    Cached.Yields (GraphCache.Keeps OfPhrase) (addFiles t registered analyzer gs paths) fun r =>
      r.map phrasesOf = Grammars.addFilesWith Grammars.textOf t registered (phrasesOf gs) paths := by
  induction paths generalizing gs with
  | nil => exact Cached.yields_pure rfl
  | cons path rest ih =>
    rw [addFiles, Grammars.addFilesWith]
    refine (yields_ofFile htotal).bind_map fun more => ?_
    rw [← phrasesOf_merge]
    exact ih

/-- The phrases of the graphs are the texts of the rules, whatever graphs of the same phrases are
    fetched from a cache. -/
theorem yields_ofDirectory :
    Cached.Yields (GraphCache.Keeps OfPhrase) (ofDirectory t registered analyzer directory) fun r =>
      r.map phrasesOf = Grammars.ofDirectoryWith Grammars.textOf t registered directory := by
  rw [ofDirectory, Grammars.ofDirectoryWith]
  exact Cached.yields_lift_bind fun paths => yields_addFiles htotal

end SearchGrammars

/-- The two views of the grammars of a directory agree, whatever the analyzer is, if it never fails: both
    fail with the same failure, or both have the rules of all files, in order. -/
theorem ofDirectory_views_agree (htotal : analyzer.IsTotal)
    (hc : c.Keeps SearchGrammars.OfPhrase) (t : FileTree) (registered : IntentRegistry)
    (directory : String) :
    (∃ failure, (Cached.perform c (SearchGrammars.ofDirectory t registered analyzer directory)).1 =
        .error failure ∧ TemplateGrammars.ofDirectory t registered directory = .error failure) ∨
      ∃ gs ts paths rules,
        (Cached.perform c (SearchGrammars.ofDirectory t registered analyzer directory)).1 = .ok gs ∧
        TemplateGrammars.ofDirectory t registered directory = .ok ts ∧ Grammars.Agree gs ts ∧
        t.filesWith grammarExtension directory = .ok paths ∧ paths.mapM t.rules = .ok rules ∧
        gs.Holds rules.flatten := by
  obtain ⟨htexts, -⟩ := SearchGrammars.yields_ofDirectory htotal (t := t) c hc
  rw [TemplateGrammars.ofDirectory_eq_map]
  cases hread : (Cached.perform c (SearchGrammars.ofDirectory t registered analyzer directory)).1 with
  | error failure =>
    rw [hread] at htexts
    exact .inl ⟨failure, rfl, by rw [← htexts]; rfl⟩
  | ok gs =>
    rw [hread] at htexts
    obtain ⟨paths, rules, hpaths, hrules, hvalues⟩ := Grammars.texts_ofDirectoryWith htexts.symm
    refine .inr ⟨gs, _, paths, rules, rfl, by rw [← htexts]; rfl, agree_of_map_eq rfl, hpaths, hrules,
      fun language intent => ?_⟩
    rw [← hvalues, Grammars.texts, SearchGrammars.phrasesOf, Grammars.find?_map, Option.map_map]
    rfl

end Views

namespace Example

/-- Two files of rules, of which the second one has another pattern for an intent of the first. -/
def twoFiles : FileTree where
  entries := .ofList [("/grammars", .directory),
    ("/grammars/landing-page.grammar",
      .file "# patterns\nen,conventions => congress $Year\nes,conventions => congreso".toUTF8),
    ("/grammars/media.grammar",
      .file "en,holidays => $Holiday $Year\nen,conventions => congress in $Year\n".toUTF8)]

/-- Two intents without filters. -/
def twoIntents : IntentRegistry := .ofList [("conventions", ∅), ("holidays", ∅)]

/-- An analyzer that takes every phrase as a single token. -/
def wholePhrases : Analyzer :=
  .foreign "whole" fun phrase _ =>
    .ok [{ text := phrase, startOffset := 0, endOffset := phrase.utf8ByteSize, position := 0 }]

theorem wholePhrases_isTotal : wholePhrases.IsTotal := by
  refine fun language => ⟨_, rfl, fun phrase => ⟨_, rfl, fun t ht => ?_⟩⟩
  obtain rfl := List.mem_singleton.1 ht
  exact Nat.lt_of_lt_of_le (by decide : 0 + max 1 1 < 2) (by decide)

theorem twoFiles_views_agree :
    wholePhrases.IsTotal ∧ GraphCache.disabled.Keeps SearchGrammars.OfPhrase ∧
      ∃ gs ts paths rules,
        (Cached.perform .disabled
          (SearchGrammars.ofDirectory twoFiles twoIntents wholePhrases "/grammars")).1 = .ok gs ∧
        TemplateGrammars.ofDirectory twoFiles twoIntents "/grammars" = .ok ts ∧ Grammars.Agree gs ts ∧
        twoFiles.filesWith grammarExtension "/grammars" = .ok paths ∧
        paths.mapM twoFiles.rules = .ok rules ∧ gs.Holds rules.flatten := by
  have hc := GraphCache.keeps_disabled (P := SearchGrammars.OfPhrase)
  have hok : (TemplateGrammars.ofDirectory twoFiles twoIntents "/grammars").toBool = true := by
    decide +kernel
  refine ⟨wholePhrases_isTotal, hc, ?_⟩
  rcases ofDirectory_views_agree wholePhrases_isTotal hc twoFiles twoIntents "/grammars" with
    ⟨failure, -, hfailure⟩ | hagree
  · rw [hfailure] at hok
    exact absurd hok (by simp [Except.toBool])
  · exact hagree

end Example

end PhraseGraph
