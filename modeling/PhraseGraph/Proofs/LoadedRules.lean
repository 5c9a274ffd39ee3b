import PhraseGraph.Proofs.GrammarViews
import PhraseGraph.Proofs.RuleValues
import PhraseGraph.Proofs.Substitution

/-!
# Rules of loaded grammars

Putting phrasings into a pattern fails where the names that they go with are not those of its places. Rules
are made by signature, so this is up to the patterns that stand under a signature: where they have places
for its names, each as often as it is named (`Templates.Fits`), the making of rules fails only for reasons
that it reports (`Rule.failsOnly_ofGrammars`).

Loading sorts patterns by the signature of their own places, and the names of a signature are those that it
was made of, sorted. So loaded grammars fit (`TemplateGrammars.fits_of_loaded`).
-/

namespace PhraseGraph

/-- The patterns of each signature have places for its names, each as often as it stands there. -/
def Templates.Fits (s : Templates) : Prop :=
  ∀ signature patterns, s.bySignature.get? signature = some patterns → ∀ pattern ∈ patterns,
    ∀ name, (Pattern.variableNames pattern).count name = (Pattern.signatureNames signature).count name

theorem Templates.fits_ofPhrases (phrases : List String) : (ofPhrases phrases).Fits := by
  intro signature patterns hmem pattern hpattern name
  rw [get?_ofPhrases] at hmem
  split at hmem
  · exact absurd hmem (by simp)
  · obtain rfl := Option.some_inj.1 hmem
    have hsignature := beq_iff_eq.1 (List.mem_filter.1 hpattern).2
    rw [← hsignature]
    exact ((Pattern.signatureNames_perm pattern).count_eq name).symm

theorem Templates.Fits.perm {s : Templates} {signature pattern : String} {patterns : List String}
    (hs : s.Fits) (hmem : s.bySignature.get? signature = some patterns) (hpattern : pattern ∈ patterns) :
    (Pattern.signatureNames signature).Perm (Pattern.variableNames pattern) :=
  List.perm_iff_count.2 fun name => (hs signature patterns hmem pattern hpattern name).symm

theorem Grammars.mem_toList_iff {π : Type} {gs : Grammars π} {g : Grammar π} :
    g ∈ gs.toList ↔ ∃ language byIntent, (language, byIntent) ∈ gs.entries ∧ g ∈ byIntent.values := by
  simp only [toList, Dict.values, List.mem_flatMap, List.mem_map]
  exact ⟨fun ⟨_, ⟨e, he, rfl⟩, hg⟩ => ⟨e.1, e.2, he, hg⟩, fun ⟨_, _, he, hg⟩ => ⟨_, ⟨_, he, rfl⟩, hg⟩⟩

/-- The patterns of loaded grammars have the places that their signatures name. -/
theorem TemplateGrammars.fits_of_loaded {t : FileTree} {registered : IntentRegistry}
    {directory : String} {gs : TemplateGrammars} (h : ofDirectory t registered directory = .ok gs) :
    ∀ g ∈ gs.toList, g.patterns.Fits := by
  rw [ofDirectory_eq_map] at h
  obtain ⟨texts, -, rfl⟩ := map_eq_ok_iff.1 h
  intro g hg
  obtain ⟨language, byIntent, hlanguage, hg⟩ := Grammars.mem_toList_iff.1 hg
  obtain ⟨e, -, he⟩ := List.mem_map.1 hlanguage
  obtain ⟨-, rfl⟩ := Prod.mk.inj he
  obtain ⟨e', he', rfl⟩ := List.mem_map.1 hg
  obtain ⟨e'', -, rfl⟩ := List.mem_map.1 he'
  exact Templates.fits_ofPhrases _

namespace Rule

variable {tables : PhrasingTables} {names values : List String} {found : List PhrasingTable}
  {π : Type} {g : Grammar π} {oracle : Option Oracle} {signature pattern : String}
  {patterns : List String}

/-- The failures that are reported of the making of rules. -/
inductive IsReported : Failure → Prop
  | unknownVariable (name intent hitType : String) :
    IsReported (.unknownVariable name intent hitType)
  | tooManyCombinations (dimensions : Nat) : IsReported (.tooManyCombinations dimensions)

theorem failsOnly_tablesOf {intent hitType language : String} :
    FailsOnly IsReported (tablesOf intent hitType language tables names) := by
  induction names with
  | nil => exact failsOnly_ok
  | cons name rest ih =>
    rw [tablesOf]
    split
    · exact failsOnly_error (.unknownVariable ..)
    · split
      · exact failsOnly_ok
      · exact ih.map

theorem failsOnly_ofDimensions {α : Type} {dimensions : List (List α)} :
    FailsOnly IsReported (Combinations.ofDimensions dimensions) := by
  rw [Combinations.ofDimensions]
  split
  · exact failsOnly_ok
  · exact failsOnly_error (.tooManyCombinations _)

theorem length_of_mem_sections {α : Type} {dimensions : List (List α)} {chosen : List α}
    (h : chosen ∈ dimensions.sections) : chosen.length = dimensions.length :=
  (List.mem_sections.1 h).length_eq

/-- Combinations with a phrasing for each name can be put into the pattern. -/
theorem failsOnly_phrasesOf {phrasings : List (List String)}
    (hnames : names.Perm (Pattern.variableNames pattern)) (hlength : names.length = phrasings.length) :
    FailsOnly IsReported (phrasesOf pattern names phrasings) := by
  refine failsOnly_ofDimensions.bind fun combinations hcombinations => ?_
  rw [Combinations.collect_eq, Combinations.toList_eq hcombinations]
  refine failsOnly_mapM fun chosen hchosen => ?_
  obtain ⟨phrase, hphrase⟩ := Pattern.substitute_isOk_iff.2
    ⟨hlength.trans (length_of_mem_sections hchosen).symm, hnames⟩
  rw [hphrase]
  exact failsOnly_ok

theorem failsOnly_ofValues (hfit : ∀ pattern ∈ patterns, names.Perm (Pattern.variableNames pattern))
    (hfound : found.length = names.length) (hvalues : values.length = found.length) :
    FailsOnly IsReported (ofValues g patterns names found values) := by
  refine (failsOnly_mapM fun pattern hpattern => failsOnly_phrasesOf (hfit pattern hpattern) ?_).bind
    fun lists _ => failsOnly_ok
  rw [List.length_map, List.length_zip, hvalues, Nat.min_self, hfound]

theorem failsOnly_ofSignature (hfit : ∀ pattern ∈ patterns,
      (Pattern.signatureNames signature).Perm (Pattern.variableNames pattern)) :
    FailsOnly IsReported (ofSignature g tables oracle signature patterns) := by
  rw [ofSignature]
  split
  · exact failsOnly_ok
  · refine failsOnly_tablesOf.bind fun found hfound => ?_
    split
    · exact failsOnly_ok
    · next hshort =>
      -- All tables are found here, so there is a value, and a phrasing, for each name.
      have hfound : found.length = (Pattern.signatureNames signature).length :=
        (tablesOf_eq_ok hfound).elim (fun htables => htables.length_eq.symm)
          fun hlacking => absurd hlacking.1 hshort
      refine failsOnly_ofDimensions.bind fun combinations hcombinations => ?_
      rw [Combinations.collect_eq, Combinations.toList_eq hcombinations]
      refine (failsOnly_mapM fun values hvalues => ?_).bind fun rules _ => failsOnly_ok
      split
      · have hvalues := length_of_mem_sections hvalues
        rw [List.length_map] at hvalues
        exact (failsOnly_ofValues hfit hfound hvalues).map
      · exact failsOnly_ok

theorem failsOnly_ofGrammar {g : Grammar Templates} (hfit : g.patterns.Fits) :
    FailsOnly IsReported (ofGrammar g tables oracle) :=
  (failsOnly_mapM fun _ he => failsOnly_ofSignature fun _ hpattern =>
    hfit.perm (Dict.mem_entries_iff.1 he) hpattern).bind fun _ _ => failsOnly_ok

theorem failsOnly_ofGrammars {gs : TemplateGrammars} (hfit : ∀ g ∈ gs.toList, g.patterns.Fits) :
    FailsOnly IsReported (ofGrammars gs tables oracle) :=
  (failsOnly_mapM fun e he =>
    ((failsOnly_mapM fun g hg => failsOnly_ofGrammar <|
      hfit g (Grammars.mem_toList_iff.2 ⟨e.1, e.2, he, hg⟩)).bind fun _ _ => failsOnly_ok).map).map

/-- The rules of the grammars can be made, as far as the patterns are concerned. -/
structure AreSafe (gs : TemplateGrammars) (tables : PhrasingTables) (oracle : Option Oracle) : Prop where
  /-- The patterns of a signature have the places that it names. -/
  fits : ∀ g ∈ gs.toList, g.patterns.Fits
  /-- Each combination of phrasings has one for each name, and can be put into the patterns. -/
  substituted : ∀ g ∈ gs.toList, ∀ {signature patterns pattern values phrasings},
    g.patterns.bySignature.get? signature = some patterns → pattern ∈ patterns →
    Assigns tables g.language (Pattern.signatureNames signature) values →
    phrasings ∈ (List.zipWith (phrasingsIn tables g.language) (Pattern.signatureNames signature)
      values).sections →
    phrasings.length = (Pattern.signatureNames signature).length ∧
      ∃ phrase, Pattern.substitute pattern (Pattern.signatureNames signature) phrasings = .ok phrase
  /-- There are rules, or a failure is reported. -/
  made : (∃ rules, ofGrammars gs tables oracle = .ok rules) ∨
    ∃ failure, IsReported failure ∧ ofGrammars gs tables oracle = .error failure

/-- The rules of loaded grammars can be made, whatever the tables and the oracle are. -/
theorem areSafe_of_loaded {t : FileTree} {registered : IntentRegistry} {directory : String}
    {gs : TemplateGrammars} (h : TemplateGrammars.ofDirectory t registered directory = .ok gs)
    (tables : PhrasingTables) (oracle : Option Oracle) : AreSafe gs tables oracle := by
  have hfits := TemplateGrammars.fits_of_loaded h
  refine ⟨hfits,
    fun g hg {signature patterns pattern values phrasings} hmem hpattern hassigns hchosen => ?_,
    (failsOnly_ofGrammars hfits).cases⟩
  have hlength : phrasings.length = (Pattern.signatureNames signature).length := by
    rw [length_of_mem_sections hchosen, List.length_zipWith, ← hassigns.length_eq, Nat.min_self]
  exact ⟨hlength, Pattern.substitute_isOk_iff.2 ⟨hlength.symm, (hfits g hg).perm hmem hpattern⟩⟩

end Rule

namespace Example

/-- A file with two patterns of an intent. -/
def sourceFile : FileTree where
  entries := .ofList [("/g", .directory),
    ("/g/texts.grammar", .file "en,path => $Source in $Source\nen,path => $Text\n".toUTF8)]

theorem sourceFile_areSafe :
    ∃ gs, TemplateGrammars.ofDirectory sourceFile (.ofList [("path", ∅)]) "/g" = .ok gs ∧
      gs.toList.map (fun g => g.patterns.bySignature.entries) =
        [[("$Source|$Source", ["$Source in $Source"]), ("$Text", ["$Text"])]] ∧
      ∀ tables oracle, Rule.AreSafe gs tables oracle := by
  have hloaded : (TemplateGrammars.ofDirectory sourceFile (.ofList [("path", ∅)]) "/g").toOption.map
      (fun gs => gs.toList.map fun g => g.patterns.bySignature.entries) =
        some [[("$Source|$Source", ["$Source in $Source"]), ("$Text", ["$Text"])]] := by
    decide +kernel
  obtain ⟨gs, hgs, hentries⟩ := toOption_map_eq_some_iff.1 hloaded
  exact ⟨gs, hgs, hentries, Rule.areSafe_of_loaded hgs⟩

end Example

end PhraseGraph
