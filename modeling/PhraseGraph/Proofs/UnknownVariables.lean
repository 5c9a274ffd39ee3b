import PhraseGraph.Proofs.LoadedRules

/-!
# Variables that nobody knows

The tables of the variables of a signature are looked up one after another. The first variable without a
table in the language decides: if it has tables in other languages, the signature is passed over, whatever
comes behind it; if it has none at all, it is unknown, and this is reported (`Rule.tablesOf_eq_error_iff`).

The rules of a signature cannot be made for three reasons (`Rule.FailsFor`): an unknown variable is
reported, there are too many combinations, or phrasings are put into a pattern that has other places than
the signature names. Where there are not too many combinations, the first and the last one decide whether
the rules of a grammar can be made (`Rule.fails_iff`).

So an unknown variable goes unnoticed if variables without a table in the language hide it in all its
signatures, and only then (`Rule.ofGrammar_reportsUnknown`, `Example.galaxy_unnoticed`).
-/

namespace PhraseGraph

namespace Rule

variable {tables : PhrasingTables} {language intent hitType signature : String}
  {names values patterns : List String} {found : List PhrasingTable} {g : Grammar Templates}
  {oracle : Option Oracle} {failure : Failure}

/-! ### Looking up tables -/

/-- The first of the variables that has no table in the language. -/
def firstLacking? (tables : PhrasingTables) (language : String) (names : List String) :
    Option String :=
  names.find? fun name => (tableOf? tables language name).isNone

theorem tableOf?_eq_none_of_unknown {name : String} (h : tables.get? name = none) :
    tableOf? tables language name = none := by
  rw [tableOf?, h, Option.bind_none]

/-- The look-up of tables fails if the first variable that has none in the language is unknown. -/
theorem tablesOf_eq_error_iff : tablesOf intent hitType language tables names = .error failure ↔
    ∃ name, firstLacking? tables language names = some name ∧ tables.get? name = none ∧
      failure = .unknownVariable name intent hitType := by
  induction names with
  | nil => simp [tablesOf, firstLacking?]
  | cons name rest ih =>
    rw [tablesOf]
    cases hname : tables.get? name with
    | none =>
      have hfirst : firstLacking? tables language (name :: rest) = some name :=
        List.find?_cons_of_pos (by rw [tableOf?_eq_none_of_unknown hname]; rfl)
      simp [hfirst, hname, eq_comm]
    | some byLanguage =>
      have htable : tableOf? tables language name = byLanguage.get? language := by
        rw [tableOf?, hname, Option.bind_some]
      cases hlanguage : byLanguage.get? language with
      | none =>
        have hfirst : firstLacking? tables language (name :: rest) = some name :=
          List.find?_cons_of_pos (by rw [htable, hlanguage]; rfl)
        simp [hfirst, hname, hlanguage]
      | some table =>
        have hfirst : firstLacking? tables language (name :: rest) =
            firstLacking? tables language rest :=
          List.find?_cons_of_neg (by rw [htable, hlanguage]; simp)
        simp only [hfirst, ← ih, hlanguage]
        exact map_eq_error_iff

/-! ### The rules of a signature -/

/-- The signature names a variable that has no tables. -/
def NamesUnknown (tables : PhrasingTables) (signature : String) : Prop :=
  ∃ name ∈ Pattern.signatureNames signature, tables.get? name = none

/-- The first variable without a table in the language has no tables at all. -/
def ShowsUnknown (tables : PhrasingTables) (language signature : String) : Prop :=
  ∃ name, firstLacking? tables language (Pattern.signatureNames signature) = some name ∧
    tables.get? name = none

/-- The first variable without a table in the language has tables in other languages. -/
def Hides (tables : PhrasingTables) (language signature : String) : Prop :=
  ∃ name byLanguage, firstLacking? tables language (Pattern.signatureNames signature) = some name ∧
    tables.get? name = some byLanguage

/-- An unknown variable shows if and only if it is not hidden. -/
theorem showsUnknown_iff : ShowsUnknown tables language signature ↔
    NamesUnknown tables signature ∧ ¬ Hides tables language signature := by
  constructor
  · rintro ⟨name, hfirst, hname⟩
    refine ⟨⟨name, List.mem_of_find?_eq_some hfirst, hname⟩, ?_⟩
    rintro ⟨name', byLanguage, hfirst', hname'⟩
    obtain rfl := Option.some_inj.1 (hfirst.symm.trans hfirst')
    exact absurd (hname.symm.trans hname') (by simp)
  · rintro ⟨⟨name, hmem, hname⟩, hhides⟩
    cases hfirst : firstLacking? tables language (Pattern.signatureNames signature) with
    | none =>
      have hnone := List.find?_eq_none.1 hfirst name hmem
      rw [tableOf?_eq_none_of_unknown hname] at hnone
      exact absurd rfl hnone
    | some first =>
      cases hknown : tables.get? first with
      | none => exact ⟨first, hfirst, hknown⟩
      | some byLanguage => exact absurd ⟨first, byLanguage, hfirst, hknown⟩ hhides

/-- Phrasings of values that the intent accepts are put into a pattern that has other places than the
    signature names. -/
def Misfits (tables : PhrasingTables) (g : Grammar Templates) (oracle : Option Oracle)
    (signature : String) (patterns : List String) : Prop :=
  signature ≠ "" ∧ ∃ values, Assigns tables g.language (Pattern.signatureNames signature) values ∧
    Accepts g.intent oracle (Pattern.signatureNames signature) values ∧
    (List.zipWith (phrasingsIn tables g.language) (Pattern.signatureNames signature) values).sections ≠
      [] ∧
    ∃ pattern ∈ patterns, ¬ (Pattern.signatureNames signature).Perm (Pattern.variableNames pattern)

/-- The reasons why the rules of a signature cannot be made. -/
inductive FailsFor (tables : PhrasingTables) (g : Grammar Templates) (oracle : Option Oracle)
    (signature : String) (patterns : List String) : Failure → Prop
  | unknown {name : String} :
    firstLacking? tables g.language (Pattern.signatureNames signature) = some name →
    tables.get? name = none →
    FailsFor tables g oracle signature patterns (.unknownVariable name g.intent g.hitType)
  | tooMany (dimensions : Nat) :
    FailsFor tables g oracle signature patterns (.tooManyCombinations dimensions)
  | misfit (fault : SubstitutionFault) : Misfits tables g oracle signature patterns →
    FailsFor tables g oracle signature patterns (.substitution fault)

theorem ofDimensions_eq_error {α : Type} {dimensions : List (List α)}
    (h : Combinations.ofDimensions dimensions = .error failure) :
    failure = .tooManyCombinations dimensions.length := by
  rw [Combinations.ofDimensions] at h
  split at h
  · exact absurd h (by simp)
  · exact (Except.error.inj h).symm

/-- Phrasings cannot be put into a pattern if there are too many combinations of them, or if one of the
    combinations does not fit. -/
theorem phrasesOf_eq_error {pattern : String} {phrasings : List (List String)}
    (h : phrasesOf pattern names phrasings = .error failure) :
    failure = .tooManyCombinations phrasings.length ∨
      ∃ chosen ∈ phrasings.sections, ∃ fault, failure = .substitution fault ∧
        Pattern.substitute pattern names chosen = .error fault := by
  rcases bind_eq_error_iff.1 h with h | ⟨combinations, hcombinations, h⟩
  · exact .inl (ofDimensions_eq_error h)
  · rw [Combinations.collect_eq, Combinations.toList_eq hcombinations] at h
    obtain ⟨chosen, hchosen, h⟩ := exists_of_mapM_eq_error h
    split at h
    · exact absurd h (by simp)
    · next fault hfault => exact .inr ⟨chosen, hchosen, fault, (Except.error.inj h).symm, hfault⟩

/-- The rule of some values cannot be made if there are too many combinations of their phrasings, or if
    there are any and a pattern has other places. -/
theorem ofValues_eq_error (htables : HaveTables tables g.language names found)
    (hassigns : Assigns tables g.language names values)
    (h : ofValues g patterns names found values = .error failure) :
    (∃ dimensions, failure = .tooManyCombinations dimensions) ∨ ∃ fault, failure = .substitution fault ∧
      (List.zipWith (phrasingsIn tables g.language) names values).sections ≠ [] ∧
      ∃ pattern ∈ patterns, ¬ names.Perm (Pattern.variableNames pattern) := by
  rcases bind_eq_error_iff.1 h with h | ⟨lists, -, h⟩
  · rw [htables.phrasings_eq] at h
    obtain ⟨pattern, hpattern, h⟩ := exists_of_mapM_eq_error h
    rcases phrasesOf_eq_error h with rfl | ⟨chosen, hchosen, fault, rfl, hfault⟩
    · exact .inl ⟨_, rfl⟩
    · refine .inr ⟨fault, rfl, List.ne_nil_of_mem hchosen, pattern, hpattern, fun hperm => ?_⟩
      have hlength := length_of_mem_sections hchosen
      rw [List.length_zipWith, ← hassigns.length_eq, Nat.min_self] at hlength
      obtain ⟨phrase, hphrase⟩ := Pattern.substitute_isOk_iff.2 ⟨hlength.symm, hperm⟩
      exact absurd (hphrase.symm.trans hfault) (by simp)
  · exact absurd h (by simp [pure, Except.pure])

theorem ofSignature_eq_error (h : ofSignature g tables oracle signature patterns = .error failure) :
    FailsFor tables g oracle signature patterns failure := by
  by_cases hne : signature = ""
  · rw [hne, ofSignature_empty] at h
    exact absurd h (by simp)
  rw [ofSignature, if_neg (by simpa using hne)] at h
  rcases bind_eq_error_iff.1 h with h | ⟨found, hfound, h⟩
  · obtain ⟨name, hfirst, hname, rfl⟩ := tablesOf_eq_error_iff.1 h
    exact .unknown hfirst hname
  rcases tablesOf_eq_ok hfound with htables | ⟨hshort, -⟩
  · rw [if_neg (by rw [htables.length_eq]; exact lt_irrefl _)] at h
    rcases bind_eq_error_iff.1 h with h | ⟨combinations, hcombinations, h⟩
    · rw [ofDimensions_eq_error h]
      exact .tooMany _
    rcases bind_eq_error_iff.1 h with h | ⟨rules, -, h⟩
    · rw [Combinations.collect_eq, Combinations.toList_eq hcombinations] at h
      obtain ⟨values, hvalues, h⟩ := exists_of_mapM_eq_error h
      split at h
      · next hvalid =>
        have hassigns := htables.assigns_iff.2 hvalues
        rcases ofValues_eq_error htables hassigns (map_eq_error_iff.1 h) with
          ⟨dimensions, rfl⟩ | ⟨fault, rfl, hsections, hmisfit⟩
        · exact .tooMany dimensions
        · exact .misfit fault ⟨hne, values, hassigns, accepts_iff.2 hvalid, hsections, hmisfit⟩
      · exact absurd h (by simp)
    · exact absurd h (by simp [pure, Except.pure])
  · rw [if_pos hshort] at h
    exact absurd h (by simp [pure, Except.pure])

theorem ofSignature_of_showsUnknown (h : ShowsUnknown tables g.language signature) :
    ∃ failure, ofSignature g tables oracle signature patterns = .error failure := by
  obtain ⟨name, hfirst, hname⟩ := h
  have hne : signature ≠ "" := by
    rintro rfl
    exact absurd hfirst (by simp [Pattern.signatureNames_empty, firstLacking?])
  rw [ofSignature, if_neg (by simpa using hne)]
  exact ⟨_, bind_eq_error_iff.2 (.inl (tablesOf_eq_error_iff.2 ⟨name, hfirst, hname, rfl⟩))⟩

theorem ofSignature_of_misfits (h : Misfits tables g oracle signature patterns) :
    ∃ failure, ofSignature g tables oracle signature patterns = .error failure := by
  obtain ⟨hne, values, hassigns, haccepts, hsections, pattern, hpattern, hperm⟩ := h
  cases hmade : ofSignature g tables oracle signature patterns with
  | error failure => exact ⟨failure, rfl⟩
  | ok part =>
    exfalso
    rcases ofSignature_eq_ok hne hmade with ⟨-, name, hname, hnone⟩ | ⟨found, htables, hrules⟩
    · obtain ⟨value, -, table, hsome, -⟩ := exists_of_forall₂ hassigns hname
      exact absurd (hnone.symm.trans hsome) (by simp)
    · obtain ⟨r, -, hfor⟩ := exists_of_forall₂ hrules <|
        List.mem_filter.2 ⟨htables.assigns_iff.1 hassigns, accepts_iff.1 haccepts⟩
      -- The rule has a phrase for each combination of phrasings, so the pattern takes them.
      obtain ⟨chosen, hchosen⟩ := List.exists_mem_of_ne_nil _ hsections
      have hmem : Pattern.substitute pattern (Pattern.signatureNames signature) chosen ∈
          r.phrases.map Except.ok := by
        rw [hfor.phrases_eq]
        exact List.mem_flatMap.2 ⟨pattern, hpattern, List.mem_map.2 ⟨chosen, hchosen, rfl⟩⟩
      obtain ⟨phrase, -, hphrase⟩ := List.mem_map.1 hmem
      exact hperm (Pattern.substitute_isOk_iff.1 ⟨phrase, hphrase.symm⟩).2

/-! ### The rules of a grammar -/

/-- The failure of a grammar is that of a signature. -/
theorem ofGrammar_eq_error (h : ofGrammar g tables oracle = .error failure) : ∃ signature patterns,
    g.patterns.bySignature.get? signature = some patterns ∧
      ofSignature g tables oracle signature patterns = .error failure := by
  rcases bind_eq_error_iff.1 h with h | ⟨rules, -, h⟩
  · obtain ⟨e, he, h⟩ := exists_of_mapM_eq_error h
    exact ⟨e.1, e.2, Dict.mem_entries_iff.1 he, h⟩
  · exact absurd h (by simp [pure, Except.pure])

theorem exists_ofGrammar_eq_error
    (hmem : g.patterns.bySignature.get? signature = some patterns)
    (h : ∃ failure, ofSignature g tables oracle signature patterns = .error failure) :
    ∃ failure, ofGrammar g tables oracle = .error failure := by
  obtain ⟨failure, hfailure⟩ := h
  cases hmade : ofGrammar g tables oracle with
  | error failure => exact ⟨failure, rfl⟩
  | ok rules =>
    exact absurd ((ofSignature_eq_withNames hmade hmem).symm.trans hfailure) (by simp)

/-- The rules of a grammar cannot be made. -/
def Fails (tables : PhrasingTables) (g : Grammar Templates) (oracle : Option Oracle) : Prop :=
  ∃ failure, ofGrammar g tables oracle = .error failure

/-- When the rules of a grammar cannot be made, if there are not too many combinations. -/
structure ReportsUnknown (tables : PhrasingTables) (g : Grammar Templates) (oracle : Option Oracle) :
    Prop where
  /-- They cannot be made if and only if in a signature the first variable without a table in the
      language is unknown, or phrasings are put into a pattern that has other places. -/
  fails_iff : Fails tables g oracle ↔
    (∃ signature ∈ g.patterns.bySignature.keys, ShowsUnknown tables g.language signature) ∨
      ∃ signature patterns, g.patterns.bySignature.get? signature = some patterns ∧
        Misfits tables g oracle signature patterns
  /-- If the patterns have the places that their signatures name, the first variable without a table in a
      signature is reported, and it is unknown. -/
  failure_eq : g.patterns.Fits → ∀ failure, ofGrammar g tables oracle = .error failure →
    ∃ signature ∈ g.patterns.bySignature.keys, ∃ name,
      firstLacking? tables g.language (Pattern.signatureNames signature) = some name ∧
        tables.get? name = none ∧ failure = .unknownVariable name g.intent g.hitType
  /-- Then it is reported exactly if there is an unknown variable, but for grammars of which each
      signature with one hides it. -/
  agrees_iff : g.patterns.Fits →
    ((Fails tables g oracle ↔ ∃ signature ∈ g.patterns.bySignature.keys, NamesUnknown tables signature) ↔
      ¬ ((∃ signature ∈ g.patterns.bySignature.keys, NamesUnknown tables signature) ∧
        ∀ signature ∈ g.patterns.bySignature.keys, NamesUnknown tables signature →
          Hides tables g.language signature))

theorem not_misfits_of_fits (hfits : g.patterns.Fits)
    (hmem : g.patterns.bySignature.get? signature = some patterns) :
    ¬ Misfits tables g oracle signature patterns := by
  rintro ⟨-, -, -, -, -, pattern, hpattern, hperm⟩
  exact hperm (hfits.perm hmem hpattern)

theorem fails_iff
    (hsmall : ∀ dimensions, ofGrammar g tables oracle ≠ .error (.tooManyCombinations dimensions)) :
    Fails tables g oracle ↔
      (∃ signature ∈ g.patterns.bySignature.keys, ShowsUnknown tables g.language signature) ∨
        ∃ signature patterns, g.patterns.bySignature.get? signature = some patterns ∧
          Misfits tables g oracle signature patterns := by
  constructor
  · rintro ⟨failure, h⟩
    obtain ⟨signature, patterns, hmem, hfailed⟩ := ofGrammar_eq_error h
    cases ofSignature_eq_error hfailed with
    | unknown hfirst hname => exact .inl ⟨signature, Dict.mem_keys_iff.2 ⟨_, hmem⟩, _, hfirst, hname⟩
    | tooMany dimensions => exact absurd h (hsmall dimensions)
    | misfit fault hmisfits => exact .inr ⟨signature, patterns, hmem, hmisfits⟩
  · rintro (⟨signature, hkey, hshows⟩ | ⟨signature, patterns, hmem, hmisfits⟩)
    · obtain ⟨patterns, hmem⟩ := Dict.mem_keys_iff.1 hkey
      exact exists_ofGrammar_eq_error hmem (ofSignature_of_showsUnknown hshows)
    · exact exists_ofGrammar_eq_error hmem (ofSignature_of_misfits hmisfits)

/-- Unknown variables are reported, but for those that variables without a table in the language hide. -/
theorem ofGrammar_reportsUnknown
    (hsmall : ∀ dimensions, ofGrammar g tables oracle ≠ .error (.tooManyCombinations dimensions)) :
    ReportsUnknown tables g oracle where
  fails_iff := fails_iff hsmall
  failure_eq hfits failure h := by
    obtain ⟨signature, patterns, hmem, hfailed⟩ := ofGrammar_eq_error h
    cases ofSignature_eq_error hfailed with
    | unknown hfirst hname =>
      exact ⟨signature, Dict.mem_keys_iff.2 ⟨_, hmem⟩, _, hfirst, hname, rfl⟩
    | tooMany dimensions => exact absurd h (hsmall dimensions)
    | misfit fault hmisfits => exact absurd hmisfits (not_misfits_of_fits hfits hmem)
  agrees_iff hfits := by
    have hmisfit : ¬ ∃ signature patterns, g.patterns.bySignature.get? signature = some patterns ∧
        Misfits tables g oracle signature patterns :=
      fun ⟨signature, patterns, hmem, hmisfits⟩ => not_misfits_of_fits hfits hmem hmisfits
    rw [fails_iff hsmall, or_iff_left hmisfit]
    simp only [showsUnknown_iff]
    constructor
    · rintro hiff ⟨hunknown, hhidden⟩
      obtain ⟨signature, hkey, hnames, hshown⟩ := hiff.2 hunknown
      exact hshown (hhidden signature hkey hnames)
    · refine fun hshown => ⟨fun ⟨signature, hkey, hnames, _⟩ => ⟨signature, hkey, hnames⟩,
        fun hunknown => ?_⟩
      by_contra hnone
      refine hshown ⟨hunknown, fun signature hkey hnames => ?_⟩
      by_contra hhides
      exact hnone ⟨signature, hkey, hnames, hhides⟩

end Rule

namespace Example

/-- Patterns with a variable that has no tables and one of the others. -/
def galaxyIn (others : List String) : Grammar Templates where
  hitType := "landing-page"
  language := "en"
  intent := "conventions"
  filters := ∅
  patterns := .ofPhrases (others.map fun name => "$Galaxy in " ++ name)

/-- Variables with a table in one language. -/
def tablesIn (language : String) (names : List String) : PhrasingTables :=
  .ofList (names.map fun name => (name, .ofList [(language, .ofList [("map", ["map"])])]))

/-- One signature hides the unknown variable, the other one shows it. -/
theorem galaxy_reported :
    (∀ dimensions, Rule.ofGrammar (galaxyIn ["$Atlas", "$Zone"]) (tablesIn "es" ["$Atlas", "$Zone"]) none ≠
      .error (.tooManyCombinations dimensions)) ∧
      Rule.ofGrammar (galaxyIn ["$Atlas", "$Zone"]) (tablesIn "es" ["$Atlas", "$Zone"]) none =
        .error (.unknownVariable "$Galaxy" "conventions" "landing-page") ∧
      Rule.ReportsUnknown (tablesIn "es" ["$Atlas", "$Zone"]) (galaxyIn ["$Atlas", "$Zone"]) none := by
  have hreported : Rule.ofGrammar (galaxyIn ["$Atlas", "$Zone"])
      (tablesIn "es" ["$Atlas", "$Zone"]) none =
        .error (.unknownVariable "$Galaxy" "conventions" "landing-page") := by decide +kernel
  have hsmall : ∀ dimensions, Rule.ofGrammar (galaxyIn ["$Atlas", "$Zone"])
      (tablesIn "es" ["$Atlas", "$Zone"]) none ≠ .error (.tooManyCombinations dimensions) := by
    rw [hreported]
    simp
  exact ⟨hsmall, hreported, Rule.ofGrammar_reportsUnknown hsmall⟩

/-- Nothing is reported while `$Atlas`, which comes before `$Galaxy`, has a table in another language
    only. It is reported that there is no `$Galaxy` as soon as the table is in the language, and where the
    other variable comes behind it. -/
theorem galaxy_unnoticed :
    (galaxyIn ["$Atlas"]).patterns.Fits ∧
      Rule.ofGrammar (galaxyIn ["$Atlas"]) (tablesIn "es" ["$Atlas"]) none = .ok [] ∧
      ¬ (Rule.Fails (tablesIn "es" ["$Atlas"]) (galaxyIn ["$Atlas"]) none ↔
        ∃ signature ∈ (galaxyIn ["$Atlas"]).patterns.bySignature.keys,
          Rule.NamesUnknown (tablesIn "es" ["$Atlas"]) signature) ∧
      Rule.Fails (tablesIn "en" ["$Atlas"]) (galaxyIn ["$Atlas"]) none ∧
      Rule.Fails (tablesIn "es" ["$Zone"]) (galaxyIn ["$Zone"]) none := by
  have hhidden : Rule.ofGrammar (galaxyIn ["$Atlas"]) (tablesIn "es" ["$Atlas"]) none = .ok [] := by
    decide +kernel
  have hfound : Rule.ofGrammar (galaxyIn ["$Atlas"]) (tablesIn "en" ["$Atlas"]) none =
      .error (.unknownVariable "$Galaxy" "conventions" "landing-page") := by decide +kernel
  have hfirst : Rule.ofGrammar (galaxyIn ["$Zone"]) (tablesIn "es" ["$Zone"]) none =
      .error (.unknownVariable "$Galaxy" "conventions" "landing-page") := by decide +kernel
  refine ⟨Templates.fits_ofPhrases _, hhidden, fun hiff => ?_, ⟨_, hfound⟩, ⟨_, hfirst⟩⟩
  obtain ⟨failure, hfailure⟩ := hiff.2 ⟨"$Atlas|$Galaxy", by decide +kernel, "$Galaxy",
    by decide +kernel, Option.isNone_iff_eq_none.1 (by decide +kernel)⟩
  exact absurd (hhidden.symm.trans hfailure) (by simp)

end Example

end PhraseGraph
