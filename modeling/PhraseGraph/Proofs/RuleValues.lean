import Mathlib.Data.List.Induction
import Mathlib.Data.List.ReduceOption
import PhraseGraph.Proofs.Entries
import PhraseGraph.Proofs.Results
import PhraseGraph.Proofs.Sections
import PhraseGraph.Proofs.Signatures
import PhraseGraph.Rule.Making

/-!
# The rules of a grammar

A signature with variables gives a rule for each valid assignment of values to its variables. The values
are the sections of the keys of the tables, and the phrases of a rule are, pattern by pattern, what comes
of the sections of the phrasings (`Rule.ofSignature_eq_ok`, `Rule.IsFor`). A signature with a variable that
has no table in the language gives no rules.

Different signatures have different lists of names. So the rules with the names of a signature are those
that it gives (`Rule.ofSignature_eq_withNames`), and what is said of the rules of a signature holds of the
rules of the grammar (`Rule.ofGrammar_exact`).
-/

namespace PhraseGraph

namespace Rule

variable {tables : PhrasingTables} {language : String} {names values : List String}
  {found : List PhrasingTable} {π : Type} {g : Grammar π} {oracle : Option Oracle}
  {signature pattern name : String} {patterns : List String} {part : List Rule} {r : Rule}

/-! ### Tables of variables -/

/-- The table of a variable in a language. -/
def tableOf? (tables : PhrasingTables) (language name : String) : Option PhrasingTable :=
  (tables.get? name).bind fun byLanguage => byLanguage.get? language

/-- Each variable has a table in the language, and these are the tables. -/
def HaveTables (tables : PhrasingTables) (language : String) (names : List String)
    (found : List PhrasingTable) : Prop :=
  List.Forall₂ (fun name table => tableOf? tables language name = some table) names found

/-- Each variable is assigned a value of its table in the language. -/
def Assigns (tables : PhrasingTables) (language : String) (names values : List String) : Prop :=
  List.Forall₂ (fun name value => ∃ table, tableOf? tables language name = some table ∧
    value ∈ table.keys) names values

/-- The phrasings of a value of a variable. -/
def phrasingsIn (tables : PhrasingTables) (language name value : String) : List String :=
  ((tableOf? tables language name).bind fun table => table.get? value).getD []

/-- The tables are found, up to the first variable that has none in the language. -/
theorem tablesOf_eq_ok {intent hitType : String}
    (h : tablesOf intent hitType language tables names = .ok found) :
    HaveTables tables language names found ∨
      found.length < names.length ∧ ∃ name ∈ names, tableOf? tables language name = none := by
  induction names generalizing found with
  | nil =>
    obtain rfl := Except.ok.inj h
    exact .inl .nil
  | cons name rest ih =>
    rw [tablesOf] at h
    split at h
    · exact absurd h (by simp)
    · next byLanguage hbyLanguage =>
      have htable : tableOf? tables language name = byLanguage.get? language := by
        rw [tableOf?, hbyLanguage, Option.bind_some]
      split at h
      · next hnone =>
        obtain rfl := Except.ok.inj h
        exact .inr ⟨Nat.succ_pos _, name, List.mem_cons_self, htable.trans hnone⟩
      · next table hsome =>
        obtain ⟨found, hfound, rfl⟩ := map_eq_ok_iff.1 h
        rcases ih hfound with hrest | ⟨hlength, name', hname', hnone⟩
        · exact .inl (.cons (htable.trans hsome) hrest)
        · exact .inr ⟨Nat.succ_lt_succ hlength, name', List.mem_cons_of_mem _ hname', hnone⟩

/-- The assignments are the combinations of the keys of the tables. -/
theorem HaveTables.assigns_iff (h : HaveTables tables language names found) :
    Assigns tables language names values ↔ values ∈ (found.map Dict.keys).sections := by
  rw [List.mem_sections, Assigns]
  induction h generalizing values with
  | nil => simp
  | cons htable _ ih => simp [htable, ih, List.forall₂_cons_left_iff, List.forall₂_cons_right_iff]

theorem HaveTables.phrasings_eq (h : HaveTables tables language names found) :
    (found.zip values).map (fun (table, value) => (table.get? value).getD []) =
      List.zipWith (phrasingsIn tables language) names values := by
  induction h generalizing values with
  | nil => rfl
  | cons htable _ ih =>
    cases values with
    | nil => rfl
    | cons value values =>
      rw [List.zip_cons_cons, List.map_cons, ih, List.zipWith_cons_cons, phrasingsIn, htable,
        Option.bind_some]

/-! ### The rule of an assignment -/

/-- The rule of the patterns for the values of the variables. Its phrases are, pattern by pattern, the
    pattern with each combination of the phrasings of the values in its places. The phrasing of the first
    variable changes fastest. -/
structure IsFor (tables : PhrasingTables) (g : Grammar π) (patterns names values : List String)
    (r : Rule) : Prop where
  hitType_eq : r.hitType = g.hitType
  intent_eq : r.intent = g.intent
  names_eq : r.names = names
  values_eq : r.values = values
  phrases_eq : r.phrases.map Except.ok = patterns.flatMap fun pattern =>
    (List.zipWith (phrasingsIn tables g.language) names values).sections.map
      (Pattern.substitute pattern names)
  suggestions_eq : r.suggestions = if isSuggested g.intent names then suggestionsOf r.phrases else []

theorem phrasesOf_eq_ok {phrasings : List (List String)} {phrases : List String}
    (h : phrasesOf pattern names phrasings = .ok phrases) :
    phrases.map Except.ok = phrasings.sections.map (Pattern.substitute pattern names) := by
  obtain ⟨combinations, hcombinations, h⟩ := bind_eq_ok_iff.1 h
  rw [Combinations.collect_eq, Combinations.toList_eq hcombinations, mapM_eq_ok_iff] at h
  refine map_ok_eq_map_iff.2 (h.imp fun chosen phrase hphrase => ?_)
  split at hphrase
  · next hsubstitute => rw [hsubstitute, Except.ok.inj hphrase]
  · exact absurd hphrase (by simp)

theorem isFor_of_ofValues (htables : HaveTables tables g.language names found)
    (h : ofValues g patterns names found values = .ok r) : IsFor tables g patterns names values r := by
  obtain ⟨lists, hlists, h⟩ := bind_eq_ok_iff.1 h
  obtain rfl := Except.ok.inj h
  refine ⟨rfl, rfl, rfl, rfl, ?_, rfl⟩
  rw [htables.phrasings_eq, mapM_eq_ok_iff] at hlists
  exact map_ok_flatten (hlists.imp fun pattern phrases => phrasesOf_eq_ok)

/-! ### The rules of a signature -/

/-- What is made of some elements only is made of those. -/
theorem mapM_filter_of_ite {ε α β : Type} {p : α → Bool} {f : α → Except ε β} {l : List α}
    {bs : List (Option β)}
    (h : (l.mapM fun a => if p a then (f a).map some else .ok none) = .ok bs) :
    (l.filter p).mapM f = .ok bs.reduceOption := by
  rw [mapM_eq_ok_iff] at h ⊢
  induction h with
  | nil => exact .nil
  | @cons a b l bs hab _ ih =>
    cases hp : p a with
    | false =>
      obtain rfl : none = b := by simpa [hp] using hab
      rwa [List.filter_cons_of_neg (by simp [hp]), List.reduceOption_cons_of_none]
    | true =>
      obtain ⟨b, hb, rfl⟩ := map_eq_ok_iff.1 (by simpa [hp] using hab)
      rw [List.filter_cons_of_pos hp, List.reduceOption_cons_of_some]
      exact .cons hb ih

/-- A signature with variables gives a rule for each valid assignment of values, if all variables have
    tables, and none otherwise. -/
theorem ofSignature_eq_ok (hne : signature ≠ "")
    (h : ofSignature g tables oracle signature patterns = .ok part) :
    part = [] ∧ (∃ name ∈ Pattern.signatureNames signature,
        tableOf? tables g.language name = none) ∨
      ∃ found, HaveTables tables g.language (Pattern.signatureNames signature) found ∧
        List.Forall₂ (IsFor tables g patterns (Pattern.signatureNames signature))
          ((found.map Dict.keys).sections.filter fun values =>
            validVariables g.intent (variablesMap (Pattern.signatureNames signature) values) oracle)
          part := by
  rw [ofSignature, if_neg (by simpa using hne)] at h
  obtain ⟨found, hfound, h⟩ := bind_eq_ok_iff.1 h
  -- There are fewer tables than names only if a table is lacking.
  rcases tablesOf_eq_ok hfound with htables | ⟨hshort, hnone⟩
  · rw [if_neg (by rw [htables.length_eq]; exact lt_irrefl _)] at h
    obtain ⟨combinations, hcombinations, h⟩ := bind_eq_ok_iff.1 h
    obtain ⟨rules, hrules, h⟩ := bind_eq_ok_iff.1 h
    obtain rfl := Except.ok.inj h
    rw [Combinations.collect_eq, Combinations.toList_eq hcombinations] at hrules
    exact .inr ⟨found, htables, (mapM_eq_ok_iff.1 (mapM_filter_of_ite hrules)).imp
      fun values r => isFor_of_ofValues htables⟩
  · rw [if_pos hshort] at h
    exact .inl ⟨(Except.ok.inj h).symm, hnone⟩

theorem ofSignature_empty : ofSignature g tables oracle "" patterns = .ok [plain g patterns] := rfl

theorem names_of_mem_ofSignature (h : ofSignature g tables oracle signature patterns = .ok part)
    (hr : r ∈ part) : r.names = Pattern.signatureNames signature := by
  by_cases hne : signature = ""
  · rw [hne, ofSignature_empty] at h
    obtain rfl := Except.ok.inj h
    obtain rfl := List.mem_singleton.1 hr
    rw [hne]
    rfl
  · rcases ofSignature_eq_ok hne h with ⟨rfl, -⟩ | ⟨found, -, hrules⟩
    · exact absurd hr List.not_mem_nil
    · obtain ⟨values, -, hfor⟩ := exists_of_forall₂_right hrules hr
      exact hfor.names_eq

theorem map_values_of_forall₂ {l : List (List String)}
    (h : List.Forall₂ (IsFor tables g patterns names) l part) : part.map Rule.values = l := by
  rw [eq_comm, ← List.forall₂_eq_eq_eq, List.forall₂_map_right_iff]
  exact h.imp fun values r hfor => hfor.values_eq.symm

/-- A signature gives no two rules with the same values. -/
theorem nodup_values_ofSignature (h : ofSignature g tables oracle signature patterns = .ok part) :
    (part.map Rule.values).Nodup := by
  by_cases hne : signature = ""
  · rw [hne, ofSignature_empty] at h
    obtain rfl := Except.ok.inj h
    exact List.nodup_singleton _
  · rcases ofSignature_eq_ok hne h with ⟨rfl, -⟩ | ⟨found, -, hrules⟩
    · exact List.nodup_nil
    · rw [map_values_of_forall₂ hrules]
      refine (nodup_sections fun keys hkeys => ?_).filter _
      obtain ⟨table, -, rfl⟩ := List.mem_map.1 hkeys
      exact table.nodup_keys

/-! ### The values of repeated variables -/

/-- The values that are bound to a name, if there are any. -/
def boundTo? (bindings : List (String × String)) (name : String) : Option (List String) :=
  let bound := (bindings.filter fun b => b.1 == name).map Prod.snd
  if bound = [] then none else some bound

theorem getD_boundTo? (bindings : List (String × String)) (name : String) :
    (boundTo? bindings name).getD [] = (bindings.filter fun b => b.1 == name).map Prod.snd := by
  rw [boundTo?]
  split
  · next hnil => rw [Option.getD_none, hnil]
  · rw [Option.getD_some]

theorem boundTo?_append_singleton (bindings : List (String × String)) (binding : String × String)
    (name : String) :
    boundTo? (bindings ++ [binding]) name =
      if name = binding.1 then some ((boundTo? bindings name).getD [] ++ [binding.2])
      else boundTo? bindings name := by
  by_cases hname : name = binding.1
  · rw [if_pos hname, getD_boundTo?, boundTo?, List.filter_append,
      List.filter_cons_of_pos (p := fun b : String × String => b.1 == name) (beq_iff_eq.2 hname.symm)]
    simp
  · rw [if_neg hname, boundTo?, List.filter_append,
      List.filter_cons_of_neg (p := fun b : String × String => b.1 == name) (by simpa using Ne.symm hname),
      List.filter_nil, List.append_nil, boundTo?]

/-- A variable that stands at several positions has the values of all of them, in order. -/
theorem get?_variablesMap (names values : List String) (name : String) :
    (variablesMap names values).get? name = boundTo? (names.zip values) name := by
  rw [variablesMap]
  induction names.zip values using List.reverseRecOn with
  | nil => rfl
  | append_singleton bindings binding ih =>
    rw [List.foldl_append, List.foldl_cons, List.foldl_nil, Dict.get?_alter, boundTo?_append_singleton]
    by_cases hname : name = binding.1
    · rw [if_pos hname, if_pos hname, ← ih, hname]
    · rw [if_neg hname, if_neg hname, ih]

/-- The intent accepts the map that gives each variable the values at its positions. -/
def Accepts (intent : String) (oracle : Option Oracle) (names values : List String) : Prop :=
  ∃ m : Assignment, (∀ name, m.get? name = boundTo? (names.zip values) name) ∧
    validVariables intent m oracle = true

theorem accepts_iff {intent : String} :
    Accepts intent oracle names values ↔
      validVariables intent (variablesMap names values) oracle = true := by
  constructor
  · rintro ⟨m, hm, hvalid⟩
    have heq : m = variablesMap names values :=
      Dict.ext_get? fun name => (hm name).trans (get?_variablesMap names values name).symm
    rwa [← heq]
  · exact fun hvalid => ⟨_, get?_variablesMap names values, hvalid⟩

/-! ### The rules of a grammar -/

/-- The rules with the given names. -/
def withNames (names : List String) (rules : List Rule) : List Rule :=
  rules.filter fun r => r.names == names

section WithNames

variable {rules rules' : List Rule}

theorem withNames_append :
    withNames names (rules ++ rules') = withNames names rules ++ withNames names rules' :=
  List.filter_append ..

theorem withNames_eq_self (h : ∀ r ∈ rules, r.names = names) : withNames names rules = rules :=
  List.filter_eq_self.2 fun r hr => beq_iff_eq.2 (h r hr)

theorem withNames_eq_nil (h : ∀ r ∈ rules, r.names ≠ names) : withNames names rules = [] :=
  List.filter_eq_nil_iff.2 fun r hr hname => h r hr (beq_iff_eq.1 hname)

theorem ofSignature_eq_withNames_flatten {entries : List (String × List String)}
    {parts : List (List Rule)}
    (h : List.Forall₂ (fun e part => ofSignature g tables oracle e.1 e.2 = .ok part) entries parts)
    (hkeys : (entries.map Prod.fst).Nodup) (hmem : (signature, patterns) ∈ entries) :
    ofSignature g tables oracle signature patterns =
      .ok (withNames (Pattern.signatureNames signature) parts.flatten) := by
  -- Along the signatures: all rules of a signature have its names, and no rule of another one has them.
  induction h with
  | nil => exact absurd hmem List.not_mem_nil
  | @cons e part entries parts hpart hparts ih =>
    obtain ⟨hfirst, hrest⟩ := List.nodup_cons.1 hkeys
    rw [List.flatten_cons, withNames_append]
    rcases List.mem_cons.1 hmem with rfl | hmem
    · have hother : ∀ r ∈ parts.flatten, r.names ≠ Pattern.signatureNames signature := by
        intro r hr hnames
        obtain ⟨other, hother, hr⟩ := List.mem_flatten.1 hr
        obtain ⟨e, he, hmade⟩ := exists_of_forall₂_right hparts hother
        rw [names_of_mem_ofSignature hmade hr] at hnames
        exact hfirst (List.mem_map.2 ⟨e, he, Pattern.signatureNames_inj hnames⟩)
      rw [withNames_eq_self fun r => names_of_mem_ofSignature hpart, withNames_eq_nil hother,
        List.append_nil, hpart]
    · have hother : ∀ r ∈ part, r.names ≠ Pattern.signatureNames signature := by
        intro r hr hnames
        rw [names_of_mem_ofSignature hpart hr] at hnames
        exact hfirst (List.mem_map.2 ⟨_, hmem, (Pattern.signatureNames_inj hnames).symm⟩)
      rw [withNames_eq_nil hother, List.nil_append, ih hrest hmem]

/-- The rules with the names of a signature are those that the signature gives. -/
theorem ofSignature_eq_withNames {g : Grammar Templates} (h : ofGrammar g tables oracle = .ok rules)
    (hmem : g.patterns.bySignature.get? signature = some patterns) :
    ofSignature g tables oracle signature patterns =
      .ok (withNames (Pattern.signatureNames signature) rules) := by
  obtain ⟨parts, hparts, h⟩ := bind_eq_ok_iff.1 h
  obtain rfl := Except.ok.inj h
  exact ofSignature_eq_withNames_flatten (mapM_eq_ok_iff.1 hparts) g.patterns.bySignature.nodup_keys
    (Dict.mem_entries_iff.2 hmem)

/-- Each rule of a grammar comes from one of its signatures. -/
theorem exists_signature_of_mem {g : Grammar Templates} (h : ofGrammar g tables oracle = .ok rules)
    (hr : r ∈ rules) : ∃ signature patterns, g.patterns.bySignature.get? signature = some patterns ∧
      r.names = Pattern.signatureNames signature := by
  obtain ⟨parts, hparts, h⟩ := bind_eq_ok_iff.1 h
  obtain rfl := Except.ok.inj h
  obtain ⟨part, hpart, hr⟩ := List.mem_flatten.1 hr
  obtain ⟨e, he, hmade⟩ := exists_of_forall₂_right (mapM_eq_ok_iff.1 hparts) hpart
  exact ⟨e.1, e.2, Dict.mem_entries_iff.1 he, names_of_mem_ofSignature hmade hr⟩

theorem filter_eq_singleton {α β : Type} [BEq β] [LawfulBEq β] {f : α → β} {l : List α} {a : α}
    (hl : (l.map f).Nodup) (ha : a ∈ l) : (l.filter fun b => f b == f a) = [a] := by
  induction l with
  | nil => exact absurd ha List.not_mem_nil
  | cons b l ih =>
    obtain ⟨hb, hl⟩ := List.nodup_cons.1 hl
    rcases List.mem_cons.1 ha with rfl | ha
    · have hrest : (l.filter fun b => f b == f a) = [] := List.filter_eq_nil_iff.2
        fun b hbl hba => hb (List.mem_map.2 ⟨b, hbl, beq_iff_eq.1 hba⟩)
      rw [List.filter_cons, hrest, if_pos (beq_self_eq_true _)]
    · have hba : ¬(f b == f a) = true :=
        fun hba => hb (List.mem_map.2 ⟨a, ha, (beq_iff_eq.1 hba).symm⟩)
      rw [List.filter_cons, if_neg hba, ih hl ha]

/-- The rules with the given names and values. -/
def withValues (names values : List String) (rules : List Rule) : List Rule :=
  (withNames names rules).filter fun r => r.values == values

/-- The rules are those of the grammar, with nothing missing and nothing more. -/
structure AreRulesOf (g : Grammar Templates) (tables : PhrasingTables) (oracle : Option Oracle)
    (rules : List Rule) : Prop where
  /-- Values that the intent accepts have one rule, with all phrases of the patterns. -/
  accepted : ∀ {signature patterns values}, g.patterns.bySignature.get? signature = some patterns →
    signature ≠ "" → Assigns tables g.language (Pattern.signatureNames signature) values →
    Accepts g.intent oracle (Pattern.signatureNames signature) values →
    ∃ r, withValues (Pattern.signatureNames signature) values rules = [r] ∧
      IsFor tables g patterns (Pattern.signatureNames signature) values r
  /-- Values that the intent does not accept have no rule. -/
  rejected : ∀ {signature patterns values}, g.patterns.bySignature.get? signature = some patterns →
    signature ≠ "" → ¬Accepts g.intent oracle (Pattern.signatureNames signature) values →
    withValues (Pattern.signatureNames signature) values rules = []
  /-- The patterns without variables make up one rule. -/
  plain : ∀ {patterns}, g.patterns.bySignature.get? "" = some patterns →
    withNames [] rules = [Rule.plain g patterns]
  /-- A signature with a variable that has no table in the language has no rules. -/
  lacking : ∀ {signature patterns name}, g.patterns.bySignature.get? signature = some patterns →
    signature ≠ "" → name ∈ Pattern.signatureNames signature →
    tableOf? tables g.language name = none → withNames (Pattern.signatureNames signature) rules = []
  /-- There are no other rules. -/
  exhaustive : ∀ {r}, r ∈ rules → ∃ signature patterns,
    g.patterns.bySignature.get? signature = some patterns ∧
      r.names = Pattern.signatureNames signature ∧
      (signature ≠ "" → Assigns tables g.language r.names r.values)
  /-- No two rules have the same names and values. -/
  nodup : (rules.map fun r => (r.names, r.values)).Nodup

section OfGrammar

variable {g : Grammar Templates}

theorem assigns_and_accepts_of_mem (h : ofGrammar g tables oracle = .ok rules)
    (hmem : g.patterns.bySignature.get? signature = some patterns) (hne : signature ≠ "")
    (hr : r ∈ withNames (Pattern.signatureNames signature) rules) :
    Assigns tables g.language (Pattern.signatureNames signature) r.values ∧
      Accepts g.intent oracle (Pattern.signatureNames signature) r.values := by
  rcases ofSignature_eq_ok hne (ofSignature_eq_withNames h hmem) with ⟨hnil, -⟩ | ⟨found, htables, hrules⟩
  · rw [hnil] at hr
    exact absurd hr List.not_mem_nil
  · obtain ⟨values, hvalues, hfor⟩ := exists_of_forall₂_right hrules hr
    rw [List.mem_filter] at hvalues
    rw [hfor.values_eq]
    exact ⟨htables.assigns_iff.2 hvalues.1, accepts_iff.2 hvalues.2⟩

theorem exists_withValues_eq (h : ofGrammar g tables oracle = .ok rules)
    (hmem : g.patterns.bySignature.get? signature = some patterns) (hne : signature ≠ "")
    (hassigns : Assigns tables g.language (Pattern.signatureNames signature) values)
    (haccepts : Accepts g.intent oracle (Pattern.signatureNames signature) values) :
    ∃ r, withValues (Pattern.signatureNames signature) values rules = [r] ∧
      IsFor tables g patterns (Pattern.signatureNames signature) values r := by
  have hmade := ofSignature_eq_withNames h hmem
  rcases ofSignature_eq_ok hne hmade with ⟨-, name, hname, hnone⟩ | ⟨found, htables, hrules⟩
  · obtain ⟨value, -, table, hsome, -⟩ := exists_of_forall₂ hassigns hname
    exact absurd (hnone.symm.trans hsome) (by simp)
  · obtain ⟨r, hr, hfor⟩ := exists_of_forall₂ hrules <|
      List.mem_filter.2 ⟨htables.assigns_iff.1 hassigns, accepts_iff.1 haccepts⟩
    refine ⟨r, ?_, hfor⟩
    rw [withValues, ← hfor.values_eq]
    exact filter_eq_singleton (nodup_values_ofSignature hmade) hr

theorem withNames_eq_nil_of_lacking {name : String} (h : ofGrammar g tables oracle = .ok rules)
    (hmem : g.patterns.bySignature.get? signature = some patterns) (hne : signature ≠ "")
    (hname : name ∈ Pattern.signatureNames signature)
    (hnone : tableOf? tables g.language name = none) :
    withNames (Pattern.signatureNames signature) rules = [] := by
  rcases ofSignature_eq_ok hne (ofSignature_eq_withNames h hmem) with ⟨hnil, -⟩ | ⟨found, htables, -⟩
  · exact hnil
  · obtain ⟨table, -, hsome⟩ := exists_of_forall₂ htables hname
    exact absurd (hnone.symm.trans hsome) (by simp)

theorem nodup_ofGrammar (h : ofGrammar g tables oracle = .ok rules) :
    (rules.map fun r => (r.names, r.values)).Nodup := by
  rw [List.nodup_iff_count_le_one]
  rintro ⟨names, values⟩
  -- Rules with the same names come from one signature, which has each list of values once.
  have hcount : (rules.map fun r => (r.names, r.values)).count (names, values) =
      ((withNames names rules).map Rule.values).count values := by
    rw [List.count, List.countP_map, List.count, List.countP_map, withNames, List.countP_filter]
    exact List.countP_congr fun r _ => by simp [and_comm]
  rw [hcount]
  by_cases hex : ∃ r ∈ rules, r.names = names
  · obtain ⟨r, hr, rfl⟩ := hex
    obtain ⟨signature, patterns, hmem, hnames⟩ := exists_signature_of_mem h hr
    rw [hnames]
    exact List.nodup_iff_count_le_one.1 (nodup_values_ofSignature (ofSignature_eq_withNames h hmem)) _
  · rw [withNames_eq_nil fun r hr hnames => hex ⟨r, hr, hnames⟩]
    exact Nat.zero_le 1

/-- The rules of a grammar are one for each valid assignment of values, and one for the patterns without
    variables. -/
theorem ofGrammar_exact (h : ofGrammar g tables oracle = .ok rules) :
    AreRulesOf g tables oracle rules where
  accepted hmem hne := exists_withValues_eq h hmem hne
  rejected hmem hne hrejected := by
    rw [withValues, List.filter_eq_nil_iff]
    intro r hr hvalues
    obtain ⟨-, haccepts⟩ := assigns_and_accepts_of_mem h hmem hne hr
    exact hrejected (beq_iff_eq.1 hvalues ▸ haccepts)
  plain hmem := by
    have hmade := ofSignature_eq_withNames h hmem
    rw [ofSignature_empty, Pattern.signatureNames_empty] at hmade
    exact (Except.ok.inj hmade).symm
  lacking hmem hne := withNames_eq_nil_of_lacking h hmem hne
  exhaustive {r} hr := by
    obtain ⟨signature, patterns, hmem, hnames⟩ := exists_signature_of_mem h hr
    refine ⟨signature, patterns, hmem, hnames, fun hne => ?_⟩
    have hr : r ∈ withNames (Pattern.signatureNames signature) rules :=
      List.mem_filter.2 ⟨hr, beq_iff_eq.2 hnames⟩
    rw [hnames]
    exact (assigns_and_accepts_of_mem h hmem hne hr).1
  nodup := nodup_ofGrammar h

end OfGrammar

end WithNames

end Rule

namespace Example

/-- Patterns with both variables of an intent, with one of them twice, with a variable that has no table in
    the language, and without variables. -/
def contentPatterns : Grammar Templates where
  hitType := "landing-page"
  language := "en"
  intent := "by_content_type"
  filters := ∅
  patterns := ⟨.ofList [("", ["library"]),
    ("$ContentType|$Text", ["$Text in $ContentType", "$ContentType $Text"]),
    ("$Source|$Text", ["$Text of $Source"]),
    ("$Text|$Text", ["$Text or $Text"])]⟩

/-- The tables of the variables. -/
def contentTables : PhrasingTables :=
  .ofList [
    ("$ContentType", .ofList [("en", .ofList [("books", ["a book", "books"]), ("songs", ["songs"])])]),
    ("$Source", .ofList [("es", ∅)]),
    ("$Text", .ofList [("en", textTable)])]

theorem contentPatterns_rules :
    ∃ rules, Rule.ofGrammar contentPatterns contentTables none = .ok rules ∧
      rules.map (fun r => (r.values, r.phrases)) =
        [([], ["library"]),
          (["books", "$Text"], ["$Text in a book", "$Text in books", "a book $Text", "books $Text"]),
          (["songs", "$Text"], ["$Text in songs", "songs $Text"])] ∧
      Rule.AreRulesOf contentPatterns contentTables none rules := by
  have hmade : (Rule.ofGrammar contentPatterns contentTables none).toOption.map
      (List.map fun r => (r.values, r.phrases)) =
        some [([], ["library"]),
          (["books", "$Text"], ["$Text in a book", "$Text in books", "a book $Text", "books $Text"]),
          (["songs", "$Text"], ["$Text in songs", "songs $Text"])] := by decide +kernel
  obtain ⟨rules, hrules, hphrases⟩ := toOption_map_eq_some_iff.1 hmade
  exact ⟨rules, hrules, hphrases, Rule.ofGrammar_exact hrules⟩

end Example

end PhraseGraph
