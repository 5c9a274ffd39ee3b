import PhraseGraph.Proofs.GrammarViews

/-!
# Grammars of several files

Grammars are put together at three levels: by language, by intent and by signature. At each level a key
that only one side has keeps its value, and the two values of a key that both sides have are put together
at the next level (`Dict.mergeWith`). So the laws of the whole come from those of the last level, where
lists are appended: it does not matter how files are grouped, and grammars without entries change nothing
(`Grammars.merge_assoc`, `Grammars.empty_merge`, `Grammars.merge_empty`).

No pattern gets lost or comes to stand elsewhere, and what an intent has besides patterns is that of the
first grammars that have it (`TemplateGrammars.IsMerged`).
-/

namespace PhraseGraph

/-! ### Dictionaries -/

namespace Dict

variable {κ α : Type} [Ord κ] [Std.TransOrd κ]

/-- The entries of both dictionaries, where `op` puts the values of one key together. -/
def mergeWith (op : α → α → α) (d more : Dict κ α) : Dict κ α :=
  more.entries.foldl (fun d e => d.alter e.1 fun earlier => earlier.elim e.2 (op · e.2)) d

variable [Std.LawfulEqOrd κ] {op : α → α → α} {d more : Dict κ α} {k : κ}

theorem get?_mergeWith : (mergeWith op d more).get? k = (d.get? k).merge op (more.get? k) := by
  refine (get?_foldl_alter d more (fun _ v earlier => earlier.elim v (op · v)) k).trans ?_
  cases d.get? k <;> cases more.get? k <;> rfl

instance [Std.Associative op] : Std.Associative (mergeWith (κ := κ) op) where
  assoc d d' d'' := ext_get? fun k => by
    rw [get?_mergeWith, get?_mergeWith, get?_mergeWith, get?_mergeWith]
    exact Std.Associative.assoc (d.get? k) (d'.get? k) (d''.get? k)

theorem empty_mergeWith : mergeWith op ∅ d = d :=
  ext_get? fun k => by rw [get?_mergeWith, get?_empty, Option.merge_none_left]

end Dict

/-! ### Patterns by signature -/

namespace Templates

variable {s t : Templates}

theorem append_eq : s ++ t = ⟨s.bySignature.mergeWith (· ++ ·) t.bySignature⟩ :=
  ext_get? fun signature => by
    rw [get?_append, Dict.get?_mergeWith]
    cases s.bySignature.get? signature <;> cases t.bySignature.get? signature <;> rfl

instance : Std.Associative (α := Templates) (· ++ ·) where
  assoc s t u := by
    simp only [append_eq]
    exact congrArg mk (Std.Associative.assoc s.bySignature t.bySignature u.bySignature)

end Templates

/-! ### Grammars -/

namespace Grammars

variable {π : Type} [Append π]

/-- The first grammar with the patterns of both. -/
def appendPatterns (g g' : Grammar π) : Grammar π := { g with patterns := g.patterns ++ g'.patterns }

theorem addIntents_eq :
    addIntents (π := π) = Dict.mergeWith appendPatterns := by
  funext byIntent more
  refine Dict.ext_get? fun intent => ?_
  refine (Dict.get?_foldl_alter byIntent more (fun _ g => g.after) intent).trans ?_
  rw [Dict.get?_mergeWith]
  cases byIntent.get? intent <;> cases more.get? intent <;> rfl

theorem merge_eq : merge (π := π) = Dict.mergeWith addIntents := by
  funext gs more
  refine Dict.ext_get? fun language => ?_
  refine (Dict.get?_foldl_alter gs more
    (fun _ byIntent earlier => addIntents (earlier.getD ∅) byIntent) language).trans ?_
  rw [Dict.get?_mergeWith]
  cases gs.get? language with
  | some byIntent => cases more.get? language <;> rfl
  | none =>
    cases more.get? language with
    | none => rfl
    | some byIntent => simp [addIntents_eq, Dict.empty_mergeWith]

variable {gs : Grammars π}

theorem empty_merge : merge ∅ gs = gs := by
  rw [merge_eq, Dict.empty_mergeWith]

theorem merge_empty : gs.merge ∅ = gs := rfl

instance [h : Std.Associative (α := π) (· ++ ·)] : Std.Associative (appendPatterns (π := π)) where
  assoc g g' g'' := congrArg (fun p => { g with patterns := p })
    (h.assoc g.patterns g'.patterns g''.patterns)

theorem merge_assoc [Std.Associative (α := π) (· ++ ·)] (gs gs' gs'' : Grammars π) :
    (gs.merge gs').merge gs'' = gs.merge (gs'.merge gs'') := by
  rw [merge_eq, addIntents_eq]
  exact Std.Associative.assoc gs gs' gs''

end Grammars

namespace TemplateGrammars

/-- The patterns of a signature that an intent has in a language, if it has the signature. -/
def patterns? (gs : TemplateGrammars) (language intent signature : String) : Option (List String) :=
  (gs.find? language intent).bind fun g => g.patterns.bySignature.get? signature

/-- The grammars are those of both, of which `gs` comes first. -/
structure IsMerged (gs more merged : TemplateGrammars) : Prop where
  /-- A signature has the patterns that it has in `gs`, followed by those that it has in `more`. -/
  patterns_eq : ∀ language intent signature, merged.patterns? language intent signature =
    (gs.patterns? language intent signature).merge (· ++ ·) (more.patterns? language intent signature)
  /-- An intent of `gs` has all but the patterns from there. -/
  kept : ∀ language intent g, gs.find? language intent = some g →
    ∃ g', merged.find? language intent = some g' ∧ g'.hitType = g.hitType ∧ g'.language = g.language ∧
      g'.intent = g.intent ∧ g'.filters = g.filters
  /-- An intent that `gs` does not have is that of `more`. -/
  taken : ∀ language intent, gs.find? language intent = none →
    merged.find? language intent = more.find? language intent

theorem isMerged_merge (gs more : TemplateGrammars) : IsMerged gs more (gs.merge more) where
  patterns_eq language intent signature := by
    rw [patterns?, Grammars.find?_merge, patterns?, patterns?]
    cases gs.find? language intent with
    | none => cases more.find? language intent <;> simp [Grammar.after]
    | some g =>
      cases more.find? language intent with
      | none => simp
      | some g' => simp [Grammar.after, Templates.append_eq, Dict.get?_mergeWith]
  kept language intent g hg := by
    rw [Grammars.find?_merge, hg]
    cases more.find? language intent with
    | none => exact ⟨g, rfl, rfl, rfl, rfl, rfl⟩
    | some g' => exact ⟨_, rfl, rfl, rfl, rfl, rfl⟩
  taken language intent hnone := by
    rw [Grammars.find?_merge, hnone]
    cases more.find? language intent <;> rfl

/-- Grammars may be put together in any grouping, and nothing gets lost. -/
theorem merge_lossless (gs gs' gs'' : TemplateGrammars) :
    (gs.merge gs').merge gs'' = gs.merge (gs'.merge gs'') ∧
      Grammars.merge ∅ gs = gs ∧ gs.merge ∅ = gs ∧ IsMerged gs gs' (gs.merge gs') :=
  ⟨Grammars.merge_assoc gs gs' gs'', Grammars.empty_merge, Grammars.merge_empty,
    isMerged_merge gs gs'⟩

end TemplateGrammars

end PhraseGraph
