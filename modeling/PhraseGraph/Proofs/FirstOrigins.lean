import PhraseGraph.Proofs.Normalization
import PhraseGraph.Proofs.OriginTexts

/-!
# The first origin of a node

A merge puts the origins of the node that is gone behind those of the node that is kept. So a node that
stands for itself after a run of merges has its own origins first (`Merging.Settles.origins_prefix`),
and in the graph of a list of tokens the first origin of a node has been made for the token that the
node shows (`NormalForm.exists_shows`).
-/

namespace PhraseGraph

open Forest

/-! ### Through merges -/

namespace Merging

variable {m m' : Merging} {todo siblings out : List NodeId} {i s keep gone : NodeId}

theorem origins_setChildren {ids : List NodeId} :
    ((m.setChildren s ids).node i).origins = (m.node i).origins := by
  rw [setChildren, node_modify]
  split <;> rfl

/-- A node that stands for itself after a merge has done so before it. -/
theorem Valid.resolve_eq_of_merge (hm : m.Valid) (htwins : m.Twins siblings keep gone)
    (hi : (m.merge keep gone).resolve i = i) : i ≠ gone ∧ m.resolve i = i := by
  have hkeep := hm.resolve_of_mem_canonical htwins.keep_mem
  rw [resolve_merge, renamed] at hi
  split at hi
  · next hgone =>
    rw [← hi, hkeep] at hgone
    exact absurd hgone htwins.ne
  · next hne => exact ⟨hi ▸ hne, hi⟩

/-- A node that stands for itself after a run has done so before, and its own origins are first. -/
theorem Settles.origins_prefix (h : Settles m todo siblings m' out) (hm : m.Ready todo siblings)
    (hi : m'.resolve i = i) : m.resolve i = i ∧ (m.node i).origins <+: (m'.node i).origins := by
  induction h with
  | seen _ _ ih => exact ih hm.tail hi
  | fresh _ hunder _ ihunder ihrest =>
    obtain ⟨hi₁, hrest⟩ := ihrest (hm.rest (hunder.settled hm.under)) hi
    obtain ⟨hi, hunder⟩ := ihunder hm.under hi₁
    rw [origins_setChildren] at hrest
    exact ⟨hi, hunder.trans hrest⟩
  | sorted => exact ⟨hi, List.prefix_rfl⟩
  | @merged m siblings keep gone _ _ h _ ih =>
    have htwins := twins_of_firstEqual? h
    obtain ⟨hi, hrest⟩ := ih (hm.merge htwins) hi
    obtain ⟨hne, hi⟩ := hm.valid.resolve_eq_of_merge htwins hi
    refine ⟨hi, List.IsPrefix.trans ?_ hrest⟩
    rw [(hm.valid.mergeable hm.lt htwins).origins_merge, if_neg hne]
    split
    · next hik => exact hik ▸ List.prefix_append _ _
    · exact List.prefix_rfl

end Merging

/-! ### The nodes of a graph -/

theorem TokenGraph.phrase_ofTokens {tokens : List Token} {phrase : String} :
    (TokenGraph.ofTokens tokens phrase).phrase = phrase := by
  obtain ⟨m, out, h⟩ := exists_normalForm tokens phrase
  have hmerged : (TokenGraph.mergedForest tokens phrase).phrase = phrase := by
    rw [h.mergedForest_eq]
    rfl
  rw [h.eq]
  refine Eq.trans ?_ hmerged
  by_cases hall : (TokenGraph.mergedForest tokens phrase).reachable.length =
      (TokenGraph.mergedForest tokens phrase).size
  · rw [TokenGraph.compact_of_length_eq hall]
    rfl
  · rw [TokenGraph.compact_of_length_ne hall]
    rfl

/-- The node has the token at the place `i`, and its first origin tells of this token. -/
structure TokenGraph.Shows (g : TokenGraph) (tokens : List Token) (phrase : String) (id : NodeId)
    (i : Nat) : Prop where
  token_eq : (g.node id).token =
    { tokenAt tokens i with positionLength := (tokenAt tokens i).span }
  exists_tells : ∃ before o, g.firstOrigin? id = some o ∧
    Provenance.Tells tokens phrase i before o

namespace NormalForm

open Provenance

variable {tokens : List Token} {phrase : String} {m : Merging} {out : List NodeId} {i k : NodeId}

/-- What an origin tells of the phrase stays as it was made. -/
theorem texts_origin (h : NormalForm tokens phrase m out) {r : OriginId}
    (hr : MadeFor tokens phrase r k) :
    ((TokenGraph.ofTokens tokens phrase).origin r).skippedPrefix =
        ((fill (ofTokens tokens phrase)).origin r).skippedPrefix ∧
      ((TokenGraph.ofTokens tokens phrase).origin r).text =
        ((fill (ofTokens tokens phrase)).origin r).text ∧
      ((TokenGraph.ofTokens tokens phrase).origin r).skippedSuffix =
        ((fill (ofTokens tokens phrase)).origin r).skippedSuffix := by
  have hlt : r < (TokenGraph.mergedForest tokens phrase).origins.size := by
    rw [h.mergedForest_eq]
    exact h.records.size_origins.symm ▸ hr.1
  have horigin : (TokenGraph.mergedForest tokens phrase).origin r = m.origin r := by
    rw [h.mergedForest_eq]
    rfl
  have hsorted : r < (TokenGraph.mergedForest tokens phrase).compact.origins.size :=
    TokenGraph.size_origins_compact.symm ▸ hlt
  rw [h.eq, TokenGraph.origin_sortOrigins hsorted, TokenGraph.origin_compact h.inRange hlt, horigin,
    h.records.origin_eq r]
  split <;> exact ⟨rfl, rfl, rfl⟩

/-- The origin of a token tells of the token. -/
theorem exists_tells_origin (h : NormalForm tokens phrase m out) {r : OriginId}
    (hk : k < tokens.length) (hr : MadeFor tokens phrase r k) :
    ∃ before, Tells tokens phrase k before ((TokenGraph.ofTokens tokens phrase).origin r) := by
  obtain ⟨before, htells⟩ := hr.exists_tells hk
  obtain ⟨hbefore, htext, hafter⟩ := h.texts_origin hr
  exact ⟨before, htells.comesFrom, hbefore.trans htells.skippedPrefix_eq,
    htext.trans htells.text_eq, hafter.trans htells.skippedSuffix_eq⟩

/-- Every node shows one of its tokens. -/
theorem exists_shows (h : NormalForm tokens phrase m out) (hc : SlotConsistent tokens)
    (hk : k < tokens.length) : ∃ i < tokens.length, home tokens phrase m i = home tokens phrase m k ∧
      (TokenGraph.ofTokens tokens phrase).Shows tokens phrase (home tokens phrase m k) i := by
  have hready := Merging.ready_ofGraph (@Forest.simple_fill tokens phrase)
  have hlive : m.resolve (m.resolve k) = m.resolve k := h.settled.valid.resolve_resolve k
  have hi : m.resolve k < tokens.length :=
    h.size_eq ▸ h.settled.valid.resolve_lt k (h.size_eq ▸ hk)
  obtain ⟨r, hr, -⟩ := existsUnique_madeFor phrase hi
  refine ⟨m.resolve k, hi, congrArg (TokenGraph.mergedForest tokens phrase).place hlive, ?_, ?_⟩
  · rw [h.node_home hc hk, ← token_ofTokens hi]
    exact (h.settled.token_eq _).trans token_fill
  · obtain ⟨before, htells⟩ := h.exists_tells_origin hi hr
    refine ⟨before, (TokenGraph.ofTokens tokens phrase).origin r, ?_, htells⟩
    -- The token has one origin, and the others of the node stand behind it.
    have hown : ((fill (ofTokens tokens phrase)).node (m.resolve k)).origins = [r] := by
      rw [node_fill (size_ofTokens.symm ▸ hi), if_pos (mem_order hi), (madeFor_iff hi).1 hr]
    obtain ⟨rest, hrest⟩ := (h.run.origins_prefix hready hlive).2
    have horigins : (m.node (m.resolve k)).origins = r :: rest := by
      rw [← hrest]
      exact congrArg (· ++ rest) hown
    rw [TokenGraph.firstOrigin?, h.node_home hc hk, horigins]
    rfl

end NormalForm

end PhraseGraph
