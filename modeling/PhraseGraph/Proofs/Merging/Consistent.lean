import PhraseGraph.Proofs.Merging.Result

/-!
# The normal form of consistent tokens

Where a list of tokens is consistent with its slots, the run of merges through its forest ends with one
node for all kin (`NormalForm.resolve_eq_iff`), and every token's node can be reached from the roots
(`NormalForm.reachable`). Where no two tokens are kin nothing is merged, and the graph of the tokens is
their forest (`NormalForm.ofTokens_eq`).
-/

namespace PhraseGraph

open Forest Merging

variable {tokens : List Token} {phrase : String} {m : Merging} {out : List NodeId} {i k j : NodeId}
  {r : OriginId}

theorem covers_ofGraph_iff : (Merging.ofGraph (Provenance.fill (ofTokens tokens phrase))).Covers i k ↔
    k < tokens.length ∧ k = i := by
  have hsize : (Merging.ofGraph (Provenance.fill (ofTokens tokens phrase))).size = tokens.length :=
    Provenance.size_fill.trans size_ofTokens
  rw [Covers, hsize]
  rfl

theorem follows_ofGraph_iff :
    (Merging.ofGraph (Provenance.fill (ofTokens tokens phrase))).Follows tokens i k ↔
      i < tokens.length ∧ k < tokens.length ∧ anchorAt tokens k = some (endAt tokens i) := by
  simp only [Follows, covers_ofGraph_iff]
  constructor
  · rintro ⟨_, _, ⟨hi, rfl⟩, ⟨hk, rfl⟩, hik⟩
    exact ⟨hi, hk, hik⟩
  · rintro ⟨hi, hk, hik⟩
    exact ⟨i, k, ⟨hi, rfl⟩, ⟨hk, rfl⟩, hik⟩

theorem quotient_ofGraph :
    (Merging.ofGraph (Provenance.fill (ofTokens tokens phrase))).Quotient tokens where
  size_eq := Provenance.size_fill.trans size_ofTokens
  text_eq k hk := by
    rw [← text_ofTokens (hk.trans_eq (Provenance.size_fill.trans size_ofTokens))]
    exact congrArg Token.text Provenance.token_fill
  anchor_resolve _ _ := rfl
  mem_children_iff i c := by
    change c ∈ (Provenance.fill (ofTokens tokens phrase)).children i ↔ _
    rw [Provenance.children_fill, follows_ofGraph_iff]
    exact edge_iff
  mem_parents_iff i c := by
    change i ∈ ((Provenance.fill (ofTokens tokens phrase)).node c).parents ↔ _
    rw [Provenance.parents_fill, mem_parents_iff, follows_ofGraph_iff]
    exact and_left_comm

theorem kinSiblings_roots : KinSiblings tokens (ofTokens tokens phrase).roots := by
  intro s hs t ht _
  rw [(mem_roots_iff.1 hs).2, (mem_roots_iff.1 ht).2]

namespace NormalForm

theorem quotient (h : NormalForm tokens phrase m out) (hc : SlotConsistent tokens) :
    m.Quotient tokens :=
  (h.run.quotient (ready_ofGraph simple_fill) hc quotient_ofGraph kinSiblings_roots).1

theorem mem_out_iff (h : NormalForm tokens phrase m out) :
    i ∈ out ↔ ∃ k < tokens.length, anchorAt tokens k = none ∧ m.resolve k = i := by
  rw [h.settled.mem_out_iff]
  simp only [mem_roots_iff, and_assoc]

/-- A token that follows another one follows it in the merging. -/
theorem mem_children (h : NormalForm tokens phrase m out) (hc : SlotConsistent tokens)
    (hkj : (ofTokens tokens phrase).Edge k j) : m.resolve j ∈ m.children (m.resolve k) := by
  obtain ⟨hk, hj, hkj⟩ := edge_iff.1 hkj
  rw [(h.quotient hc).mem_children_iff]
  exact ⟨k, j, ⟨h.size_eq ▸ hk, rfl⟩, ⟨h.size_eq ▸ hj, rfl⟩, hkj⟩

/-- The node of every token can be reached from the roots. -/
theorem reachable (h : NormalForm tokens phrase m out) (hc : SlotConsistent tokens)
    (hk : k < tokens.length) :
    m.resolve k ∈ (TokenGraph.mergedForest tokens phrase).reachable := by
  obtain ⟨r, hr, hreach⟩ := exists_root_reaches phrase hk
  rw [h.mergedForest_eq]
  clear hk
  induction hreach with
  | refl =>
    obtain ⟨hr, hanchor⟩ := mem_roots_iff.1 hr
    exact TokenGraph.mem_reachable_iff.2
      ⟨m.resolve r, h.mem_out_iff.2 ⟨r, hr, hanchor, rfl⟩, .refl⟩
  | tail _ hedge ih => exact TokenGraph.reachable_of_edge ih (h.mem_children hc hedge)

/-- One node stands for all kin, and for no other tokens. -/
theorem resolve_eq_iff (h : NormalForm tokens phrase m out) (hc : SlotConsistent tokens)
    (hk : k < tokens.length) (hj : j < tokens.length) :
    m.resolve k = m.resolve j ↔ Kin tokens k j := by
  have hq := h.quotient hc
  have hk' : k < m.size := h.size_eq ▸ hk
  have hj' : j < m.size := h.size_eq ▸ hj
  constructor
  · intro hkj
    refine ⟨?_, ?_⟩
    · rw [← hq.text_resolve h.settled.valid hk', hkj, hq.text_resolve h.settled.valid hj']
    · rw [← hq.anchor_resolve k hk', hkj, hq.anchor_resolve j hj']
  · rintro ⟨htext, hanchor⟩
    have htext' : m.text (m.resolve k) = m.text (m.resolve j) := by
      rw [h.text_eq hk, h.text_eq hj, htext]
    cases hslot : anchorAt tokens k with
    | none =>
      -- Both are roots, and no two roots have one text.
      have hkout := h.mem_out_iff.2 ⟨k, hk, hslot, rfl⟩
      have hjout := h.mem_out_iff.2 ⟨j, hj, hanchor ▸ hslot, rfl⟩
      exact eq_of_pairwise_lt h.settled.ascends hkout hjout htext'
    | some slot =>
      -- Both follow some token, and no two of its children have one text.
      obtain ⟨i, hi, rfl⟩ := exists_parent_of_anchorAt hslot
      have hki := h.mem_children hc (edge_iff.2 ⟨hi, hk, hslot⟩)
      have hji := h.mem_children hc (edge_iff.2 ⟨hi, hj, hanchor ▸ hslot⟩)
      exact eq_of_pairwise_lt (h.pairwise_children (h.reachable hc hi)) hki hji htext'

/-! ### Tokens without kin -/

section NoKin

variable (h : NormalForm tokens phrase m out)
  (hkin : ∀ k < tokens.length, ∀ j < tokens.length, Kin tokens k j → k = j)
include h hkin

omit h in
theorem slotConsistent_of_no_kin : SlotConsistent tokens := fun k hk j hj hkj hne =>
  absurd (congrArg (endAt tokens) (hkin k hk j hj hkj)) hne

/-- Where no two tokens are kin every token keeps its node. -/
theorem resolve_eq (hk : k < tokens.length) : m.resolve k = k := by
  have hlt : m.resolve k < tokens.length :=
    h.size_eq ▸ h.settled.valid.resolve_lt k (h.size_eq.symm ▸ hk)
  -- The token and the one whose node stands for it have one node, so they are kin.
  refine hkin _ hlt k hk ((h.resolve_eq_iff (slotConsistent_of_no_kin hkin) hlt hk).1 ?_)
  exact h.settled.valid.resolve_resolve k

theorem covers_iff : m.Covers j k ↔ k < tokens.length ∧ k = j := by
  rw [Merging.Covers, h.size_eq]
  exact and_congr_right fun hk => by rw [h.resolve_eq hkin hk]

/-- The graph is the merged forest as it stands. -/
theorem ofTokens_eq : TokenGraph.ofTokens tokens phrase =
    (m.toGraph (Provenance.fill (ofTokens tokens phrase)) out).sortOrigins := by
  have hsize : (TokenGraph.mergedForest tokens phrase).size = tokens.length := by
    rw [h.mergedForest_eq]
    exact h.size_eq
  have hreachable : ∀ k < (TokenGraph.mergedForest tokens phrase).size,
      k ∈ (TokenGraph.mergedForest tokens phrase).reachable := fun k hk => by
    have hk := hsize ▸ hk
    have hmem := h.reachable (slotConsistent_of_no_kin hkin) hk
    rwa [h.resolve_eq hkin hk] at hmem
  rw [h.eq, TokenGraph.compact_of_length_eq (TokenGraph.length_reachable h.inRange hreachable),
    h.mergedForest_eq]

theorem node_eq : (TokenGraph.ofTokens tokens phrase).node k = m.node k := by
  rw [h.ofTokens_eq hkin]
  rfl

theorem mem_children_iff : j ∈ (TokenGraph.ofTokens tokens phrase).children k ↔
    (ofTokens tokens phrase).Edge k j := by
  rw [TokenGraph.children, h.node_eq hkin]
  refine ((h.quotient (slotConsistent_of_no_kin hkin)).mem_children_iff k j).trans ?_
  simp only [Merging.Follows, h.covers_iff hkin, Forest.edge_iff]
  constructor
  · rintro ⟨_, _, ⟨hk, rfl⟩, ⟨hj, rfl⟩, hkj⟩
    exact ⟨hk, hj, hkj⟩
  · rintro ⟨hk, hj, hkj⟩
    exact ⟨k, j, ⟨hk, rfl⟩, ⟨hj, rfl⟩, hkj⟩

theorem mem_roots_iff : j ∈ (TokenGraph.ofTokens tokens phrase).roots ↔
    j ∈ (ofTokens tokens phrase).roots := by
  rw [h.ofTokens_eq hkin, Forest.mem_roots_iff]
  refine h.mem_out_iff.trans ?_
  constructor
  · rintro ⟨k, hk, hanchor, rfl⟩
    rw [h.resolve_eq hkin hk]
    exact ⟨hk, hanchor⟩
  · rintro ⟨hj, hanchor⟩
    exact ⟨j, hj, hanchor, h.resolve_eq hkin hj⟩

theorem token_eq (hk : k < tokens.length) : ((TokenGraph.ofTokens tokens phrase).node k).token =
    { tokenAt tokens k with positionLength := (tokenAt tokens k).span } := by
  rw [h.node_eq hkin, h.settled.token_eq, ← token_ofTokens hk]
  exact Provenance.token_fill

theorem isEnd_eq_iff (hk : k < tokens.length) :
    (TokenGraph.ofTokens tokens phrase).isEnd k = true ↔
      (ofTokens tokens phrase).isEnd k = true := by
  rw [TokenGraph.isEnd, h.node_eq hkin, h.records.isEnd_iff k (h.resolve_eq hkin hk)]
  simp only [h.covers_iff hkin]
  constructor
  · rintro ⟨_, ⟨-, rfl⟩, hend⟩
    exact Provenance.isEnd_fill ▸ hend
  · intro hend
    exact ⟨k, ⟨hk, rfl⟩, Provenance.isEnd_fill.trans hend⟩

theorem mem_origins_iff (hk : k < tokens.length) :
    r ∈ ((TokenGraph.ofTokens tokens phrase).node k).origins ↔
      Provenance.MadeFor tokens phrase r k := by
  rw [h.node_eq hkin, h.records.mem_origins_iff, Provenance.MadeFor,
    ← Provenance.mem_origins_fill_iff inRange_ofTokens]
  simp only [h.covers_iff hkin]
  constructor
  · rintro ⟨_, ⟨-, rfl⟩, hr⟩
    exact hr
  · intro hr
    exact ⟨k, ⟨hk, rfl⟩, hr⟩

/-- An origin is as it was made, but for the order of those that follow it. -/
theorem origin_eq (hk : k < tokens.length) (hr : Provenance.MadeFor tokens phrase r k) :
    m.origin r = (Provenance.fill (ofTokens tokens phrase)).origin r := by
  have hmem := (Provenance.mem_origins_fill_iff inRange_ofTokens).2 hr
  rw [h.records.origin_eq r, h.records.origin_node k (h.size_eq.symm ▸ hk) r hmem,
    h.resolve_eq hkin hk, ← hr.2]

end NoKin

end NormalForm

end PhraseGraph
