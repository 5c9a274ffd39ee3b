import PhraseGraph.Proofs.LostNodes

/-!
# Roots stay apart

The siblings that a run of merges looks at are roots all of them, or children of some node all of them.
So a root is merged with other roots only, and what has been no child of any node never becomes one
(`Merging.Settles.apart`). This holds for every list of tokens, where a node may lose children or end in
two ways. Hence the origins of the roots are those of the tokens that hang off no slot
(`NormalForm.mem_originRoots_iff_mem_roots`).
-/

namespace PhraseGraph

namespace Merging

variable {m m' : Merging} {todo siblings out : List NodeId} {s keep gone : NodeId}
  {outer : NodeId → Prop}

/-- A node is an outer one if what it stands for is, and no child is one. -/
structure Apart (m : Merging) (outer : NodeId → Prop) : Prop where
  resolve_iff : ∀ i, outer (m.resolve i) ↔ outer i
  not_of_mem_children : ∀ i, ∀ c ∈ m.children i, ¬outer c

/-- The nodes are outer ones all of them, or none is. -/
def Alike (outer : NodeId → Prop) (ids : List NodeId) : Prop := ∀ i ∈ ids, ∀ j ∈ ids, outer i → outer j

namespace Apart

variable (h : m.Apart outer)
include h

theorem alike_children : Alike outer (m.children s) := fun i hi _ _ houter =>
  absurd houter (h.not_of_mem_children s i hi)

theorem alike_canonical (hs : Alike outer siblings) : Alike outer (m.canonical siblings) := by
  intro i hi j hj houter
  obtain ⟨s, hs', rfl⟩ := mem_canonical_iff.1 hi
  obtain ⟨t, ht, rfl⟩ := mem_canonical_iff.1 hj
  exact (h.resolve_iff t).2 (hs s hs' t ht ((h.resolve_iff s).1 houter))

theorem setChildren {ids : List NodeId} (hids : ∀ c ∈ ids, ¬outer c) :
    (m.setChildren s ids).Apart outer where
  resolve_iff := h.resolve_iff
  not_of_mem_children i := by
    rw [children_setChildren]
    split
    · exact hids
    · exact h.not_of_mem_children i

theorem merge (hm : m.Valid) (hlt : ∀ s ∈ siblings, s < m.size) (hs : Alike outer siblings)
    (htwins : m.Twins siblings keep gone) : (m.merge keep gone).Apart outer := by
  have hsame := h.alike_canonical hs
  have hrenamed : ∀ i, outer (renamed keep gone i) ↔ outer i := fun i => by
    rw [renamed]
    split
    · next hi =>
      rw [hi]
      exact ⟨hsame keep htwins.keep_mem gone htwins.gone_mem,
        hsame gone htwins.gone_mem keep htwins.keep_mem⟩
    · exact Iff.rfl
  refine ⟨fun i => ?_, fun i c hc => ?_⟩
  · rw [resolve_merge, hrenamed, h.resolve_iff]
  · obtain ⟨-, hc | ⟨-, hc, -⟩⟩ := ((hm.mergeable hlt htwins).mem_children_merge_iff).1 hc
    · simp only [turned] at hc
      split at hc
      · obtain ⟨d, hd, rfl⟩ := (mem_redirect_iff htwins.ne).1 hc
        exact fun houter => h.not_of_mem_children i d hd ((hrenamed d).1 houter)
      · exact h.not_of_mem_children i c hc
    · exact h.not_of_mem_children gone c hc

end Apart

/-- Every run keeps the outer nodes apart from the others. -/
theorem Settles.apart (h : Settles m todo siblings m' out) (hm : m.Ready todo siblings)
    (hapart : m.Apart outer) (hs : Alike outer siblings) : m'.Apart outer := by
  induction h with
  | seen _ _ ih => exact ih hm.tail hapart hs
  | @fresh m s todo siblings m₁ out₁ m' out _ hunder _ ihunder ihrest =>
    have h₁ : m₁.Apart outer :=
      ihunder hm.under ⟨hapart.resolve_iff, hapart.not_of_mem_children⟩ hapart.alike_children
    have under := hunder.settled hm.under
    refine ihrest (hm.rest under) (h₁.setChildren fun c hc houter => ?_) hs
    -- What is written back stands for the children.
    obtain ⟨d, hd, rfl⟩ := (under.mem_out_iff c).1 hc
    exact hapart.not_of_mem_children _ d hd ((h₁.resolve_iff d).1 houter)
  | sorted => exact hapart
  | merged h _ ih =>
    have htwins := twins_of_firstEqual? h
    exact ih (hm.merge htwins) (hapart.merge hm.valid hm.lt hs htwins) (hapart.alike_canonical hs)

end Merging

namespace NormalForm

open Forest Provenance

variable {tokens : List Token} {phrase : String} {m : Merging} {out : List NodeId} {k j : Nat}
  {r : OriginId}

/-- What stands for a root stands for roots only. -/
theorem anchorAt_eq_none_of_resolve_eq (h : NormalForm tokens phrase m out)
    (hj : anchorAt tokens j = none) (hjk : m.resolve j = m.resolve k) : anchorAt tokens k = none := by
  have hapart : m.Apart fun i => anchorAt tokens i = none := by
    refine h.run.apart (Merging.ready_ofGraph Forest.simple_fill) ⟨fun i => Iff.rfl, fun i c hc => ?_⟩
      fun i _ j hj _ => (Forest.mem_roots_iff.1 hj).2
    have hedge : (ofTokens tokens phrase).Edge i c := by
      rw [TokenGraph.Edge, ← children_fill]
      exact hc
    rw [(Forest.edge_iff.1 hedge).2.2]
    exact Option.some_ne_none _
  exact (hapart.resolve_iff k).1 (hjk ▸ (hapart.resolve_iff j).2 hj)

/-- The origins of the roots are those of the tokens that hang off no slot. -/
theorem mem_originRoots_iff_mem_roots (h : NormalForm tokens phrase m out)
    (hr : MadeFor tokens phrase r k) (hk : k < tokens.length) :
    r ∈ (TokenGraph.ofTokens tokens phrase).originRoots ↔ k ∈ (ofTokens tokens phrase).roots := by
  rw [h.mem_originRoots_iff, Forest.mem_roots_iff]
  constructor
  · rintro ⟨k', -, hmade, hout⟩
    obtain rfl : k' = k := hmade.2.symm.trans hr.2
    obtain ⟨j, hroot, hjk⟩ := (h.settled.mem_out_iff _).1 hout
    exact ⟨hk, h.anchorAt_eq_none_of_resolve_eq (Forest.mem_roots_iff.1 hroot).2 hjk⟩
  · rintro ⟨-, hanchor⟩
    exact ⟨k, hk, hr, (h.settled.mem_out_iff _).2 ⟨k, Forest.mem_roots_iff.2 ⟨hk, hanchor⟩, rfl⟩⟩

end NormalForm

end PhraseGraph
