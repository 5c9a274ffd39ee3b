import Mathlib.Data.Set.Function
import PhraseGraph.Proofs.Expansion
import PhraseGraph.Proofs.OriginWalk
import PhraseGraph.Proofs.Siblings

/-!
# Origins mirror the forest

The origins of a list of tokens are a copy of its forest: one for each token, numbered as the walk comes
to them, with an edge between two origins for each edge between their tokens (`MirrorsEdges`). Only the
origins' neighbours matter for this, and these are left alone when siblings are merged: a merge tells
origins of another node, leaving out nodes tells them of new places, and in the end the children of an
origin are put in order (`MirrorsEdges.congr`). The roots keep their origins through all of this, so all
origins can be reached from those of the roots.

The forest has no cycle, since every edge leads to a token that hangs off a later slot. So the origins
have none (`MirrorsEdges.acyclic`), even where the nodes have come to be in a cycle, and listing phrases
along them comes to an end (`NormalForm.endsWithin_of_lt`).

Main statement: `ofForeignTokens_mirrors_forest`.
-/

namespace PhraseGraph

open Forest Provenance Relation

variable {tokens : List Token} {phrase : String} {g g' : TokenGraph} {record : Nat → OriginId}
  {k j n : Nat} {r r' : OriginId}

/-- Every token has one origin, and an edge between two origins for each edge of the forest between
    their tokens. -/
structure MirrorsEdges (tokens : List Token) (phrase : String) (g : TokenGraph)
    (record : Nat → OriginId) : Prop where
  size_origins : g.origins.size = tokens.length
  bijOn : Set.BijOn record (Set.Iio tokens.length) (Set.Iio g.origins.size)
  mem_children_iff : ∀ k < tokens.length, ∀ r, r ∈ (g.origin (record k)).children ↔
    ∃ j, (ofTokens tokens phrase).Edge k j ∧ record j = r
  nodup_children : ∀ r, (g.origin r).children.Nodup
  mem_parents_iff : ∀ r r', r ∈ (g.origin r').parents ↔ r' ∈ (g.origin r).children
  nodup_parents : ∀ r, (g.origin r).parents.Nodup

/-- The origins mirror the forest, and all of them can be reached from those of the roots. -/
structure MirrorsForest (tokens : List Token) (phrase : String) (g : TokenGraph)
    (record : Nat → OriginId) : Prop extends MirrorsEdges tokens phrase g record where
  reached : ∀ r < g.origins.size, g.OriginReached r

namespace MirrorsEdges

variable (h : MirrorsEdges tokens phrase g record)
include h

theorem record_lt (hk : k < tokens.length) : record k < g.origins.size := h.bijOn.mapsTo hk

theorem exists_record_eq (hr : r < g.origins.size) : ∃ k < tokens.length, record k = r :=
  h.bijOn.surjOn hr

theorem record_inj (hk : k < tokens.length) (hj : j < tokens.length) :
    record k = record j ↔ k = j :=
  ⟨fun hkj => h.bijOn.injOn hk hj hkj, congrArg record⟩

theorem mem_children_record_iff (hk : k < tokens.length) (hj : j < tokens.length) :
    record j ∈ (g.origin (record k)).children ↔ (ofTokens tokens phrase).Edge k j := by
  rw [h.mem_children_iff k hk]
  constructor
  · intro ⟨i, hki, hij⟩
    obtain rfl := (h.record_inj (Forest.edge_iff.1 hki).2.1 hj).1 hij
    exact hki
  · exact fun hkj => ⟨j, hkj, rfl⟩

/-- A path from one origin to another is a path between their tokens. -/
theorem exists_reaches (hk : k < tokens.length)
    (hr : TransGen (fun r r' => r' ∈ (g.origin r).children) (record k) r) :
    ∃ j < tokens.length, TransGen (ofTokens tokens phrase).Edge k j ∧ record j = r := by
  induction hr with
  | single hr =>
    obtain ⟨j, hkj, rfl⟩ := (h.mem_children_iff k hk _).1 hr
    exact ⟨j, (Forest.edge_iff.1 hkj).2.1, .single hkj, rfl⟩
  | tail _ hr ih =>
    obtain ⟨i, hi, hki, rfl⟩ := ih
    obtain ⟨j, hij, rfl⟩ := (h.mem_children_iff i hi _).1 hr
    exact ⟨j, (Forest.edge_iff.1 hij).2.1, hki.tail hij, rfl⟩

/-- No origin comes after itself, since no token does. -/
theorem acyclic (r : OriginId) : ¬TransGen (fun r r' => r' ∈ (g.origin r).children) r r := by
  intro hr
  obtain ⟨r', hr', -⟩ := TransGen.head'_iff.1 hr
  obtain ⟨k, hk, rfl⟩ := h.exists_record_eq
    (TokenGraph.lt_size_of_children_origin_ne_nil (List.ne_nil_of_mem hr'))
  obtain ⟨j, hj, hkj, hjk⟩ := h.exists_reaches hk hr
  obtain rfl := (h.record_inj hj hk).1 hjk
  exact acyclic_ofTokens _ hkj

/-- Where the origins of the roots of the forest are among those of the roots, all can be reached. -/
theorem originReached (hroots : ∀ root ∈ (ofTokens tokens phrase).roots, record root ∈ g.originRoots)
    (hr : r < g.origins.size) : g.OriginReached r := by
  obtain ⟨k, hk, rfl⟩ := h.exists_record_eq hr
  obtain ⟨root, hroot, hreach⟩ := exists_root_reaches phrase hk
  refine ⟨record root, hroots root hroot, ?_⟩
  clear hr hk
  induction hreach with
  | refl => exact .refl
  | tail _ hedge ih =>
    exact ih.tail ((h.mem_children_iff _ (Forest.edge_iff.1 hedge).1 _).2 ⟨_, hedge, rfl⟩)

/-- What is done with the nodes, and the order of the children, do not matter. -/
theorem congr (hsize : g'.origins.size = g.origins.size)
    (hchildren : ∀ r < g.origins.size, (g'.origin r).children.Perm (g.origin r).children)
    (hparents : ∀ r < g.origins.size, (g'.origin r).parents = (g.origin r).parents) :
    MirrorsEdges tokens phrase g' record := by
  have hchildren : ∀ r, (g'.origin r).children.Perm (g.origin r).children := fun r => by
    by_cases hr : r < g.origins.size
    · exact hchildren r hr
    · rw [TokenGraph.origin_of_size_le (Nat.not_lt.1 hr),
        TokenGraph.origin_of_size_le (hsize.symm ▸ Nat.not_lt.1 hr)]
  have hparents : ∀ r, (g'.origin r).parents = (g.origin r).parents := fun r => by
    by_cases hr : r < g.origins.size
    · exact hparents r hr
    · rw [TokenGraph.origin_of_size_le (Nat.not_lt.1 hr),
        TokenGraph.origin_of_size_le (hsize.symm ▸ Nat.not_lt.1 hr)]
  exact
    { size_origins := hsize.trans h.size_origins
      bijOn := hsize.symm ▸ h.bijOn
      mem_children_iff := fun k hk r => (hchildren _).mem_iff.trans (h.mem_children_iff k hk r)
      nodup_children := fun r => (hchildren r).nodup_iff.2 (h.nodup_children r)
      mem_parents_iff := fun r r' => by
        rw [hparents, (hchildren r).mem_iff]
        exact h.mem_parents_iff r r'
      nodup_parents := fun r => (hparents r).symm ▸ h.nodup_parents r }

end MirrorsEdges

/-! ### The origins of the forest -/

theorem Forest.origins_node_ofTokens (k : NodeId) : ((ofTokens tokens phrase).node k).origins = [] := by
  by_cases hk : k < tokens.length
  · rw [node_ofTokens hk]
    rfl
  · rw [TokenGraph.node_of_size_le (size_ofTokens.symm ▸ Nat.not_lt.1 hk)]
    rfl

namespace Provenance

theorem order_perm : (order (ofTokens tokens phrase)).Perm (List.range tokens.length) := by
  refine (List.perm_ext_iff_of_nodup nodup_order List.nodup_range).2 fun k => ?_
  rw [List.mem_range]
  refine ⟨fun hk => ?_, mem_order⟩
  obtain ⟨root, hroot, hreach⟩ := mem_order_iff.1 hk
  exact size_ofTokens ▸ inRange_ofTokens.lt_of_reaches hroot hreach

theorem length_order : (order (ofTokens tokens phrase)).length = tokens.length := by
  rw [order_perm.length_eq, List.length_range]

theorem children_origin_idxOf (hk : k < tokens.length) :
    ((fill (ofTokens tokens phrase)).origin ((order (ofTokens tokens phrase)).idxOf k)).children =
      ((ofTokens tokens phrase).children k).map (order (ofTokens tokens phrase)).idxOf := by
  have hlt := List.idxOf_lt_length_of_mem (@mem_order tokens phrase k hk)
  rw [(origin_fill hlt).2, List.getElem_idxOf]

theorem parents_origin_idxOf (hk : k < tokens.length) :
    ((fill (ofTokens tokens phrase)).origin ((order (ofTokens tokens phrase)).idxOf k)).parents =
      (cameFrom (visits (ofTokens tokens phrase)) k).map (order (ofTokens tokens phrase)).idxOf := by
  have hlt := List.idxOf_lt_length_of_mem (@mem_order tokens phrase k hk)
  rw [parents_origin_fill hlt, List.getElem_idxOf]

theorem idxOf_injOn : Set.InjOn (order (ofTokens tokens phrase)).idxOf (Set.Iio tokens.length) :=
  fun _ hk _ _ hkj => (List.idxOf_inj (mem_order hk)).1 hkj

theorem exists_idxOf_eq (hr : r < (fill (ofTokens tokens phrase)).origins.size) :
    ∃ k < tokens.length, (order (ofTokens tokens phrase)).idxOf k = r := by
  rw [size_origins_fill] at hr
  exact ⟨_, List.mem_range.1 (order_perm.mem_iff.1 (List.getElem_mem hr)),
    nodup_order.idxOf_getElem r hr⟩

theorem mem_children_origin_fill_iff :
    r' ∈ ((fill (ofTokens tokens phrase)).origin r).children ↔
      ∃ k j, (ofTokens tokens phrase).Edge k j ∧ (order (ofTokens tokens phrase)).idxOf k = r ∧
        (order (ofTokens tokens phrase)).idxOf j = r' := by
  constructor
  · intro hr'
    obtain ⟨k, hk, rfl⟩ := exists_idxOf_eq
      (TokenGraph.lt_size_of_children_origin_ne_nil (List.ne_nil_of_mem hr'))
    rw [children_origin_idxOf hk] at hr'
    obtain ⟨j, hkj, rfl⟩ := List.mem_map.1 hr'
    exact ⟨k, j, hkj, rfl, rfl⟩
  · intro ⟨k, j, hkj, hk, hj⟩
    subst hk hj
    rw [children_origin_idxOf (Forest.edge_iff.1 hkj).1]
    exact List.mem_map_of_mem hkj

theorem mem_parents_origin_fill_iff :
    r ∈ ((fill (ofTokens tokens phrase)).origin r').parents ↔
      ∃ k j, (ofTokens tokens phrase).Edge k j ∧ (order (ofTokens tokens phrase)).idxOf k = r ∧
        (order (ofTokens tokens phrase)).idxOf j = r' := by
  constructor
  · intro hr
    obtain ⟨j, hj, rfl⟩ := exists_idxOf_eq
      (TokenGraph.lt_size_of_parents_origin_ne_nil (List.ne_nil_of_mem hr))
    rw [parents_origin_idxOf hj] at hr
    obtain ⟨k, hk, rfl⟩ := List.mem_map.1 hr
    exact ⟨k, j, (mem_cameFrom_visits_iff.1 hk).2, rfl, rfl⟩
  · intro ⟨k, j, hkj, hkr, hjr⟩
    subst hkr hjr
    obtain ⟨hk, hj, -⟩ := Forest.edge_iff.1 hkj
    rw [parents_origin_idxOf hj]
    exact List.mem_map_of_mem (mem_cameFrom_visits_iff.2 ⟨mem_order hk, hkj⟩)

/-- The walk makes an origin for each token, and links them as the edges of the forest lead. -/
theorem mirrorsEdges_fill : MirrorsEdges tokens phrase (fill (ofTokens tokens phrase))
    (order (ofTokens tokens phrase)).idxOf where
  size_origins := size_origins_fill.trans length_order
  bijOn := by
    refine ⟨fun k hk => ?_, idxOf_injOn, fun r hr => exists_idxOf_eq hr⟩
    exact (List.idxOf_lt_length_of_mem (mem_order hk)).trans_eq size_origins_fill.symm
  mem_children_iff k hk r := by
    rw [children_origin_idxOf hk]
    exact List.mem_map
  nodup_children r := by
    by_cases hr : r < (fill (ofTokens tokens phrase)).origins.size
    · obtain ⟨k, hk, rfl⟩ := exists_idxOf_eq hr
      rw [children_origin_idxOf hk]
      exact Forest.nodup_children.map_on fun i hi j hj =>
        idxOf_injOn (Forest.edge_iff.1 hi).2.1 (Forest.edge_iff.1 hj).2.1
    · rw [TokenGraph.origin_of_size_le (Nat.not_lt.1 hr)]
      exact List.nodup_nil
  mem_parents_iff _ _ := mem_parents_origin_fill_iff.trans mem_children_origin_fill_iff.symm
  nodup_parents r := by
    by_cases hr : r < (fill (ofTokens tokens phrase)).origins.size
    · obtain ⟨k, hk, rfl⟩ := exists_idxOf_eq hr
      rw [parents_origin_idxOf hk]
      exact (nodup_cameFrom_visits fun _ => Forest.nodup_children).map_on fun i hi j hj =>
        idxOf_injOn (Forest.edge_iff.1 (mem_cameFrom_visits_iff.1 hi).2).1
          (Forest.edge_iff.1 (mem_cameFrom_visits_iff.1 hj).2).1
    · rw [TokenGraph.origin_of_size_le (Nat.not_lt.1 hr)]
      exact List.nodup_nil

theorem mirrorsForest_fill : MirrorsForest tokens phrase (fill (ofTokens tokens phrase))
    (order (ofTokens tokens phrase)).idxOf where
  toMirrorsEdges := mirrorsEdges_fill
  reached r hr := by
    refine mirrorsEdges_fill.originReached (fun root hroot => ?_) hr
    have hlt := (Forest.mem_roots_iff.1 hroot).1
    exact List.mem_flatMap.2 ⟨root, hroot, (mem_origins_fill_iff inRange_ofTokens).2
      ((madeFor_iff hlt).2 rfl)⟩

end Provenance

/-! ### The origins of the graph -/

namespace NormalForm

variable {m : Merging} {out : List NodeId} (h : NormalForm tokens phrase m out)
include h

/-- The nodes that the roots have become after all merges have the origins of the roots. -/
theorem idxOf_mem_originRoots {root : NodeId} (hroot : root ∈ (ofTokens tokens phrase).roots) :
    (order (ofTokens tokens phrase)).idxOf root ∈
      (TokenGraph.mergedForest tokens phrase).originRoots := by
  have hlt := (Forest.mem_roots_iff.1 hroot).1
  exact h.mem_originRoots_mergedForest_iff.2 ⟨root, hlt, (madeFor_iff hlt).2 rfl,
    (h.settled.mem_out_iff _).2 ⟨root, hroot, rfl⟩⟩

/-- A merge tells origins of other nodes, and of no other origins. -/
theorem mirrorsForest_mergedForest : MirrorsForest tokens phrase
    (TokenGraph.mergedForest tokens phrase) (order (ofTokens tokens phrase)).idxOf := by
  have horigin : ∀ r, (TokenGraph.mergedForest tokens phrase).origin r =
      { (fill (ofTokens tokens phrase)).origin r with node := (m.origin r).node } := fun r => by
    rw [h.mergedForest_eq]
    exact h.records.origin_eq r
  have hedges : MirrorsEdges tokens phrase (TokenGraph.mergedForest tokens phrase)
      (order (ofTokens tokens phrase)).idxOf := by
    refine mirrorsEdges_fill.congr h.size_origins (fun r _ => ?_) fun r _ => ?_
    · rw [horigin]
    · rw [horigin]
  exact ⟨hedges, fun r => hedges.originReached fun root hroot => h.idxOf_mem_originRoots hroot⟩

/-- So does leaving out nodes. -/
theorem mirrorsForest_compact : MirrorsForest tokens phrase
    (TokenGraph.mergedForest tokens phrase).compact (order (ofTokens tokens phrase)).idxOf := by
  have hmerged := h.mirrorsForest_mergedForest.toMirrorsEdges
  have hedges : MirrorsEdges tokens phrase (TokenGraph.mergedForest tokens phrase).compact
      (order (ofTokens tokens phrase)).idxOf := by
    refine hmerged.congr TokenGraph.size_origins_compact (fun r hr => ?_) fun r hr => ?_
    · rw [TokenGraph.origin_compact h.inRange hr]
    · rw [TokenGraph.origin_compact h.inRange hr]
  refine ⟨hedges, fun r => hedges.originReached fun root hroot => ?_⟩
  rw [TokenGraph.originRoots_compact h.inRange]
  exact h.idxOf_mem_originRoots hroot

theorem mirrorsForest_ofTokens : MirrorsForest tokens phrase
    (TokenGraph.ofTokens tokens phrase) (order (ofTokens tokens phrase)).idxOf := by
  have hcompact := h.mirrorsForest_compact.toMirrorsEdges
  rw [h.eq]
  have hedges := hcompact.congr TokenGraph.size_origins_sortOrigins
    (fun r hr => TokenGraph.children_origin_sortOrigins_perm hr)
    fun r hr => TokenGraph.parents_origin_sortOrigins hr
  refine ⟨hedges, fun r => hedges.originReached fun root hroot => ?_⟩
  rw [TokenGraph.originRoots_sortOrigins, TokenGraph.originRoots_compact h.inRange]
  exact h.idxOf_mem_originRoots hroot

/-- No path of origins is longer than the number of origins. -/
theorem endsWithin_of_lt {ids : List OriginId}
    (hids : ∀ r ∈ ids, r < (TokenGraph.ofTokens tokens phrase).origins.size) :
    (TokenGraph.ofTokens tokens phrase).EndsWithin
      ((TokenGraph.ofTokens tokens phrase).origins.size + 1) ids := by
  refine h.endsWithin fun r hr => ?_
  obtain ⟨k, hk, rfl⟩ := h.mirrorsForest_ofTokens.exists_record_eq (hids r hr)
  exact ⟨k, hk, (madeFor_iff hk).2 rfl⟩

end NormalForm

/-- **Origins mirror the forest.** Tokens whose slots can be counted have a graph. When the walk through
    their forest has recorded all its visits, each token has one origin, these are linked by one edge for
    each edge of the forest, and all of them can be reached from those of the roots. This is still so
    when siblings have been merged, when the nodes out of reach have been left out, and when the origins
    have been put in order. So no origin comes after itself, no path of origins is longer than their
    number, and more steps than that list no more phrases. -/
theorem ofForeignTokens_mirrors_forest (hslots : ∀ t ∈ tokens, t.endPosition < 2 ^ 64) :
    ∃ g record, TokenGraph.ofForeignTokens tokens phrase = .ok g ∧
      g = (TokenGraph.mergedForest tokens phrase).compact.sortOrigins ∧
      (visits (ofTokens tokens phrase)).foldl recordVisit (ofTokens tokens phrase) =
        fill (ofTokens tokens phrase) ∧
      (∀ k < tokens.length, MadeFor tokens phrase (record k) k) ∧
      MirrorsForest tokens phrase (fill (ofTokens tokens phrase)) record ∧
      MirrorsForest tokens phrase (TokenGraph.mergedForest tokens phrase) record ∧
      MirrorsForest tokens phrase (TokenGraph.mergedForest tokens phrase).compact record ∧
      MirrorsForest tokens phrase g record ∧
      (∀ r, ¬TransGen (fun r r' => r' ∈ (g.origin r).children) r r) ∧
      ∀ ids, (∀ r ∈ ids, r < g.origins.size) → g.EndsWithin (g.origins.size + 1) ids ∧
        ∀ own steps, g.origins.size + 1 ≤ steps → g.expand own steps ids = g.phrasesOf own ids := by
  obtain ⟨m, out, h⟩ := exists_normalForm tokens phrase
  refine ⟨TokenGraph.ofTokens tokens phrase, (order (ofTokens tokens phrase)).idxOf,
    ofForeignTokens_eq_ok hslots, h.eq, ?_, fun k hk => (madeFor_iff hk).2 rfl, mirrorsForest_fill,
    h.mirrorsForest_mergedForest, h.mirrorsForest_compact, h.mirrorsForest_ofTokens,
    h.mirrorsForest_ofTokens.acyclic, fun ids hids => ?_⟩
  · exact foldl_recordVisit_eq_fill inRange_ofTokens origins_node_ofTokens rfl
  · have hends := h.endsWithin_of_lt hids
    exact ⟨hends, fun _ _ hsteps => hends.expand_eq hsteps⟩

namespace Example

/-- The node of the second word and the third one follows itself, but their origins do not. -/
theorem looping_mirrors_forest : (∀ t ∈ looping, t.endPosition < 2 ^ 64) ∧
    ∃ g record, TokenGraph.ofForeignTokens looping "a a a" = .ok g ∧ ¬g.Acyclic ∧
      MirrorsForest looping "a a a" g record ∧
      ∀ r, ¬TransGen (fun r r' => r' ∈ (g.origin r).children) r r := by
  have hslots : ∀ t ∈ looping, t.endPosition < 2 ^ 64 := by decide
  obtain ⟨g, record, hg, -, -, -, -, -, -, hmirrors, hacyclic, -⟩ :=
    @ofForeignTokens_mirrors_forest looping "a a a" hslots
  obtain rfl := Except.ok.inj ((ofForeignTokens_eq_ok hslots).symm.trans hg)
  exact ⟨hslots, _, record, hg, looping_has_cycle, hmirrors, hacyclic⟩

end Example

end PhraseGraph
