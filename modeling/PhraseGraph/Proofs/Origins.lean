import PhraseGraph.Proofs.Forest
import PhraseGraph.Proofs.Reach

/-!
# One origin for each token

The walk that makes the origins comes to every node that can be reached from the roots
(`mem_order_iff`), and makes an origin when it first comes there. So where every node can be reached,
the origins are numbered by a list of all nodes, each of them once (`order`), and a node has the
origin of that number alone (`origins_fill`).
-/

namespace PhraseGraph.Provenance

open TokenGraph Relation

variable {g : TokenGraph} {steps : Nat} {parent : Option NodeId} {l seen : List NodeId}
  {child : NodeId} {id x : NodeId}

/-! ### The walk -/

theorem walk_cons_of_mem (h : child ∈ seen) : walk g (steps + 1) parent (child :: l) seen =
    (⟨parent, child⟩ :: (walk g steps parent l seen).1, (walk g steps parent l seen).2) := by
  simp [walk, h]

theorem walk_cons_of_not_mem (h : child ∉ seen) :
    walk g (steps + 1) parent (child :: l) seen =
      let below := walk g steps (some child) (g.children child) (child :: seen)
      let after := walk g steps parent l below.2
      (⟨parent, child⟩ :: below.1 ++ after.1, after.2) := by
  simp [walk, h]

/-- What holds after a walk: it has seen what it was sent to and all that follows what it has newly
    seen, and it has a visit for all of this. -/
structure Walked (g : TokenGraph) (l seen : List NodeId) (result : List Visit × List NodeId) :
    Prop where
  seen_subset : seen ⊆ result.2
  sent_subset : l ⊆ result.2
  closed : ∀ x ∈ result.2, x ∉ seen → g.children x ⊆ result.2
  visited : ∀ x ∈ result.2, x ∉ seen → ∃ v ∈ result.1, v.child = x

theorem walked_walk (hsteps : l.length + pending g.children g.size seen < steps) :
    Walked g l seen (walk g steps parent l seen) := by
  induction steps generalizing parent l seen with
  | zero => exact absurd hsteps (Nat.not_lt_zero _)
  | succ steps ih =>
    cases l with
    | nil => exact ⟨fun _ h => h, List.nil_subset _, fun _ h h' => absurd h h', fun _ h h' => absurd h h'⟩
    | cons child l =>
      rw [List.length_cons] at hsteps
      by_cases hchild : child ∈ seen
      · have after : Walked g l seen (walk g steps parent l seen) := ih (by omega)
        rw [walk_cons_of_mem hchild]
        exact ⟨after.seen_subset,
          List.cons_subset.2 ⟨after.seen_subset hchild, after.sent_subset⟩, after.closed,
          fun x hx hxs => (after.visited x hx hxs).imp fun v hv => ⟨List.mem_cons_of_mem _ hv.1, hv.2⟩⟩
      · -- The steps are enough for the walk below the child, and what this has seen leaves enough of
        -- them for the walk after it.
        have hpending : pending g.children g.size (child :: seen) + (g.children child).length
            = pending g.children g.size seen := pending_cons hchild (children_of_size_le child)
        have below : Walked g (g.children child) (child :: seen)
            (walk g steps (some child) (g.children child) (child :: seen)) := ih (by omega)
        rw [walk_cons_of_not_mem hchild]
        generalize walk g steps (some child) (g.children child) (child :: seen) = result at below
        have hless : pending g.children g.size result.2 ≤ pending g.children g.size (child :: seen) :=
          pending_le_of_subset below.seen_subset
        have after : Walked g l result.2 (walk g steps parent l result.2) := ih (by omega)
        have hchild' : child ∈ (walk g steps parent l result.2).2 :=
          after.seen_subset (below.seen_subset List.mem_cons_self)
        refine ⟨?_, List.cons_subset.2 ⟨hchild', after.sent_subset⟩, fun x hx hxs => ?_,
          fun x hx hxs => ?_⟩
        · exact fun x hx => after.seen_subset (below.seen_subset (List.mem_cons_of_mem _ hx))
        · -- A node seen for the first time is the child, or first seen below it, or after that.
          by_cases hbelow : x ∈ result.2
          · refine fun y hy => after.seen_subset ?_
            by_cases hxc : x = child
            · exact below.sent_subset (hxc ▸ hy)
            · exact below.closed x hbelow (by simp [hxc, hxs]) hy
          · exact after.closed x hx hbelow
        · by_cases hbelow : x ∈ result.2
          · by_cases hxc : x = child
            · exact ⟨⟨parent, child⟩, List.mem_cons_self, hxc.symm⟩
            · obtain ⟨v, hv, hvx⟩ := below.visited x hbelow (by simp [hxc, hxs])
              exact ⟨v, List.mem_cons_of_mem _ (List.mem_append_left _ hv), hvx⟩
          · obtain ⟨v, hv, hvx⟩ := after.visited x hx hbelow
            exact ⟨v, List.mem_cons_of_mem _ (List.mem_append_right _ hv), hvx⟩

/-- A visit goes to a node that the walk was sent to, or that follows another one. -/
theorem reaches_of_mem_walk {v : Visit} (h : v ∈ (walk g steps parent l seen).1) :
    ∃ r ∈ l, ReflTransGen g.Edge r v.child := by
  induction steps generalizing parent l seen with
  | zero => exact absurd h List.not_mem_nil
  | succ steps ih =>
    cases l with
    | nil => exact absurd h List.not_mem_nil
    | cons child l =>
      by_cases hchild : child ∈ seen
      · rw [walk_cons_of_mem hchild] at h
        rcases List.mem_cons.1 h with rfl | h
        · exact ⟨child, List.mem_cons_self, .refl⟩
        · exact (ih h).imp fun r hr => ⟨List.mem_cons_of_mem _ hr.1, hr.2⟩
      · rw [walk_cons_of_not_mem hchild] at h
        rcases List.mem_cons.1 h with rfl | h
        · exact ⟨child, List.mem_cons_self, .refl⟩
        · rcases List.mem_append.1 h with h | h
          · obtain ⟨c, hc, hcv⟩ := ih h
            exact ⟨child, List.mem_cons_self, .head hc hcv⟩
          · exact (ih h).imp fun r hr => ⟨List.mem_cons_of_mem _ hr.1, hr.2⟩

/-- A visit comes from where the walk began, or along an edge. -/
theorem parent_of_mem_walk {v : Visit} (h : v ∈ (walk g steps parent l seen).1) :
    (v.parent = parent ∧ v.child ∈ l) ∨ ∃ p, v.parent = some p ∧ g.Edge p v.child := by
  induction steps generalizing parent l seen with
  | zero => exact absurd h List.not_mem_nil
  | succ steps ih =>
    cases l with
    | nil => exact absurd h List.not_mem_nil
    | cons child l =>
      by_cases hchild : child ∈ seen
      · rw [walk_cons_of_mem hchild] at h
        rcases List.mem_cons.1 h with rfl | h
        · exact .inl ⟨rfl, List.mem_cons_self⟩
        · exact (ih h).imp_left fun hv => ⟨hv.1, List.mem_cons_of_mem _ hv.2⟩
      · rw [walk_cons_of_not_mem hchild] at h
        rcases List.mem_cons.1 h with rfl | h
        · exact .inl ⟨rfl, List.mem_cons_self⟩
        · rcases List.mem_append.1 h with h | h
          · exact .inr ((ih h).elim (fun hv => ⟨child, hv.1, hv.2⟩) id)
          · exact (ih h).imp_left fun hv => ⟨hv.1, List.mem_cons_of_mem _ hv.2⟩

/-! ### The order of first visits -/

theorem mem_firstVisits_iff {visits : List Visit} :
    x ∈ (firstVisits seen visits).map (·.child) ↔ x ∉ seen ∧ x ∈ visits.map (·.child) := by
  induction visits generalizing seen with
  | nil => simp [firstVisits]
  | cons v visits ih =>
    rw [firstVisits]
    split
    · next hv =>
      have hv : v.child ∈ seen := by simpa using hv
      rw [ih, List.map_cons, List.mem_cons]
      refine and_congr_right fun hx => ⟨.inr, fun h => h.resolve_left ?_⟩
      rintro rfl
      exact hx hv
    · next hv =>
      have hv : v.child ∉ seen := by simpa using hv
      rw [List.map_cons, List.mem_cons, ih, List.map_cons, List.mem_cons, List.mem_cons]
      by_cases hx : x = v.child <;> simp [hx, hv]

theorem nodup_firstVisits {visits : List Visit} :
    ((firstVisits seen visits).map (·.child)).Nodup := by
  induction visits generalizing seen with
  | nil => exact List.nodup_nil
  | cons v visits ih =>
    rw [firstVisits]
    split
    · exact ih
    · rw [List.map_cons, List.nodup_cons]
      exact ⟨fun h => (mem_firstVisits_iff.1 h).1 List.mem_cons_self, ih⟩

theorem firstVisits_subset {visits : List Visit} : firstVisits seen visits ⊆ visits := by
  induction visits generalizing seen with
  | nil => exact List.nil_subset _
  | cons v visits ih =>
    rw [firstVisits]
    split
    · exact List.subset_cons_of_subset _ ih
    · exact List.cons_subset_cons _ ih

variable (g) in
/-- The nodes in the order in which the walk through the graph first comes to them. -/
def order : List NodeId := (firstVisits [] (visits g)).map (·.child)

theorem nodup_order : (order g).Nodup := nodup_firstVisits

theorem walked_roots : Walked g g.roots [] (walk g (walkBound g) none g.roots []) :=
  walked_walk (by rw [walkBound_eq]; exact Nat.lt_succ_self _)

/-- The walk through the graph sees what can be reached from the roots. -/
theorem mem_seen_iff : x ∈ (walk g (walkBound g) none g.roots []).2 ↔
    ∃ r ∈ g.roots, ReflTransGen g.Edge r x := by
  constructor
  · intro hx
    obtain ⟨v, hv, rfl⟩ := walked_roots.visited x hx List.not_mem_nil
    exact reaches_of_mem_walk hv
  · rintro ⟨r, hr, hrx⟩
    induction hrx with
    | refl => exact walked_roots.sent_subset hr
    | tail _ hxy ih => exact walked_roots.closed _ ih List.not_mem_nil hxy

theorem mem_order_iff : x ∈ order g ↔ ∃ r ∈ g.roots, ReflTransGen g.Edge r x := by
  rw [order, mem_firstVisits_iff]
  constructor
  · rintro ⟨-, hx⟩
    obtain ⟨v, hv, rfl⟩ := List.mem_map.1 hx
    exact reaches_of_mem_walk hv
  · intro hx
    obtain ⟨v, hv, rfl⟩ := walked_roots.visited x (mem_seen_iff.2 hx) List.not_mem_nil
    exact ⟨List.not_mem_nil, List.mem_map_of_mem hv⟩

/-! ### The graph with origins -/

theorem size_fill : (fill g).size = g.size := by
  simp [fill, TokenGraph.size]

theorem node_fill (hx : x < g.size) : (fill g).node x =
    { g.node x with origins := if x ∈ order g then [(order g).idxOf x] else [] } := by
  simp only [TokenGraph.size] at hx
  simp [fill, TokenGraph.node, hx, order]

/-- All but the origins of a node is as it was. -/
theorem exists_node_fill (x : NodeId) : ∃ os, (fill g).node x = { g.node x with origins := os } := by
  by_cases hx : x < g.size
  · exact ⟨_, node_fill hx⟩
  · rw [node_of_size_le (Nat.not_lt.1 hx), node_of_size_le (size_fill.symm ▸ Nat.not_lt.1 hx)]
    exact ⟨[], rfl⟩

theorem token_fill : ((fill g).node x).token = (g.node x).token := by
  obtain ⟨os, h⟩ := exists_node_fill (g := g) x
  rw [h]

theorem children_fill : (fill g).children x = g.children x := by
  obtain ⟨os, h⟩ := exists_node_fill (g := g) x
  rw [TokenGraph.children, h]
  rfl

theorem parents_fill : ((fill g).node x).parents = (g.node x).parents := by
  obtain ⟨os, h⟩ := exists_node_fill (g := g) x
  rw [h]

theorem isEnd_fill : (fill g).isEnd x = g.isEnd x := by
  obtain ⟨os, h⟩ := exists_node_fill (g := g) x
  rw [TokenGraph.isEnd, h]
  rfl

theorem inRange_fill (hg : g.InRange) : (fill g).InRange where
  roots_lt := fun r hr => size_fill.symm ▸ hg.roots_lt r hr
  children_lt := fun i c hc => by
    rw [children_fill] at hc
    exact size_fill.symm ▸ hg.children_lt i c hc
  parents_lt := fun i p hp => by
    rw [parents_fill] at hp
    exact size_fill.symm ▸ hg.parents_lt i p hp

/-- An origin is made from the first visit to its node. -/
theorem origin_fill_eq {r : OriginId} (hr : r < (firstVisits [] (visits g)).length) :
    (fill g).origin r =
      originOf g g.phrase.toList (visits g) (order g) (firstVisits [] (visits g))[r] := by
  simp [fill, TokenGraph.origin, hr, order]

theorem exists_visit_of_origin {r : OriginId} (hr : r < (order g).length) :
    ∃ v ∈ visits g, v.child = (order g)[r] ∧
      (fill g).origin r = originOf g g.phrase.toList (visits g) (order g) v := by
  have hr' : r < (firstVisits [] (visits g)).length := by simpa [order] using hr
  exact ⟨_, firstVisits_subset (List.getElem_mem hr'), by simp [order], origin_fill_eq hr'⟩

theorem origin_fill {r : OriginId} (hr : r < (order g).length) :
    ((fill g).origin r).node = (order g)[r] ∧
      ((fill g).origin r).children = (g.children (order g)[r]).map (order g).idxOf := by
  obtain ⟨v, -, hchild, horigin⟩ := exists_visit_of_origin hr
  rw [horigin, ← hchild]
  exact ⟨rfl, rfl⟩

theorem size_origins_fill : (fill g).origins.size = (order g).length := by
  simp [fill, order]

/-- Every node of the walk has one origin, and all others have none. -/
theorem mem_origins_fill_iff (hg : g.InRange) {r : OriginId} :
    r ∈ ((fill g).node x).origins ↔ r < (fill g).origins.size ∧ ((fill g).origin r).node = x := by
  have hlt : ∀ x ∈ order g, x < g.size := by
    intro x hx
    obtain ⟨r, hr, hreach⟩ := mem_order_iff.1 hx
    exact hg.lt_of_reaches hr hreach
  rw [size_origins_fill]
  constructor
  · intro hr
    have hx : x < g.size := by
      rw [← size_fill]
      by_contra hx
      rw [node_of_size_le (Nat.not_lt.1 hx)] at hr
      exact absurd hr List.not_mem_nil
    rw [node_fill hx] at hr
    by_cases hmem : x ∈ order g
    · rw [if_pos hmem, List.mem_singleton] at hr
      have hr' : r < (order g).length := hr ▸ List.idxOf_lt_length_of_mem hmem
      refine ⟨hr', ?_⟩
      rw [(origin_fill hr').1]
      simp [hr]
    · rw [if_neg hmem] at hr
      exact absurd hr List.not_mem_nil
  · rintro ⟨hr, rfl⟩
    rw [(origin_fill hr).1]
    have hmem : (order g)[r] ∈ order g := List.getElem_mem hr
    rw [node_fill (hlt _ hmem), if_pos hmem, nodup_order.idxOf_getElem]
    exact List.mem_singleton_self r

/-! ### The origins of tokens -/

section Tokens

variable {tokens : List Token} {phrase : String} {k j : Nat} {r r' : OriginId}

/-- The origin has been made for the token. -/
def MadeFor (tokens : List Token) (phrase : String) (r : OriginId) (k : Nat) : Prop :=
  r < (fill (Forest.ofTokens tokens phrase)).origins.size ∧
    ((fill (Forest.ofTokens tokens phrase)).origin r).node = k

theorem mem_order (hk : k < tokens.length) : k ∈ order (Forest.ofTokens tokens phrase) :=
  mem_order_iff.2 (Forest.exists_root_reaches phrase hk)

/-- The origin of a token has the place at which the walk comes to the token. -/
theorem madeFor_iff (hk : k < tokens.length) :
    MadeFor tokens phrase r k ↔ r = (order (Forest.ofTokens tokens phrase)).idxOf k := by
  have horigins := node_fill (g := Forest.ofTokens tokens phrase) (Forest.size_ofTokens.symm ▸ hk)
  rw [if_pos (mem_order hk)] at horigins
  rw [MadeFor, ← mem_origins_fill_iff Forest.inRange_ofTokens, horigins, List.mem_singleton]

variable (phrase) in
/-- Every token has one origin. -/
theorem existsUnique_madeFor (hk : k < tokens.length) : ∃! r, MadeFor tokens phrase r k :=
  ⟨_, (madeFor_iff hk).2 rfl, fun _ hr => (madeFor_iff hk).1 hr⟩

/-- Origins follow one another as their tokens do. -/
theorem mem_children_origin_iff (hr : MadeFor tokens phrase r k) :
    r' ∈ ((fill (Forest.ofTokens tokens phrase)).origin r).children ↔
      ∃ j, (Forest.ofTokens tokens phrase).Edge k j ∧ MadeFor tokens phrase r' j := by
  obtain ⟨hlt, rfl⟩ := hr
  rw [size_origins_fill] at hlt
  rw [(origin_fill hlt).1, (origin_fill hlt).2, List.mem_map]
  refine exists_congr fun j => and_congr_right fun hj => ?_
  rw [madeFor_iff (Forest.edge_iff.1 hj).2.1, eq_comm]

end Tokens

end PhraseGraph.Provenance

namespace PhraseGraph.TokenGraph

variable {g : TokenGraph} {r : OriginId}

theorem origin_of_size_le (h : g.origins.size ≤ r) : g.origin r = default := by
  rw [origin, Array.getD_eq_getD_getElem?, Array.getElem?_eq_none h, Option.getD_none]

theorem lt_size_of_children_origin_ne_nil (h : (g.origin r).children ≠ []) : r < g.origins.size := by
  by_contra hr
  exact h (by rw [origin_of_size_le (Nat.not_lt.1 hr)]; rfl)

theorem lt_size_of_parents_origin_ne_nil (h : (g.origin r).parents ≠ []) : r < g.origins.size := by
  by_contra hr
  exact h (by rw [origin_of_size_le (Nat.not_lt.1 hr)]; rfl)

/-- Nodes and origins know each other: a node has the origins that tell of it, each once. -/
structure Recorded (g : TokenGraph) : Prop where
  mem_iff : ∀ k r, r ∈ (g.node k).origins ↔ r < g.origins.size ∧ (g.origin r).node = k
  nodup : ∀ k, (g.node k).origins.Nodup

theorem recorded_fill (hg : g.InRange) : (Provenance.fill g).Recorded where
  mem_iff _ _ := Provenance.mem_origins_fill_iff hg
  nodup k := by
    by_cases hk : k < g.size
    · rw [Provenance.node_fill hk]
      split
      · exact List.nodup_singleton _
      · exact List.nodup_nil
    · rw [node_of_size_le (Provenance.size_fill.symm ▸ Nat.not_lt.1 hk)]
      exact List.nodup_nil

end PhraseGraph.TokenGraph
