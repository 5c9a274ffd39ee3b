import PhraseGraph.Graph
import PhraseGraph.Proofs.Compaction
import PhraseGraph.Proofs.Merging.Order
import PhraseGraph.Proofs.Merging.Quotient
import PhraseGraph.Proofs.Merging.Termination

/-!
# What comes of merging the siblings of a graph

The run of merges through a graph ends (`exists_run`), and its nodes, moved up, are the normal form
(`normalize_eq`). The nodes are still known by the places that they had before
(`TokenGraph.settled`), which is where the facts about the run can be read off.

The normal form of a graph with origins is put in order afterwards, which changes only the order of
the origins that follow one another (`origin_sortOrigins`).
-/

namespace PhraseGraph

open Relation

/-- A graph whose edges lead to its nodes, none twice. -/
structure TokenGraph.Simple (g : TokenGraph) : Prop extends g.InRange where
  nodup_children : ∀ i, (g.children i).Nodup
  nodup_parents : ∀ i, (g.node i).parents.Nodup

namespace Merging

/-- The merging of a graph before its first step. -/
def ofGraph (g : TokenGraph) : Merging := { nodes := g.nodes, origins := g.origins }

/-- The graph of the nodes of a merging. -/
def toGraph (m : Merging) (g : TokenGraph) (roots : List NodeId) : TokenGraph :=
  { g with nodes := m.nodes, origins := m.origins, roots }

variable {g : TokenGraph} {m : Merging} {out : List NodeId}

theorem ready_ofGraph (hg : g.Simple) : (ofGraph g).Ready g.roots g.roots where
  valid :=
    { resolve_lt := fun _ hi => hi, resolve_resolve := fun _ => rfl, text_resolve := fun _ => rfl,
      children_lt := hg.children_lt, parents_lt := hg.parents_lt,
      nodup_children := hg.nodup_children, nodup_parents := hg.nodup_parents }
  subset := List.Subset.refl _
  lt := hg.roots_lt

end Merging

namespace TokenGraph

variable {g : TokenGraph} {m : Merging} {out : List NodeId} {r : OriginId}

/-- The graph after all merges, with the nodes where they were. -/
def settled (g : TokenGraph) : TokenGraph :=
  match Merging.settle (Merging.stepBound g.size) (.ofGraph g) g.roots with
  | some (m, roots) => m.toGraph g roots
  | none => g

theorem exists_run (hg : g.Simple) : ∃ m out,
    Merging.Settles (.ofGraph g) g.roots g.roots m out ∧ g.settled = m.toGraph g out ∧
      g.normalize = g.settled.compact := by
  obtain ⟨m, out, h⟩ := Merging.exists_settle_eq_some (Merging.ready_ofGraph hg)
    (Merging.weight_lt_stepBound (.ofGraph g))
  have hsettled : g.settled = m.toGraph g out := by
    change (match Merging.settle (Merging.stepBound (Merging.ofGraph g).size) (.ofGraph g) g.roots
      with | some (m, roots) => m.toGraph g roots | none => g) = _
    rw [h]
  have hnormalize : g.normalize = (m.toGraph g out).compact := by
    change (match Merging.settle (Merging.stepBound (Merging.ofGraph g).size) (.ofGraph g) g.roots
      with | some (m, roots) => (m.toGraph g roots).compact | none => g) = _
    rw [h]
  exact ⟨m, out, Merging.settles_of_settle h, hsettled, hnormalize.trans (hsettled ▸ rfl)⟩

/-! ### The order of origins -/

theorem size_origins_sortOrigins : g.sortOrigins.origins.size = g.origins.size := by
  simp [sortOrigins]

theorem size_sortOrigins : g.sortOrigins.size = g.size := rfl

theorem roots_sortOrigins : g.sortOrigins.roots = g.roots := rfl

theorem edge_sortOrigins : g.sortOrigins.Edge = g.Edge := rfl

theorem InRange.sortOrigins (hg : g.InRange) : g.sortOrigins.InRange :=
  ⟨hg.roots_lt, hg.children_lt, hg.parents_lt⟩

/-- The children of an origin, by ascending full text. -/
def sortedChildren (g : TokenGraph) (r : OriginId) : List OriginId :=
  stableSort (fun a b => textLe (g.origin a).fullText (g.origin b).fullText) (g.origin r).children

theorem origin_sortOrigins (hr : r < g.origins.size) : g.sortOrigins.origin r =
    if r ∈ g.reachableOrigins then { g.origin r with children := g.sortedChildren r }
    else g.origin r := by
  simp [sortOrigins, origin, hr, sortedChildren]

/-- One origin alone is in order. -/
theorem origin_sortOrigins_of_length_le_one (hr : r < g.origins.size)
    (h : (g.origin r).children.length ≤ 1) : g.sortOrigins.origin r = g.origin r := by
  have hsorted : g.sortedChildren r = (g.origin r).children := by
    refine stableSort_of_pairwise ?_
    match (g.origin r).children, h with
    | [], _ => exact .nil
    | [a], _ => exact List.pairwise_singleton _ a
  rw [origin_sortOrigins hr, hsorted, ite_self]

theorem node_origin_sortOrigins (hr : r < g.origins.size) :
    (g.sortOrigins.origin r).node = (g.origin r).node := by
  rw [origin_sortOrigins hr]
  split <;> rfl

theorem parents_origin_sortOrigins (hr : r < g.origins.size) :
    (g.sortOrigins.origin r).parents = (g.origin r).parents := by
  rw [origin_sortOrigins hr]
  split <;> rfl

/-- The origins that can follow another one come in another order. -/
theorem children_origin_sortOrigins_perm (hr : r < g.origins.size) :
    (g.sortOrigins.origin r).children.Perm (g.origin r).children := by
  rw [origin_sortOrigins hr]
  split
  · exact stableSort_perm
  · exact .refl _

theorem mem_children_origin_sortOrigins_iff (hr : r < g.origins.size) {id : OriginId} :
    id ∈ (g.sortOrigins.origin r).children ↔ id ∈ (g.origin r).children :=
  (children_origin_sortOrigins_perm hr).mem_iff

theorem originRoots_sortOrigins : g.sortOrigins.originRoots = g.originRoots := rfl

end TokenGraph

/-! ### Forests with origins -/

namespace Forest

variable {tokens : List Token} {phrase : String} {k : Nat}

theorem simple_fill : (Provenance.fill (ofTokens tokens phrase)).Simple where
  toInRange := Provenance.inRange_fill inRange_ofTokens
  nodup_children i := by
    rw [Provenance.children_fill]
    exact nodup_children
  nodup_parents i := by
    rw [Provenance.parents_fill]
    exact nodup_parents

end Forest

/-! ### The graph of tokens -/

/-- The forest of the tokens after all merges, with the nodes where they were. -/
def TokenGraph.mergedForest (tokens : List Token) (phrase : String) : TokenGraph :=
  (Provenance.fill (Forest.ofTokens tokens phrase)).settled

/-- The graph of the tokens comes from the merging `m` of their forest, with the roots `out`. -/
structure NormalForm (tokens : List Token) (phrase : String) (m : Merging) (out : List NodeId) :
    Prop where
  run : Merging.Settles (.ofGraph (Provenance.fill (Forest.ofTokens tokens phrase)))
    (Forest.ofTokens tokens phrase).roots (Forest.ofTokens tokens phrase).roots m out
  mergedForest_eq : TokenGraph.mergedForest tokens phrase =
    m.toGraph (Provenance.fill (Forest.ofTokens tokens phrase)) out
  eq : TokenGraph.ofTokens tokens phrase =
    (TokenGraph.mergedForest tokens phrase).compact.sortOrigins

theorem exists_normalForm (tokens : List Token) (phrase : String) :
    ∃ m out, NormalForm tokens phrase m out := by
  obtain ⟨m, out, hrun, hsettled, hnormalize⟩ := TokenGraph.exists_run
    (@Forest.simple_fill tokens phrase)
  exact ⟨m, out, hrun, hsettled, congrArg TokenGraph.sortOrigins hnormalize⟩

namespace NormalForm

variable {tokens : List Token} {phrase : String} {m : Merging} {out : List NodeId} {i k : NodeId}

theorem settled (h : NormalForm tokens phrase m out) :
    (Merging.ofGraph (Provenance.fill (Forest.ofTokens tokens phrase))).Settled
      (Forest.ofTokens tokens phrase).roots m out :=
  h.run.settled (Merging.ready_ofGraph Forest.simple_fill)

theorem size_eq (h : NormalForm tokens phrase m out) : m.size = tokens.length :=
  h.settled.size_eq.trans (Provenance.size_fill.trans Forest.size_ofTokens)

theorem records (h : NormalForm tokens phrase m out) :
    m.Records (Provenance.fill (Forest.ofTokens tokens phrase)) :=
  h.run.records (Merging.ready_ofGraph Forest.simple_fill)
    (TokenGraph.recorded_fill Forest.inRange_ofTokens)
    (Merging.records_of_graph (TokenGraph.recorded_fill Forest.inRange_ofTokens))

theorem inRange (h : NormalForm tokens phrase m out) :
    (TokenGraph.mergedForest tokens phrase).InRange := by
  rw [h.mergedForest_eq]
  refine ⟨h.settled.out_lt fun r hr => ?_, h.settled.valid.children_lt, h.settled.valid.parents_lt⟩
  exact (Merging.ready_ofGraph Forest.simple_fill).lt r hr

/-- A node stands for tokens with its text. -/
theorem text_eq (h : NormalForm tokens phrase m out) (hk : k < tokens.length) :
    m.text (m.resolve k) = (Forest.tokenAt tokens k).text := by
  rw [h.settled.valid.text_resolve, h.settled.text_eq, ← Forest.text_ofTokens hk]
  exact congrArg Token.text Provenance.token_fill

theorem roots_eq (h : NormalForm tokens phrase m out) :
    (TokenGraph.ofTokens tokens phrase).roots =
      out.map (TokenGraph.mergedForest tokens phrase).place := by
  have hroots := TokenGraph.roots_compact h.inRange
  rw [h.eq]
  refine hroots.trans ?_
  rw [h.mergedForest_eq]
  rfl

/-- A node that can be reached is the same at its new place, with the new places of its edges. -/
theorem node_place (h : NormalForm tokens phrase m out)
    (hi : i ∈ (TokenGraph.mergedForest tokens phrase).reachable) :
    (TokenGraph.ofTokens tokens phrase).node ((TokenGraph.mergedForest tokens phrase).place i) =
      { m.node i with
        parents := ((m.parents i).filter
          (TokenGraph.mergedForest tokens phrase).reachable.contains).map
            (TokenGraph.mergedForest tokens phrase).place,
        children := (m.children i).map (TokenGraph.mergedForest tokens phrase).place } := by
  have hnode : ∀ i, (TokenGraph.mergedForest tokens phrase).node i = m.node i := fun i => by
    rw [h.mergedForest_eq]
    rfl
  have hchildren : ∀ i, (TokenGraph.mergedForest tokens phrase).children i = m.children i :=
    fun i => congrArg Node.children (hnode i)
  have hcompact := TokenGraph.node_compact h.inRange hi
  rw [hnode, hchildren] at hcompact
  rw [h.eq]
  exact hcompact

/-! ### Siblings in order -/

/-- At the end every node that has been looked at has its children in order. -/
theorem ordered (h : NormalForm tokens phrase m out) : m.Ordered [] [] := by
  refine h.run.ordered (Merging.ready_ofGraph Forest.simple_fill) (fun i _ c hc => .inr ⟨rfl, ?_⟩)
    fun i hi => absurd hi List.not_mem_nil
  -- In the forest the parents and the children tell of the same edges.
  have hedge : (Forest.ofTokens tokens phrase).Edge i c := by
    rw [TokenGraph.Edge, ← Provenance.children_fill]
    exact hc
  change i ∈ ((Provenance.fill (Forest.ofTokens tokens phrase)).node c).parents
  obtain ⟨hi, hc, hanchor⟩ := Forest.edge_iff.1 hedge
  rw [Provenance.parents_fill]
  exact Forest.mem_parents_iff.2 ⟨hc, hi, hanchor⟩

/-- A node that can be reached has been looked at and stands for itself. -/
theorem live_of_reachable (h : NormalForm tokens phrase m out)
    (hi : i ∈ (TokenGraph.mergedForest tokens phrase).reachable) :
    i ∈ m.visited ∧ m.resolve i = i := by
  obtain ⟨r, hr, hreach⟩ := TokenGraph.mem_reachable_iff.1 hi
  rw [h.mergedForest_eq] at hr hreach
  clear hi
  induction hreach with
  | refl =>
    obtain ⟨s, -, hs⟩ := (h.settled.mem_out_iff r).1 hr
    have hvisited := (h.run.visited (Merging.ready_ofGraph Forest.simple_fill) fun s hs => .inl hs).2
    exact ⟨hvisited r hr, by rw [← hs, h.settled.valid.resolve_resolve]⟩
  | tail _ hedge ih =>
    have hin := h.ordered _ ih.1 ih.2 List.not_mem_nil
    refine ⟨(hin.seen _ hedge).resolve_right ?_, hin.live _ hedge⟩
    intro ⟨s, hs, _⟩
    exact absurd hs List.not_mem_nil

/-- So its children are in order. -/
theorem pairwise_children (h : NormalForm tokens phrase m out)
    (hi : i ∈ (TokenGraph.mergedForest tokens phrase).reachable) :
    (m.children i).Pairwise fun a b => m.text a < m.text b :=
  have hlive := h.live_of_reachable hi
  (h.ordered i hlive.1 hlive.2 List.not_mem_nil).ascends

/-- Nodes that come in the order of their texts are siblings in order at their new places. -/
theorem ascends_map_place (h : NormalForm tokens phrase m out) {ids : List NodeId}
    (hids : ∀ i ∈ ids, i ∈ (TokenGraph.mergedForest tokens phrase).reachable)
    (hascends : ids.Pairwise fun a b => m.text a < m.text b) :
    (TokenGraph.ofTokens tokens phrase).Ascends
      (ids.map (TokenGraph.mergedForest tokens phrase).place) := by
  have htext : ∀ i ∈ ids, (TokenGraph.ofTokens tokens phrase).text
      ((TokenGraph.mergedForest tokens phrase).place i) = m.text i := fun i hi => by
    rw [TokenGraph.text, h.node_place (hids i hi)]
    rfl
  refine List.pairwise_map.2 (hascends.imp_of_mem fun ha hb hlt => ?_)
  rwa [htext _ ha, htext _ hb]

theorem roots_ascend (h : NormalForm tokens phrase m out) :
    (TokenGraph.ofTokens tokens phrase).Ascends (TokenGraph.ofTokens tokens phrase).roots := by
  rw [h.roots_eq]
  refine h.ascends_map_place (fun i hi => TokenGraph.mem_reachable_iff.2 ⟨i, ?_, .refl⟩)
    h.settled.ascends
  rw [h.mergedForest_eq]
  exact hi

theorem exists_place (h : NormalForm tokens phrase m out) {a : NodeId}
    (ha : a < (TokenGraph.ofTokens tokens phrase).size) :
    ∃ i ∈ (TokenGraph.mergedForest tokens phrase).reachable,
      (TokenGraph.mergedForest tokens phrase).place i = a := by
  rw [h.eq] at ha
  exact TokenGraph.exists_place h.inRange (ha.trans_eq (TokenGraph.size_compact h.inRange))

theorem children_ascend (h : NormalForm tokens phrase m out) (a : NodeId) :
    (TokenGraph.ofTokens tokens phrase).Ascends
      ((TokenGraph.ofTokens tokens phrase).children a) := by
  by_cases ha : a < (TokenGraph.ofTokens tokens phrase).size
  · obtain ⟨i, hi, rfl⟩ := h.exists_place ha
    rw [TokenGraph.children, h.node_place hi]
    refine h.ascends_map_place (fun c hc => TokenGraph.reachable_of_edge hi ?_) (h.pairwise_children hi)
    rw [h.mergedForest_eq]
    exact hc
  · rw [TokenGraph.children_of_size_le a (Nat.not_lt.1 ha)]
    exact .nil

end NormalForm

end PhraseGraph
