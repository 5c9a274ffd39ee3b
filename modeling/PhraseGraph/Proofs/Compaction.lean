import Mathlib.Data.List.Perm.Subperm
import PhraseGraph.Graph.Siblings
import PhraseGraph.Proofs.Reach

/-!
# Moving nodes up

When the nodes that cannot be reached from the roots are left out, the others keep their order
(`kept`), and each gets a new place (`place`). All edges between them lead to the new places. An origin
gets the new place of its node too, but only if the node is among them; otherwise it keeps a place at
which another node stands now, or none.
-/

namespace PhraseGraph.TokenGraph

open Relation

variable {g : TokenGraph} {id id' p : NodeId} {r : OriginId}

/-- The nodes that can be reached from the roots, by their places. -/
def kept (g : TokenGraph) : List NodeId := (List.range g.size).filter g.reachable.contains

/-- The new place of a node. -/
def place (g : TokenGraph) (id : NodeId) : NodeId := g.kept.idxOf id

theorem InRange.lt_of_mem_reachable (hg : g.InRange) (h : id ∈ g.reachable) : id < g.size := by
  obtain ⟨r, hr, hreach⟩ := mem_reachable_iff.1 h
  exact hg.lt_of_reaches hr hreach

theorem reachable_of_edge (h : id ∈ g.reachable) (hedge : g.Edge id id') : id' ∈ g.reachable := by
  obtain ⟨r, hr, hreach⟩ := mem_reachable_iff.1 h
  exact mem_reachable_iff.2 ⟨r, hr, hreach.tail hedge⟩

theorem mem_kept_iff (hg : g.InRange) : id ∈ g.kept ↔ id ∈ g.reachable := by
  rw [kept, List.mem_filter, List.mem_range, List.contains_iff_mem, and_iff_right_iff_imp]
  exact hg.lt_of_mem_reachable

theorem nodup_kept : g.kept.Nodup := List.nodup_range.filter _

theorem place_inj (hg : g.InRange) (h : id ∈ g.reachable) :
    g.place id = g.place id' ↔ id = id' :=
  List.idxOf_inj ((mem_kept_iff hg).2 h)

theorem place_lt (hg : g.InRange) (h : id ∈ g.reachable) : g.place id < g.kept.length :=
  List.idxOf_lt_length_of_mem ((mem_kept_iff hg).2 h)

theorem exists_place (hg : g.InRange) (hp : p < g.kept.length) :
    ∃ id ∈ g.reachable, g.place id = p :=
  ⟨g.kept[p], (mem_kept_iff hg).1 (List.getElem_mem hp), nodup_kept.idxOf_getElem p hp⟩

/-- Where as many nodes can be reached as there are, all can be. -/
theorem mem_reachable_of_length_eq (hg : g.InRange) (h : g.reachable.length = g.size)
    (hid : id < g.size) : id ∈ g.reachable := by
  have hsub : g.reachable ⊆ List.range g.size := fun x hx =>
    List.mem_range.2 (hg.lt_of_mem_reachable hx)
  have hperm := (nodup_reachable.subperm hsub).perm_of_length_le (by simp [h])
  exact hperm.mem_iff.2 (List.mem_range.2 hid)

theorem length_reachable (hg : g.InRange) (h : ∀ id < g.size, id ∈ g.reachable) :
    g.reachable.length = g.size := by
  have hperm : g.reachable.Perm (List.range g.size) :=
    (List.perm_ext_iff_of_nodup nodup_reachable List.nodup_range).2 fun id =>
      ⟨fun hid => List.mem_range.2 (hg.lt_of_mem_reachable hid), fun hid => h id (List.mem_range.1 hid)⟩
  rw [hperm.length_eq, List.length_range]

theorem kept_of_length_eq (hg : g.InRange) (h : g.reachable.length = g.size) :
    g.kept = List.range g.size := by
  rw [kept, List.filter_eq_self]
  intro id hid
  exact List.contains_iff_mem.2 (mem_reachable_of_length_eq hg h (List.mem_range.1 hid))

theorem place_of_length_eq (hg : g.InRange) (h : g.reachable.length = g.size) (hid : id < g.size) :
    g.place id = id := by
  rw [place, kept_of_length_eq hg h]
  have hlt : id < (List.range g.size).length := by simpa using hid
  have hidx := List.nodup_range.idxOf_getElem id hlt
  rwa [List.getElem_range] at hidx

/-- The places of edges, where those that lead to other nodes are left out. -/
theorem filterMap_place_eq (l : List NodeId) :
    l.filterMap (fun id => if g.reachable.contains id then some (g.kept.findIdx (· == id)) else none) =
      (l.filter g.reachable.contains).map g.place := by
  induction l with
  | nil => rfl
  | cons id l ih =>
    by_cases h : g.reachable.contains id = true
    · rw [List.filterMap_cons_some (by rw [if_pos h]), List.filter_cons_of_pos h, List.map_cons, ih]
      rfl
    · rw [List.filterMap_cons_none (by rw [if_neg h]), List.filter_cons_of_neg h, ih]

theorem filter_map_place_of_length_eq (hg : g.InRange) (h : g.reachable.length = g.size)
    {l : List NodeId} (hl : ∀ id ∈ l, id < g.size) :
    (l.filter g.reachable.contains).map g.place = l := by
  rw [List.filter_eq_self.2 fun id hid =>
    List.contains_iff_mem.2 (mem_reachable_of_length_eq hg h (hl id hid))]
  conv_rhs => rw [← List.map_id l]
  exact List.map_congr_left fun id hid => place_of_length_eq hg h (hl id hid)

/-! ### The compacted graph -/

theorem compact_of_length_eq (h : g.reachable.length = g.size) : g.compact = g :=
  if_pos (beq_iff_eq.2 h)

theorem compact_of_length_ne (h : g.reachable.length ≠ g.size) : g.compact =
    { g with
      nodes := (g.kept.map fun id =>
        { g.node id with
          parents := ((g.node id).parents.filter g.reachable.contains).map g.place,
          children := ((g.children id).filter g.reachable.contains).map g.place }).toArray,
      roots := (g.roots.filter g.reachable.contains).map g.place,
      origins := g.origins.map fun o =>
        { o with node := if o.node ∈ g.reachable then g.place o.node else o.node } } := by
  have horigin : ∀ o : Origin, ((if g.reachable.contains o.node then
      some (g.kept.findIdx (· == o.node)) else none).getD o.node) =
        if o.node ∈ g.reachable then g.place o.node else o.node := by
    intro o
    by_cases ho : o.node ∈ g.reachable
    · rw [if_pos (List.contains_iff_mem.2 ho), if_pos ho]
      rfl
    · rw [if_neg fun hc => ho (List.contains_iff_mem.1 hc), if_neg ho]
      rfl
  simp only [← filterMap_place_eq, ← horigin]
  exact if_neg fun hlen => h (beq_iff_eq.1 hlen)

theorem size_compact (hg : g.InRange) : g.compact.size = g.kept.length := by
  by_cases hall : g.reachable.length = g.size
  · rw [compact_of_length_eq hall, kept_of_length_eq hg hall, List.length_range]
  · rw [compact_of_length_ne hall, size, List.size_toArray, List.length_map]

theorem node_compact (hg : g.InRange) (h : id ∈ g.reachable) :
    g.compact.node (g.place id) =
      { g.node id with
        parents := ((g.node id).parents.filter g.reachable.contains).map g.place,
        children := (g.children id).map g.place } := by
  have hchildren : (g.children id).filter g.reachable.contains = g.children id :=
    List.filter_eq_self.2 fun c hc => List.contains_iff_mem.2 (reachable_of_edge h hc)
  rw [← hchildren]
  -- Where all nodes can be reached the graph is left as it is, and no place changes.
  by_cases hall : g.reachable.length = g.size
  · rw [compact_of_length_eq hall, place_of_length_eq hg hall (hg.lt_of_mem_reachable h),
      filter_map_place_of_length_eq hg hall (hg.parents_lt id),
      filter_map_place_of_length_eq hg hall (hg.children_lt id)]
    rfl
  · have hlt := place_lt hg h
    have hget : g.kept[g.place id] = id := List.getElem_idxOf hlt
    rw [compact_of_length_ne hall, node, Array.getD_eq_getD_getElem?, List.getElem?_toArray,
      List.getElem?_map, List.getElem?_eq_getElem hlt, hget]
    rfl

theorem children_compact (hg : g.InRange) (h : id ∈ g.reachable) :
    g.compact.children (g.place id) = (g.children id).map g.place :=
  congrArg Node.children (node_compact hg h)

theorem roots_compact (hg : g.InRange) : g.compact.roots = g.roots.map g.place := by
  have hroots : g.roots.filter g.reachable.contains = g.roots :=
    List.filter_eq_self.2 fun r hr =>
      List.contains_iff_mem.2 (mem_reachable_iff.2 ⟨r, hr, .refl⟩)
  rw [← hroots]
  by_cases hall : g.reachable.length = g.size
  · rw [compact_of_length_eq hall, filter_map_place_of_length_eq hg hall hg.roots_lt]
  · rw [compact_of_length_ne hall]

/-- The roots keep their origins. -/
theorem originRoots_compact (hg : g.InRange) : g.compact.originRoots = g.originRoots := by
  rw [originRoots, originsOf, roots_compact hg, List.flatMap_map]
  refine List.flatMap_congr fun r hr => ?_
  rw [node_compact hg (mem_reachable_iff.2 ⟨r, hr, .refl⟩)]

/-- All edges lead to the new places. -/
theorem inRange_compact (hg : g.InRange) : g.compact.InRange := by
  have hplace : ∀ id ∈ g.reachable, g.place id < g.compact.size := fun id hid =>
    (place_lt hg hid).trans_eq (size_compact hg).symm
  refine ⟨fun r hr => ?_, fun a c hc => ?_, fun a p hp => ?_⟩
  · rw [roots_compact hg] at hr
    obtain ⟨id, hid, rfl⟩ := List.mem_map.1 hr
    exact hplace id (mem_reachable_iff.2 ⟨id, hid, .refl⟩)
  · have ha := lt_size_of_children_ne_nil (List.ne_nil_of_mem hc)
    obtain ⟨id, hid, rfl⟩ := exists_place hg (ha.trans_eq (size_compact hg))
    rw [children_compact hg hid] at hc
    obtain ⟨id', hedge, rfl⟩ := List.mem_map.1 hc
    exact hplace id' (reachable_of_edge hid hedge)
  · have ha : a < g.compact.size := by
      by_contra ha
      rw [node_of_size_le (Nat.not_lt.1 ha)] at hp
      exact absurd hp List.not_mem_nil
    obtain ⟨id, hid, rfl⟩ := exists_place hg (ha.trans_eq (size_compact hg))
    rw [node_compact hg hid] at hp
    obtain ⟨id', hmem, rfl⟩ := List.mem_map.1 hp
    exact hplace id' (List.contains_iff_mem.1 (List.mem_filter.1 hmem).2)

/-- No node is left that cannot be reached. -/
theorem exists_root_reaches_compact (hg : g.InRange) (hp : p < g.compact.size) :
    ∃ r ∈ g.compact.roots, ReflTransGen g.compact.Edge r p := by
  obtain ⟨id, hid, rfl⟩ := exists_place hg (hp.trans_eq (size_compact hg))
  obtain ⟨r, hr, hreach⟩ := mem_reachable_iff.1 hid
  refine ⟨g.place r, ?_, ?_⟩
  · rw [roots_compact hg]
    exact List.mem_map_of_mem hr
  · clear hp hid
    induction hreach with
    | refl => exact .refl
    | @tail a b hreach hedge ih =>
      refine ih.tail ?_
      rw [Edge, children_compact hg (mem_reachable_iff.2 ⟨r, hr, hreach⟩)]
      exact List.mem_map_of_mem hedge

theorem size_origins_compact : g.compact.origins.size = g.origins.size := by
  by_cases hall : g.reachable.length = g.size
  · rw [compact_of_length_eq hall]
  · rw [compact_of_length_ne hall, Array.size_map]

theorem origin_compact (hg : g.InRange) (hr : r < g.origins.size) : g.compact.origin r =
    { g.origin r with
      node := if (g.origin r).node ∈ g.reachable then g.place (g.origin r).node
        else (g.origin r).node } := by
  by_cases hall : g.reachable.length = g.size
  · rw [compact_of_length_eq hall]
    split
    · next hnode => rw [place_of_length_eq hg hall (hg.lt_of_mem_reachable hnode)]
    · rfl
  · rw [compact_of_length_ne hall, origin, origin]
    simp [hr]

end PhraseGraph.TokenGraph
