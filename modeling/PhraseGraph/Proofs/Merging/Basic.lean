import Mathlib.Data.List.Nodup
import PhraseGraph.Graph.Siblings
import PhraseGraph.Proofs.Sorting

/-!
# What a merge does

A merge changes the fields of many nodes at once; `Merging.node_merge` says what each node is after
it, and `Merging.resolve_merge` which node stands for each. The siblings are looked at in sorted
order, so the first two with one text stand side by side (`Merging.sorted_of_firstEqual?_eq_none`).
-/

namespace PhraseGraph

/-! ### Edges -/

/-- The node that stands for `id` after `gone` has been merged into `keep`. -/
def renamed (keep gone id : NodeId) : NodeId := if id = gone then keep else id

section Edges

variable {keep gone x : NodeId} {edges more : List NodeId}

theorem renamed_self : renamed keep gone gone = keep := if_pos rfl

theorem renamed_of_ne (h : x ≠ gone) : renamed keep gone x = x := if_neg h

theorem mem_redirect_iff (h : keep ≠ gone) :
    x ∈ redirect edges gone keep ↔ ∃ y ∈ edges, renamed keep gone y = x := by
  rw [redirect]
  split
  · next hkeep =>
    have hkeep : keep ∈ edges := by simpa using hkeep
    simp only [List.mem_filter, bne_iff_ne]
    constructor
    · rintro ⟨hx, hne⟩
      exact ⟨x, hx, renamed_of_ne hne⟩
    · rintro ⟨y, hy, rfl⟩
      by_cases hyg : y = gone
      · rw [hyg, renamed_self]
        exact ⟨hkeep, h⟩
      · rw [renamed_of_ne hyg]
        exact ⟨hy, hyg⟩
  · simp only [List.mem_map, renamed, beq_iff_eq]

theorem exists_renamed_iff (h : keep ≠ gone) :
    (∃ y ∈ edges, renamed keep gone y = x) ↔ x ≠ gone ∧ (x ∈ edges ∨ (x = keep ∧ gone ∈ edges)) := by
  constructor
  · rintro ⟨y, hy, rfl⟩
    by_cases hyg : y = gone
    · rw [hyg, renamed_self]
      exact ⟨h, .inr ⟨rfl, hyg ▸ hy⟩⟩
    · rw [renamed_of_ne hyg]
      exact ⟨hyg, .inl hy⟩
  · rintro ⟨hx, hmem | ⟨rfl, hgone⟩⟩
    · exact ⟨x, hmem, renamed_of_ne hx⟩
    · exact ⟨gone, hgone, renamed_self⟩

/-- Edges that are turned wherever one of them leads to `gone`. -/
theorem mem_turned_iff {p : Prop} [Decidable p] (h : keep ≠ gone) (hp : gone ∈ edges → p) :
    x ∈ (if p then redirect edges gone keep else edges) ↔ ∃ y ∈ edges, renamed keep gone y = x := by
  split
  · exact mem_redirect_iff h
  · next hnot =>
    have hgone : ∀ y ∈ edges, renamed keep gone y = y := fun y hy =>
      renamed_of_ne fun hyg => hnot (hp (hyg ▸ hy))
    constructor
    · intro hx
      exact ⟨x, hx, hgone x hx⟩
    · rintro ⟨y, hy, rfl⟩
      rwa [hgone y hy]

theorem nodup_redirect (h : edges.Nodup) : (redirect edges gone keep).Nodup := by
  rw [redirect]
  split
  · exact h.filter _
  · next hkeep =>
    have hkeep : keep ∉ edges := by simpa using hkeep
    refine (List.nodup_map_iff_inj_on h).2 fun a ha b hb hab => ?_
    simp only [beq_iff_eq] at hab
    split at hab <;> split at hab
    · next hag hbg => exact hag.trans hbg.symm
    · exact absurd (hab ▸ hb) hkeep
    · exact absurd (hab ▸ ha) hkeep
    · exact hab

/-- Where the new end of an edge has the text of the old one, the order of the texts stays. -/
theorem pairwise_redirect {text : NodeId → String} (htext : text keep = text gone)
    (h : edges.Pairwise fun a b => text a < text b) :
    (redirect edges gone keep).Pairwise fun a b => text a < text b := by
  rw [redirect]
  split
  · exact h.filter _
  · have hsame : ∀ a, text (if a == gone then keep else a) = text a := fun a => by
      by_cases hag : a = gone
      · rw [if_pos (beq_iff_eq.2 hag), htext, hag]
      · rw [if_neg (by simpa using hag)]
    refine List.pairwise_map.2 (h.imp fun {a b} hab => ?_)
    rwa [hsame, hsame]

theorem mem_addEdge_iff {y : NodeId} : x ∈ addEdge edges y ↔ x ∈ edges ∨ x = y := by
  rw [addEdge]
  split
  · next hy => exact ⟨.inl, fun h => h.elim id fun h => h ▸ by simpa using hy⟩
  · simp

theorem mem_foldl_addEdge_iff : x ∈ more.foldl addEdge edges ↔ x ∈ edges ∨ x ∈ more := by
  induction more generalizing edges with
  | nil => simp
  | cons y more ih => rw [List.foldl_cons, ih, mem_addEdge_iff, List.mem_cons, or_assoc]

theorem nodup_foldl_addEdge (h : edges.Nodup) : (more.foldl addEdge edges).Nodup := by
  induction more generalizing edges with
  | nil => exact h
  | cons y more ih =>
    refine ih ?_
    rw [addEdge]
    split
    · exact h
    · next hy =>
      have hy : y ∉ edges := by simpa using hy
      rw [List.nodup_append]
      exact ⟨h, List.nodup_singleton y, fun a ha b hb hab =>
        hy (List.mem_singleton.1 hb ▸ hab ▸ ha)⟩

end Edges

theorem nodup_eraseDups {α : Type} [BEq α] [LawfulBEq α] (l : List α) : l.eraseDups.Nodup := by
  generalize hn : l.length = n
  induction n using Nat.strongRecOn generalizing l with
  | _ n ih =>
    cases l with
    | nil => simp
    | cons a l =>
      rw [List.eraseDups_cons, List.nodup_cons]
      refine ⟨by simp, ih _ ?_ _ rfl⟩
      rw [← hn]
      exact Nat.lt_succ_of_le (List.length_filter_le _ l)


namespace Merging

/-- The number of nodes, the merged ones included. -/
def size (m : Merging) : Nat := m.nodes.size

/-- The text of a node. -/
def text (m : Merging) (id : NodeId) : String := (m.node id).token.text

/-- The nodes that can follow a node. -/
def children (m : Merging) (id : NodeId) : List NodeId := (m.node id).children

/-- The nodes that a node can follow. -/
def parents (m : Merging) (id : NodeId) : List NodeId := (m.node id).parents

variable {m : Merging} {keep gone i id : NodeId} {siblings : List NodeId}

/-! ### Nodes -/

theorem node_of_size_le (h : m.size ≤ i) : m.node i = default := by
  rw [node, Array.getD_eq_getD_getElem?, Array.getElem?_eq_none h, Option.getD_none]

theorem node_modify {f : Node → Node} :
    (m.modify id f).node i = if id = i ∧ i < m.size then f (m.node i) else m.node i := by
  by_cases hi : i < m.nodes.size
  · by_cases hid : id = i <;> simp [modify, node, size, hi, hid, Array.getElem_modify]
  · simp [modify, node, size, hi]

theorem size_modify {f : Node → Node} : (m.modify id f).size = m.size := by
  simp [modify, size]

theorem size_foldl_modify {f : Node → Node} {ids : List NodeId} :
    (ids.foldl (fun m id => m.modify id f) m).size = m.size := by
  induction ids generalizing m with
  | nil => rfl
  | cons id ids ih => rw [List.foldl_cons, ih, size_modify]

theorem node_foldl_modify {f : Node → Node} {ids : List NodeId} (h : ids.Nodup) :
    (ids.foldl (fun m id => m.modify id f) m).node i =
      if i ∈ ids ∧ i < m.size then f (m.node i) else m.node i := by
  induction ids generalizing m with
  | nil => simp
  | cons id ids ih =>
    obtain ⟨hid, h⟩ := List.nodup_cons.1 h
    rw [List.foldl_cons, ih h, node_modify, size_modify]
    by_cases hi : id = i
    · subst hi
      simp [hid]
    · simp [hi, Ne.symm hi]

/-- Changing nodes leaves all else as it is. -/
theorem foldl_modify_else {f : Node → Node} {ids : List NodeId} :
    (ids.foldl (fun m id => m.modify id f) m).origins = m.origins ∧
      (ids.foldl (fun m id => m.modify id f) m).visited = m.visited ∧
      (ids.foldl (fun m id => m.modify id f) m).merges = m.merges := by
  induction ids generalizing m with
  | nil => exact ⟨rfl, rfl, rfl⟩
  | cons id ids ih => exact ih

/-! ### A merge -/

/-- The nodes when those around `gone` have been turned to `keep`. -/
def turnEdges (m : Merging) (keep gone : NodeId) : Merging :=
  (m.children gone).foldl
    (fun m c => m.modify c fun n => { n with parents := redirect n.parents gone keep })
    ((m.parents gone).foldl
      (fun m p => m.modify p fun n => { n with children := redirect n.children gone keep })
      (m.modify gone fun n => { n with parents := [], children := [], origins := [] }))

/-- A node whose edges to `gone` are turned to `keep`. -/
def turned (m : Merging) (keep gone i : NodeId) : Node :=
  { m.node i with
    parents := if i ∈ m.children gone then redirect (m.parents i) gone keep else m.parents i,
    children := if i ∈ m.parents gone then redirect (m.children i) gone keep else m.children i }

theorem size_turnEdges : (m.turnEdges keep gone).size = m.size := by
  simp only [turnEdges, size_foldl_modify, size_modify]

theorem turnEdges_else : (m.turnEdges keep gone).origins = m.origins ∧
    (m.turnEdges keep gone).visited = m.visited ∧ (m.turnEdges keep gone).merges = m.merges := by
  rw [turnEdges]
  refine ⟨?_, ?_, ?_⟩
  · rw [foldl_modify_else.1, foldl_modify_else.1]
    rfl
  · rw [foldl_modify_else.2.1, foldl_modify_else.2.1]
    rfl
  · rw [foldl_modify_else.2.2, foldl_modify_else.2.2]
    rfl

theorem node_turnEdges (hp : (m.parents gone).Nodup) (hc : (m.children gone).Nodup)
    (hgone : gone < m.size) :
    (m.turnEdges keep gone).node i =
      if i = gone then { m.node gone with parents := [], children := [], origins := [] }
      else m.turned keep gone i := by
  rw [turnEdges, node_foldl_modify hc, node_foldl_modify hp, node_modify]
  simp only [size_modify, size_foldl_modify, turned]
  by_cases hi : i < m.size
  · by_cases hig : i = gone
    · subst hig
      by_cases hic : i ∈ m.children i <;> by_cases hip : i ∈ m.parents i <;>
        simp [hi, hic, hip, redirect]
    · simp only [hi, hig, Ne.symm hig, and_true, if_false]
      by_cases hic : i ∈ m.children gone <;> by_cases hip : i ∈ m.parents gone <;>
        simp only [hic, hip, if_true, if_false] <;> rfl
  · have hig : i ≠ gone := fun h => hi (h ▸ hgone)
    have hnode : m.node i = default := node_of_size_le (Nat.not_lt.1 hi)
    simp only [hi, hig, and_false, if_false, children, parents, hnode]
    split <;> split <;> rfl

/-- Two nodes that a merge makes one. -/
structure Mergeable (m : Merging) (keep gone : NodeId) : Prop where
  ne : keep ≠ gone
  keep_lt : keep < m.size
  gone_lt : gone < m.size
  nodup_parents : (m.parents gone).Nodup
  nodup_children : (m.children gone).Nodup

namespace Mergeable

variable {x : NodeId}

theorem node_merge (h : m.Mergeable keep gone) :
    (m.merge keep gone).node i =
      if i = gone then { m.node gone with parents := [], children := [], origins := [] }
      else if i = keep then
        { m.turned keep gone keep with
          parents := ((m.parents gone).filter (· != keep)).foldl addEdge
            (m.turned keep gone keep).parents,
          children := ((m.children gone).filter (· != keep)).foldl addEdge
            (m.turned keep gone keep).children,
          origins := (m.node keep).origins ++ (m.node gone).origins,
          isEnd := (m.node keep).isEnd || (m.node gone).isEnd }
      else m.turned keep gone i := by
  change ((m.turnEdges keep gone).modify keep _).node i = _
  rw [node_modify, size_turnEdges, node_turnEdges h.nodup_parents h.nodup_children h.gone_lt]
  by_cases hig : i = gone
  · rw [if_neg fun hi => h.ne (hi.1.trans hig), if_pos hig, if_pos hig]
  · by_cases hik : i = keep
    · subst hik
      rw [if_pos ⟨rfl, h.keep_lt⟩, if_neg hig, if_neg hig, if_pos rfl]
      rfl
    · rw [if_neg fun hi => hik hi.1.symm, if_neg hig, if_neg hig, if_neg hik]

theorem token_merge (h : m.Mergeable keep gone) :
    ((m.merge keep gone).node i).token = (m.node i).token := by
  rw [h.node_merge]
  split
  · next hi => rw [hi]
  · split
    · next hi => rw [hi]; rfl
    · rfl

theorem isEnd_merge (h : m.Mergeable keep gone) :
    ((m.merge keep gone).node i).isEnd =
      if i = keep then (m.node keep).isEnd || (m.node gone).isEnd else (m.node i).isEnd := by
  rw [h.node_merge]
  by_cases hig : i = gone
  · rw [if_pos hig, if_neg fun hik => h.ne (hik.symm.trans hig), hig]
  · by_cases hik : i = keep
    · simp only [hik, h.ne, if_true, if_false]
    · simp only [hig, hik, if_false]
      rfl

theorem origins_merge (h : m.Mergeable keep gone) :
    ((m.merge keep gone).node i).origins =
      if i = gone then [] else
      if i = keep then (m.node keep).origins ++ (m.node gone).origins else (m.node i).origins := by
  rw [h.node_merge]
  by_cases hig : i = gone
  · rw [if_pos hig, if_pos hig]
  · by_cases hik : i = keep
    · simp only [hik, h.ne, if_true, if_false]
    · simp only [hig, hik, if_false]
      rfl

theorem mem_children_merge_iff (h : m.Mergeable keep gone) :
    x ∈ (m.merge keep gone).children i ↔ i ≠ gone ∧
      (x ∈ (m.turned keep gone i).children ∨ i = keep ∧ x ∈ m.children gone ∧ x ≠ keep) := by
  rw [children, h.node_merge]
  by_cases hig : i = gone
  · simp [hig]
  · by_cases hik : i = keep
    · subst hik
      simp [hig, mem_foldl_addEdge_iff]
    · simp [hig, hik]

theorem mem_parents_merge_iff (h : m.Mergeable keep gone) :
    x ∈ (m.merge keep gone).parents i ↔ i ≠ gone ∧
      (x ∈ (m.turned keep gone i).parents ∨ i = keep ∧ x ∈ m.parents gone ∧ x ≠ keep) := by
  rw [parents, h.node_merge]
  by_cases hig : i = gone
  · simp [hig]
  · by_cases hik : i = keep
    · subst hik
      simp [hig, mem_foldl_addEdge_iff]
    · simp [hig, hik]

theorem nodup_children_merge (h : m.Mergeable keep gone) (hi : (m.children i).Nodup) :
    ((m.merge keep gone).children i).Nodup := by
  have hturned : (m.turned keep gone i).children.Nodup := by
    simp only [turned]
    split
    · exact nodup_redirect hi
    · exact hi
  rw [children, h.node_merge]
  split
  · exact List.nodup_nil
  · split
    · next hik => exact nodup_foldl_addEdge (hik ▸ hturned)
    · exact hturned

theorem nodup_parents_merge (h : m.Mergeable keep gone) (hi : (m.parents i).Nodup) :
    ((m.merge keep gone).parents i).Nodup := by
  have hturned : (m.turned keep gone i).parents.Nodup := by
    simp only [turned]
    split
    · exact nodup_redirect hi
    · exact hi
  rw [parents, h.node_merge]
  split
  · exact List.nodup_nil
  · split
    · next hik => exact nodup_foldl_addEdge (hik ▸ hturned)
    · exact hturned

end Mergeable

theorem size_merge : (m.merge keep gone).size = m.size := by
  change ((m.turnEdges keep gone).modify keep _).size = _
  rw [size_modify, size_turnEdges]

theorem origins_merge : (m.merge keep gone).origins =
    (m.node gone).origins.foldl (fun os id => os.modify id fun o => { o with node := keep })
      m.origins := by
  change (m.node gone).origins.foldl _ (m.turnEdges keep gone).origins = _
  rw [turnEdges_else.1]

theorem visited_merge : (m.merge keep gone).visited = m.visited.filter (· != keep) := by
  change (m.turnEdges keep gone).visited.filter _ = _
  rw [turnEdges_else.2.1]

theorem merges_merge : (m.merge keep gone).merges = m.merges ++ [(gone, keep)] := by
  change (m.turnEdges keep gone).merges ++ _ = _
  rw [turnEdges_else.2.2]

theorem resolve_merge : (m.merge keep gone).resolve i = renamed keep gone (m.resolve i) := by
  rw [resolve, merges_merge, List.foldl_append]
  simp [resolve, renamed]

/-! ### Siblings in order -/

variable {a b : NodeId}

theorem mem_canonical_iff : i ∈ m.canonical siblings ↔ ∃ s ∈ siblings, m.resolve s = i := by
  rw [canonical, stableSort_perm.mem_iff, List.mem_eraseDups, List.mem_map]

theorem nodup_canonical : (m.canonical siblings).Nodup := by
  rw [canonical, stableSort_perm.nodup_iff]
  exact nodup_eraseDups _

theorem pairwise_canonical : (m.canonical siblings).Pairwise fun a b => m.text a ≤ m.text b :=
  pairwise_stableSort m.text

theorem of_firstEqual?_eq_some (h : m.firstEqual? siblings = some (a, b)) :
    [a, b].Sublist siblings ∧ m.text a = m.text b := by
  fun_induction m.firstEqual? siblings with
  | case1 => simp at h
  | case2 => simp at h
  | case3 x y rest hxy =>
    obtain ⟨rfl, rfl⟩ : x = a ∧ y = b := by simpa using h
    exact ⟨(List.nil_sublist rest).cons_cons y |>.cons_cons x, by simpa [text] using hxy⟩
  | case4 x y rest hxy ih => exact (ih h).imp_left fun hsub => hsub.cons x

/-- Where no neighbours of a sorted list have one text the texts ascend. -/
theorem ascends_of_firstEqual?_eq_none (h : m.firstEqual? siblings = none)
    (hle : siblings.Pairwise fun a b => m.text a ≤ m.text b) :
    siblings.Pairwise fun a b => m.text a < m.text b := by
  fun_induction m.firstEqual? siblings with
  | case1 => exact List.Pairwise.nil
  | case2 x => exact List.pairwise_singleton _ x
  | case3 => simp at h
  | case4 x y rest hxy ih =>
    have hrest := ih h (List.pairwise_cons.1 hle).2
    have hlt : m.text x < m.text y :=
      lt_of_le_of_ne ((List.pairwise_cons.1 hle).1 y List.mem_cons_self) (by simpa [text] using hxy)
    refine List.pairwise_cons.2 ⟨fun z hz => ?_, hrest⟩
    rcases List.mem_cons.1 hz with rfl | hz
    · exact hlt
    · exact hlt.trans ((List.pairwise_cons.1 hrest).1 z hz)

end Merging

end PhraseGraph
