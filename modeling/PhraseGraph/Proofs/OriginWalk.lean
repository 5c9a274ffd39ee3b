import PhraseGraph.Proofs.Origins

/-!
# Origins made on the way

The walk through a graph comes to a node by every edge that leads there, from every node that can be
reached. It goes on from a node only when it comes there first, so it takes each edge once: the visits
from a node lead to its children, in order (`goneTo_visits`).

The origins can be made while the walk is under way. At each visit the node gets an origin if it has
none, and this origin and that of the node before are told of each other (`recordVisit`). At every moment the
origins are those of the nodes that have been visited, and they are linked as the visits lead
(`Recording`); so at the end they are the ones of `fill` (`foldl_recordVisit_eq_fill`).
-/

namespace PhraseGraph.Provenance

open TokenGraph

variable {g g' : TokenGraph} {steps : Nat} {parent : Option NodeId} {l seen s : List NodeId}
  {vs vs' es : List Visit} {v : Visit} {p c x : NodeId} {r : OriginId}

/-! ### Where the visits lead -/

/-- The nodes to which the visits go from `p`, in order. -/
def goneTo (vs : List Visit) (p : NodeId) : List NodeId :=
  (vs.filter fun u => u.parent == some p).map (·.child)

/-- The nodes from which the visits come to `c`, in order. -/
def cameFrom (vs : List Visit) (c : NodeId) : List NodeId :=
  (vs.filter fun u => u.child == c).filterMap (·.parent)

theorem getD_modify {α : Type} [Inhabited α] {f : α → α} {as : Array α} {i j : Nat} :
    (as.modify i f).getD j default =
      if j = i ∧ j < as.size then f (as.getD j default) else as.getD j default := by
  by_cases hj : j < as.size
  · by_cases hij : i = j
    · subst hij
      simp [hj, Array.getElem_modify]
    · simp [hj, hij, Ne.symm hij, Array.getElem_modify]
  · simp [hj]

theorem goneTo_append : goneTo (vs ++ vs') p = goneTo vs p ++ goneTo vs' p := by
  simp [goneTo]

theorem goneTo_cons :
    goneTo (v :: vs) p = if v.parent = some p then v.child :: goneTo vs p else goneTo vs p := by
  by_cases h : v.parent = some p <;> simp [goneTo, h]

theorem cameFrom_append : cameFrom (vs ++ vs') c = cameFrom vs c ++ cameFrom vs' c := by
  simp [cameFrom]

theorem cameFrom_cons :
    cameFrom (v :: vs) c = (if v.child = c then v.parent.toList else []) ++ cameFrom vs c := by
  obtain ⟨_ | q, d⟩ := v <;> by_cases h : d = c <;> simp [cameFrom, h]

theorem mem_goneTo_iff : c ∈ goneTo vs p ↔ ⟨some p, c⟩ ∈ vs := by
  simp only [goneTo, List.mem_map, List.mem_filter, beq_iff_eq]
  constructor
  · intro ⟨⟨_, _⟩, ⟨h, hq⟩, hd⟩
    subst hq hd
    exact h
  · exact fun h => ⟨_, ⟨h, rfl⟩, rfl⟩

theorem mem_cameFrom_iff : p ∈ cameFrom vs c ↔ ⟨some p, c⟩ ∈ vs := by
  simp only [cameFrom, List.mem_filterMap, List.mem_filter, beq_iff_eq]
  constructor
  · intro ⟨⟨_, _⟩, ⟨h, hq⟩, hd⟩
    subst hq hd
    exact h
  · exact fun h => ⟨_, ⟨h, rfl⟩, rfl⟩

/-- The visits lead from one node to another as often as they come from there. -/
theorem count_cameFrom : (cameFrom vs c).count p = (goneTo vs p).count c := by
  induction vs with
  | nil => rfl
  | cons v vs ih =>
    obtain ⟨_ | q, d⟩ := v
    · simp [cameFrom_cons, goneTo_cons, ih]
    · by_cases hd : d = c <;> by_cases hq : q = p <;> simp [cameFrom_cons, goneTo_cons, ih, hd, hq]

/-! ### Every edge is taken once -/

/-- A walk that begins below a node that has been seen goes from there to the nodes that it was sent
    to, and from each node that it sees for the first time to all the children. -/
theorem goneTo_walk (hsteps : l.length + pending g.children g.size seen < steps)
    (hparent : ∀ q ∈ parent, q ∈ seen) :
    goneTo (walk g steps parent l seen).1 p =
      if parent = some p then l
      else if p ∈ (walk g steps parent l seen).2 ∧ p ∉ seen then g.children p else [] := by
  induction steps generalizing parent l seen with
  | zero => exact absurd hsteps (Nat.not_lt_zero _)
  | succ steps ih =>
    cases l with
    | nil =>
      have hnone : ¬(p ∈ seen ∧ p ∉ seen) := fun h => h.2 h.1
      simp [walk, goneTo, hnone]
    | cons child l =>
      rw [List.length_cons] at hsteps
      by_cases hchild : child ∈ seen
      · rw [walk_cons_of_mem hchild, goneTo_cons, ih (by omega) hparent]
        by_cases hp : parent = some p <;> simp [hp]
      · have hpending : pending g.children g.size (child :: seen) + (g.children child).length
            = pending g.children g.size seen := pending_cons hchild (children_of_size_le child)
        have below : Walked g (g.children child) (child :: seen)
            (walk g steps (some child) (g.children child) (child :: seen)) :=
          walked_walk (by omega)
        have hbelow := @ih (some child) (g.children child) (child :: seen)
          (by omega) (by simp)
        rw [walk_cons_of_not_mem hchild]
        generalize walk g steps (some child) (g.children child) (child :: seen) = result
          at below hbelow
        have hseen : ∀ x ∈ seen, x ∈ result.2 := fun x hx =>
          below.seen_subset (List.mem_cons_of_mem _ hx)
        have hless : pending g.children g.size result.2 ≤ pending g.children g.size (child :: seen) :=
          pending_le_of_subset below.seen_subset
        have after : Walked g l result.2 (walk g steps parent l result.2) := walked_walk (by omega)
        have hafter := @ih parent l result.2 (by omega)
          fun q hq => hseen q (hparent q hq)
        simp only [List.cons_append, goneTo_cons, goneTo_append, hbelow, hafter]
        -- The visits from `p` are made at the beginning, or from the child, below it, or after that.
        have hin : child ∈ result.2 := below.seen_subset List.mem_cons_self
        by_cases hp : parent = some p
        · have hps : p ∈ seen := hparent p hp
          have hne : child ≠ p := fun h => hchild (h ▸ hps)
          simp [hp, hps, hne]
        · by_cases hpc : child = p
          · subst hpc
            simp [hp, hchild, hin, after.seen_subset hin]
          · by_cases hpr : p ∈ result.2
            · simp [hp, hpc, Ne.symm hpc, hpr, after.seen_subset hpr]
            · have hps : p ∉ seen := fun h => hpr (hseen p h)
              simp [hp, hpc, hpr, hps]

/-- From each node that can be reached the walk goes to all its children once, in order. -/
theorem goneTo_visits : goneTo (visits g) p = if p ∈ order g then g.children p else [] := by
  have hseen : p ∈ (walk g (walkBound g) none g.roots []).2 ∧ p ∉ [] ↔ p ∈ order g := by
    rw [mem_seen_iff, mem_order_iff]
    exact and_iff_left List.not_mem_nil
  rw [visits, goneTo_walk (by rw [walkBound_eq]; exact Nat.lt_succ_self _) (by simp)]
  simp only [hseen, reduceCtorEq, if_false]

theorem mem_cameFrom_visits_iff : p ∈ cameFrom (visits g) c ↔ p ∈ order g ∧ g.Edge p c := by
  rw [mem_cameFrom_iff, ← mem_goneTo_iff, goneTo_visits]
  by_cases hp : p ∈ order g
  · rw [if_pos hp, and_iff_right hp]
    exact Iff.rfl
  · simp [hp]

theorem nodup_cameFrom_visits (h : ∀ p, (g.children p).Nodup) : (cameFrom (visits g) c).Nodup := by
  refine List.nodup_iff_count_le_one.2 fun p => ?_
  rw [count_cameFrom, goneTo_visits]
  split
  · exact List.nodup_iff_count_le_one.1 (h p) c
  · exact Nat.zero_le _

theorem parents_origin_fill (hr : r < (order g).length) : ((fill g).origin r).parents =
    (cameFrom (visits g) (order g)[r]).map (order g).idxOf := by
  obtain ⟨v, -, hchild, horigin⟩ := exists_visit_of_origin hr
  rw [horigin, ← hchild]
  simp only [originOf, cameFrom, List.map_filterMap]

/-! ### Visits come from nodes visited before -/

/-- Each visit comes from outside, or from a node of `s` or one that has been visited before. -/
def Grounded : (s : List NodeId) → List Visit → Prop
  | _, [] => True
  | s, v :: vs => (∀ q ∈ v.parent, q ∈ s) ∧ Grounded (v.child :: s) vs

theorem grounded_append_iff :
    Grounded s (vs ++ vs') ↔ Grounded s vs ∧ Grounded ((vs.map (·.child)).reverse ++ s) vs' := by
  induction vs generalizing s with
  | nil => simp [Grounded]
  | cons v vs ih => simp [Grounded, ih, and_assoc]

theorem Grounded.mem_of_mem_parent (h : Grounded s vs) (hv : v ∈ vs) {q : NodeId}
    (hq : q ∈ v.parent) : q ∈ s ∨ q ∈ vs.map (·.child) := by
  induction vs generalizing s with
  | nil => exact absurd hv List.not_mem_nil
  | cons u vs ih =>
    rw [List.map_cons, List.mem_cons]
    rcases List.mem_cons.1 hv with rfl | hv
    · exact .inl (h.1 q hq)
    · rcases ih h.2 hv with hs | hmem
      · exact (List.mem_cons.1 hs).elim (fun hqu => .inr (.inl hqu)) .inl
      · exact .inr (.inr hmem)

theorem grounded_walk (hparent : ∀ q ∈ parent, q ∈ s) :
    Grounded s (walk g steps parent l seen).1 := by
  induction steps generalizing parent l seen s with
  | zero => trivial
  | succ steps ih =>
    cases l with
    | nil => trivial
    | cons child l =>
      by_cases hchild : child ∈ seen
      · rw [walk_cons_of_mem hchild]
        exact ⟨hparent, ih fun q hq => List.mem_cons_of_mem _ (hparent q hq)⟩
      · rw [walk_cons_of_not_mem hchild]
        refine ⟨hparent, grounded_append_iff.2 ⟨ih (by simp), ih fun q hq => ?_⟩⟩
        exact List.mem_append_right _ (List.mem_cons_of_mem _ (hparent q hq))

theorem grounded_visits : Grounded [] (visits g) := grounded_walk (by simp)

/-! ### One visit after another -/

/-- The nodes in the order in which the visits first come to them. -/
def orderOf (vs : List Visit) : List NodeId := (firstVisits [] vs).map (·.child)

theorem mem_orderOf_iff : x ∈ orderOf vs ↔ x ∈ vs.map (·.child) := by
  rw [orderOf, mem_firstVisits_iff]
  exact and_iff_right List.not_mem_nil

theorem firstVisits_append_singleton : firstVisits seen (vs ++ [v]) =
    firstVisits seen vs ++ if v.child ∈ seen ∨ v.child ∈ vs.map (·.child) then [] else [v] := by
  induction vs generalizing seen with
  | nil => by_cases h : v.child ∈ seen <;> simp [firstVisits, h]
  | cons u vs ih =>
    by_cases h : u.child ∈ seen
    · have hsame : (v.child ∈ seen ∨ v.child ∈ (u :: vs).map (·.child)) ↔
          (v.child ∈ seen ∨ v.child ∈ vs.map (·.child)) := by
        rw [List.map_cons, List.mem_cons]
        refine ⟨fun hv => ?_, fun hv => hv.imp_right .inr⟩
        rcases hv with hv | hv | hv
        · exact .inl hv
        · exact .inl (hv ▸ h)
        · exact .inr hv
      simp only [List.cons_append, firstVisits, List.contains_iff_mem, h, if_true, ih, hsame]
    · have hsame : (v.child ∈ seen ∨ v.child ∈ (u :: vs).map (·.child)) ↔
          (v.child ∈ u.child :: seen ∨ v.child ∈ vs.map (·.child)) := by
        rw [List.map_cons, List.mem_cons, List.mem_cons]
        tauto
      simp only [List.cons_append, firstVisits, List.contains_iff_mem, h, if_false, ih, hsame]

theorem firstVisits_append_of_mem (h : v.child ∈ orderOf vs) :
    firstVisits [] (vs ++ [v]) = firstVisits [] vs := by
  rw [firstVisits_append_singleton, if_pos (.inr (mem_orderOf_iff.1 h)), List.append_nil]

theorem firstVisits_append_of_not_mem (h : v.child ∉ orderOf vs) :
    firstVisits [] (vs ++ [v]) = firstVisits [] vs ++ [v] := by
  rw [firstVisits_append_singleton, if_neg]
  rw [not_or]
  exact ⟨List.not_mem_nil, fun hv => h (mem_orderOf_iff.2 hv)⟩

theorem orderOf_append_of_mem (h : v.child ∈ orderOf vs) : orderOf (vs ++ [v]) = orderOf vs := by
  rw [orderOf, firstVisits_append_of_mem h]
  rfl

theorem orderOf_append_of_not_mem (h : v.child ∉ orderOf vs) :
    orderOf (vs ++ [v]) = orderOf vs ++ [v.child] := by
  rw [orderOf, firstVisits_append_of_not_mem h, List.map_append]
  rfl

/-- The graph in which the node that is visited has an origin. -/
def giveOrigin (g : TokenGraph) (v : Visit) : TokenGraph :=
  if (g.node v.child).origins.isEmpty then
    { g with
      origins := g.origins.push { originOf g g.phrase.toList [] [] v with children := [] },
      nodes := g.nodes.modify v.child fun n => { n with origins := n.origins ++ [g.origins.size] } }
  else g

/-- The graph in which the origin `c` has been told that it follows `p`, and `p` that `c` follows. -/
def link (g : TokenGraph) (p c : OriginId) : TokenGraph :=
  { g with
    origins := (g.origins.modify c fun o => { o with parents := o.parents ++ [p] }).modify p
      fun o => { o with children := o.children ++ [c] } }

theorem size_origins_link {p c : OriginId} : (link g p c).origins.size = g.origins.size := by
  simp [link]

theorem origin_link {p c : OriginId} (hr : r < g.origins.size) : (link g p c).origin r =
    { g.origin r with
      parents := (g.origin r).parents ++ if r = c then [p] else [],
      children := (g.origin r).children ++ if r = p then [c] else [] } := by
  simp only [link, TokenGraph.origin, getD_modify, Array.size_modify, hr, and_true]
  split <;> split <;> simp

/-- The graph after a visit: the node has an origin, which follows those of the node before. -/
def recordVisit (g : TokenGraph) (v : Visit) : TokenGraph :=
  let g := giveOrigin g v
  match v.parent, (g.node v.child).origins.head? with
  | some p, some c => (g.node p).origins.foldl (fun g p => link g p c) g
  | _, _ => g

/-- The origin of the node that a visit first comes to, with links to the places in `order` of the nodes
    between which the visits `es` have led. -/
def originAfter (g : TokenGraph) (order : List NodeId) (es : List Visit) (v : Visit) : Origin :=
  { originOf g g.phrase.toList [] [] v with
    parents := (cameFrom es v.child).map order.idxOf,
    children := (goneTo es v.child).map order.idxOf }

/-- The places of nodes that have been visited stay when others follow. -/
theorem originAfter_append {order : List NodeId}
    (hes : ∀ u ∈ es, u.child ∈ order ∧ ∀ q ∈ u.parent, q ∈ order) :
    originAfter g (order ++ l) es v = originAfter g order es v := by
  have hfrom : (cameFrom es v.child).map (order ++ l).idxOf = (cameFrom es v.child).map order.idxOf :=
    List.map_congr_left fun q hq =>
      List.idxOf_append_of_mem ((hes _ (mem_cameFrom_iff.1 hq)).2 q rfl)
  have hto : (goneTo es v.child).map (order ++ l).idxOf = (goneTo es v.child).map order.idxOf :=
    List.map_congr_left fun q hq => List.idxOf_append_of_mem (hes _ (mem_goneTo_iff.1 hq)).1
  rw [originAfter, originAfter, hfrom, hto]

/-- A visit more is a link more at either end. -/
theorem originAfter_concat {order : List NodeId} {u : Visit} (hp : v.parent = some p) :
    originAfter g order (es ++ [v]) u =
      { originAfter g order es u with
        parents := (originAfter g order es u).parents ++
          if v.child = u.child then [order.idxOf p] else [],
        children := (originAfter g order es u).children ++
          if p = u.child then [order.idxOf v.child] else [] } := by
  have hfrom : (cameFrom (es ++ [v]) u.child).map order.idxOf = (cameFrom es u.child).map order.idxOf ++
      if v.child = u.child then [order.idxOf p] else [] := by
    rw [cameFrom_append, List.map_append, cameFrom_cons, hp]
    split <;> rfl
  have hto : (goneTo (es ++ [v]) u.child).map order.idxOf = (goneTo es u.child).map order.idxOf ++
      if p = u.child then [order.idxOf v.child] else [] := by
    simp only [goneTo_append, List.map_append, goneTo_cons, hp, Option.some_inj]
    split <;> rfl
  simp only [originAfter, hfrom, hto]

/-- The place of a node among those that have been visited is that of its first visit. -/
theorem eq_idxOf_orderOf_iff (hx : x ∈ orderOf vs) (hr : r < (firstVisits [] vs).length) :
    r = (orderOf vs).idxOf x ↔ x = (firstVisits [] vs)[r].child := by
  have hlt : r < (orderOf vs).length := by rwa [orderOf, List.length_map]
  have hget : (orderOf vs)[r] = (firstVisits [] vs)[r].child := by simp [orderOf]
  rw [← hget]
  constructor
  · intro hrx
    subst hrx
    exact (List.getElem_idxOf _).symm
  · intro hxr
    subst hxr
    exact (nodup_firstVisits.idxOf_getElem r hlt).symm

/-- The nodes of a graph that have been visited by `vs` have origins in `g'`, which are linked as the
    visits `es` lead. -/
structure Recording (g : TokenGraph) (vs es : List Visit) (g' : TokenGraph) : Prop where
  phrase_eq : g'.phrase = g.phrase
  roots_eq : g'.roots = g.roots
  size_eq : g'.size = g.size
  node_eq : ∀ x < g.size, g'.node x =
    { g.node x with origins := if x ∈ orderOf vs then [(orderOf vs).idxOf x] else [] }
  size_origins : g'.origins.size = (firstVisits [] vs).length
  origin_eq : ∀ r (hr : r < (firstVisits [] vs).length),
    g'.origin r = originAfter g (orderOf vs) es (firstVisits [] vs)[r]

theorem recording_nil (hnodes : ∀ x, (g.node x).origins = []) (horigins : g.origins = #[]) :
    Recording g [] [] g where
  phrase_eq := rfl
  roots_eq := rfl
  size_eq := rfl
  node_eq x _ := by
    rw [if_neg (by simp [orderOf, firstVisits]), ← hnodes x]
  size_origins := by simp [horigins, firstVisits]
  origin_eq _ hr := absurd hr (Nat.not_lt_zero _)

namespace Recording

variable (h : Recording g vs es g')
include h

theorem node_origins (hx : x < g.size) :
    (g'.node x).origins = if x ∈ orderOf vs then [(orderOf vs).idxOf x] else [] := by
  rw [h.node_eq x hx]

/-- All but the origins of a node is as it was. -/
theorem exists_node_eq (x : NodeId) : ∃ os, g'.node x = { g.node x with origins := os } := by
  by_cases hx : x < g.size
  · exact ⟨_, h.node_eq x hx⟩
  · rw [node_of_size_le (Nat.not_lt.1 hx), node_of_size_le (h.size_eq.symm ▸ Nat.not_lt.1 hx)]
    exact ⟨[], rfl⟩

/-- A new origin is the one of a node that no visit has come to or gone from. -/
theorem newOrigin_eq {order : List NodeId} (hfrom : cameFrom es v.child = [])
    (hto : goneTo es v.child = []) :
    { originOf g' g'.phrase.toList [] [] v with children := [] } = originAfter g order es v := by
  obtain ⟨os, hnode⟩ := h.exists_node_eq v.child
  have htoken : ∀ q, (g'.node q).token = (g.node q).token := fun q => by
    obtain ⟨os, hq⟩ := h.exists_node_eq q
    rw [hq]
  simp [originAfter, originOf, h.phrase_eq, htoken, passedAfter, hnode, hfrom, hto, Function.comp_def]

theorem giveOrigin (hes : ∀ u ∈ es, u.child ∈ orderOf vs ∧ ∀ q ∈ u.parent, q ∈ orderOf vs)
    (hv : v.child < g.size) : Recording g (vs ++ [v]) es (giveOrigin g' v) := by
  have horigins := h.node_origins hv
  by_cases hmem : v.child ∈ orderOf vs
  · -- The node has an origin, and nothing is done.
    rw [if_pos hmem] at horigins
    rw [Provenance.giveOrigin, horigins, List.isEmpty_cons, if_neg Bool.false_ne_true]
    refine ⟨h.phrase_eq, h.roots_eq, h.size_eq, ?_, ?_, ?_⟩
    · rw [orderOf_append_of_mem hmem]
      exact h.node_eq
    · rw [firstVisits_append_of_mem hmem]
      exact h.size_origins
    · rw [orderOf_append_of_mem hmem]
      simp only [firstVisits_append_of_mem hmem]
      exact h.origin_eq
  · have hlen : (orderOf vs).length = g'.origins.size := by
      rw [h.size_origins, orderOf, List.length_map]
    have hsame : ∀ x ∈ orderOf vs, (orderOf vs ++ [v.child]).idxOf x = (orderOf vs).idxOf x :=
      fun x hx => List.idxOf_append_of_mem hx
    have hfrom : cameFrom es v.child = [] := List.eq_nil_iff_forall_not_mem.2 fun q hq =>
      hmem (hes _ (mem_cameFrom_iff.1 hq)).1
    have hto : goneTo es v.child = [] := List.eq_nil_iff_forall_not_mem.2 fun q hq =>
      hmem ((hes _ (mem_goneTo_iff.1 hq)).2 _ rfl)
    rw [if_neg hmem] at horigins
    rw [Provenance.giveOrigin, horigins, List.isEmpty_nil, if_pos rfl]
    refine ⟨h.phrase_eq, h.roots_eq, ?_, fun x hx => ?_, ?_, fun r hr => ?_⟩
    · simpa [TokenGraph.size] using h.size_eq
    · have hx' : x < g'.nodes.size := hx.trans_eq h.size_eq.symm
      rw [orderOf_append_of_not_mem hmem, TokenGraph.node, getD_modify, ← TokenGraph.node, h.node_eq x hx]
      by_cases hxv : x = v.child
      · rw [if_pos ⟨hxv, hx'⟩]
        simp [hxv, hmem, List.idxOf_append, hlen]
      · by_cases hxs : x ∈ orderOf vs
        · simp [hxv, hxs, hsame x hxs]
        · simp [hxv, hxs]
    · rw [firstVisits_append_of_not_mem hmem]
      simp [h.size_origins]
    · rw [firstVisits_append_of_not_mem hmem, List.length_append, List.length_singleton] at hr
      simp only [firstVisits_append_of_not_mem hmem, orderOf_append_of_not_mem hmem]
      rw [originAfter_append hes]
      by_cases hlt : r < (firstVisits [] vs).length
      · have hpush : r < g'.origins.size := hlt.trans_eq h.size_origins.symm
        rw [List.getElem_append_left hlt, ← h.origin_eq r hlt]
        simp [TokenGraph.origin, hpush, Array.getElem_push_lt, Nat.lt_succ_of_lt hpush]
      · obtain rfl : r = (firstVisits [] vs).length := by omega
        rw [List.getElem_concat_length rfl, ← h.newOrigin_eq hfrom hto, ← h.size_origins]
        simp [TokenGraph.origin]

/-- After a visit from outside there is nothing to link. -/
theorem skip (hv : v.parent = none) : Recording g vs (es ++ [v]) g' := by
  have hsame : ∀ u, originAfter g (orderOf vs) (es ++ [v]) u = originAfter g (orderOf vs) es u :=
    fun u => by simp [originAfter, cameFrom, goneTo, List.filter_append, List.filterMap_append, hv]
  refine ⟨h.phrase_eq, h.roots_eq, h.size_eq, h.node_eq, h.size_origins, fun r hr => ?_⟩
  rw [hsame]
  exact h.origin_eq r hr

theorem link (hv : v.child ∈ orderOf vs) (hp : v.parent = some p) (hpv : p ∈ orderOf vs) :
    Recording g vs (es ++ [v])
      (link g' ((orderOf vs).idxOf p) ((orderOf vs).idxOf v.child)) := by
  refine ⟨h.phrase_eq, h.roots_eq, h.size_eq, h.node_eq, ?_, fun r hr => ?_⟩
  · rw [size_origins_link]
    exact h.size_origins
  · rw [origin_link (hr.trans_eq h.size_origins.symm), h.origin_eq r hr, originAfter_concat hp]
    simp only [eq_idxOf_orderOf_iff hv hr, eq_idxOf_orderOf_iff hpv hr]

/-- A visit that comes from outside or from a node visited before is recorded as it leads. -/
theorem step (hes : ∀ u ∈ es, u.child ∈ orderOf vs ∧ ∀ q ∈ u.parent, q ∈ orderOf vs)
    (hv : v.child < g.size) (hparent : ∀ q ∈ v.parent, q ∈ orderOf vs ∧ q < g.size) :
    Recording g (vs ++ [v]) (es ++ [v]) (recordVisit g' v) := by
  have hgiven := h.giveOrigin hes hv
  have hchild : v.child ∈ orderOf (vs ++ [v]) := mem_orderOf_iff.2 (by simp)
  rw [recordVisit]
  cases hp : v.parent with
  | none => exact hgiven.skip hp
  | some p =>
    obtain ⟨hpv, hplt⟩ := hparent p hp
    have hpv' : p ∈ orderOf (vs ++ [v]) := by
      rw [mem_orderOf_iff] at hpv ⊢
      simp [hpv]
    have hlink := hgiven.link hchild hp hpv'
    have hps := hgiven.node_origins hplt
    rw [if_pos hpv'] at hps
    rw [hgiven.node_origins hv, if_pos hchild]
    simp only [List.head?_cons, hps, List.foldl_cons, List.foldl_nil]
    exact hlink

end Recording

/-- After any of the visits of a walk the origins are those of the nodes that have been visited. -/
theorem recording_foldl (hnodes : ∀ x, (g.node x).origins = []) (horigins : g.origins = #[])
    (hvs : Grounded [] vs) (hlt : ∀ v ∈ vs, v.child < g.size) :
    Recording g vs vs (vs.foldl recordVisit g) := by
  induction vs using List.reverseRecOn with
  | nil => exact recording_nil hnodes horigins
  | append_singleton vs v ih =>
    obtain ⟨hvs, hv, -⟩ := grounded_append_iff.1 hvs
    have hbefore : ∀ q ∈ vs.map (·.child), q < g.size := fun q hq => by
      obtain ⟨u, hu, rfl⟩ := List.mem_map.1 hq
      exact hlt u (List.mem_append_left _ hu)
    have hseen : ∀ q ∈ v.parent, q ∈ vs.map (·.child) := fun q hq => by simpa using hv q hq
    rw [List.foldl_append]
    refine (ih hvs fun u hu => hlt u (List.mem_append_left _ hu)).step (fun u hu => ⟨?_, fun q hq => ?_⟩)
      (hlt v (by simp)) fun q hq => ⟨mem_orderOf_iff.2 (hseen q hq), hbefore q (hseen q hq)⟩
    · exact mem_orderOf_iff.2 (List.mem_map_of_mem hu)
    · exact mem_orderOf_iff.2 ((hvs.mem_of_mem_parent hu hq).resolve_left List.not_mem_nil)

theorem ext_of_lookups (hphrase : g.phrase = g'.phrase) (hroots : g.roots = g'.roots)
    (hsize : g.size = g'.size) (hnode : ∀ x < g.size, g.node x = g'.node x)
    (horigins : g.origins.size = g'.origins.size)
    (horigin : ∀ r < g.origins.size, g.origin r = g'.origin r) : g = g' := by
  obtain ⟨phrase, nodes, origins, roots⟩ := g
  obtain ⟨phrase', nodes', origins', roots'⟩ := g'
  obtain rfl : nodes = nodes' := Array.ext hsize fun x hx hx' => by
    simpa [TokenGraph.node, hx, hx'] using hnode x hx
  obtain rfl : origins = origins' := Array.ext horigins fun r hr hr' => by
    simpa [TokenGraph.origin, hr, hr'] using horigin r hr
  obtain rfl : phrase = phrase' := hphrase
  obtain rfl : roots = roots' := hroots
  rfl

/-- The origins that are made on the way are those of the graph with origins. -/
theorem foldl_recordVisit_eq_fill (hg : g.InRange) (hnodes : ∀ x, (g.node x).origins = [])
    (horigins : g.origins = #[]) : (visits g).foldl recordVisit g = fill g := by
  have hlt : ∀ v ∈ visits g, v.child < g.size := fun v hv => by
    obtain ⟨r, hr, hreach⟩ := reaches_of_mem_walk hv
    exact hg.lt_of_reaches hr hreach
  have h := recording_foldl hnodes horigins grounded_visits hlt
  refine ext_of_lookups h.phrase_eq h.roots_eq (h.size_eq.trans size_fill.symm) (fun x hx => ?_)
    ?_ fun r hr => ?_
  · rw [h.node_eq x (h.size_eq ▸ hx), node_fill (h.size_eq ▸ hx)]
    rfl
  · rw [h.size_origins, size_origins_fill, order, List.length_map]
  · rw [h.size_origins] at hr
    have hmem : (firstVisits [] (visits g))[r].child ∈ order g :=
      List.mem_map_of_mem (List.getElem_mem hr)
    rw [h.origin_eq r hr, origin_fill_eq hr, originAfter, goneTo_visits, if_pos hmem]
    simp only [originOf, cameFrom, List.map_filterMap]
    rfl

end PhraseGraph.Provenance
