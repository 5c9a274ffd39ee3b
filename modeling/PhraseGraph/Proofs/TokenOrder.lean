import PhraseGraph.Proofs.Cycles
import PhraseGraph.Proofs.Results

/-!
# The order of the tokens

The order in which tokens are listed decides the places of the nodes, the order of the edges, which of
several siblings with one text is kept, and when they are merged. It does not decide what the graph says
where the tokens are consistent with their slots. Then a node stands for all tokens with its text that
hang off its slot, however they are listed (`Gathers`), and siblings come in the order of their texts.
So the nodes that stand for one token in two graphs have such nodes as their children, one by one
(`Gathers.looksLike`), and whoever walks through both graphs from the roots sees the same
(`LooksLike.traversal_eq`, `LooksLike.accepts_iff`).

Main statement: `ofForeignTokens_perm`.
-/

namespace PhraseGraph

open Forest

/-! ### Graphs that look alike -/

namespace TokenGraph

variable {g g' : TokenGraph} {R : NodeId → NodeId → Prop} {ids ids' path : List NodeId}
  {depth n k : Nat} {ws : List String}

/-- Related nodes of two graphs have one text, are ends or not together, and have related children, in
    order; and the roots of the graphs are related, in order. -/
structure LooksLike (g g' : TokenGraph) (R : NodeId → NodeId → Prop) : Prop where
  roots : List.Forall₂ R g.roots g'.roots
  children : ∀ {a b}, R a b → List.Forall₂ R (g.children a) (g'.children b)
  text_eq : ∀ {a b}, R a b → g.text a = g'.text b
  isEnd_eq : ∀ {a b}, R a b → g.isEnd a = g'.isEnd b

namespace LooksLike

theorem symm (h : g.LooksLike g' R) : g'.LooksLike g (flip R) where
  roots := h.roots.flip
  children hab := (h.children hab).flip
  text_eq hab := (h.text_eq hab).symm
  isEnd_eq hab := (h.isEnd_eq hab).symm

theorem walk_eq (h : g.LooksLike g' R) (hids : List.Forall₂ R ids ids') :
    g.walk depth n ids = g'.walk depth n ids' := by
  induction n generalizing depth ids ids' with
  | zero => rfl
  | succ n ih =>
    rw [walk, walk]
    induction hids with
    | nil => rfl
    | cons hab _ ihids =>
      rw [List.flatMap_cons, List.flatMap_cons, h.text_eq hab, ih (h.children hab), ihids]

/-- A path through one graph is one through the other, with the same texts and ends. -/
theorem exists_path (h : g.LooksLike g' R) (hids : List.Forall₂ R ids ids')
    (hpath : g.IsPath ids path) : ∃ path', g'.IsPath ids' path' ∧
      path'.map g'.text = path.map g.text ∧ path'.map g'.isEnd = path.map g.isEnd := by
  induction path generalizing ids ids' with
  | nil => exact ⟨[], trivial, rfl, rfl⟩
  | cons a path ih =>
    obtain ⟨b, hb, hab⟩ := exists_of_forall₂ hids hpath.1
    obtain ⟨path', hpath', htext, hend⟩ := ih (h.children hab) hpath.2
    refine ⟨b :: path', ⟨hb, hpath'⟩, ?_, ?_⟩
    · rw [List.map_cons, List.map_cons, htext, h.text_eq hab]
    · rw [List.map_cons, List.map_cons, hend, h.isEnd_eq hab]

theorem accepts (h : g.LooksLike g' R) (hws : g.Accepts ws) : g'.Accepts ws := by
  obtain ⟨path, ⟨hroots, rfl⟩ | ⟨hpath, last, hlast, hend⟩, rfl⟩ := hws
  · refine ⟨[], .inl ⟨?_, rfl⟩, rfl⟩
    exact List.forall₂_nil_left_iff.1 (hroots ▸ h.roots)
  · obtain ⟨path', hpath', htext, hends⟩ := h.exists_path h.roots hpath
    have hlast' : (path'.map g'.isEnd).getLast? = some true := by
      rw [hends, List.getLast?_map, Option.mem_def.1 hlast, Option.map_some, hend]
    rw [List.getLast?_map, Option.map_eq_some_iff] at hlast'
    exact ⟨path', .inr ⟨hpath', hlast'⟩, htext⟩

/-- Graphs that look alike accept the same words. -/
theorem accepts_iff (h : g.LooksLike g' R) (ws : List String) : g.Accepts ws ↔ g'.Accepts ws :=
  ⟨h.accepts, h.symm.accepts⟩

end LooksLike

/-- Steps beyond the longest path list no more. -/
theorem Bounded.walk_add_eq (h : g.Bounded n ids) :
    g.walk depth (n + k) ids = g.walk depth n ids := by
  induction n generalizing depth ids with
  | zero =>
    obtain rfl := h.eq_nil
    cases k <;> rfl
  | succ n ih =>
    rw [Nat.succ_add, walk, walk]
    exact List.flatMap_congr fun id hid => by rw [ih (h.children hid)]

/-- Graphs without cycles that look alike have one traversal, even if one of them has more nodes. -/
theorem LooksLike.traversal_eq (h : g.LooksLike g' R) (hg : g.InRange) (hg' : g'.InRange)
    (hacyclic : g.Acyclic) (hacyclic' : g'.Acyclic) : g.traversal = g'.traversal :=
  calc g.walk 0 g.size g.roots
    _ = g.walk 0 (g.size + g'.size) g.roots := (hacyclic.bounded_roots hg).walk_add_eq.symm
    _ = g'.walk 0 (g'.size + g.size) g'.roots := by rw [h.walk_eq h.roots, Nat.add_comm]
    _ = g'.walk 0 g'.size g'.roots := (hacyclic'.bounded_roots hg').walk_add_eq

end TokenGraph

/-! ### Tokens in two orders -/

namespace Forest

variable {tokens tokens' : List Token} {phrase : String} {k k' j j' : Nat}

/-- The token at `k` of one list is the token at `k'` of the other. -/
structure SameToken (tokens tokens' : List Token) (k k' : Nat) : Prop where
  lt : k < tokens.length
  lt' : k' < tokens'.length
  token_eq : tokenAt tokens k = tokenAt tokens' k'

theorem SameToken.symm (h : SameToken tokens tokens' k k') : SameToken tokens' tokens k' k :=
  ⟨h.lt', h.lt, h.token_eq.symm⟩

theorem SameToken.endAt_eq (h : SameToken tokens tokens' k k') :
    endAt tokens k = endAt tokens' k' := by
  rw [endAt, endAt, h.token_eq]

theorem anchor?_perm {ends ends' : List Nat} (h : ends.Perm ends') (position : Nat) :
    anchor? ends position = anchor? ends' position := by
  refine Option.ext fun slot => ?_
  simp only [anchor?, List.max?_eq_some_iff, List.mem_filter, h.mem_iff]

variable (hperm : tokens.Perm tokens')
include hperm

theorem exists_sameToken (hk : k < tokens.length) : ∃ k', SameToken tokens tokens' k k' := by
  obtain ⟨k', hk', heq⟩ := List.getElem_of_mem (hperm.subset (tokenAt_mem hk))
  exact ⟨k', hk, hk', by rw [tokenAt_eq_getElem hk', heq]⟩

/-- A token hangs off the same slot in both lists. -/
theorem SameToken.anchorAt_eq (h : SameToken tokens tokens' k k') :
    anchorAt tokens k = anchorAt tokens' k' := by
  rw [anchorAt, anchorAt, h.token_eq]
  exact anchor?_perm (hperm.map Token.endPosition) _

theorem SameToken.kin_iff (hk : SameToken tokens tokens' k k') (hj : SameToken tokens tokens' j j') :
    Kin tokens k j ↔ Kin tokens' k' j' := by
  rw [Kin, Kin, hk.token_eq, hj.token_eq, hk.anchorAt_eq hperm, hj.anchorAt_eq hperm]

theorem SameToken.edge_iff (hk : SameToken tokens tokens' k k') (hj : SameToken tokens tokens' j j') :
    (ofTokens tokens phrase).Edge k j ↔ (ofTokens tokens' phrase).Edge k' j' := by
  simp only [Forest.edge_iff, hk.lt, hk.lt', hj.lt, hj.lt', hj.anchorAt_eq hperm, hk.endAt_eq]

theorem SameToken.isEnd (hk : SameToken tokens tokens' k k')
    (h : (ofTokens tokens phrase).isEnd k = true) : (ofTokens tokens' phrase).isEnd k' = true := by
  refine (isEnd_iff hk.lt').2 fun j' hj' => ?_
  obtain ⟨j, hj⟩ := exists_sameToken hperm.symm hj'
  rw [hj.endAt_eq, ← hk.endAt_eq]
  exact (isEnd_iff hk.lt).1 h j hj.lt'

theorem slotConsistent_of_perm (hc : SlotConsistent tokens) : SlotConsistent tokens' := by
  intro k' hk' j' hj' hkin hne ⟨v', hv', w', hw', hkv, hjw, htext⟩
  obtain ⟨k, hk⟩ := exists_sameToken hperm.symm hk'
  obtain ⟨j, hj⟩ := exists_sameToken hperm.symm hj'
  obtain ⟨v, hv⟩ := exists_sameToken hperm.symm hv'
  obtain ⟨w, hw⟩ := exists_sameToken hperm.symm hw'
  rw [hk.endAt_eq, hj.endAt_eq] at hne
  refine hc k hk.lt' j hj.lt' ((hk.kin_iff hperm.symm hj).1 hkin) hne ⟨v, hv.lt', w, hw.lt', ?_, ?_, ?_⟩
  · rw [← hv.anchorAt_eq hperm.symm, hkv, hk.endAt_eq]
  · rw [← hw.anchorAt_eq hperm.symm, hjw, hj.endAt_eq]
  · rw [← hv.token_eq, htext, hw.token_eq]

end Forest

/-! ### Their graphs -/

/-- The nodes of two graphs stand for one token. -/
def SameNode (tokens tokens' : List Token) (home home' : Nat → NodeId) (a b : NodeId) : Prop :=
  ∃ k k', SameToken tokens tokens' k k' ∧ home k = a ∧ home' k' = b

variable {tokens tokens' : List Token} {phrase : String} {g g' : TokenGraph} {home home' : Nat → NodeId}
  {a b c : NodeId}

theorem SameNode.symm (h : SameNode tokens tokens' home home' a b) :
    SameNode tokens' tokens home' home b a := by
  obtain ⟨k, k', hk, ha, hb⟩ := h
  exact ⟨k', k, hk.symm, hb, ha⟩

namespace Gathers

variable (h : Gathers tokens phrase g home) (h' : Gathers tokens' phrase g' home')
include h h'

theorem text_eq (hab : SameNode tokens tokens' home home' a b) : g.text a = g'.text b := by
  obtain ⟨k, k', hk, rfl, rfl⟩ := hab
  rw [h.text_home k hk.lt, h'.text_home k' hk.lt', hk.token_eq]

variable (hperm : tokens.Perm tokens')
include hperm

theorem exists_root (ha : a ∈ g.roots) :
    ∃ b ∈ g'.roots, SameNode tokens tokens' home home' a b := by
  obtain ⟨k, hk, hanchor, rfl⟩ := (h.mem_roots_iff a).1 ha
  obtain ⟨k', hkk'⟩ := exists_sameToken hperm hk
  have hanchor' : anchorAt tokens' k' = none := (hkk'.anchorAt_eq hperm).symm.trans hanchor
  exact ⟨home' k', (h'.mem_roots_iff _).2 ⟨k', hkk'.lt', hanchor', rfl⟩, k, k', hkk', rfl, rfl⟩

/-- The edge to a child comes from some token of the node, which is kin of the one that both nodes stand
    for in both lists. -/
theorem exists_child (hab : SameNode tokens tokens' home home' a b) (hc : c ∈ g.children a) :
    ∃ d ∈ g'.children b, SameNode tokens tokens' home home' c d := by
  obtain ⟨k, k', hk, rfl, rfl⟩ := hab
  obtain ⟨i, j, hedge, hik, rfl⟩ := (h.edge_iff _ c).1 hc
  obtain ⟨hi, hj, -⟩ := Forest.edge_iff.1 hedge
  obtain ⟨i', hi'⟩ := exists_sameToken hperm hi
  obtain ⟨j', hj'⟩ := exists_sameToken hperm hj
  have hkin : Kin tokens' i' k' :=
    (hi'.kin_iff hperm hk).1 ((h.home_eq_iff i hi k hk.lt).1 hik)
  refine ⟨home' j', (h'.edge_iff _ _).2 ⟨i', j', (hi'.edge_iff hperm hj').1 hedge, ?_, rfl⟩,
    j, j', hj', rfl, rfl⟩
  exact (h'.home_eq_iff i' hi'.lt' k' hk.lt').2 hkin

theorem isEnd_of_sameNode (hab : SameNode tokens tokens' home home' a b) (ha : g.isEnd a = true) :
    g'.isEnd b = true := by
  obtain ⟨k, k', hk, rfl, rfl⟩ := hab
  obtain ⟨j, hj, hkin, hend⟩ := (h.isEnd_iff k hk.lt).1 ha
  obtain ⟨j', hj'⟩ := exists_sameToken hperm hj
  exact (h'.isEnd_iff k' hk.lt').2
    ⟨j', hj'.lt', (hk.kin_iff hperm hj').1 hkin, hj'.isEnd hperm hend⟩

/-- Where siblings are in order the graphs of a list in two orders look alike. -/
theorem looksLike (hroots : g.Ascends g.roots) (hroots' : g'.Ascends g'.roots)
    (hchildren : ∀ a, g.Ascends (g.children a)) (hchildren' : ∀ b, g'.Ascends (g'.children b)) :
    g.LooksLike g' (SameNode tokens tokens' home home') where
  roots := by
    refine forall₂_of_pairwise_lt (fun _ _ => h.text_eq h') hroots hroots'
      (fun a ha => h.exists_root h' hperm ha) fun b hb => ?_
    obtain ⟨a, ha, hba⟩ := h'.exists_root h hperm.symm hb
    exact ⟨a, ha, hba.symm⟩
  children {a b} hab := by
    refine forall₂_of_pairwise_lt (fun _ _ => h.text_eq h') (hchildren a) (hchildren' b)
      (fun c hc => h.exists_child h' hperm hab hc) fun d hd => ?_
    obtain ⟨c, hc, hdc⟩ := h'.exists_child h hperm.symm hab.symm hd
    exact ⟨c, hc, hdc.symm⟩
  text_eq hab := h.text_eq h' hab
  isEnd_eq hab := Bool.eq_iff_iff.2
    ⟨h.isEnd_of_sameNode h' hperm hab, h'.isEnd_of_sameNode h hperm.symm hab.symm⟩

end Gathers

/-! ### The main statement -/

/-- A traversal from the roots comes to its end and lists these depths and texts. -/
def TokenGraph.Lists (g : TokenGraph) (listed : List (Nat × String)) : Prop :=
  ∃ steps, g.traverse steps (g.roots.map (0, ·)) = (listed, [])

/-- **The order of the tokens does not matter.** Tokens that are consistent with their slots, and whose
    slots can be counted, have a graph in whatever order they are listed. The traversals of both graphs
    come to their ends and are equal, and both graphs accept the same words. -/
theorem ofForeignTokens_perm (hslots : ∀ t ∈ tokens, t.endPosition < 2 ^ 64)
    (hc : SlotConsistent tokens) (hperm : tokens.Perm tokens') :
    ∃ g g', TokenGraph.ofForeignTokens tokens phrase = .ok g ∧
      TokenGraph.ofForeignTokens tokens' phrase = .ok g' ∧
      g.Lists g.traversal ∧ g'.Lists g'.traversal ∧ g.traversal = g'.traversal ∧
      ∀ ws, g.Accepts ws ↔ g'.Accepts ws := by
  obtain ⟨m, out, hn⟩ := exists_normalForm tokens phrase
  obtain ⟨m', out', hn'⟩ := exists_normalForm tokens' phrase
  have h := hn.gathers hc
  have h' := hn'.gathers (slotConsistent_of_perm hperm hc)
  have halike := h.looksLike h' hperm hn.roots_ascend hn'.roots_ascend hn.children_ascend
    hn'.children_ascend
  exact ⟨_, _, ofForeignTokens_eq_ok hslots,
    ofForeignTokens_eq_ok fun t ht => hslots t (hperm.mem_iff.2 ht),
    h.acyclic.exists_traverse_eq hn.inRange_graph, h'.acyclic.exists_traverse_eq hn'.inRange_graph,
    halike.traversal_eq hn.inRange_graph hn'.inRange_graph h.acyclic h'.acyclic, halike.accepts_iff⟩

namespace Example

theorem twoEnds_perm : (∀ t ∈ twoEnds, t.endPosition < 2 ^ 64) ∧ SlotConsistent twoEnds ∧
    twoEnds.Perm twoEnds.reverse ∧ ∃ g g', TokenGraph.ofForeignTokens twoEnds "a b c" = .ok g ∧
      TokenGraph.ofForeignTokens twoEnds.reverse "a b c" = .ok g' ∧ g.traversal = g'.traversal ∧
      ∀ ws, g.Accepts ws ↔ g'.Accepts ws := by
  have hslots : ∀ t ∈ twoEnds, t.endPosition < 2 ^ 64 := by decide
  have hc : SlotConsistent twoEnds := by decide
  have hperm : twoEnds.Perm twoEnds.reverse := twoEnds.reverse_perm.symm
  obtain ⟨g, g', hg, hg', -, -, htraversal, haccepts⟩ :=
    @ofForeignTokens_perm twoEnds twoEnds.reverse "a b c" hslots hc hperm
  exact ⟨hslots, hc, hperm, g, g', hg, hg', htraversal, haccepts⟩

/-- The two graphs are not equal. Of the two words `a` the one of the shorter stretch is kept in the first
    graph, and the other one in the second. -/
example : TokenGraph.ofTokens twoEnds "a b c" ≠ TokenGraph.ofTokens twoEnds.reverse "a b c" := by
  decide +kernel

end Example

end PhraseGraph
