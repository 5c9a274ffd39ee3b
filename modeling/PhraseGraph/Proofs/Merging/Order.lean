import PhraseGraph.Proofs.Merging.Settling

/-!
# Siblings in order

Whatever the tokens are, a run of merges leaves the children of each node that it has looked at in order:
they stand for themselves, their texts ascend, and they have been looked at too. A merge may bend the
graph into a cycle, or take away children of a node while a run below that node is going on; so this
does not speak of what the edges mean.

What it takes is that a merge finds the parents of the node that is gone. The parents of a node are told
only where that node stands for itself: edges to a node that has been merged are left behind, but only at
the node that it has been merged into (`Linked`). So the children of another node are turned whenever one
of them goes.

The order is broken at two kinds of places. The children of a node are not in order while they are being
settled; these nodes are the `unfinished` ones. And a merge forgets the node that it keeps, so that a
child of a finished node may have to be looked at once more; but then it is one of the siblings of a run
that is going on, the `pending` ones. One step of a run keeps the order up to these
(`Ordered.merge`, `Ordered.setChildren`), and when the run is over the siblings have been looked at
(`Settles.ordered`).
-/

namespace PhraseGraph.Merging

variable {m m₁ m' : Merging} {todo siblings out ids : List NodeId} {s i c p keep gone : NodeId}

/-! ### What a run takes over -/

/-- From `m` on there are merges only: what has been merged stays so, what stands for itself has done so
    before, and a parent that still stands for itself is found with the node that stands for its child,
    unless it is that node. -/
structure Onward (m m' : Merging) : Prop where
  absorbs : ∀ i, m'.resolve (m.resolve i) = m'.resolve i
  resolve_resolve : ∀ i, m.resolve (m'.resolve i) = m'.resolve i
  parent : ∀ p, m'.resolve p = p → ∀ c, m.resolve c = c → p ∈ m.parents c →
    m'.resolve c = p ∨ p ∈ m'.parents (m'.resolve c)

namespace Onward

theorem refl (hm : m.Valid) : m.Onward m where
  absorbs := hm.resolve_resolve
  resolve_resolve := hm.resolve_resolve
  parent _ _ _ hc hp := .inr (hc.symm ▸ hp)

theorem live (h : m.Onward m') (hi : m'.resolve i = i) : m.resolve i = i := by
  rw [← hi, h.resolve_resolve]

theorem trans (h : m.Onward m₁) (hm₁ : m₁.Valid) (h' : m₁.Onward m') : m.Onward m' where
  absorbs i := by
    calc m'.resolve (m.resolve i) = m'.resolve (m₁.resolve (m.resolve i)) :=
          (h'.absorbs (m.resolve i)).symm
      _ = m'.resolve i := by rw [h.absorbs, h'.absorbs]
  resolve_resolve i := by
    calc m.resolve (m'.resolve i) = m.resolve (m₁.resolve (m'.resolve i)) := by
          rw [h'.resolve_resolve]
      _ = m'.resolve i := by rw [h.resolve_resolve, h'.resolve_resolve]
  parent p hp c hc hpc := by
    rcases h.parent p (h'.live hp) c hc hpc with hcp | hpc
    · rw [← h'.absorbs c, hcp]
      exact .inl hp
    · have := h'.parent p hp (m₁.resolve c) (hm₁.resolve_resolve c) hpc
      rwa [h'.absorbs] at this

theorem setChildren (hm : m.Valid) : m.Onward (m.setChildren s ids) where
  absorbs := hm.resolve_resolve
  resolve_resolve := hm.resolve_resolve
  parent p _ c hc hpc := by
    rw [parents_setChildren]
    exact .inr (hc.symm ▸ hpc)

end Onward

/-- An edge of the merging is one between the nodes that stand for its ends, where these are two. -/
theorem Mergeable.parent_merge (h : m.Mergeable keep gone) (hpc : p ∈ m.parents c)
    (hp : p = gone → c ∈ m.children gone) : renamed keep gone c = renamed keep gone p ∨
      renamed keep gone p ∈ (m.merge keep gone).parents (renamed keep gone c) := by
  by_cases hc : c = gone
  · rw [hc, renamed_self]
    by_cases hpk : keep = renamed keep gone p
    · exact .inl hpk
    · have hpg : p ≠ gone := fun hpg => hpk (by rw [hpg, renamed_self])
      rw [renamed_of_ne hpg] at hpk ⊢
      exact .inr (h.mem_parents_merge_iff.2 ⟨h.ne, .inr ⟨rfl, hc ▸ hpc, Ne.symm hpk⟩⟩)
  · rw [renamed_of_ne hc]
    refine .inr (h.mem_parents_merge_iff.2 ⟨hc, .inl ?_⟩)
    simp only [turned]
    split
    · exact (mem_redirect_iff h.ne).2 ⟨p, hpc, rfl⟩
    · next hnot => exact (renamed_of_ne (mt hp hnot)).symm ▸ hpc

theorem Valid.onward_merge (hm : m.Valid) (hs : ∀ s ∈ siblings, s < m.size)
    (h : m.Twins siblings keep gone) : m.Onward (m.merge keep gone) where
  absorbs i := by rw [resolve_merge, resolve_merge, hm.resolve_resolve]
  resolve_resolve i := by
    rw [resolve_merge, renamed]
    split
    · exact hm.resolve_of_mem_canonical h.keep_mem
    · exact hm.resolve_resolve i
  parent p hp c hc hpc := by
    rw [resolve_merge, hc]
    have hpg := ((hm.resolve_merge_eq_self_iff h).1 hp).1
    have hedge := (hm.mergeable hs h).parent_merge hpc fun heq => absurd heq hpg
    rwa [renamed_of_ne hpg] at hedge

theorem Settles.onward (h : Settles m todo siblings m' out) (hm : m.Ready todo siblings) :
    m.Onward m' := by
  induction h with
  | seen _ _ ih => exact ih hm.tail
  | @fresh m s todo siblings m₁ out₁ m' out _ hunder _ ihunder ihrest =>
    have under := hunder.settled hm.under
    have rest := hm.rest under
    have h₁ := ihunder hm.under
    have below : m.Onward m₁ := ⟨h₁.absorbs, h₁.resolve_resolve, h₁.parent⟩
    exact (below.trans under.valid (.setChildren under.valid)).trans rest.valid (ihrest rest)
  | sorted => exact .refl hm.valid
  | merged h _ ih =>
    have htwins := twins_of_firstEqual? h
    exact (hm.valid.onward_merge hm.lt htwins).trans (hm.valid.merge hm.lt htwins)
      (ih (hm.merge htwins))

/-! ### Parents are found -/

/-- Where a node stands for itself, so does each of its children and has it as a parent, or the child
    has been merged into the node. -/
def Linked (m : Merging) : Prop :=
  ∀ i, m.resolve i = i → ∀ c ∈ m.children i,
    m.resolve c = i ∨ m.resolve c = c ∧ i ∈ m.parents c

namespace Linked

variable (h : m.Linked)
include h

/-- All edges to `gone` are turned, apart from its own. -/
theorem mem_children_turned_iff (hne : keep ≠ gone) (hgone : m.resolve gone = gone)
    (hi : m.resolve i = i) (hig : i ≠ gone) : c ∈ (m.turned keep gone i).children ↔
      ∃ y ∈ m.children i, renamed keep gone y = c :=
  mem_turned_iff hne fun hmem => ((h i hi gone hmem).resolve_left
    fun heq => hig (heq.symm.trans hgone)).2

theorem merge (hm : m.Valid) (hs : ∀ s ∈ siblings, s < m.size)
    (htwins : m.Twins siblings keep gone) : (m.merge keep gone).Linked := by
  intro i hi c hc
  obtain ⟨hig, hlive⟩ := (hm.resolve_merge_eq_self_iff htwins).1 hi
  have hgone := hm.resolve_of_mem_canonical htwins.gone_mem
  have fits := hm.mergeable hs htwins
  rcases (fits.mem_children_merge_iff.1 hc).2 with hc | ⟨rfl, hc, -⟩
  · obtain ⟨y, hy, rfl⟩ := (h.mem_children_turned_iff htwins.ne hgone hlive hig).1 hc
    rcases h i hlive y hy with hyi | ⟨hylive, hparent⟩
    · have hyg : y ≠ gone := fun hyg => hig (by rw [← hyi, hyg, hgone])
      exact .inl (by rw [renamed_of_ne hyg, resolve_merge, hyi, renamed_of_ne hig])
    · have hedge := fits.parent_merge hparent fun heq => absurd heq hig
      rw [renamed_of_ne hig] at hedge
      have hlive' := hm.resolve_merge_renamed htwins hylive
      exact hedge.imp hlive'.trans fun hp => ⟨hlive', hp⟩
  -- The children of `gone` are now children of `keep`; `gone` itself may be one of them.
  · by_cases hcg : c = gone
    · exact .inl (by rw [resolve_merge, hcg, hgone, renamed_self])
    rcases h gone hgone c hc with hcgone | ⟨hclive, hparent⟩
    · exact .inl (by rw [resolve_merge, hcgone, renamed_self])
    · have hedge := fits.parent_merge hparent fun _ => hc
      rw [renamed_self, renamed_of_ne hcg] at hedge
      have hlive' := (hm.resolve_merge_eq_self_iff htwins).2 ⟨hcg, hclive⟩
      exact hedge.imp hlive'.trans fun hp => ⟨hlive', hp⟩

/-- What is written back stands for children of the node from before the run below it. -/
theorem writeBack (hs : m.resolve s = s)
    (under : (m.visit s).Settled (m.children s) m₁ out) (below : (m.visit s).Onward m₁)
    (h₁ : m₁.Linked) : (m₁.setChildren s out).Linked := by
  intro i hi c hc
  rw [parents_setChildren]
  rw [children_setChildren] at hc
  split at hc
  · next hsi =>
    obtain ⟨rfl, -⟩ := hsi
    obtain ⟨t, ht, rfl⟩ := (under.mem_out_iff c).1 hc
    have hlive : m₁.resolve (m₁.resolve t) = m₁.resolve t := under.valid.resolve_resolve t
    rcases h s hs t ht with hts | ⟨htlive, hparent⟩
    · have habsorbs : m₁.resolve (m.resolve t) = m₁.resolve t := under.absorbs t
      rw [hts] at habsorbs
      exact .inl (hlive.trans (habsorbs.symm.trans hi))
    · exact (below.parent s hi t htlive hparent).imp hlive.trans fun hp => ⟨hlive, hp⟩
  · exact h₁ i hi c hc

end Linked

theorem Settles.linked (h : Settles m todo siblings m' out) (hm : m.Ready todo siblings)
    (hlinked : m.Linked) : m'.Linked := by
  induction h with
  | seen _ _ ih => exact ih hm.tail hlinked
  | @fresh m s _ _ _ _ _ _ _ hunder _ ihunder ihrest =>
    have under := hunder.settled hm.under
    exact ihrest (hm.rest under) (hlinked.writeBack (hm.valid.resolve_resolve s) under
      (hunder.onward hm.under) (ihunder hm.under hlinked))
  | sorted => exact hlinked
  | merged h _ ih =>
    have htwins := twins_of_firstEqual? h
    exact ih (hm.merge htwins) (hlinked.merge hm.valid hm.lt htwins)

/-! ### Order -/

/-- The children of the node stand for themselves and ascend by their texts, and they have been looked
    at or stand for pending ones. -/
structure InOrder (m : Merging) (pending : List NodeId) (i : NodeId) : Prop where
  ascends : (m.children i).Pairwise fun a b => m.text a < m.text b
  live : ∀ c ∈ m.children i, m.resolve c = c
  seen : ∀ c ∈ m.children i, c ∈ m.visited ∨ ∃ s ∈ pending, m.resolve s = c

/-- Of the nodes that have been looked at and stand for themselves all but the unfinished ones have
    their children in order. -/
def Ordered (m : Merging) (unfinished pending : List NodeId) : Prop :=
  ∀ i ∈ m.visited, m.resolve i = i → i ∉ unfinished → m.InOrder pending i

namespace Ordered

variable {unfinished pending : List NodeId} (h : m.Ordered unfinished pending)
include h

/-- While its children are being settled a node is not finished. -/
theorem visit : (m.visit s).Ordered (s :: unfinished) pending := by
  intro i hi hlive hnot
  rw [List.mem_cons, not_or] at hnot
  have hin := h i ((List.mem_cons.1 hi).resolve_left hnot.1) hlive hnot.2
  exact ⟨hin.ascends, hin.live, fun c hc => (hin.seen c hc).imp_left (List.mem_cons_of_mem _)⟩

omit h in
/-- A sibling that has been looked at is no longer pending. -/
theorem of_cons (h : m.Ordered unfinished (s :: pending)) (hs : m.resolve s ∈ m.visited) :
    m.Ordered unfinished pending := by
  intro i hi hlive hnot
  have hin := h i hi hlive hnot
  refine ⟨hin.ascends, hin.live, fun c hc => ?_⟩
  rcases hin.seen c hc with hc | ⟨t, ht, rfl⟩
  · exact .inl hc
  · rcases List.mem_cons.1 ht with rfl | ht
    · exact .inl hs
    · exact .inr ⟨t, ht, rfl⟩

omit h in
/-- A node is finished when its children are written back. -/
theorem setChildren (h : m.Ordered (s :: unfinished) pending) (hs : s < m.size)
    (hascends : ids.Pairwise fun a b => m.text a < m.text b)
    (hlive : ∀ c ∈ ids, m.resolve c = c) (hseen : ∀ c ∈ ids, c ∈ m.visited) :
    (m.setChildren s ids).Ordered unfinished pending := by
  intro i hi hi' hnot
  by_cases hsi : s = i
  · have hchildren : (m.setChildren s ids).children i = ids := by
      rw [children_setChildren, if_pos ⟨hsi, hsi ▸ hs⟩]
    constructor <;> rw [hchildren]
    · exact hascends.imp fun hab => by rwa [text_setChildren, text_setChildren]
    · exact hlive
    · exact fun c hc => .inl (hseen c hc)
  · have hchildren : (m.setChildren s ids).children i = m.children i := by
      rw [children_setChildren, if_neg fun heq => hsi heq.1]
    have hin := h i hi hi' (by simp [Ne.symm hsi, hnot])
    constructor <;> rw [hchildren]
    · exact hin.ascends.imp fun hab => by rwa [text_setChildren, text_setChildren]
    · exact hin.live
    · exact hin.seen

/-- A merge forgets only the node that it keeps. -/
theorem merge (hlinked : m.Linked) (hm : m.Valid) (hs : ∀ s ∈ siblings, s < m.size)
    (htwins : m.Twins siblings keep gone) :
    (m.merge keep gone).Ordered unfinished (keep :: pending) := by
  intro i hi hlive hnot
  rw [visited_merge, List.mem_filter, bne_iff_ne] at hi
  obtain ⟨hig, hlive⟩ := (hm.resolve_merge_eq_self_iff htwins).1 hlive
  have fits := hm.mergeable hs htwins
  have hin := h i hi.1 hlive hnot
  have htext : ∀ i, (m.merge keep gone).text i = m.text i := fun i =>
    congrArg Token.text fits.token_merge
  have hchildren : (m.merge keep gone).children i = (m.turned keep gone i).children := by
    rw [children, fits.node_merge, if_neg hig, if_neg hi.2]
  have hmem : ∀ c ∈ (m.turned keep gone i).children, ∃ y ∈ m.children i,
      renamed keep gone y = c := fun c =>
    (hlinked.mem_children_turned_iff htwins.ne (hm.resolve_of_mem_canonical htwins.gone_mem) hlive
      hig).1
  constructor <;> rw [hchildren]
  · simp only [htext, turned]
    split
    · exact pairwise_redirect htwins.text_eq hin.ascends
    · exact hin.ascends
  · intro c hc
    obtain ⟨y, hy, rfl⟩ := hmem c hc
    exact hm.resolve_merge_renamed htwins (hin.live y hy)
  · intro c hc
    by_cases hck : c = keep
    · refine .inr ⟨keep, List.mem_cons_self, ?_⟩
      rw [hck, hm.resolve_merge_eq_self_iff htwins]
      exact ⟨htwins.ne, hm.resolve_of_mem_canonical htwins.keep_mem⟩
    obtain ⟨y, hy, rfl⟩ := hmem c hc
    have hyg : y ≠ gone := fun hyg => hck (by rw [hyg, renamed_self])
    rw [renamed_of_ne hyg] at hck ⊢
    rcases hin.seen y hy with hseen | ⟨s, hs, rfl⟩
    · exact .inl (by rw [visited_merge, List.mem_filter, bne_iff_ne]; exact ⟨hseen, hck⟩)
    · exact .inr ⟨s, List.mem_cons_of_mem _ hs, by rw [resolve_merge, renamed_of_ne hyg]⟩

end Ordered

/-- A run leaves no other node out of order than those above its siblings. -/
theorem Settles.ordered {unfinished pending : List NodeId} (h : Settles m todo siblings m' out)
    (hm : m.Ready todo siblings) (hlinked : m.Linked) (hordered : m.Ordered unfinished pending) :
    m'.Ordered unfinished pending := by
  induction h generalizing unfinished pending with
  | seen _ _ ih => exact ih hm.tail hlinked hordered
  | @fresh m s todo siblings m₁ out₁ m' out _ hunder hrest ihunder ihrest =>
    have under := hunder.settled hm.under
    have h₁ := ihunder hm.under hlinked hordered.visit
    have hlt := hm.valid.resolve_lt s (hm.lt s (hm.subset List.mem_cons_self))
    have hlive : ∀ c ∈ out₁, m₁.resolve c = c := fun c hc => by
      obtain ⟨t, -, rfl⟩ := (under.mem_out_iff c).1 hc
      exact under.valid.resolve_resolve t
    have hseen := (hunder.visited hm.under fun t ht => .inl ht).2
    exact ihrest (hm.rest under)
      (hlinked.writeBack (hm.valid.resolve_resolve s) under (hunder.onward hm.under)
        (hunder.linked hm.under hlinked))
      (h₁.setChildren (hlt.trans_eq under.size_eq.symm) under.ascends hlive hseen)
  | sorted => exact hordered
  | @merged m siblings keep gone m' out h hrest ih =>
    have htwins := twins_of_firstEqual? h
    have hready := hm.merge htwins
    have h' := ih hready (hlinked.merge hm.valid hm.lt htwins)
      (hordered.merge hlinked hm.valid hm.lt htwins)
    refine h'.of_cons ((hrest.visited hready fun t ht => .inl ht).2 _ ?_)
    exact ((hrest.settled hready).mem_out_iff _).2 ⟨keep, htwins.keep_mem, rfl⟩

end PhraseGraph.Merging
