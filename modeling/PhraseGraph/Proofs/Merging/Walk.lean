import Mathlib.Data.List.Count
import Mathlib.Logic.Relation
import PhraseGraph.Proofs.Siblings

/-!
# The walk of a normalization, step by step

A normalization walks through a graph that it changes at every merge, so it may come back to a node that
it has been at, and the graph may bend into a cycle under it. `Walk.step` tells what it does next: it
passes over a sibling that has been looked at or descends below it, and when no sibling is left it merges
two of them and looks at all of them again, or goes back up. Each run of merges is a row of such steps
(`reaches_of_settles`), so the steps come to an end, and what is left then is the normal form.

What is known at each step (`Walk.Sound`) does not need the end. A node that has been looked at is
looked at again only if a merge has kept it since, so the descents into a node are not more than the
merges that kept it and one. And a node that is gone is not merged again, so a chain of merges from a
node to the one that took its place, and on to the one that took the place of that, has no node twice
and ends with a node that stands for itself (`LeadsTo`).

Main statement: `normalization_ends`.
-/

namespace PhraseGraph

open Relation

namespace Merging

/-! ### Chains of merges -/

/-- Going from a node to the one that it has been merged into, as long as there is one, comes to `last`. -/
inductive LeadsTo (merges : List (NodeId × NodeId)) : (id last : NodeId) → Prop
  | here {id} (h : merges.lookup id = none) : LeadsTo merges id id
  | next {id kept last} (h : merges.lookup id = some kept) (rest : LeadsTo merges kept last) :
      LeadsTo merges id last

section LeadsTo

variable {merges : List (NodeId × NodeId)} {id last keep gone : NodeId}

/-- It ends with a node that has not been merged. -/
theorem LeadsTo.lookup_eq_none (h : LeadsTo merges id last) : merges.lookup last = none := by
  induction h with
  | here h => exact h
  | next _ _ ih => exact ih

theorem lookup_concat (id : NodeId) : (merges ++ [(gone, keep)]).lookup id =
    (merges.lookup id).or (if id = gone then some keep else none) := by
  by_cases h : id = gone
  · simp [List.lookup_append, h]
  · simp [List.lookup_append, List.lookup_cons, h, beq_eq_false_iff_ne.2 h]

/-- Merging two nodes that have not been merged makes the chains that end with one of them go on to the
    other one. -/
theorem LeadsTo.concat (h : LeadsTo merges id last) (hgone : merges.lookup gone = none)
    (hkeep : merges.lookup keep = none) (hne : keep ≠ gone) :
    LeadsTo (merges ++ [(gone, keep)]) id (renamed keep gone last) := by
  induction h with
  | @here id h =>
    by_cases hid : id = gone
    · subst hid
      rw [renamed_self]
      refine .next ?_ (.here ?_)
      · rw [lookup_concat, h, if_pos rfl, Option.none_or]
      · rw [lookup_concat, hkeep, if_neg hne, Option.none_or]
    · rw [renamed_of_ne hid]
      refine .here ?_
      rw [lookup_concat, h, if_neg hid, Option.none_or]
  | @next id kept last h _ ih =>
    refine .next ?_ ih
    rw [lookup_concat, h, Option.some_or]

theorem notMem_keys_of_lookup_eq_none (h : merges.lookup id = none) : id ∉ merges.map Prod.fst := by
  intro hid
  obtain ⟨e, he, rfl⟩ := List.mem_map.1 hid
  exact absurd (List.lookup_eq_none_iff.1 h e he) (by simp)

end LeadsTo

/-! ### Steps -/

/-- The siblings that a walk is looking at, of which those in `todo` are left, and the node that they
    are the children of; none, if they are the roots. -/
structure Frame where
  under? : Option NodeId
  todo : List NodeId
  siblings : List NodeId

/-- Where a walk stands. -/
structure Walk where
  merging : Merging
  /-- The siblings that it is looking at, those of the deepest node first. -/
  frames : List Frame
  /-- The roots, once they are in order. -/
  roots : List NodeId := []
  /-- The nodes that it has gone below, the last one first. -/
  descents : List NodeId := []

namespace Walk

/-- A walk that has not begun. -/
def start (g : TokenGraph) : Walk where
  merging := ofGraph g
  frames := [⟨none, g.roots, g.roots⟩]

/-- Siblings that are in order become the children of the node that they are under, or the roots. -/
def settle (w : Walk) (under? : Option NodeId) (siblings : List NodeId) : Walk :=
  match under? with
  | some id => { w with merging := w.merging.setChildren id siblings }
  | none => { w with roots := siblings }

/-- What a walk does next; nothing, if it is over. -/
def step (w : Walk) : Option Walk :=
  match w.frames with
  | [] => none
  | ⟨under?, s :: todo, siblings⟩ :: frames =>
    let id := w.merging.resolve s
    let frames := ⟨under?, todo, siblings⟩ :: frames
    if id ∈ w.merging.visited then some { w with frames }
    else
      let below := w.merging.children id
      some { w with
        merging := w.merging.visit id,
        frames := ⟨some id, below, below⟩ :: frames,
        descents := id :: w.descents }
  | ⟨under?, [], siblings⟩ :: frames =>
    let siblings := w.merging.canonical siblings
    match w.merging.firstEqual? siblings with
    | some (keep, gone) =>
      some { w with
        merging := w.merging.merge keep gone,
        frames := ⟨under?, siblings, siblings⟩ :: frames }
    | none => some ({ w with frames }.settle under? siblings)

/-- The walk goes on from `w` to `w'`. -/
def Goes (w w' : Walk) : Prop := w.step = some w'

/-- A run of merges is a row of steps. -/
theorem reaches_of_settles {m m' : Merging} {todo siblings out : List NodeId}
    (h : Settles m todo siblings m' out) (under? : Option NodeId) (frames : List Frame)
    (roots descents : List NodeId) : ∃ descents',
      ReflTransGen Goes ⟨m, ⟨under?, todo, siblings⟩ :: frames, roots, descents⟩
        (settle ⟨m', frames, roots, descents'⟩ under? out) := by
  induction h generalizing under? frames roots descents with
  | seen hs _ ih =>
    obtain ⟨descents', hrest⟩ := ih under? frames roots descents
    exact ⟨descents', .head (if_pos hs) hrest⟩
  | @fresh m s todo siblings m₁ out₁ m' out hs _ _ ihunder ihrest =>
    obtain ⟨descents₁, hunder⟩ := ihunder (some (m.resolve s)) (⟨under?, todo, siblings⟩ :: frames)
      roots (m.resolve s :: descents)
    obtain ⟨descents', hrest⟩ := ihrest under? frames roots descents₁
    exact ⟨descents', .head (if_neg hs) (hunder.trans hrest)⟩
  | @sorted m siblings h =>
    refine ⟨descents, .single ?_⟩
    simp only [Goes, step, h]
  | @merged m siblings keep gone m' out h _ ih =>
    obtain ⟨descents', hrest⟩ := ih under? frames roots descents
    refine ⟨descents', .head ?_ hrest⟩
    simp only [Goes, step, h]

/-! ### What is known at each step -/

/-- What is known of a walk through `n` nodes: all siblings are nodes, and so are those that are gone, of
    which none is merged twice. From each node the merges lead to the one that stands for it. A node has
    been gone below once more than merges have kept it, at most; if it is still to be looked at, not even
    that often. -/
structure Sound (n : Nat) (w : Walk) : Prop where
  valid : w.merging.Valid
  size_eq : w.merging.size = n
  siblings_lt : ∀ f ∈ w.frames, ∀ s ∈ f.siblings, s < n
  gone_lt : ∀ e ∈ w.merging.merges, e.1 < n
  nodup_gone : (w.merging.merges.map Prod.fst).Nodup
  leadsTo : ∀ id, LeadsTo w.merging.merges id (w.merging.resolve id)
  count_le : ∀ id, w.descents.count id + (if id ∈ w.merging.visited then 0 else 1) ≤
    1 + w.merging.merges.countP (·.2 == id)

theorem sound_start {g : TokenGraph} (hg : g.Simple) : (start g).Sound g.size where
  valid := (ready_ofGraph hg).valid
  size_eq := rfl
  siblings_lt f hf := by
    obtain rfl := List.mem_singleton.1 hf
    exact hg.roots_lt
  gone_lt e he := absurd he List.not_mem_nil
  nodup_gone := List.nodup_nil
  leadsTo _ := .here rfl
  count_le _ := by simp [start, ofGraph]

section Step

variable {n : Nat} {w : Walk} {under? : Option NodeId} {s id keep gone : NodeId}
  {todo siblings : List NodeId} {frames : List Frame}

theorem Sound.reframe (h : w.Sound n) (hframes : ∀ f ∈ frames, ∀ s ∈ f.siblings, s < n) :
    Sound n { w with frames } :=
  ⟨h.valid, h.size_eq, hframes, h.gone_lt, h.nodup_gone, h.leadsTo, h.count_le⟩

/-- The merges and the descents stay as they are when siblings are put in their place. -/
theorem Sound.settle (h : w.Sound n) (hlt : ∀ s ∈ siblings, s < n) (hnodup : siblings.Nodup) :
    (w.settle under? siblings).Sound n := by
  cases under? with
  | none =>
    exact ⟨h.valid, h.size_eq, h.siblings_lt, h.gone_lt, h.nodup_gone, h.leadsTo, h.count_le⟩
  | some id =>
    exact ⟨h.valid.setChildren (h.size_eq ▸ hlt) hnodup, size_setChildren.trans h.size_eq,
      h.siblings_lt, h.gone_lt, h.nodup_gone, h.leadsTo, h.count_le⟩

/-- A node that is gone below has not been looked at. -/
theorem Sound.descend (h : w.Sound n) (hid : id ∉ w.merging.visited)
    (hframes : ∀ f ∈ frames, ∀ s ∈ f.siblings, s < n) :
    Sound n { w with
      merging := w.merging.visit id,
      frames := ⟨some id, w.merging.children id, w.merging.children id⟩ :: frames,
      descents := id :: w.descents } where
  valid := h.valid.visit
  size_eq := h.size_eq
  siblings_lt f hf := by
    rcases List.mem_cons.1 hf with rfl | hf
    · exact h.size_eq ▸ h.valid.children_lt id
    · exact hframes f hf
  gone_lt := h.gone_lt
  nodup_gone := h.nodup_gone
  leadsTo := h.leadsTo
  count_le x := by
    have hx := h.count_le x
    by_cases hxid : x = id
    · subst hxid
      simpa [visit, hid] using hx
    · simpa [visit, List.count_cons_of_ne (Ne.symm hxid), hxid] using hx

/-- A merge forgets the node that it keeps, which may be gone below once more. -/
theorem Sound.merge (h : w.Sound n) (htwins : w.merging.Twins siblings keep gone)
    (hlt : ∀ s ∈ siblings, s < n) (hframes : ∀ f ∈ frames, ∀ s ∈ f.siblings, s < n) :
    Sound n { w with
      merging := w.merging.merge keep gone,
      frames := ⟨under?, w.merging.canonical siblings, w.merging.canonical siblings⟩ :: frames } := by
  have hsize := h.size_eq.symm ▸ hlt
  have hlive : ∀ x ∈ w.merging.canonical siblings, w.merging.merges.lookup x = none := fun x hx =>
    h.valid.resolve_of_mem_canonical hx ▸ (h.leadsTo x).lookup_eq_none
  have hcanonical := h.size_eq ▸ lt_size_canonical h.valid hsize
  have hgone := hlive gone htwins.gone_mem
  have hmerges := @merges_merge w.merging keep gone
  refine ⟨h.valid.merge hsize htwins, size_merge.trans h.size_eq, fun f hf => ?_, ?_, ?_, fun x => ?_,
    fun x => ?_⟩
  · rcases List.mem_cons.1 hf with rfl | hf
    · exact hcanonical
    · exact hframes f hf
  · simp only [hmerges, List.mem_append, List.mem_singleton]
    rintro e (he | rfl)
    · exact h.gone_lt e he
    · exact hcanonical gone htwins.gone_mem
  · simp only [hmerges, List.map_append, List.map_cons, List.map_nil]
    refine List.nodup_append.2 ⟨h.nodup_gone, List.nodup_singleton gone, ?_⟩
    rintro a ha b hb rfl
    exact notMem_keys_of_lookup_eq_none hgone (List.mem_singleton.1 hb ▸ ha)
  · rw [hmerges, resolve_merge]
    exact (h.leadsTo x).concat hgone (hlive keep htwins.keep_mem) htwins.ne
  · have hx := h.count_le x
    simp only [hmerges, visited_merge, List.mem_filter, bne_iff_ne, List.countP_append,
      List.countP_singleton, beq_iff_eq]
    by_cases hxk : x = keep
    · subst hxk
      simp
      omega
    · simpa [hxk, Ne.symm hxk] using hx

/-- What is known of a walk is known after each step. -/
theorem Sound.step {w' : Walk} (h : w.Sound n) (hstep : w.Goes w') : w'.Sound n := by
  obtain ⟨m, _ | ⟨⟨under?, todo, siblings⟩, frames⟩, roots, descents⟩ := w
  · exact absurd hstep (by simp [Goes, Walk.step])
  obtain ⟨hsiblings, hframes⟩ := List.forall_mem_cons.1 h.siblings_lt
  -- The walk without the siblings that it is looking at.
  have hw : Sound n ⟨m, frames, roots, descents⟩ := h.reframe hframes
  cases todo with
  | cons s todo =>
    have hpassed : ∀ f ∈ (⟨under?, todo, siblings⟩ :: frames : List Frame), ∀ s ∈ f.siblings, s < n :=
      List.forall_mem_cons.2 ⟨hsiblings, hframes⟩
    by_cases hs : m.resolve s ∈ m.visited
    · obtain rfl := Option.some.inj ((if_pos hs).symm.trans hstep)
      exact h.reframe hpassed
    · obtain rfl := Option.some.inj ((if_neg hs).symm.trans hstep)
      exact hw.descend hs hpassed
  | nil =>
    simp only [Goes, Walk.step] at hstep
    split at hstep
    · next keep gone hequal =>
      obtain rfl := Option.some.inj hstep
      exact hw.merge (twins_of_firstEqual? hequal) hsiblings hframes
    · obtain rfl := Option.some.inj hstep
      exact hw.settle (h.size_eq ▸ lt_size_canonical h.valid (h.size_eq.symm ▸ hsiblings))
        nodup_canonical

theorem Sound.reaches {w' : Walk} (h : w.Sound n) (hreach : ReflTransGen Goes w w') : w'.Sound n := by
  induction hreach with
  | refl => exact h
  | tail _ hstep ih => exact ih.step hstep

/-- A node that stands for itself is not gone, so there are fewer merges than nodes. -/
theorem Sound.length_merges_le (h : w.Sound n) : w.merging.merges.length ≤ n - 1 := by
  rcases Nat.eq_zero_or_pos n with rfl | hn
  · rw [List.eq_nil_iff_forall_not_mem.2 fun e he => Nat.not_lt_zero _ (h.gone_lt e he)]
    exact Nat.zero_le _
  have hlive : w.merging.resolve 0 ∉ w.merging.merges.map Prod.fst :=
    notMem_keys_of_lookup_eq_none (h.leadsTo 0).lookup_eq_none
  have hsub : w.merging.resolve 0 :: w.merging.merges.map Prod.fst ⊆ List.range n := by
    refine List.cons_subset.2 ⟨List.mem_range.2 ?_, fun x hx => ?_⟩
    · exact h.size_eq ▸ h.valid.resolve_lt 0 (h.size_eq.symm ▸ hn)
    · obtain ⟨e, he, rfl⟩ := List.mem_map.1 hx
      exact List.mem_range.2 (h.gone_lt e he)
  have hlength := (List.nodup_cons.2 ⟨hlive, h.nodup_gone⟩).length_le_of_subset hsub
  rw [List.length_cons, List.length_map, List.length_range] at hlength
  exact Nat.le_sub_of_add_le hlength

end Step

end Walk

end Merging

/-! ### The main statement -/

open Merging

/-- **Normalization ends.** Let the slots of the tokens be counted. The steps of the walk through their
    forest come to an end, and the graph of the tokens is what the walk has made of the forest then,
    without the nodes that are gone. At each moment of the walk, going from a node to the one that it has
    been merged into comes to one that has not been merged, which stands for the node; of `n` nodes not
    more than `n - 1` have been merged; and no node has been gone below more often than once and once
    for each merge that has kept it. -/
theorem normalization_ends {tokens : List Token} {phrase : String}
    (hslots : ∀ t ∈ tokens, t.endPosition < 2 ^ 64) :
    ∃ last, ReflTransGen Walk.Goes
        (Walk.start (Provenance.fill (Forest.ofTokens tokens phrase))) last ∧
      last.step = none ∧
      TokenGraph.ofForeignTokens tokens phrase =
        .ok (last.merging.toGraph (Provenance.fill (Forest.ofTokens tokens phrase))
          last.roots).compact.sortOrigins ∧
      ∀ w, ReflTransGen Walk.Goes
          (Walk.start (Provenance.fill (Forest.ofTokens tokens phrase))) w →
        ReflTransGen Walk.Goes w last ∧
        (∀ id, LeadsTo w.merging.merges id (w.merging.resolve id)) ∧
        w.merging.merges.length ≤ tokens.length - 1 ∧
        ∀ id, w.descents.count id ≤ 1 + w.merging.merges.countP (·.2 == id) := by
  obtain ⟨m, out, h⟩ := exists_normalForm tokens phrase
  obtain ⟨descents, hreach⟩ := Walk.reaches_of_settles h.run none [] [] []
  have hsound := @Walk.sound_start (Provenance.fill (Forest.ofTokens tokens phrase)) Forest.simple_fill
  rw [Provenance.size_fill, Forest.size_ofTokens] at hsound
  refine ⟨⟨m, [], out, descents⟩, hreach, rfl, ?_, fun w hw => ⟨?_, ?_, ?_, fun id => ?_⟩⟩
  · rw [ofForeignTokens_eq_ok hslots, h.eq, h.mergedForest_eq]
  · -- A step is determined by where the walk stands, and the last state has none.
    have hunique : Relator.RightUnique Walk.Goes := fun w a b ha hb => Option.some.inj (ha.symm.trans hb)
    rcases ReflTransGen.total_of_right_unique hunique hw hreach with hlast | hlast
    · exact hlast
    · rcases ReflTransGen.cases_head hlast with rfl | ⟨_, hstep, -⟩
      · exact .refl
      · exact absurd (show none = some _ from hstep) (Option.some_ne_none _).symm
  · exact (hsound.reaches hw).leadsTo
  · exact (hsound.reaches hw).length_merges_le
  · exact (Nat.le_add_right _ _).trans ((hsound.reaches hw).count_le id)

namespace Example

/-- Merging the words `a a a` bends their graph into a cycle, and the walk ends. -/
theorem looping_ends : (∀ t ∈ looping, t.endPosition < 2 ^ 64) ∧
    ¬(TokenGraph.ofTokens looping "a a a").Acyclic ∧
    ∃ last, ReflTransGen Merging.Walk.Goes
        (.start (Provenance.fill (Forest.ofTokens looping "a a a"))) last ∧
      last.step = none ∧ last.merging.merges.length ≤ 3 := by
  have hslots : ∀ t ∈ looping, t.endPosition < 2 ^ 64 := by decide
  obtain ⟨last, hreach, hlast, -, hw⟩ := @normalization_ends looping "a a a" hslots
  exact ⟨hslots, looping_has_cycle, last, hreach, hlast, (hw last hreach).2.2.1⟩

end Example

end PhraseGraph
