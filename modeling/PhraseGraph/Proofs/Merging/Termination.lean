import Mathlib.Data.Finset.Card
import Mathlib.Data.Finset.Filter
import Mathlib.Data.Finset.Range
import PhraseGraph.Proofs.Merging.Settling

/-!
# Runs of merges end

A merge can make the walk look again at a node, and merging nodes that end at different slots can bend
the graph into a cycle, so the walk does not end for lack of nodes. What falls with every step in depth
is a *weight*: a node that has not been merged counts two, one that has not been looked at counts one.
Looking at a node takes one away, and a merge takes two away and gives back one. So the walk through a
graph of `n` nodes is never more than `3 * n` deep, and with `stepBound n` steps it ends
(`exists_settle_eq_some`).
-/

namespace PhraseGraph.Merging

variable {m m' : Merging} {todo siblings out : List NodeId} {steps : Nat} {s i keep gone : NodeId}

/-- The nodes that stand for themselves. -/
def alive (m : Merging) : Finset NodeId := (Finset.range m.size).filter fun i => m.resolve i = i

/-- The nodes that have not been looked at. -/
def unseen (m : Merging) : Finset NodeId := (Finset.range m.size).filter fun i => i ∉ m.visited

/-- What falls with every step in depth. -/
def weight (m : Merging) : Nat := 2 * m.alive.card + m.unseen.card

theorem weight_setChildren {ids : List NodeId} : (m.setChildren s ids).weight = m.weight := by
  simp only [weight, alive, unseen, size_setChildren]
  rfl

theorem weight_visit (hs : s < m.size) (h : s ∉ m.visited) : (m.visit s).weight < m.weight := by
  have hunseen : (m.visit s).unseen ⊂ m.unseen := by
    refine (Finset.ssubset_iff_of_subset fun i hi => ?_).2 ⟨s, ?_, ?_⟩
    · simp only [unseen, visit, size, Finset.mem_filter, List.mem_cons, not_or] at hi ⊢
      exact ⟨hi.1, hi.2.2⟩
    · exact Finset.mem_filter.2 ⟨Finset.mem_range.2 hs, h⟩
    · simp [unseen, visit]
  have := Finset.card_lt_card hunseen
  have halive : (m.visit s).alive = m.alive := rfl
  simp only [weight, halive]
  omega

theorem weight_merge (hm : m.Valid) (hs : ∀ s ∈ siblings, s < m.size)
    (h : m.Twins siblings keep gone) : (m.merge keep gone).weight < m.weight := by
  have hlive := hm.resolve_of_mem_canonical h.gone_mem
  have halive : (m.merge keep gone).alive ⊂ m.alive := by
    refine (Finset.ssubset_iff_of_subset fun i hi => ?_).2 ⟨gone, ?_, ?_⟩
    · simp only [alive, Finset.mem_filter, size_merge, hm.resolve_merge_eq_self_iff h] at hi ⊢
      exact ⟨hi.1, hi.2.2⟩
    · exact Finset.mem_filter.2 ⟨Finset.mem_range.2 (hm.mergeable hs h).gone_lt, hlive⟩
    · simp only [alive, Finset.mem_filter, hm.resolve_merge_eq_self_iff h, not_and]
      exact fun _ hne => absurd rfl hne
  -- The kept node has to be looked at again, which is one node, but the merged one counts twice.
  have hunseen : (m.merge keep gone).unseen ⊆ insert keep m.unseen := by
    intro i hi
    simp only [unseen, Finset.mem_filter, size_merge, visited_merge, List.mem_filter, bne_iff_ne,
      not_and, not_not, Finset.mem_insert] at hi ⊢
    by_cases hvisited : i ∈ m.visited
    · exact .inl (hi.2 hvisited)
    · exact .inr ⟨hi.1, hvisited⟩
  have := Finset.card_lt_card halive
  have := (Finset.card_le_card hunseen).trans (Finset.card_insert_le _ _)
  simp only [weight]
  omega

/-- A run does not make the weight grow. -/
theorem Settles.weight_le (h : Settles m todo siblings m' out) (hm : m.Ready todo siblings) :
    m'.weight ≤ m.weight := by
  induction h with
  | seen _ _ ih => exact ih hm.tail
  | @fresh m s todo siblings m₁ out₁ m' out hs hunder _ ihunder ihrest =>
    have hlt : m.resolve s < m.size :=
      hm.valid.resolve_lt s (hm.lt s (hm.subset List.mem_cons_self))
    calc m'.weight ≤ (m₁.setChildren (m.resolve s) out₁).weight :=
          ihrest (hm.rest (hunder.settled hm.under))
      _ = m₁.weight := weight_setChildren
      _ ≤ (m.visit (m.resolve s)).weight := ihunder hm.under
      _ ≤ m.weight := (weight_visit hlt hs).le
  | sorted => exact le_rfl
  | @merged m siblings keep gone m' out h _ ih =>
    have htwins := twins_of_firstEqual? h
    exact (ih (hm.merge htwins)).trans (weight_merge hm.valid hm.lt htwins).le

/-- A walk ends if it has more steps than the merging has weight. -/
theorem exists_settle_eq_some (hm : m.Ready siblings siblings) (hsteps : m.weight < steps) :
    ∃ m' out, settle steps m siblings = some (m', out) := by
  induction steps generalizing m siblings with
  | zero => exact absurd hsteps (Nat.not_lt_zero _)
  | succ steps ih =>
    -- Looking at one sibling after another the weight stays small enough for the steps below them.
    have hfold : ∀ (todo : List NodeId) (m : Merging), m.Ready todo siblings →
        m.weight < steps + 1 →
        ∃ m₁ : Merging, todo.foldlM (settleBelow steps) m = some m₁ ∧ m₁.Ready [] siblings ∧
          m₁.weight < steps + 1 := by
      intro todo
      induction todo with
      | nil => exact fun m hm hsteps => ⟨m, rfl, hm, hsteps⟩
      | cons s todo ihtodo =>
        intro m hm hsteps
        rw [List.foldlM_cons]
        by_cases hs : m.resolve s ∈ m.visited
        · have hbelow : settleBelow steps m s = some m := by simp [settleBelow, hs]
          rw [hbelow]
          exact ihtodo m hm.tail hsteps
        · have hlt : m.resolve s < m.size :=
            hm.valid.resolve_lt s (hm.lt s (hm.subset List.mem_cons_self))
          have hvisit := weight_visit hlt hs
          obtain ⟨m₁, out₁, h₁⟩ := ih hm.under (by omega)
          have hbelow : settleBelow steps m s = some (m₁.setChildren (m.resolve s) out₁) := by
            simp [settleBelow, hs, h₁]
          have hrun := settles_of_settle h₁
          have hle := hrun.weight_le hm.under
          rw [hbelow]
          exact ihtodo _ (hm.rest (hrun.settled hm.under)) (by rw [weight_setChildren]; omega)
    obtain ⟨m₁, hm₁, hready, hweight⟩ := hfold siblings m hm hsteps
    rw [settle_succ, hm₁, Option.bind_some]
    split
    · exact ⟨m₁, m₁.canonical siblings, rfl⟩
    · next keep gone h =>
      have htwins := twins_of_firstEqual? h
      have hmerge := weight_merge hready.valid hready.lt htwins
      exact ih (hready.merge htwins) (by omega)

theorem weight_lt_stepBound (m : Merging) : m.weight < stepBound m.size := by
  have halive : m.alive.card ≤ m.size := (Finset.card_filter_le _ _).trans_eq (Finset.card_range _)
  have hunseen : m.unseen.card ≤ m.size :=
    (Finset.card_filter_le _ _).trans_eq (Finset.card_range _)
  rw [weight, stepBound]
  omega

end PhraseGraph.Merging
