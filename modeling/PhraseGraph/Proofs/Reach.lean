import Mathlib.Algebra.Order.BigOperators.Group.Finset
import PhraseGraph.Graph.Provenance
import PhraseGraph.Proofs.Paths

/-!
# What a search in depth reaches

A search in depth looks at the places that can follow, each of them once. It needs a step for each
place that it still has to look at and for each edge that begins at a place not seen yet (`pending`):
when a place is looked at, its edges go from the second number to the first. With enough steps it
finds just what can be reached (`mem_reach_iff`), each place once (`nodup_reach`).
-/

namespace PhraseGraph

open Relation

variable {next : Nat → List Nat} {n : Nat} {seen todo : List Nat} {id x y : Nat}

/-- The number of edges that begin at places below `n` that have not been seen. -/
def pending (next : Nat → List Nat) (n : Nat) (seen : List Nat) : Nat :=
  ∑ i ∈ (Finset.range n).filter (· ∉ seen), (next i).length

theorem pending_cons (hid : id ∉ seen) (hnext : n ≤ id → next id = []) :
    pending next n (id :: seen) + (next id).length = pending next n seen := by
  have hfilter : (Finset.range n).filter (· ∉ id :: seen)
      = ((Finset.range n).filter (· ∉ seen)).erase id := by
    ext i
    simp only [Finset.mem_filter, Finset.mem_erase, List.mem_cons, not_or]
    tauto
  rw [pending, pending, hfilter]
  by_cases hlt : id < n
  · exact Finset.sum_erase_add _ _ (Finset.mem_filter.2 ⟨Finset.mem_range.2 hlt, hid⟩)
  · rw [Finset.erase_eq_of_notMem (by simp [hlt]), hnext (Nat.not_lt.1 hlt), List.length_nil,
      Nat.add_zero]

theorem pending_le_of_subset {seen' : List Nat} (h : seen ⊆ seen') :
    pending next n seen' ≤ pending next n seen := by
  refine Finset.sum_le_sum_of_subset fun i hi => ?_
  obtain ⟨hi, hseen⟩ := Finset.mem_filter.1 hi
  exact Finset.mem_filter.2 ⟨hi, fun hmem => hseen (h hmem)⟩

theorem sum_map_eq_sum_range {α : Type} [Inhabited α] (f : α → Nat) (l : List α) :
    (l.map f).foldr (· + ·) 0 = ∑ i ∈ Finset.range l.length, f (l.getD i default) := by
  induction l with
  | nil => rfl
  | cons x l ih =>
    rw [List.map_cons, List.foldr_cons, ih, List.length_cons, Finset.sum_range_succ', Nat.add_comm]
    rfl

/-- At the beginning all edges are pending. -/
theorem pending_nil {α : Type} [Inhabited α] (f : α → List Nat) (a : Array α) :
    pending (fun i => f (a.getD i default)) a.size [] =
      (a.toList.map fun x => (f x).length).foldr (· + ·) 0 := by
  obtain ⟨l⟩ := a
  simp [pending, sum_map_eq_sum_range fun x => (f x).length]

/-! ### The search -/

theorem subset_reach {steps : Nat} : seen ⊆ reach next steps todo seen := by
  induction steps generalizing todo seen with
  | zero => exact fun _ h => h
  | succ steps ih =>
    cases todo with
    | nil => exact fun _ h => h
    | cons id todo =>
      rw [reach]
      split
      · exact ih
      · exact fun x hx => ih (List.mem_cons_of_mem _ hx)

theorem nodup_reach {steps : Nat} (h : seen.Nodup) : (reach next steps todo seen).Nodup := by
  induction steps generalizing todo seen with
  | zero => exact h
  | succ steps ih =>
    cases todo with
    | nil => exact h
    | cons id todo =>
      rw [reach]
      split
      · exact ih h
      · next hid => exact ih (List.nodup_cons.2 ⟨by simpa using hid, h⟩)

/-- Whatever is found was seen before or can be reached. -/
theorem reaches_of_mem_reach {steps : Nat} (h : x ∈ reach next steps todo seen) :
    x ∈ seen ∨ ∃ t ∈ todo, ReflTransGen (fun a b => b ∈ next a) t x := by
  induction steps generalizing todo seen with
  | zero => exact .inl h
  | succ steps ih =>
    cases todo with
    | nil => exact .inl h
    | cons id todo =>
      rw [reach] at h
      split at h
      · rcases ih h with h | ⟨t, ht, htx⟩
        · exact .inl h
        · exact .inr ⟨t, List.mem_cons_of_mem _ ht, htx⟩
      · rcases ih h with h | ⟨t, ht, htx⟩
        · rcases List.mem_cons.1 h with rfl | h
          · exact .inr ⟨x, List.mem_cons_self, .refl⟩
          · exact .inl h
        · rcases List.mem_append.1 ht with ht | ht
          · exact .inr ⟨id, List.mem_cons_self, .head ht htx⟩
          · exact .inr ⟨t, List.mem_cons_of_mem _ ht, htx⟩

/-- With enough steps all that was to be looked at is found, and all that follows it. -/
theorem reach_closed {steps : Nat} (hnext : ∀ id, n ≤ id → next id = [])
    (hseen : ∀ x ∈ seen, ∀ y ∈ next x, y ∈ seen ∨ y ∈ todo)
    (hsteps : todo.length + pending next n seen < steps) :
    todo ⊆ reach next steps todo seen ∧
      ∀ x ∈ reach next steps todo seen, ∀ y ∈ next x, y ∈ reach next steps todo seen := by
  induction steps generalizing todo seen with
  | zero => exact absurd hsteps (Nat.not_lt_zero _)
  | succ steps ih =>
    cases todo with
    | nil =>
      exact ⟨List.nil_subset _, fun x hx y hy => (hseen x hx y hy).resolve_right List.not_mem_nil⟩
    | cons id todo =>
      rw [List.length_cons] at hsteps
      rw [reach]
      split
      · next hid =>
        have hid : id ∈ seen := by simpa using hid
        obtain ⟨hsub, hclosed⟩ := ih (fun x hx y hy => by
          rcases hseen x hx y hy with h | h
          · exact .inl h
          · rcases List.mem_cons.1 h with rfl | h
            · exact .inl hid
            · exact .inr h) (by omega)
        exact ⟨List.cons_subset.2 ⟨subset_reach hid, hsub⟩, hclosed⟩
      · next hid =>
        have hid : id ∉ seen := by simpa using hid
        -- The edges of a place found for the first time are no longer pending but to be looked at.
        have hpending := pending_cons hid (hnext id)
        have hseen' : ∀ x ∈ id :: seen, ∀ y ∈ next x, y ∈ id :: seen ∨ y ∈ next id ++ todo := by
          intro x hx y hy
          rcases List.mem_cons.1 hx with rfl | hx
          · exact .inr (List.mem_append_left _ hy)
          · rcases hseen x hx y hy with h | h
            · exact .inl (List.mem_cons_of_mem _ h)
            · rcases List.mem_cons.1 h with rfl | h
              · exact .inl List.mem_cons_self
              · exact .inr (List.mem_append_right _ h)
        obtain ⟨hsub, hclosed⟩ := ih hseen' (by rw [List.length_append]; omega)
        exact ⟨List.cons_subset.2 ⟨subset_reach List.mem_cons_self,
          fun x hx => hsub (List.mem_append_right _ hx)⟩, hclosed⟩

/-- With enough steps the search finds just what can be reached. -/
theorem mem_reach_iff {steps : Nat} (hnext : ∀ id, n ≤ id → next id = [])
    (hsteps : todo.length + pending next n [] < steps) :
    x ∈ reach next steps todo [] ↔ ∃ t ∈ todo, ReflTransGen (fun a b => b ∈ next a) t x := by
  obtain ⟨hsub, hclosed⟩ := reach_closed hnext (by simp) hsteps
  constructor
  · exact fun h => (reaches_of_mem_reach h).resolve_left List.not_mem_nil
  · rintro ⟨t, ht, htx⟩
    induction htx with
    | refl => exact hsub ht
    | tail _ hxy ih => exact hclosed _ ih _ hxy

namespace TokenGraph

variable {g : TokenGraph}

theorem walkBound_eq :
    Provenance.walkBound g = g.roots.length + pending g.children g.size [] + 1 := by
  rw [Provenance.walkBound, ← pending_nil fun n : Node => n.children]
  rfl

/-- A node is found if a path leads to it from a root. -/
theorem mem_reachable_iff : x ∈ g.reachable ↔ ∃ r ∈ g.roots, ReflTransGen g.Edge r x :=
  mem_reach_iff children_of_size_le (by rw [walkBound_eq]; exact Nat.lt_succ_self _)

theorem nodup_reachable : g.reachable.Nodup := nodup_reach List.nodup_nil

end TokenGraph

end PhraseGraph
