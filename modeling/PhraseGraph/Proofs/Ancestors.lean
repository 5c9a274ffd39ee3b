import Mathlib.Data.List.Perm.Subperm
import Mathlib.Data.Nat.Find
import Mathlib.Logic.Relation
import PhraseGraph.Catalogue
import PhraseGraph.Proofs.Entries

/-!
# The way up from a source

From each source with a parent there is a way up through the catalogue (`Catalogue.above?`). It need not
end: a source may be its own parent, or above itself in some other way. So a search for an ancestor gives
up after some steps.

On the shortest way to an ancestor no source is passed twice, for the steps between the two times could
be left out. All sources on the way have a parent, so there are at most as many steps as sources with a
parent (`Catalogue.exists_lt_size`), and the search misses nothing
(`Catalogue.isAncestor_iff_transGen`).
-/

namespace PhraseGraph

namespace Catalogue

variable {c : Catalogue} {ancestor source : String} {k m n : Nat}

/-- The first source is a child of the second one. -/
def IsChild (c : Catalogue) (child parent : String) : Prop := c.parents.get? child = some parent

/-- The source that so many steps up from a source lead to. -/
def above? (c : Catalogue) : (steps : Nat) → String → Option String
  | 0, source => some source
  | steps + 1, source => (c.parents.get? source).bind (c.above? steps)

theorem above?_add : c.above? (m + n) source = (c.above? m source).bind (c.above? n) := by
  induction m generalizing source with
  | zero => rw [Nat.zero_add, above?, Option.bind_some]
  | succ m ih =>
    rw [Nat.succ_add, above?, above?, Option.bind_assoc]
    exact congrArg _ (funext fun parent => ih)

/-- The ways up are the chains of parents. -/
theorem exists_above?_iff :
    (∃ k, c.above? (k + 1) source = some ancestor) ↔ Relation.TransGen c.IsChild source ancestor := by
  constructor
  · rintro ⟨k, hk⟩
    induction k generalizing source with
    | zero =>
      obtain ⟨parent, hparent, habove⟩ := Option.bind_eq_some_iff.1 hk
      exact .single (Option.some_inj.1 habove ▸ hparent)
    | succ k ih =>
      obtain ⟨parent, hparent, habove⟩ := Option.bind_eq_some_iff.1 hk
      exact .head hparent (ih habove)
  · intro h
    induction h using Relation.TransGen.head_induction_on with
    | single hparent => exact ⟨0, by rw [above?, hparent]; rfl⟩
    | head hparent _ ih =>
      obtain ⟨k, hk⟩ := ih
      exact ⟨k + 1, by rw [above?, hparent]; exact hk⟩

/-- A source from which a way leads up has a parent. -/
theorem exists_mem_keys_of_lt (h : c.above? n source = some ancestor) (hk : k < n) :
    ∃ passed ∈ c.parents.keys, c.above? k source = some passed := by
  obtain ⟨m, rfl⟩ := Nat.exists_eq_add_of_lt hk
  rw [Nat.add_assoc, above?_add] at h
  obtain ⟨passed, hpassed, habove⟩ := Option.bind_eq_some_iff.1 h
  obtain ⟨parent, hparent, -⟩ := Option.bind_eq_some_iff.1 habove
  exact ⟨passed, Dict.mem_keys_iff.2 ⟨parent, hparent⟩, hpassed⟩

/-- A way that comes to one source twice can be cut short. -/
theorem above?_of_eq (h : c.above? (m + n + k) source = some ancestor)
    (heq : c.above? (m + n) source = c.above? m source) : c.above? (m + k) source = some ancestor := by
  rwa [above?_add, ← heq, ← above?_add]

/-- An ancestor is reached in as many steps as there are sources with a parent, or in fewer. -/
theorem exists_lt_size (h : ∃ k, c.above? (k + 1) source = some ancestor) :
    ∃ k < c.parents.size, c.above? (k + 1) source = some ancestor := by
  classical
  refine ⟨Nat.find h, ?_, Nat.find_spec h⟩
  have hway := Nat.find_spec h
  have hshortest : ∀ k < Nat.find h, c.above? (k + 1) source ≠ some ancestor :=
    fun k hk => Nat.find_min h hk
  generalize Nat.find h = steps at hway hshortest ⊢
  -- The sources that are passed, the first one included, are different.
  have hapart : ∀ i j, i < j → j ≤ steps → c.above? j source ≠ c.above? i source := by
    intro i j hij hj heq
    obtain ⟨n, rfl⟩ := Nat.exists_eq_add_of_le hij.le
    obtain ⟨k, rfl⟩ := Nat.exists_eq_add_of_le hj
    exact hshortest (i + k) (by omega) (above?_of_eq (k := k + 1) hway heq)
  have hnodup : ((List.range (steps + 1)).map fun k => c.above? k source).Nodup := by
    refine List.pairwise_map.2 (List.pairwise_lt_range.imp_of_mem fun {i j} _ hj hij => ?_)
    exact (hapart i j hij (Nat.lt_succ_iff.1 (List.mem_range.1 hj))).symm
  have hsubset : ((List.range (steps + 1)).map fun k => c.above? k source) ⊆
      c.parents.keys.map some := by
    intro passed? hpassed?
    obtain ⟨k, hk, rfl⟩ := List.mem_map.1 hpassed?
    obtain ⟨passed, hkey, hpassed⟩ := exists_mem_keys_of_lt hway (List.mem_range.1 hk)
    exact List.mem_map.2 ⟨passed, hkey, hpassed.symm⟩
  have hlength := (List.subperm_of_subset hnodup hsubset).length_le
  rwa [List.length_map, List.length_range, List.length_map, Dict.keys, List.length_map] at hlength

/-- A search for an ancestor looks at as many sources as it may take steps. -/
theorem isAncestorWithin_iff : c.isAncestorWithin ancestor n source = true ↔
    ∃ k < n, c.above? (k + 1) source = some ancestor := by
  induction n generalizing source with
  | zero => simp [isAncestorWithin]
  | succ n ih =>
    rw [isAncestorWithin, Nat.exists_lt_succ_left]
    cases hparent : c.parents.get? source with
    | none => simp [above?, hparent]
    | some parent => simp [above?, hparent, ih]

/-- A source is an ancestor of another one if and only if one or more steps from child to parent lead
    there, also where the way up goes in a circle. -/
theorem isAncestor_iff_transGen (c : Catalogue) (ancestor source : String) :
    c.isAncestor ancestor source = true ↔ Relation.TransGen c.IsChild source ancestor := by
  rw [← exists_above?_iff, isAncestor, isAncestorWithin_iff]
  constructor
  · rintro ⟨k, -, hk⟩
    exact ⟨k, hk⟩
  · intro h
    obtain ⟨k, hlt, hk⟩ := exists_lt_size h
    exact ⟨k, Nat.lt_succ_of_lt hlt, hk⟩

/-- A circle through all sources with a parent leads back after as many steps as there are of them. -/
example : ({ parents := .ofList [("x", "y"), ("y", "z"), ("z", "x")] } : Catalogue).isAncestor "x" "x" =
    true := by decide +kernel

end Catalogue

end PhraseGraph
