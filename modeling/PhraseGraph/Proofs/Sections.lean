import Mathlib.Algebra.Group.Nat.Defs
import Mathlib.Data.List.Nodup
import Mathlib.Data.List.Sections
import PhraseGraph.Combinations

/-!
# Combinations as sections

The sections of a list of dimensions are all ways to pick one item of each (`List.mem_sections`). They are
listed by recursion on the dimensions: each section of the others stands with all items of the first
dimension in turn, so these change fastest. None comes twice if no dimension has an item twice.

Combinations are listed by their numbers. The combination with a number is the section at this place
(`getElem?_sections`): in blocks of the length of the first dimension, the remainder of the number is the
place of the item, and the quotient is the number of the other items. So a list of combinations in progress
goes through all sections in order (`Combinations.toList_eq`).
-/

namespace PhraseGraph

variable {α β γ : Type}

theorem nodup_sections {dimensions : List (List α)} (h : ∀ dimension ∈ dimensions, dimension.Nodup) :
    dimensions.sections.Nodup := by
  induction dimensions with
  | nil => exact List.nodup_singleton _
  | cons dimension rest ih =>
    obtain ⟨hdimension, hrest⟩ := List.forall_mem_cons.1 h
    refine List.nodup_flatMap.2 ⟨fun items _ => ?_, (ih hrest).imp fun hne => ?_⟩
    · exact hdimension.map fun a b hab => (List.cons.inj hab).1
    · refine List.disjoint_left.2 fun items hitems hitems' => hne ?_
      obtain ⟨a, -, rfl⟩ := List.mem_map.1 hitems
      obtain ⟨b, -, heq⟩ := List.mem_map.1 hitems'
      exact (List.cons.inj heq).2.symm

theorem length_sections (dimensions : List (List α)) :
    dimensions.sections.length = (dimensions.map List.length).prod := by
  induction dimensions with
  | nil => rfl
  | cons dimension rest ih => simp [List.sections, List.length_flatMap, ih, Nat.mul_comm]

/-! ### Numbers of combinations -/

/-- In a list of blocks of one length, the quotient of a place tells the block. -/
theorem getElem?_flatMap_map {l : List β} {block : List α} {f : β → α → γ} (n : Nat) :
    (l.flatMap fun b => block.map (f b))[n]? =
      l[n / block.length]?.bind fun b => block[n % block.length]?.map (f b) := by
  rcases Nat.eq_zero_or_pos block.length with hnil | hpos
  · rw [List.length_eq_zero_iff.1 hnil]
    cases l[n / ([] : List α).length]? <;> simp
  · induction l generalizing n with
    | nil => rfl
    | cons b l ih =>
      rw [List.flatMap_cons, List.getElem?_append, List.length_map]
      split
      · next hlt => rw [Nat.div_eq_of_lt hlt, Nat.mod_eq_of_lt hlt, List.getElem?_map]; rfl
      · next hge =>
        obtain ⟨m, rfl⟩ := Nat.exists_eq_add_of_le' (Nat.le_of_not_lt hge)
        rw [Nat.add_sub_cancel, ih, Nat.add_div_right _ hpos, Nat.add_mod_right,
          List.getElem?_cons_succ]

/-- The combination with a number is the section at this place. -/
theorem getElem?_sections (dimensions : List (List α)) (n : Nat) : dimensions.sections[n]? =
    if n < (dimensions.map List.length).prod then combinationAt? dimensions n else none := by
  induction dimensions generalizing n with
  | nil =>
    rw [List.sections, List.map_nil, List.prod_nil, combinationAt?]
    split
    · next hlt => rw [Nat.lt_one_iff.1 hlt]; rfl
    · next hge => exact List.getElem?_eq_none (Nat.le_of_not_lt hge)
  | cons dimension rest ih =>
    rw [List.sections, getElem?_flatMap_map, ih, List.map_cons, List.prod_cons, combinationAt?]
    rcases Nat.eq_zero_or_pos dimension.length with hnil | hpos
    · simp [List.length_eq_zero_iff.1 hnil]
    · simp only [Nat.div_lt_iff_lt_mul hpos, Nat.mul_comm dimension.length]
      split
      · cases combinationAt? rest (n / dimension.length) <;>
          cases dimension[n % dimension.length]? <;> rfl
      · rfl

theorem filterMap_getElem?_range (l : List α) (n : Nat) :
    (List.range n).filterMap (l[·]?) = l.take n := by
  induction n with
  | zero => rfl
  | succ n ih =>
    rw [List.range_succ, List.filterMap_append, ih, List.take_add_one]
    cases hlast : l[n]? <;> simp [hlast]

theorem eq_mul_prod_of_productFrom? {count size : Nat} {l : List Nat}
    (h : productFrom? count l = some size) : size = count * l.prod := by
  induction l generalizing count with
  | nil =>
    obtain rfl := Option.some_inj.1 h
    rw [List.prod_nil, Nat.mul_one]
  | cons n rest ih =>
    change (if count * n < 2 ^ 64 then productFrom? (count * n) rest else none) = some size at h
    split at h
    · rw [ih h, List.prod_cons, Nat.mul_assoc]
    · exact absurd h (by simp)

namespace Combinations

variable {dimensions : List (List α)} {c : Combinations α}

theorem ofDimensions_eq_ok (h : ofDimensions dimensions = .ok c) :
    c = { dimensions, size := dimensions.sections.length, next := 0 } := by
  rw [ofDimensions] at h
  split at h
  · next size hsize =>
    obtain rfl := Except.ok.inj h
    rw [eq_mul_prod_of_productFrom? hsize, Nat.one_mul, length_sections]
  · exact absurd h (by simp)

theorem at?_eq (h : ofDimensions dimensions = .ok c) : c.at? = (dimensions.sections[·]?) := by
  obtain rfl := ofDimensions_eq_ok h
  funext n
  rw [at?, getElem?_sections, length_sections]

/-- If there are not too many, all combinations are listed in order. -/
theorem toList_eq (h : ofDimensions dimensions = .ok c) : c.toList = dimensions.sections := by
  have hsize : c.size = dimensions.sections.length := by rw [ofDimensions_eq_ok h]
  have hlist : c.toList = (List.range c.size).filterMap c.at? := by
    rw [List.range_eq_range', toList, upcoming, restart, remaining, Nat.sub_zero, Nat.min_self]
    rfl
  rw [hlist, at?_eq h, hsize, filterMap_getElem?_range, List.take_length]

end Combinations

end PhraseGraph
