import Mathlib.Data.List.Pairwise
import Mathlib.Data.List.Sort
import Mathlib.Data.String.Basic
import PhraseGraph.StableSort

/-!
# Sorted lists

The sort is an insertion sort, and the order of texts is a linear one. In lists whose keys ascend each
key has one place, so two such lists with the same keys are gone through side by side
(`forall₂_of_pairwise_lt`).
-/

namespace PhraseGraph

variable {α : Type} {le : α → α → Bool} {l : List α}

theorem insertInOrder_eq (a : α) :
    insertInOrder le a l = l.orderedInsert (fun a b => le a b = true) a := by
  induction l with
  | nil => rfl
  | cons b l ih => rw [insertInOrder, List.orderedInsert, ih]

theorem stableSort_eq : stableSort le l = l.insertionSort (fun a b => le a b = true) := by
  induction l with
  | nil => rfl
  | cons a l ih =>
    rw [stableSort, ih, insertInOrder_eq]
    rfl

theorem stableSort_perm : (stableSort le l).Perm l := by
  rw [stableSort_eq]
  exact List.perm_insertionSort _ l

theorem textLe_iff {s t : String} : textLe s t = true ↔ s ≤ t := by
  rw [textLe, Bool.not_eq_true', decide_eq_false_iff_not, not_lt]

theorem pairwise_stableSort (key : α → String) :
    (stableSort (fun a b => textLe (key a) (key b)) l).Pairwise fun a b => key a ≤ key b := by
  simp only [stableSort_eq, textLe_iff]
  have : Std.Total fun a b => key a ≤ key b := ⟨fun a b => le_total (key a) (key b)⟩
  have : IsTrans α fun a b => key a ≤ key b := ⟨fun _ _ _ => le_trans⟩
  exact List.pairwise_insertionSort _ l

/-- Two elements of a list are one, or the one that comes first is related to the other as the list has
    it. -/
theorem eq_or_of_pairwise {R : α → α → Prop} (h : l.Pairwise R) {a b : α} (ha : a ∈ l) (hb : b ∈ l) :
    a = b ∨ R a b ∨ R b a := by
  have hsymm : Std.Symm fun a b => a = b ∨ R a b ∨ R b a := ⟨fun _ _ => Or.imp Eq.symm Or.symm⟩
  have heither : l.Pairwise fun a b => a = b ∨ R a b ∨ R b a := h.imp fun hab => .inr (.inl hab)
  exact heither.forall_of_forall (fun _ _ => .inl rfl) ha hb

/-- Where keys ascend none comes twice. -/
theorem eq_of_pairwise_lt {key : α → String} (h : l.Pairwise fun a b => key a < key b) {a b : α}
    (ha : a ∈ l) (hb : b ∈ l) (hab : key a = key b) : a = b := by
  have hnodup : (l.map key).Nodup := List.pairwise_map.2 (h.imp fun hlt => ne_of_lt hlt)
  exact List.inj_on_of_nodup_map hnodup ha hb hab

/-- Where keys ascend the first one is the least. -/
theorem key_le_of_pairwise_lt {key : α → String} {a b : α}
    (h : (a :: l).Pairwise fun a b => key a < key b) (hb : b ∈ a :: l) : key a ≤ key b := by
  rcases List.mem_cons.1 hb with rfl | hb
  · exact le_rfl
  · exact ((List.pairwise_cons.1 h).1 b hb).le

/-- Lists whose keys ascend are related one by one if all their elements are related to some in the other
    list, and only to those with their own key. -/
theorem forall₂_of_pairwise_lt {β : Type} {R : α → β → Prop} {key : α → String} {key' : β → String}
    {l' : List β} (hkey : ∀ a b, R a b → key a = key' b)
    (hl : l.Pairwise fun a b => key a < key b) (hl' : l'.Pairwise fun a b => key' a < key' b)
    (hto : ∀ a ∈ l, ∃ b ∈ l', R a b) (hfrom : ∀ b ∈ l', ∃ a ∈ l, R a b) : List.Forall₂ R l l' := by
  induction l generalizing l' with
  | nil =>
    cases l' with
    | nil => exact .nil
    | cons b l' =>
      obtain ⟨a, ha, -⟩ := hfrom b List.mem_cons_self
      exact absurd ha List.not_mem_nil
  | cons a l ih =>
    obtain ⟨d, hd, had⟩ := hto a List.mem_cons_self
    cases l' with
    | nil => exact absurd hd List.not_mem_nil
    | cons b l' =>
      obtain ⟨c, hc, hcb⟩ := hfrom b List.mem_cons_self
      -- The first elements have the least keys of their lists, so these are one key.
      have hab : key a = key' b := le_antisymm
        ((key_le_of_pairwise_lt hl hc).trans_eq (hkey c b hcb))
        ((key_le_of_pairwise_lt hl' hd).trans_eq (hkey a d had).symm)
      obtain rfl : d = b :=
        eq_of_pairwise_lt hl' hd List.mem_cons_self ((hkey a d had).symm.trans hab)
      obtain ⟨hlt, hl⟩ := List.pairwise_cons.1 hl
      obtain ⟨hlt', hl'⟩ := List.pairwise_cons.1 hl'
      refine .cons had (ih hl hl' (fun x hx => ?_) fun y hy => ?_)
      · obtain ⟨y, hy, hxy⟩ := hto x (List.mem_cons_of_mem a hx)
        refine ⟨y, (List.mem_cons.1 hy).resolve_left fun heq => (hlt x hx).ne ?_, hxy⟩
        rw [hab, hkey x y hxy, heq]
      · obtain ⟨x, hx, hxy⟩ := hfrom y (List.mem_cons_of_mem d hy)
        refine ⟨x, (List.mem_cons.1 hx).resolve_left fun heq => (hlt' y hy).ne ?_, hxy⟩
        rw [← hab, ← hkey x y hxy, heq]

/-- What stands in order stays as it is. -/
theorem stableSort_of_pairwise (h : l.Pairwise fun a b => le a b = true) : stableSort le l = l := by
  rw [stableSort_eq]
  exact List.Pairwise.insertionSort_eq h

/-- What stands in order among others stays in this order. -/
theorem filter_stableSort {p : α → Bool} (h : (l.filter p).Pairwise fun a b => le a b = true) :
    (stableSort le l).filter p = l.filter p := by
  have hsub : (l.filter p).Sublist (stableSort le l) := by
    rw [stableSort_eq]
    exact List.sublist_insertionSort h List.filter_sublist
  have hsub : (l.filter p).Sublist ((stableSort le l).filter p) := by
    simpa only [List.filter_filter, Bool.and_self] using hsub.filter p
  exact (hsub.eq_of_length (stableSort_perm.filter p).length_eq.symm).symm

end PhraseGraph
