import PhraseGraph.Graph.Forest
import PhraseGraph.Proofs.Paths

/-!
# The edges of a forest

In the forest of a list of tokens the places of the tokens are the nodes. A token hangs off an end
slot, or off none (`anchorAt`), and its parents are the tokens that end there; those that hang off
none are the roots. Every token ends after the slot that it hangs off, so an edge leads to a token
that hangs off a later slot (`levelAt_lt_of_edge`), and every token can be reached from a root
(`exists_parent_of_anchorAt`).
-/

namespace PhraseGraph.Forest

open TokenGraph

/-! ### Places of a mark -/

section PlacesOf

variable {α : Type} [BEq α] [LawfulBEq α] {mark : α} {l : List α} {j : Nat}

theorem mem_placesOf_iff : j ∈ placesOf mark l.zipIdx ↔ l[j]? = some mark := by
  simp only [placesOf, List.mem_map, List.mem_filter, beq_iff_eq]
  constructor
  · rintro ⟨⟨a, i⟩, ⟨hmem, rfl⟩, rfl⟩
    exact List.mem_zipIdx_iff_getElem?.1 hmem
  · intro h
    exact ⟨(mark, j), ⟨List.mem_zipIdx_iff_getElem?.2 h, rfl⟩, rfl⟩

omit [LawfulBEq α] in
theorem nodup_placesOf : (placesOf mark l.zipIdx).Nodup := by
  have hsub : (placesOf mark l.zipIdx).Sublist (l.zipIdx.map Prod.snd) := List.filter_sublist.map _
  rw [List.zipIdx_map_snd] at hsub
  exact hsub.nodup List.nodup_range'

end PlacesOf

/-! ### The token at a place -/

/-- The token at a place. -/
def tokenAt (tokens : List Token) (k : Nat) : Token := tokens.getD k default

/-- The slot that the token at a place hangs off. -/
def anchorAt (tokens : List Token) (k : Nat) : Option Nat :=
  anchor? (endSlots tokens) (tokenAt tokens k).position

/-- The slot after the token at a place. -/
def endAt (tokens : List Token) (k : Nat) : Nat := (tokenAt tokens k).endPosition

/-- How far the slot that a token hangs off is from the beginning. -/
def levelAt (tokens : List Token) (k : Nat) : Nat := (anchorAt tokens k).elim 0 (· + 1)

variable {tokens : List Token} {phrase : String} {i j k : Nat}

theorem tokenAt_eq_getElem (hk : k < tokens.length) : tokenAt tokens k = tokens[k] := by
  simp [tokenAt, hk]

theorem tokenAt_mem (hk : k < tokens.length) : tokenAt tokens k ∈ tokens := by
  rw [tokenAt_eq_getElem hk]
  exact List.getElem_mem hk

theorem getElem?_map_eq_some_iff {α : Type} {f : Token → α} {a : α} :
    (tokens.map f)[k]? = some a ↔ k < tokens.length ∧ f (tokenAt tokens k) = a := by
  by_cases hk : k < tokens.length <;> simp [hk, tokenAt]

theorem mem_endSlots_iff {slot : Nat} :
    slot ∈ endSlots tokens ↔ ∃ k < tokens.length, endAt tokens k = slot := by
  simp only [List.mem_iff_getElem?, endSlots, getElem?_map_eq_some_iff, endAt]

theorem anchorAt_eq_some_iff {slot : Nat} : anchorAt tokens k = some slot ↔
    (slot ∈ endSlots tokens ∧ slot ≤ (tokenAt tokens k).position) ∧
      ∀ s ∈ endSlots tokens, s ≤ (tokenAt tokens k).position → s ≤ slot := by
  rw [anchorAt, anchor?, List.max?_eq_some_iff]
  simp

theorem anchorAt_eq_none_iff :
    anchorAt tokens k = none ↔ ∀ s ∈ endSlots tokens, (tokenAt tokens k).position < s := by
  rw [anchorAt, anchor?, List.max?_eq_none_iff]
  simp

theorem position_lt_endAt : (tokenAt tokens k).position < endAt tokens k := by
  simp only [endAt, Token.endPosition, Token.span]
  omega

/-- A token hangs off the end of some other one. -/
theorem exists_parent_of_anchorAt {slot : Nat} (h : anchorAt tokens k = some slot) :
    ∃ i < tokens.length, endAt tokens i = slot :=
  mem_endSlots_iff.1 (anchorAt_eq_some_iff.1 h).1.1

theorem levelAt_le : levelAt tokens k ≤ endAt tokens k := by
  have hpos : (tokenAt tokens k).position < endAt tokens k := position_lt_endAt
  cases h : anchorAt tokens k with
  | none => simp [levelAt, h]
  | some slot =>
    have := (anchorAt_eq_some_iff.1 h).1.2
    simp only [levelAt, h, Option.elim_some]
    omega

theorem levelAt_lt_of_anchorAt (h : anchorAt tokens j = some (endAt tokens k)) :
    levelAt tokens k < levelAt tokens j := by
  have : levelAt tokens k ≤ endAt tokens k := levelAt_le
  simp only [levelAt, h, Option.elim_some] at this ⊢
  omega

/-! ### The forest -/

theorem zipWith_map_self {α β γ : Type} (f : α → β → γ) (g : α → β) (l : List α) :
    l.zipWith f (l.map g) = l.map fun a => f a (g a) := by
  rw [List.zipWith_map_right, List.zipWith_self]

theorem ofTokens_nodes : (ofTokens tokens phrase).nodes = (tokens.map fun t =>
    node (endSlots tokens).zipIdx (anchors tokens).zipIdx (endSlots tokens).max? t
      (anchor? (endSlots tokens) t.position)).toArray := by
  simp only [ofTokens, anchors, zipWith_map_self]

theorem size_ofTokens : (ofTokens tokens phrase).size = tokens.length := by
  simp [TokenGraph.size, ofTokens_nodes]

theorem node_ofTokens (hk : k < tokens.length) : (ofTokens tokens phrase).node k =
    node (endSlots tokens).zipIdx (anchors tokens).zipIdx (endSlots tokens).max?
      (tokenAt tokens k) (anchorAt tokens k) := by
  simp [TokenGraph.node, ofTokens_nodes, hk, tokenAt, anchorAt]

theorem token_ofTokens (hk : k < tokens.length) : ((ofTokens tokens phrase).node k).token =
    { tokenAt tokens k with positionLength := (tokenAt tokens k).span } := by
  rw [node_ofTokens hk]
  rfl

theorem text_ofTokens (hk : k < tokens.length) :
    (ofTokens tokens phrase).text k = (tokenAt tokens k).text := by
  rw [TokenGraph.text, token_ofTokens hk]

theorem getElem?_anchors_iff {slot : Option Nat} :
    (anchors tokens)[k]? = some slot ↔ k < tokens.length ∧ anchorAt tokens k = slot :=
  getElem?_map_eq_some_iff

theorem mem_roots_iff :
    k ∈ (ofTokens tokens phrase).roots ↔ k < tokens.length ∧ anchorAt tokens k = none :=
  mem_placesOf_iff.trans getElem?_anchors_iff

theorem edge_iff : (ofTokens tokens phrase).Edge k j ↔
    k < tokens.length ∧ j < tokens.length ∧ anchorAt tokens j = some (endAt tokens k) := by
  by_cases hk : k < tokens.length
  · rw [Edge, TokenGraph.children, node_ofTokens hk]
    exact (mem_placesOf_iff.trans getElem?_anchors_iff).trans (by simp [hk, endAt])
  · have hnode : (ofTokens tokens phrase).node k = default := node_of_size_le
      (size_ofTokens.symm ▸ Nat.not_lt.1 hk)
    simp only [Edge, TokenGraph.children, hnode, hk, false_and, iff_false]
    exact List.not_mem_nil

theorem mem_parents_iff : i ∈ ((ofTokens tokens phrase).node k).parents ↔
    k < tokens.length ∧ i < tokens.length ∧ anchorAt tokens k = some (endAt tokens i) := by
  by_cases hk : k < tokens.length
  · rw [node_ofTokens hk]
    simp only [node, hk, true_and]
    cases h : anchorAt tokens k with
    | none => simp
    | some slot =>
      rw [mem_placesOf_iff, endSlots, getElem?_map_eq_some_iff, Option.some_inj, eq_comm (a := slot)]
      rfl
  · have hnode : (ofTokens tokens phrase).node k = default := node_of_size_le
      (size_ofTokens.symm ▸ Nat.not_lt.1 hk)
    simp only [hnode, hk, false_and, iff_false]
    exact List.not_mem_nil

theorem nodup_children : ((ofTokens tokens phrase).children k).Nodup := by
  by_cases hk : k < tokens.length
  · rw [TokenGraph.children, node_ofTokens hk]
    exact nodup_placesOf
  · rw [TokenGraph.children, node_of_size_le (size_ofTokens.symm ▸ Nat.not_lt.1 hk)]
    exact List.nodup_nil

theorem nodup_parents : ((ofTokens tokens phrase).node k).parents.Nodup := by
  by_cases hk : k < tokens.length
  · rw [node_ofTokens hk]
    simp only [node]
    split
    · exact nodup_placesOf
    · exact List.nodup_nil
  · rw [node_of_size_le (size_ofTokens.symm ▸ Nat.not_lt.1 hk)]
    exact List.nodup_nil

theorem inRange_ofTokens : (ofTokens tokens phrase).InRange where
  roots_lt r hr := by
    rw [size_ofTokens]
    exact (mem_roots_iff.1 hr).1
  children_lt i c hc := by
    rw [size_ofTokens]
    exact (edge_iff.1 hc).2.1
  parents_lt i p hp := by
    rw [size_ofTokens]
    exact (mem_parents_iff.1 hp).2.1

/-- The tokens that end last are the ends. -/
theorem isEnd_iff (hk : k < tokens.length) : (ofTokens tokens phrase).isEnd k = true ↔
    ∀ j < tokens.length, endAt tokens j ≤ endAt tokens k := by
  have hmem : endAt tokens k ∈ endSlots tokens := mem_endSlots_iff.2 ⟨k, hk, rfl⟩
  rw [isEnd, node_ofTokens hk]
  simp only [node, beq_iff_eq, List.max?_eq_some_iff]
  constructor
  · intro h j hj
    exact h.2 _ (mem_endSlots_iff.2 ⟨j, hj, rfl⟩)
  · intro h
    refine ⟨hmem, fun slot hslot => ?_⟩
    obtain ⟨j, hj, rfl⟩ := mem_endSlots_iff.1 hslot
    exact h j hj

variable (phrase) in
/-- Every token can be reached from a root. -/
theorem exists_root_reaches (hk : k < tokens.length) :
    ∃ r ∈ (ofTokens tokens phrase).roots,
      Relation.ReflTransGen (ofTokens tokens phrase).Edge r k := by
  -- The token where this one hangs off is on a lower level.
  generalize hn : levelAt tokens k = n
  induction n using Nat.strongRecOn generalizing k with
  | _ n ih =>
    cases h : anchorAt tokens k with
    | none => exact ⟨k, mem_roots_iff.2 ⟨hk, h⟩, .refl⟩
    | some slot =>
      obtain ⟨i, hi, rfl⟩ := exists_parent_of_anchorAt h
      obtain ⟨r, hr, hri⟩ := ih _ (hn ▸ levelAt_lt_of_anchorAt h) hi rfl
      exact ⟨r, hr, hri.tail (edge_iff.2 ⟨hi, hk, h⟩)⟩

end PhraseGraph.Forest
