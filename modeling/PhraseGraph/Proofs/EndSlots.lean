import PhraseGraph.Proofs.Forest

/-!
# What the end slots tell of a forest

The tokens of a list may come in any order, overlap, leave slots out and span no slot at all. Which tokens
a token follows is found in several ways: none, if it begins at the first slot of all; those that end
where it begins, if there are any; else those that end at the nearest slot before, if there is one
(`slotBefore?`). All of these come to one rule, by which the whole forest is known: a token follows the
tokens that end last among those that do not end after its position (`EndsLastBefore`). Whatever the
tokens are, the forest is a graph without cycles in which every token can be reached from a root.

Main statement: `ofTokens_follows_endSlots`.
-/

namespace PhraseGraph.Forest

open TokenGraph Relation

variable {tokens : List Token} {phrase : String} {i k : Nat}

/-- The token at `i` ends last of those that do not end after the position of the token at `k`. -/
structure EndsLastBefore (tokens : List Token) (i k : Nat) : Prop where
  endAt_le : endAt tokens i ≤ (tokenAt tokens k).position
  le_endAt : ∀ j < tokens.length, endAt tokens j ≤ (tokenAt tokens k).position →
    endAt tokens j ≤ endAt tokens i

theorem anchorAt_eq_some_endAt_iff (hi : i < tokens.length) :
    anchorAt tokens k = some (endAt tokens i) ↔ EndsLastBefore tokens i k := by
  rw [anchorAt_eq_some_iff]
  constructor
  · intro ⟨⟨_, hle⟩, hlast⟩
    exact ⟨hle, fun j hj => hlast _ (mem_endSlots_iff.2 ⟨j, hj, rfl⟩)⟩
  · intro h
    refine ⟨⟨mem_endSlots_iff.2 ⟨i, hi, rfl⟩, h.endAt_le⟩, fun slot hslot hle => ?_⟩
    obtain ⟨j, hj, rfl⟩ := mem_endSlots_iff.1 hslot
    exact h.le_endAt j hj hle

theorem anchorAt_eq_none_iff_forall : anchorAt tokens k = none ↔
    ∀ i < tokens.length, (tokenAt tokens k).position < endAt tokens i := by
  rw [anchorAt_eq_none_iff]
  constructor
  · exact fun h i hi => h _ (mem_endSlots_iff.2 ⟨i, hi, rfl⟩)
  · intro h slot hslot
    obtain ⟨i, hi, rfl⟩ := mem_endSlots_iff.1 hslot
    exact h i hi

/-! ### Where a token is put -/

/-- The end slot that a token at `position` is put after: none at the first slot, its own slot if some
    token ends there, else the nearest one before, if there is one. -/
def slotBefore? (tokens : List Token) (position : Nat) : Option Nat :=
  if ∀ t ∈ tokens, position ≤ t.position then none
  else if position ∈ endSlots tokens then some position
  else ((endSlots tokens).filter (· < position)).max?

/-- The cases come to one rule. -/
theorem slotBefore?_eq_anchorAt (tokens : List Token) (k : Nat) :
    slotBefore? tokens (tokenAt tokens k).position = anchorAt tokens k := by
  rw [slotBefore?]
  split
  · next hfirst =>
    -- Every token ends after its position, so none ends at the first slot of all.
    refine (anchorAt_eq_none_iff_forall.2 fun i hi => ?_).symm
    exact (hfirst _ (tokenAt_mem hi)).trans_lt position_lt_endAt
  · split
    · next hmem => exact (anchorAt_eq_some_iff.2 ⟨⟨hmem, le_rfl⟩, fun _ _ hle => hle⟩).symm
    · next hmem =>
      -- No token ends at the position itself, so the slots up to it are those before it.
      rw [anchorAt, anchor?]
      congr 1
      refine List.filter_congr fun slot hslot => ?_
      have hne : slot ≠ (tokenAt tokens k).position := fun heq => hmem (heq ▸ hslot)
      simp only [decide_eq_decide]
      omega

/-- The tokens that end at a slot, in the order of the list. -/
def endingAt (tokens : List Token) (slot : Nat) : List Nat :=
  (List.range tokens.length).filter fun i => endAt tokens i == slot

theorem placesOf_endSlots (slot : Nat) :
    placesOf slot (endSlots tokens).zipIdx = endingAt tokens slot := by
  have hzip : (endSlots tokens).zipIdx =
      (List.range tokens.length).map fun i => (endAt tokens i, i) := by
    refine List.ext_getElem (by simp [endSlots]) fun i hi _ => ?_
    have hi : i < tokens.length := by simpa [endSlots] using hi
    simp [endSlots, endAt, tokenAt_eq_getElem hi]
  rw [placesOf, hzip, List.filter_map, List.map_map]
  exact List.map_id _

theorem parents_ofTokens (hk : k < tokens.length) : ((ofTokens tokens phrase).node k).parents =
    (slotBefore? tokens (tokenAt tokens k).position).elim [] (endingAt tokens) := by
  rw [slotBefore?_eq_anchorAt, node_ofTokens hk]
  simp only [node]
  cases anchorAt tokens k with
  | none => rfl
  | some slot => exact placesOf_endSlots slot

/-! ### The main statement -/

/-- The graph has the tokens as its nodes, and its edges follow their end slots. -/
structure FollowsEndSlots (tokens : List Token) (g : TokenGraph) : Prop where
  size_eq : g.size = tokens.length
  /-- What a token follows, by the case that it falls under. -/
  parents_eq : ∀ k < tokens.length, (g.node k).parents =
    (slotBefore? tokens (tokenAt tokens k).position).elim [] (endingAt tokens)
  /-- What a token follows, by the rule. -/
  mem_parents_iff : ∀ i k, i ∈ (g.node k).parents ↔
    i < tokens.length ∧ k < tokens.length ∧ EndsLastBefore tokens i k
  mem_roots_iff : ∀ k, k ∈ g.roots ↔
    k < tokens.length ∧ ∀ i < tokens.length, (tokenAt tokens k).position < endAt tokens i
  /-- Parents and children tell of the same edges. -/
  mem_children_iff : ∀ i k, k ∈ g.children i ↔ i ∈ (g.node k).parents
  nodup_parents : ∀ k, (g.node k).parents.Nodup
  nodup_children : ∀ k, (g.children k).Nodup
  nodup_roots : g.roots.Nodup
  isEnd_iff : ∀ k < tokens.length,
    (g.isEnd k = true ↔ ∀ i < tokens.length, endAt tokens i ≤ endAt tokens k)
  /-- A token follows none that ends after its position. -/
  endAt_le_of_edge : ∀ i k, g.Edge i k → endAt tokens i ≤ (tokenAt tokens k).position
  acyclic : g.Acyclic
  exists_root_reaches : ∀ k < tokens.length, ∃ r ∈ g.roots, ReflTransGen g.Edge r k

/-- **A forest is known by the end slots of its tokens**, whatever the tokens are. -/
theorem ofTokens_follows_endSlots (tokens : List Token) (phrase : String) :
    FollowsEndSlots tokens (ofTokens tokens phrase) := by
  have hparents : ∀ i k, i ∈ ((ofTokens tokens phrase).node k).parents ↔
      i < tokens.length ∧ k < tokens.length ∧ EndsLastBefore tokens i k := fun i k => by
    rw [mem_parents_iff, and_left_comm]
    exact and_congr_right fun hi => and_congr_right fun _ => anchorAt_eq_some_endAt_iff hi
  have hedge : ∀ i k, (ofTokens tokens phrase).Edge i k ↔
      i ∈ ((ofTokens tokens phrase).node k).parents := fun i k => by
    rw [edge_iff, mem_parents_iff, and_left_comm]
  have hle : ∀ i k, (ofTokens tokens phrase).Edge i k →
      endAt tokens i ≤ (tokenAt tokens k).position := fun i k h =>
    ((hparents i k).1 ((hedge i k).1 h)).2.2.endAt_le
  exact
    { size_eq := size_ofTokens
      parents_eq := fun _ => parents_ofTokens
      mem_parents_iff := hparents
      mem_roots_iff := fun k => by rw [mem_roots_iff, anchorAt_eq_none_iff_forall]
      mem_children_iff := hedge
      nodup_parents := fun _ => nodup_parents
      nodup_children := fun _ => nodup_children
      nodup_roots := nodup_placesOf
      isEnd_iff := fun _ => isEnd_iff
      endAt_le_of_edge := hle
      acyclic := acyclic_of_rank (endAt tokens) fun i k h =>
        (hle i k h).trans_lt position_lt_endAt
      exists_root_reaches := fun _ => exists_root_reaches phrase }

end PhraseGraph.Forest

namespace PhraseGraph.Example

open Forest

/-- The words `new york city`, with a name for the first two and a word left out before the last one. -/
def leftOut : List Token :=
  [{ text := "nyc", startOffset := 0, endOffset := 8, kind := .synonym, position := 0,
     positionLength := 2 },
   { text := "new", startOffset := 0, endOffset := 3, position := 0 },
   { text := "york", startOffset := 4, endOffset := 8, position := 1 },
   { text := "city", startOffset := 13, endOffset := 17, position := 3 }]

example : (ofTokens leftOut "new york the city").nodes.toList.map Node.parents =
    [[], [], [1], [0, 2]] := by decide

end PhraseGraph.Example
