import Mathlib.Data.List.Nodup
import Mathlib.Logic.Relation
import PhraseGraph.Graph.Basic
import PhraseGraph.Proofs.Sorting

/-!
# Paths through a graph

A path begins at one of some siblings and goes on from each node to one of its children. It is
*whole* if it ends at an end node; the graph accepts the texts along the whole paths from its roots
(`TokenGraph.Accepts`).

What a text is matched against is compared with it word by word, so what counts is where a reader
stands after some words (`TokenGraph.After`). In a graph whose siblings ascend there is only one
such place (`Tidy.after_unique`).

A graph is *tidy* if its siblings ascend, it has no cycle, and its end nodes are those without
children. Its paths have no node twice, so they are not longer than the graph is large
(`Acyclic.length_le`), and each place leads to an end.
-/

namespace PhraseGraph.TokenGraph

open Relation

variable {g : TokenGraph} {ids path : List NodeId} {id : NodeId}

/-- An edge leads from `p` to `c`. -/
def Edge (g : TokenGraph) (p c : NodeId) : Prop := c ∈ g.children p

/-- No node can be reached from itself. -/
def Acyclic (g : TokenGraph) : Prop := ∀ id, ¬TransGen g.Edge id id

/-- The nodes of `path` follow one another, beginning with one of `ids`. -/
def IsPath (g : TokenGraph) : (ids path : List NodeId) → Prop
  | _, [] => True
  | ids, id :: path => id ∈ ids ∧ g.IsPath (g.children id) path

/-- The path leads from one of `ids` to an end node. Where there are no nodes to begin with, the
    path without nodes is a whole one. -/
def IsWhole (g : TokenGraph) (ids path : List NodeId) : Prop :=
  (ids = [] ∧ path = []) ∨ (g.IsPath ids path ∧ ∃ last ∈ path.getLast?, g.isEnd last = true)

/-- The words are the texts along a whole path from one of `ids` on. -/
def AcceptsFrom (g : TokenGraph) (ids : List NodeId) (ws : List String) : Prop :=
  ∃ path, g.IsWhole ids path ∧ path.map g.text = ws

/-- The words are the texts along a path from a root to an end node. -/
def Accepts (g : TokenGraph) (ws : List String) : Prop := g.AcceptsFrom g.roots ws

/-- After the words, read from `ids` on, the nodes that can follow are `rest`. -/
def After (g : TokenGraph) : (ids : List NodeId) → List String → (rest : List NodeId) → Prop
  | ids, [], rest => ids = rest
  | ids, w :: ws, rest => ∃ id ∈ ids, g.text id = w ∧ g.After (g.children id) ws rest

/-- The node is a root or a child. -/
def Listed (g : TokenGraph) (id : NodeId) : Prop := id ∈ g.roots ∨ ∃ p, g.Edge p id

/-- The texts of siblings ascend, so that no text comes twice. -/
def Ascends (g : TokenGraph) (ids : List NodeId) : Prop :=
  ids.Pairwise fun a b => g.text a < g.text b

instance : Decidable (g.Ascends ids) := inferInstanceAs (Decidable (ids.Pairwise _))

/-- Siblings ascend, there is no cycle, and the end nodes are the nodes without children. -/
structure Tidy (g : TokenGraph) : Prop where
  roots_ascend : g.Ascends g.roots
  children_ascend : ∀ id, g.Ascends (g.children id)
  acyclic : g.Acyclic
  end_iff : ∀ id, g.Listed id → (g.isEnd id = true ↔ g.children id = [])

theorem isWhole_nil_iff : g.IsWhole ids [] ↔ ids = [] := by
  simp [IsWhole]

/-! ### The length of a path -/

theorem node_of_size_le (h : g.size ≤ id) : g.node id = default := by
  rw [node, Array.getD_eq_getD_getElem?, Array.getElem?_eq_none h, Option.getD_none]

theorem children_of_size_le (id : NodeId) (h : g.size ≤ id) : g.children id = [] := by
  rw [children, node_of_size_le h]
  rfl

theorem lt_size_of_children_ne_nil (h : g.children id ≠ []) : id < g.size := by
  by_contra hid
  exact h (children_of_size_le id (Nat.not_lt.1 hid))

theorem IsPath.mono {ids' : List NodeId} (h : g.IsPath ids path) (hids : ids ⊆ ids') :
    g.IsPath ids' path := by
  cases path with
  | nil => trivial
  | cons id path => exact ⟨hids h.1, h.2⟩

theorem IsPath.transGen {x : NodeId} (h : g.IsPath (g.children id) path) (hx : x ∈ path) :
    TransGen g.Edge id x := by
  induction path generalizing id with
  | nil => exact absurd hx List.not_mem_nil
  | cons c path ih =>
    rcases List.mem_cons.1 hx with rfl | hx
    · exact .single h.1
    · exact .head h.1 (ih h.2 hx)

theorem Acyclic.nodup (hg : g.Acyclic) (h : g.IsPath ids path) : path.Nodup := by
  induction path generalizing ids with
  | nil => exact List.nodup_nil
  | cons id path ih =>
    exact List.nodup_cons.2 ⟨fun hid => hg id (h.2.transGen hid), ih h.2⟩

theorem IsPath.lt_size_of_mem_dropLast {x : NodeId} (h : g.IsPath ids path)
    (hx : x ∈ path.dropLast) : x < g.size := by
  induction path generalizing ids with
  | nil => exact absurd hx List.not_mem_nil
  | cons id path ih =>
    cases path with
    | nil => exact absurd hx List.not_mem_nil
    | cons c path =>
      rcases List.mem_cons.1 hx with rfl | hx
      · exact lt_size_of_children_ne_nil (List.ne_nil_of_mem h.2.1)
      · exact ih h.2 hx

/-- All nodes of a path but the last one have children, so they are nodes of the graph. -/
theorem IsPath.length_le_of_nodup (h : g.IsPath ids path) (hpath : path.Nodup) :
    path.length ≤ g.size + 1 := by
  have hsub : path.dropLast ⊆ List.range g.size := fun x hx =>
    List.mem_range.2 (h.lt_size_of_mem_dropLast hx)
  have hlen := (hpath.sublist (List.dropLast_sublist path)).length_le_of_subset hsub
  rw [List.length_dropLast, List.length_range] at hlen
  omega

theorem Acyclic.length_le (hg : g.Acyclic) (h : g.IsPath ids path) : path.length ≤ g.size + 1 :=
  h.length_le_of_nodup (hg.nodup h)

/-- No path from `ids` has more than `n` nodes. -/
def Bounded (g : TokenGraph) (n : Nat) (ids : List NodeId) : Prop :=
  ∀ path, g.IsPath ids path → path.length ≤ n

theorem Bounded.children {n : Nat} (h : g.Bounded (n + 1) ids) (hid : id ∈ ids) :
    g.Bounded n (g.children id) := fun path hpath =>
  Nat.le_of_succ_le_succ (h (id :: path) ⟨hid, hpath⟩)

theorem Bounded.eq_nil (h : g.Bounded 0 ids) : ids = [] := by
  cases ids with
  | nil => rfl
  | cons id ids => exact absurd (h [id] ⟨List.mem_cons_self, trivial⟩) (by simp)

theorem Acyclic.bounded (hg : g.Acyclic) (ids : List NodeId) : g.Bounded (g.size + 1) ids :=
  fun _ => hg.length_le

/-! ### Nodes within the graph -/

/-- All roots and edges lead to nodes of the graph. -/
structure InRange (g : TokenGraph) : Prop where
  roots_lt : ∀ r ∈ g.roots, r < g.size
  children_lt : ∀ i, ∀ c ∈ g.children i, c < g.size
  parents_lt : ∀ i, ∀ p ∈ (g.node i).parents, p < g.size

theorem InRange.lt_of_reaches (hg : g.InRange) {r : NodeId} (hr : r ∈ g.roots)
    (h : ReflTransGen g.Edge r id) : id < g.size := by
  cases h with
  | refl => exact hg.roots_lt id hr
  | tail _ hedge => exact hg.children_lt _ id hedge

theorem IsPath.lt_size_of_mem (h : g.IsPath ids path) (hg : g.InRange)
    (hids : ∀ x ∈ ids, x < g.size) {x : NodeId} (hx : x ∈ path) : x < g.size := by
  induction path generalizing ids with
  | nil => exact absurd hx List.not_mem_nil
  | cons id path ih =>
    rcases List.mem_cons.1 hx with rfl | hx
    · exact hids x h.1
    · exact ih h.2 (hg.children_lt id) hx

/-- Where there is no cycle no path has more nodes than the graph. -/
theorem Acyclic.bounded_roots (h : g.Acyclic) (hg : g.InRange) : g.Bounded g.size g.roots := by
  intro path hpath
  have hsub : path ⊆ List.range g.size := fun x hx =>
    List.mem_range.2 (hpath.lt_size_of_mem hg hg.roots_lt hx)
  have hlength := (h.nodup hpath).length_le_of_subset hsub
  rwa [List.length_range] at hlength

/-! ### Where a reader stands -/

theorem After.append {ws ws' : List String} {mid rest : List NodeId} (h : g.After ids ws mid)
    (h' : g.After mid ws' rest) : g.After ids (ws ++ ws') rest := by
  induction ws generalizing ids with
  | nil => exact h ▸ h'
  | cons w ws ih =>
    obtain ⟨id, hid, hw, h⟩ := h
    exact ⟨id, hid, hw, ih h⟩

theorem after_append_iff {ws ws' : List String} {rest : List NodeId} :
    g.After ids (ws ++ ws') rest ↔ ∃ mid, g.After ids ws mid ∧ g.After mid ws' rest := by
  constructor
  · intro h
    induction ws generalizing ids with
    | nil => exact ⟨ids, rfl, h⟩
    | cons w ws ih =>
      obtain ⟨id, hid, hw, h⟩ := h
      obtain ⟨mid, h, h'⟩ := ih h
      exact ⟨mid, ⟨id, hid, hw, h⟩, h'⟩
  · rintro ⟨mid, h, h'⟩
    exact h.append h'

theorem Ascends.eq_of_text (h : g.Ascends ids) {a b : NodeId} (ha : a ∈ ids) (hb : b ∈ ids)
    (hab : g.text a = g.text b) : a = b :=
  eq_of_pairwise_lt h ha hb hab

namespace Tidy

/-- Some words lead to one place only. -/
theorem after_unique (hg : g.Tidy) (hids : g.Ascends ids) {ws : List String}
    {rest rest' : List NodeId} (h : g.After ids ws rest) (h' : g.After ids ws rest') :
    rest = rest' := by
  induction ws generalizing ids with
  | nil => exact h.symm.trans h'
  | cons w ws ih =>
    obtain ⟨a, ha, haw, h⟩ := h
    obtain ⟨b, hb, hbw, h'⟩ := h'
    obtain rfl := hids.eq_of_text ha hb (haw.trans hbw.symm)
    exact ih (hg.children_ascend a) h h'

/-- A whole path goes on with a whole path, which has no nodes below a node without children. -/
theorem isWhole_cons_iff (hg : g.Tidy) (hids : ∀ id ∈ ids, g.Listed id) :
    g.IsWhole ids (id :: path) ↔ id ∈ ids ∧ g.IsWhole (g.children id) path := by
  constructor
  · rintro (⟨-, hpath⟩ | ⟨hpath, last, hlast, hend⟩)
    · exact absurd hpath (List.cons_ne_nil _ _)
    · refine ⟨hpath.1, ?_⟩
      cases path with
      | nil =>
        obtain rfl : id = last := by simpa using hlast
        exact .inl ⟨(hg.end_iff id (hids id hpath.1)).1 hend, rfl⟩
      | cons c path => exact .inr ⟨hpath.2, last, by simpa using hlast, hend⟩
  · rintro ⟨hid, ⟨hleaf, rfl⟩ | ⟨hpath, last, hlast, hend⟩⟩
    · exact .inr ⟨⟨hid, trivial⟩, id, rfl, (hg.end_iff id (hids id hid)).2 hleaf⟩
    · exact .inr ⟨⟨hid, hpath⟩, last, List.mem_getLast?_cons hlast, hend⟩

/-- Among listed siblings, reading to the end is following a whole path. -/
theorem acceptsFrom_iff_after (hg : g.Tidy) (hids : ∀ id ∈ ids, g.Listed id) {ws : List String} :
    g.AcceptsFrom ids ws ↔ g.After ids ws [] := by
  constructor
  · rintro ⟨path, hpath, rfl⟩
    induction path generalizing ids with
    | nil => exact isWhole_nil_iff.1 hpath
    | cons id path ih =>
      obtain ⟨hid, hpath⟩ := (hg.isWhole_cons_iff hids).1 hpath
      exact ⟨id, hid, rfl, ih (fun c hc => .inr ⟨id, hc⟩) hpath⟩
  · intro h
    induction ws generalizing ids with
    | nil => exact ⟨[], isWhole_nil_iff.2 h, rfl⟩
    | cons w ws ih =>
      obtain ⟨id, hid, rfl, h⟩ := h
      obtain ⟨path, hpath, rfl⟩ := ih (fun c hc => .inr ⟨id, hc⟩) h
      exact ⟨id :: path, (hg.isWhole_cons_iff hids).2 ⟨hid, hpath⟩, rfl⟩

/-- Every place leads to an end. -/
theorem exists_after_nil (hg : g.Tidy) (ids : List NodeId) : ∃ ws, g.After ids ws [] := by
  have hbound := hg.acyclic.bounded ids
  generalize g.size + 1 = n at hbound
  induction n generalizing ids with
  | zero => exact ⟨[], hbound.eq_nil⟩
  | succ n ih =>
    cases ids with
    | nil => exact ⟨[], rfl⟩
    | cons id ids =>
      obtain ⟨ws, h⟩ := ih (g.children id) (hbound.children List.mem_cons_self)
      exact ⟨g.text id :: ws, id, List.mem_cons_self, rfl, h⟩

end Tidy

/-! ### Graphs whose edges lead on -/

/-- Where every edge leads to a higher rank there is no cycle. -/
theorem acyclic_of_rank (rank : NodeId → Nat) (h : ∀ p c, g.Edge p c → rank p < rank c) :
    g.Acyclic := by
  have hlt : ∀ a b, TransGen g.Edge a b → rank a < rank b := fun a b hab => by
    induction hab with
    | single hab => exact h _ _ hab
    | tail _ hbc ih => exact ih.trans (h _ _ hbc)
  exact fun id hid => lt_irrefl _ (hlt id id hid)

/-- The nodes of a graph tell whether it is tidy if its edges lead to higher places. -/
theorem tidy_of_forward (hroots : g.Ascends g.roots ∧ ∀ id ∈ g.roots, id < g.size)
    (hnodes : ∀ id < g.size, g.Ascends (g.children id) ∧
      (∀ c ∈ g.children id, id < c ∧ c < g.size) ∧ (g.isEnd id = true ↔ g.children id = [])) :
    g.Tidy where
  roots_ascend := hroots.1
  children_ascend id := by
    by_cases hid : g.children id = []
    · exact hid ▸ List.Pairwise.nil
    · exact (hnodes id (lt_size_of_children_ne_nil hid)).1
  acyclic := acyclic_of_rank id fun p c hc =>
    ((hnodes p (lt_size_of_children_ne_nil (List.ne_nil_of_mem hc))).2.1 c hc).1
  end_iff id hid := by
    refine (hnodes id ?_).2.2
    rcases hid with hroot | ⟨p, hp⟩
    · exact hroots.2 id hroot
    · exact ((hnodes p (lt_size_of_children_ne_nil (List.ne_nil_of_mem hp))).2.1 id hp).2

end PhraseGraph.TokenGraph
