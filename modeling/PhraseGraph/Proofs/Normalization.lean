import PhraseGraph.Proofs.Merging.Consistent

/-!
# Putting a graph in order keeps its meaning

The graph of a list of tokens that is consistent with its slots is the forest of the tokens with kin
taken together (`Gathers`). A path through it can be followed in the forest: from each node on it, one
takes the token that ends at the slot that the next one hangs off. So the graph accepts what the forest
accepts (`Gathers.accepts_iff`).

The main statement, `ofForeignTokens_keeps_meaning`, says besides that the graph has no cycle, that its
parents and children tell of the same edges, and what each node has taken from the tokens it stands
for.
-/

namespace PhraseGraph

open Forest Provenance

/-- The nodes of the graph are the tokens with kin taken together, where `home` tells the node of a
    token. -/
structure Gathers (tokens : List Token) (phrase : String) (g : TokenGraph) (home : Nat → NodeId) :
    Prop where
  home_lt : ∀ k < tokens.length, home k < g.size
  exists_home : ∀ a < g.size, ∃ k < tokens.length, home k = a
  home_eq_iff : ∀ k < tokens.length, ∀ j < tokens.length, home k = home j ↔ Kin tokens k j
  text_home : ∀ k < tokens.length, g.text (home k) = (tokenAt tokens k).text
  slot_home : ∀ k < tokens.length,
    anchor? (endSlots tokens) (g.node (home k)).token.position = anchorAt tokens k
  mem_roots_iff : ∀ a, a ∈ g.roots ↔ ∃ k < tokens.length, anchorAt tokens k = none ∧ home k = a
  edge_iff : ∀ a b, g.Edge a b ↔
    ∃ k j, (ofTokens tokens phrase).Edge k j ∧ home k = a ∧ home j = b
  mem_parents_iff : ∀ a b, a ∈ (g.node b).parents ↔ g.Edge a b
  isEnd_iff : ∀ k < tokens.length, (g.isEnd (home k) = true ↔
    ∃ j < tokens.length, Kin tokens k j ∧ (ofTokens tokens phrase).isEnd j = true)
  mem_origins_iff : ∀ k < tokens.length, ∀ r, r ∈ (g.node (home k)).origins ↔
    ∃ j < tokens.length, Kin tokens k j ∧
      r ∈ ((Provenance.fill (ofTokens tokens phrase)).node j).origins
  nodup_origins : ∀ k < tokens.length, (g.node (home k)).origins.Nodup

namespace NormalForm

variable {tokens : List Token} {phrase : String} {m : Merging} {out : List NodeId} {i k j : NodeId}

/-- The node of a token in the graph. -/
def home (tokens : List Token) (phrase : String) (m : Merging) (k : Nat) : NodeId :=
  (TokenGraph.mergedForest tokens phrase).place (m.resolve k)

variable (hc : SlotConsistent tokens)
include hc

theorem node_home (h : NormalForm tokens phrase m out) (hk : k < tokens.length) :
    (TokenGraph.ofTokens tokens phrase).node (home tokens phrase m k) =
      { m.node (m.resolve k) with
        parents := ((m.parents (m.resolve k)).filter
          (TokenGraph.mergedForest tokens phrase).reachable.contains).map
            (TokenGraph.mergedForest tokens phrase).place,
        children := (m.children (m.resolve k)).map
          (TokenGraph.mergedForest tokens phrase).place } :=
  h.node_place (h.reachable hc hk)

theorem home_lt (h : NormalForm tokens phrase m out) (hk : k < tokens.length) :
    home tokens phrase m k < (TokenGraph.ofTokens tokens phrase).size := by
  rw [h.eq]
  exact (TokenGraph.place_lt h.inRange (h.reachable hc hk)).trans_eq
    (TokenGraph.size_compact h.inRange).symm

theorem home_eq_iff (h : NormalForm tokens phrase m out) (hk : k < tokens.length)
    (hj : j < tokens.length) :
    home tokens phrase m k = home tokens phrase m j ↔ Kin tokens k j := by
  rw [home, home, TokenGraph.place_inj h.inRange (h.reachable hc hk), h.resolve_eq_iff hc hk hj]

/-- Where the nodes of all tokens can be reached there are no others that can. -/
theorem exists_resolve_of_reachable (h : NormalForm tokens phrase m out)
    (hi : i ∈ (TokenGraph.mergedForest tokens phrase).reachable) :
    ∃ k < tokens.length, m.resolve k = i := by
  obtain ⟨r, hr, hreach⟩ := TokenGraph.mem_reachable_iff.1 hi
  rw [h.mergedForest_eq] at hr hreach
  cases hreach with
  | refl =>
    obtain ⟨k, hk, -, hki⟩ := h.mem_out_iff.1 hr
    exact ⟨k, hk, hki⟩
  | tail _ hedge =>
    obtain ⟨-, j, -, ⟨hj, hji⟩, -⟩ := ((h.quotient hc).mem_children_iff _ i).1 hedge
    exact ⟨j, h.size_eq ▸ hj, hji⟩

theorem exists_home (h : NormalForm tokens phrase m out) {a : NodeId}
    (ha : a < (TokenGraph.ofTokens tokens phrase).size) :
    ∃ k < tokens.length, home tokens phrase m k = a := by
  obtain ⟨i, hi, rfl⟩ := h.exists_place ha
  obtain ⟨k, hk, rfl⟩ := h.exists_resolve_of_reachable hc hi
  exact ⟨k, hk, rfl⟩

theorem edge_iff (h : NormalForm tokens phrase m out) (a b : NodeId) :
    (TokenGraph.ofTokens tokens phrase).Edge a b ↔
      ∃ k j, (ofTokens tokens phrase).Edge k j ∧
        home tokens phrase m k = a ∧ home tokens phrase m j = b := by
  have hq := h.quotient hc
  constructor
  · intro hab
    obtain ⟨k, hk, rfl⟩ := h.exists_home hc (TokenGraph.lt_size_of_children_ne_nil
      (List.ne_nil_of_mem hab))
    rw [TokenGraph.Edge, TokenGraph.children, h.node_home hc hk] at hab
    obtain ⟨c, hc, rfl⟩ := List.mem_map.1 hab
    obtain ⟨k', j, ⟨hk', hkk'⟩, ⟨hj, rfl⟩, hkj⟩ := (hq.mem_children_iff _ c).1 hc
    rw [h.size_eq] at hk' hj
    exact ⟨k', j, Forest.edge_iff.2 ⟨hk', hj, hkj⟩,
      congrArg (TokenGraph.mergedForest tokens phrase).place hkk', rfl⟩
  · rintro ⟨k, j, hkj, rfl, rfl⟩
    have hk := (Forest.edge_iff.1 hkj).1
    rw [TokenGraph.Edge, TokenGraph.children, h.node_home hc hk]
    exact List.mem_map_of_mem (h.mem_children hc hkj)

theorem mem_parents_iff (h : NormalForm tokens phrase m out) (a b : NodeId) :
    a ∈ ((TokenGraph.ofTokens tokens phrase).node b).parents ↔
      (TokenGraph.ofTokens tokens phrase).Edge a b := by
  have hq := h.quotient hc
  rw [h.edge_iff hc]
  constructor
  · intro hab
    have hb : b < (TokenGraph.ofTokens tokens phrase).size := by
      by_contra hb
      rw [TokenGraph.node_of_size_le (Nat.not_lt.1 hb)] at hab
      exact absurd hab List.not_mem_nil
    obtain ⟨j, hj, rfl⟩ := h.exists_home hc hb
    rw [h.node_home hc hj] at hab
    obtain ⟨p, hp, rfl⟩ := List.mem_map.1 hab
    obtain ⟨k, j', ⟨hk, rfl⟩, ⟨hj', hjj'⟩, hkj⟩ :=
      (hq.mem_parents_iff p _).1 (List.mem_filter.1 hp).1
    rw [h.size_eq] at hk hj'
    exact ⟨k, j', Forest.edge_iff.2 ⟨hk, hj', hkj⟩, rfl,
      congrArg (TokenGraph.mergedForest tokens phrase).place hjj'⟩
  · rintro ⟨k, j, hedge, rfl, rfl⟩
    obtain ⟨hk, hj, hkj⟩ := Forest.edge_iff.1 hedge
    rw [h.node_home hc hj]
    refine List.mem_map_of_mem (List.mem_filter.2 ⟨?_, ?_⟩)
    · exact (hq.mem_parents_iff _ _).2
        ⟨k, j, ⟨h.size_eq ▸ hk, rfl⟩, ⟨h.size_eq ▸ hj, rfl⟩, hkj⟩
    · exact List.contains_iff_mem.2 (h.reachable hc hk)

/-- The tokens that the node of a token stands for are its kin. -/
theorem covers_resolve_iff (h : NormalForm tokens phrase m out) (hk : k < tokens.length) :
    m.Covers (m.resolve k) j ↔ j < tokens.length ∧ Kin tokens k j := by
  rw [Merging.Covers, h.size_eq]
  exact and_congr_right fun hj => eq_comm.trans (h.resolve_eq_iff hc hk hj)

theorem gathers (h : NormalForm tokens phrase m out) :
    Gathers tokens phrase (TokenGraph.ofTokens tokens phrase) (home tokens phrase m) where
  home_lt _ hk := h.home_lt hc hk
  exists_home _ ha := h.exists_home hc ha
  home_eq_iff _ hk _ hj := h.home_eq_iff hc hk hj
  text_home k hk := by
    rw [TokenGraph.text, h.node_home hc hk, ← h.text_eq hk]
    rfl
  slot_home k hk := by
    have hlt : m.resolve k < tokens.length :=
      h.size_eq ▸ h.settled.valid.resolve_lt k (h.size_eq ▸ hk)
    have htoken : (m.node (m.resolve k)).token.position =
        (tokenAt tokens (m.resolve k)).position := by
      rw [h.settled.token_eq]
      refine (congrArg Token.position Provenance.token_fill).trans ?_
      rw [node_ofTokens hlt]
      rfl
    rw [h.node_home hc hk, ← (h.quotient hc).anchor_resolve k (h.size_eq ▸ hk),
      anchorAt, ← htoken]
  mem_roots_iff a := by
    rw [h.roots_eq, List.mem_map]
    constructor
    · rintro ⟨i, hi, rfl⟩
      obtain ⟨k, hk, hanchor, rfl⟩ := h.mem_out_iff.1 hi
      exact ⟨k, hk, hanchor, rfl⟩
    · rintro ⟨k, hk, hanchor, rfl⟩
      exact ⟨m.resolve k, h.mem_out_iff.2 ⟨k, hk, hanchor, rfl⟩, rfl⟩
  edge_iff := h.edge_iff hc
  mem_parents_iff := h.mem_parents_iff hc
  isEnd_iff k hk := by
    rw [TokenGraph.isEnd, h.node_home hc hk]
    refine (h.records.isEnd_iff _ (h.settled.valid.resolve_resolve k)).trans ?_
    simp only [h.covers_resolve_iff hc hk, and_assoc]
    have hend : ∀ j, ((Provenance.fill (ofTokens tokens phrase)).node j).isEnd =
        (ofTokens tokens phrase).isEnd j := fun j => Provenance.isEnd_fill
    simp only [hend]
  mem_origins_iff k hk r := by
    rw [h.node_home hc hk]
    refine (h.records.mem_origins_iff _ r).trans ?_
    simp only [h.covers_resolve_iff hc hk, and_assoc]
  nodup_origins k hk := by
    rw [h.node_home hc hk]
    exact h.records.nodup_origins _

end NormalForm

namespace Gathers

variable {tokens : List Token} {phrase : String} {g : TokenGraph} {home : Nat → NodeId}
  {path : List NodeId} {k : Nat}

/-! ### Paths -/

/-- A path through the graph can be followed in the forest, from a token that hangs off the slot of
    its first node on. At each node one takes the token that the next one follows. -/
theorem exists_path (h : Gathers tokens phrase g home) (hk : k < tokens.length)
    (hpath : g.IsPath (g.children (home k)) path)
    (hend : ∃ last ∈ (home k :: path).getLast?, g.isEnd last = true) :
    ∃ j < tokens.length, ∃ path', anchorAt tokens j = anchorAt tokens k ∧
      (ofTokens tokens phrase).IsPath ((ofTokens tokens phrase).children j) path' ∧
      (∃ last ∈ (j :: path').getLast?, (ofTokens tokens phrase).isEnd last = true) ∧
      (j :: path').map (ofTokens tokens phrase).text = (home k :: path).map g.text := by
  induction path generalizing k with
  | nil =>
    obtain ⟨last, hlast, hend⟩ := hend
    obtain rfl : home k = last := by simpa using hlast
    obtain ⟨j, hj, hkj, hend⟩ := (h.isEnd_iff k hk).1 hend
    refine ⟨j, hj, [], hkj.2.symm, trivial, ⟨j, by simp, hend⟩, ?_⟩
    simp [text_ofTokens hj, h.text_home k hk, hkj.1]
  | cons b path ih =>
    -- The edge comes from some token of the first node, which is kin of the one asked for.
    obtain ⟨k', j, hedge, hkk', rfl⟩ := (h.edge_iff _ b).1 hpath.1
    obtain ⟨hk', hj, hkj⟩ := Forest.edge_iff.1 hedge
    have hkin := (h.home_eq_iff k' hk' k hk).1 hkk'
    rw [List.getLast?_cons_cons] at hend
    obtain ⟨i, hi, path', hanchor, hpath', hend', htext⟩ := ih hj hpath.2 hend
    refine ⟨k', hk', i :: path', hkin.2, ⟨?_, hpath'⟩, ?_, ?_⟩
    · exact Forest.edge_iff.2 ⟨hk', hi, hanchor.trans hkj⟩
    · rwa [List.getLast?_cons_cons]
    · rw [List.map_cons, htext, List.map_cons, List.map_cons, List.map_cons, text_ofTokens hk',
        h.text_home k hk, hkin.1]

/-- The nodes of the tokens on a path are a path. -/
theorem isPath_map (h : Gathers tokens phrase g home) {ids ids' : List NodeId}
    (hpath : (ofTokens tokens phrase).IsPath ids path) (hids : ∀ k ∈ ids, home k ∈ ids') :
    g.IsPath ids' (path.map home) := by
  induction path generalizing ids ids' with
  | nil => trivial
  | cons k path ih =>
    exact ⟨hids k hpath.1, ih hpath.2 fun j hj => (h.edge_iff _ _).2 ⟨k, j, hj, rfl, rfl⟩⟩

/-- The graph accepts what the forest accepts. -/
theorem accepts_iff (h : Gathers tokens phrase g home) (ws : List String) :
    g.Accepts ws ↔ (ofTokens tokens phrase).Accepts ws := by
  constructor
  · rintro ⟨path, ⟨hroots, rfl⟩ | ⟨hpath, hend⟩, rfl⟩
    · refine ⟨[], .inl ⟨List.eq_nil_iff_forall_not_mem.2 fun k hk => ?_, rfl⟩, rfl⟩
      obtain ⟨hk, hanchor⟩ := Forest.mem_roots_iff.1 hk
      exact List.eq_nil_iff_forall_not_mem.1 hroots _
        ((h.mem_roots_iff _).2 ⟨k, hk, hanchor, rfl⟩)
    · cases path with
      | nil =>
        obtain ⟨last, hlast, -⟩ := hend
        exact absurd hlast (by simp)
      | cons a path =>
        obtain ⟨k, hk, hanchor, rfl⟩ := (h.mem_roots_iff a).1 hpath.1
        obtain ⟨j, hj, path', hjk, hpath', hend', htext⟩ := h.exists_path hk hpath.2 hend
        exact ⟨j :: path', .inr ⟨⟨Forest.mem_roots_iff.2 ⟨hj, hjk.trans hanchor⟩, hpath'⟩, hend'⟩,
          htext⟩
  · rintro ⟨path, ⟨hroots, rfl⟩ | ⟨hpath, last, hlast, hend⟩, rfl⟩
    · refine ⟨[], .inl ⟨List.eq_nil_iff_forall_not_mem.2 fun a ha => ?_, rfl⟩, rfl⟩
      obtain ⟨k, hk, hanchor, -⟩ := (h.mem_roots_iff a).1 ha
      exact List.eq_nil_iff_forall_not_mem.1 hroots k (Forest.mem_roots_iff.2 ⟨hk, hanchor⟩)
    · have hlt : ∀ k ∈ path, k < tokens.length := fun k hk => by
        rw [← @size_ofTokens tokens phrase]
        exact hpath.lt_size_of_mem inRange_ofTokens inRange_ofTokens.roots_lt hk
      have hlast' : last ∈ path := List.mem_of_getLast? hlast
      refine ⟨path.map home, .inr ⟨?_, home last, ?_, ?_⟩, ?_⟩
      · refine h.isPath_map hpath fun k hk => ?_
        obtain ⟨hk, hanchor⟩ := Forest.mem_roots_iff.1 hk
        exact (h.mem_roots_iff _).2 ⟨k, hk, hanchor, rfl⟩
      · rw [List.getLast?_map]
        exact Option.mem_map_of_mem home hlast
      · exact (h.isEnd_iff last (hlt last hlast')).2 ⟨last, hlt last hlast', ⟨rfl, rfl⟩, hend⟩
      · rw [List.map_map]
        exact List.map_congr_left fun k hk => by
          rw [Function.comp_apply, h.text_home k (hlt k hk), text_ofTokens (hlt k hk)]

/-- Edges lead to tokens that hang off later slots. -/
theorem acyclic (h : Gathers tokens phrase g home) : g.Acyclic := by
  have hlevel : ∀ k < tokens.length,
      (anchor? (endSlots tokens) (g.node (home k)).token.position).elim 0 (· + 1) =
        levelAt tokens k := fun k hk => by rw [h.slot_home k hk, levelAt]
  refine TokenGraph.acyclic_of_rank
    (fun a => (anchor? (endSlots tokens) (g.node a).token.position).elim 0 (· + 1)) ?_
  intro a b hab
  obtain ⟨k, j, hedge, rfl, rfl⟩ := (h.edge_iff a b).1 hab
  obtain ⟨hk, hj, hkj⟩ := Forest.edge_iff.1 hedge
  rw [hlevel k hk, hlevel j hj]
  exact levelAt_lt_of_anchorAt hkj

end Gathers

/-! ### The main statement -/

/-- The token has the text of the node, and hangs off the slot that the node hangs off. -/
def Belongs (tokens : List Token) (n : Node) (k : Nat) : Prop :=
  (tokenAt tokens k).text = n.token.text ∧
    anchorAt tokens k = anchor? (endSlots tokens) n.token.position

variable {tokens : List Token} {phrase : String}

theorem Gathers.belongs_iff {g : TokenGraph} {home : Nat → NodeId}
    (h : Gathers tokens phrase g home) {k j : Nat} (hk : k < tokens.length) :
    Belongs tokens (g.node (home k)) j ↔ Kin tokens k j := by
  have htext : (g.node (home k)).token.text = (tokenAt tokens k).text := h.text_home k hk
  rw [Belongs, htext, h.slot_home k hk, Kin]
  exact and_congr eq_comm eq_comm

theorem exists_mapM_countedEnd (hslots : ∀ t ∈ tokens, t.endPosition < 2 ^ 64) :
    ∃ ends, tokens.mapM Token.countedEnd = .ok ends := by
  induction tokens with
  | nil => exact ⟨[], rfl⟩
  | cons t tokens ih =>
    obtain ⟨ends, hends⟩ := ih fun u hu => hslots u (List.mem_cons_of_mem _ hu)
    have ht : t.countedEnd = .ok t.endPosition := if_pos (hslots t List.mem_cons_self)
    exact ⟨t.endPosition :: ends, by rw [List.mapM_cons, ht, hends]; rfl⟩

theorem ofForeignTokens_eq_ok (hslots : ∀ t ∈ tokens, t.endPosition < 2 ^ 64) :
    TokenGraph.ofForeignTokens tokens phrase = .ok (TokenGraph.ofTokens tokens phrase) := by
  obtain ⟨ends, hends⟩ := exists_mapM_countedEnd hslots
  rw [TokenGraph.ofForeignTokens, hends]
  rfl

/-- Tokens that are consistent with their slots, and whose slots can be counted, have a graph. It
    accepts what their forest accepts and has no cycle; its parents and children tell of the same
    edges; and each node has the origins of all tokens that share its text and its slot, each once,
    and is an end if one of these tokens is. -/
theorem ofForeignTokens_keeps_meaning (hslots : ∀ t ∈ tokens, t.endPosition < 2 ^ 64)
    (hc : SlotConsistent tokens) :
    ∃ g, TokenGraph.ofForeignTokens tokens phrase = .ok g ∧
      (∀ ws, g.Accepts ws ↔ (ofTokens tokens phrase).Accepts ws) ∧
      g.Acyclic ∧
      (∀ a b, a ∈ (g.node b).parents ↔ b ∈ g.children a) ∧
      (∀ k < tokens.length, ∃! r, MadeFor tokens phrase r k) ∧
      (∀ k < tokens.length, ∃ a < g.size, Belongs tokens (g.node a) k) ∧
      ∀ a < g.size, (g.node a).origins.Nodup ∧
        (∀ r, r ∈ (g.node a).origins ↔
          ∃ k < tokens.length, Belongs tokens (g.node a) k ∧ MadeFor tokens phrase r k) ∧
        (g.isEnd a = true ↔ ∃ k < tokens.length, Belongs tokens (g.node a) k ∧
          (ofTokens tokens phrase).isEnd k = true) := by
  obtain ⟨m, out, hnormal⟩ := exists_normalForm tokens phrase
  have h := hnormal.gathers hc
  refine ⟨TokenGraph.ofTokens tokens phrase, ?_, h.accepts_iff, h.acyclic, h.mem_parents_iff,
    fun k hk => existsUnique_madeFor phrase hk,
    fun k hk => ⟨_, h.home_lt k hk, (h.belongs_iff hk).2 ⟨rfl, rfl⟩⟩, fun a ha => ?_⟩
  · obtain ⟨ends, hends⟩ := exists_mapM_countedEnd hslots
    rw [TokenGraph.ofForeignTokens, hends]
    rfl
  · obtain ⟨k, hk, rfl⟩ := h.exists_home a ha
    simp only [h.belongs_iff hk]
    refine ⟨h.nodup_origins k hk, fun r => ?_, h.isEnd_iff k hk⟩
    rw [h.mem_origins_iff k hk]
    simp only [Provenance.mem_origins_fill_iff inRange_ofTokens, MadeFor]

namespace Example

/-- The words `a b c`, where a second `a` stands for the first two words and `c` comes twice. -/
def twoEnds : List Token :=
  [{ text := "a", startOffset := 0, endOffset := 1, position := 0 },
   { text := "a", startOffset := 0, endOffset := 3, kind := .synonym, position := 0,
     positionLength := 2 },
   { text := "b", startOffset := 2, endOffset := 3, position := 1 },
   { text := "c", startOffset := 4, endOffset := 5, position := 2 },
   { text := "c", startOffset := 4, endOffset := 5, kind := .synonym, position := 2 }]

theorem twoEnds_keeps_meaning : (∀ t ∈ twoEnds, t.endPosition < 2 ^ 64) ∧
    SlotConsistent twoEnds ∧ ∃ g, TokenGraph.ofForeignTokens twoEnds "a b c" = .ok g ∧
      ∀ ws, g.Accepts ws ↔ (ofTokens twoEnds "a b c").Accepts ws := by
  have hslots : ∀ t ∈ twoEnds, t.endPosition < 2 ^ 64 := by decide
  have hc : SlotConsistent twoEnds := by decide
  obtain ⟨g, hg, haccepts, -⟩ := @ofForeignTokens_keeps_meaning twoEnds "a b c" hslots hc
  exact ⟨hslots, hc, g, hg, haccepts⟩

/-- One node has taken the place of each text. -/
example : (TokenGraph.ofTokens twoEnds "a b c").traversal =
    [(0, "a"), (1, "b"), (2, "c"), (1, "c")] := by decide +kernel

end Example

end PhraseGraph
