import PhraseGraph.Proofs.Normalization
import PhraseGraph.Variable

/-!
# Origins whose nodes are lost

When the nodes that cannot be reached any more are left out, an origin of such a node goes on telling
the place at which the node was. This is harmless only where such nodes have no origins, as the nodes
that have been merged into others. It is not so for every phrase: the children of a node are written
back after those below them have been merged, and a node whose children have grown meanwhile loses the
new ones (`Example.not_keepsOrigins`).

What holds is that the origins are kept if and only if no node with origins is cut off from the roots
(`keepsOrigins_iff`); and none is where the tokens are consistent with their slots. Where the origins
are kept no phrase breaks off (`KeepsOrigins.failure_phrases`).
-/

namespace PhraseGraph

open Forest Provenance Relation

/-- The origin can be reached from those of the roots. -/
def TokenGraph.OriginReached (g : TokenGraph) (r : OriginId) : Prop :=
  ∃ root ∈ g.originRoots, ReflTransGen (fun r r' => r' ∈ (g.origin r).children) root r

variable {tokens : List Token} {phrase : String} {m : Merging} {out : List NodeId} {i k j : NodeId}
  {r r' : OriginId}

/-- The origin tells a node of the graph that has the text of its token and knows the origin. -/
structure KeepsOrigin (tokens : List Token) (phrase : String) (g : TokenGraph) (r : OriginId) :
    Prop where
  node_lt : (g.origin r).node < g.size
  text_eq : ∃ k < tokens.length, MadeFor tokens phrase r k ∧
    g.text (g.origin r).node = (tokenAt tokens k).text
  mem_origins : r ∈ (g.node (g.origin r).node).origins

/-- All origins that can be reached tell the nodes of their tokens. -/
def KeepsOrigins (tokens : List Token) (phrase : String) (g : TokenGraph) : Prop :=
  ∀ r, g.OriginReached r → KeepsOrigin tokens phrase g r

/-- After all merges some node with origins cannot be reached from the roots. -/
def CutsOff (tokens : List Token) (phrase : String) : Prop :=
  ∃ i, ((TokenGraph.mergedForest tokens phrase).node i).origins ≠ [] ∧
    i ∉ (TokenGraph.mergedForest tokens phrase).reachable

/-- What is beyond the nodes has no origins. -/
instance : Decidable (CutsOff tokens phrase) :=
  decidable_of_iff (∃ i < (TokenGraph.mergedForest tokens phrase).size,
      ((TokenGraph.mergedForest tokens phrase).node i).origins ≠ [] ∧
        i ∉ (TokenGraph.mergedForest tokens phrase).reachable)
    ⟨fun ⟨i, _, h⟩ => ⟨i, h⟩, fun ⟨i, horigins, hi⟩ => ⟨i, by
      by_contra hlt
      exact horigins (by rw [TokenGraph.node_of_size_le (Nat.not_lt.1 hlt)]; rfl), horigins, hi⟩⟩

namespace NormalForm

/-! ### The origins of the graph of tokens -/

theorem size_origins (h : NormalForm tokens phrase m out) :
    (TokenGraph.mergedForest tokens phrase).origins.size =
      (fill (Forest.ofTokens tokens phrase)).origins.size := by
  rw [h.mergedForest_eq]
  exact h.records.size_origins

theorem size_origins_ofTokens (h : NormalForm tokens phrase m out) :
    (TokenGraph.ofTokens tokens phrase).origins.size =
      (fill (Forest.ofTokens tokens phrase)).origins.size := by
  rw [h.eq, TokenGraph.size_origins_sortOrigins, TokenGraph.size_origins_compact, h.size_origins]

/-- Every token has an origin. -/
theorem length_le_size_origins (h : NormalForm tokens phrase m out) :
    tokens.length ≤ (TokenGraph.ofTokens tokens phrase).origins.size := by
  have hsub : List.range tokens.length ⊆ order (ofTokens tokens phrase) := fun k hk =>
    mem_order (List.mem_range.1 hk)
  rw [h.size_origins_ofTokens, size_origins_fill, ← List.length_range (n := tokens.length)]
  exact List.nodup_range.length_le_of_subset hsub

/-- An origin tells the new place of its node, or the old one of a node that is left out. -/
theorem node_origin (h : NormalForm tokens phrase m out) (hk : k < tokens.length)
    (hr : MadeFor tokens phrase r k) :
    ((TokenGraph.ofTokens tokens phrase).origin r).node =
      if m.resolve k ∈ (TokenGraph.mergedForest tokens phrase).reachable then
        home tokens phrase m k
      else m.resolve k := by
  have hsize : r < (TokenGraph.mergedForest tokens phrase).origins.size :=
    h.size_origins.symm ▸ hr.1
  have hnode : ((TokenGraph.mergedForest tokens phrase).origin r).node = m.resolve k := by
    rw [h.mergedForest_eq]
    exact h.records.origin_node k (h.size_eq ▸ hk) r ((mem_origins_fill_iff inRange_ofTokens).2 hr)
  rw [h.eq, TokenGraph.node_origin_sortOrigins (TokenGraph.size_origins_compact.symm ▸ hsize),
    TokenGraph.origin_compact h.inRange hsize, hnode]
  rfl

theorem mem_children_origin_iff (h : NormalForm tokens phrase m out)
    (hr : MadeFor tokens phrase r k) :
    r' ∈ ((TokenGraph.ofTokens tokens phrase).origin r).children ↔
      ∃ j, (ofTokens tokens phrase).Edge k j ∧ MadeFor tokens phrase r' j := by
  have hsize : r < (TokenGraph.mergedForest tokens phrase).origins.size :=
    h.size_origins.symm ▸ hr.1
  have hchildren : ((TokenGraph.mergedForest tokens phrase).origin r).children =
      ((fill (ofTokens tokens phrase)).origin r).children := by
    rw [h.mergedForest_eq]
    change (m.origin r).children = _
    rw [h.records.origin_eq r]
  rw [h.eq, TokenGraph.mem_children_origin_sortOrigins_iff
      (TokenGraph.size_origins_compact.symm ▸ hsize),
    TokenGraph.origin_compact h.inRange hsize, ← Provenance.mem_children_origin_iff hr, ← hchildren]

theorem mem_originRoots_mergedForest_iff (h : NormalForm tokens phrase m out) :
    r ∈ (TokenGraph.mergedForest tokens phrase).originRoots ↔
      ∃ k < tokens.length, MadeFor tokens phrase r k ∧ m.resolve k ∈ out := by
  rw [h.mergedForest_eq, TokenGraph.originRoots, TokenGraph.originsOf, List.mem_flatMap]
  constructor
  · rintro ⟨i, hi, hr⟩
    obtain ⟨k, ⟨hk, rfl⟩, hmade⟩ := (h.records.mem_origins_iff i r).1 hr
    exact ⟨k, h.size_eq ▸ hk, (mem_origins_fill_iff inRange_ofTokens).1 hmade, hi⟩
  · rintro ⟨k, hk, hmade, hi⟩
    exact ⟨_, hi, (h.records.mem_origins_iff _ r).2
      ⟨k, ⟨h.size_eq ▸ hk, rfl⟩, (mem_origins_fill_iff inRange_ofTokens).2 hmade⟩⟩

theorem mem_originRoots_iff (h : NormalForm tokens phrase m out) :
    r ∈ (TokenGraph.ofTokens tokens phrase).originRoots ↔
      ∃ k < tokens.length, MadeFor tokens phrase r k ∧ m.resolve k ∈ out := by
  rw [h.eq, TokenGraph.originRoots_sortOrigins, TokenGraph.originRoots_compact h.inRange]
  exact h.mem_originRoots_mergedForest_iff

/-- Every origin can be reached, since every token can. -/
theorem originReached_iff (h : NormalForm tokens phrase m out) :
    (TokenGraph.ofTokens tokens phrase).OriginReached r ↔
      ∃ k < tokens.length, MadeFor tokens phrase r k := by
  constructor
  · rintro ⟨root, hroot, hreach⟩
    induction hreach with
    | refl =>
      obtain ⟨k, hk, hmade, -⟩ := h.mem_originRoots_iff.1 hroot
      exact ⟨k, hk, hmade⟩
    | tail _ hstep ih =>
      obtain ⟨k, hk, hmade⟩ := ih
      obtain ⟨j, hedge, hmade'⟩ := (h.mem_children_origin_iff hmade).1 hstep
      exact ⟨j, (Forest.edge_iff.1 hedge).2.1, hmade'⟩
  · rintro ⟨k, hk, hmade⟩
    -- Origins follow one another as tokens do, so the path to a token is one to its origin.
    obtain ⟨root, hroot, hreach⟩ := exists_root_reaches phrase hk
    obtain ⟨hlt, -⟩ := Forest.mem_roots_iff.1 hroot
    obtain ⟨r₀, hr₀, -⟩ := existsUnique_madeFor phrase hlt
    refine ⟨r₀, h.mem_originRoots_iff.2
      ⟨root, hlt, hr₀, (h.settled.mem_out_iff _).2 ⟨root, hroot, rfl⟩⟩, ?_⟩
    clear hk
    induction hreach generalizing r with
    | refl => exact (existsUnique_madeFor phrase hlt).unique hr₀ hmade ▸ .refl
    | @tail j k _ hedge ih =>
      have hj := (Forest.edge_iff.1 hedge).1
      obtain ⟨r₁, hr₁, -⟩ := existsUnique_madeFor phrase hj
      exact (ih hr₁).tail ((h.mem_children_origin_iff hr₁).2 ⟨k, hedge, hmade⟩)

/-- An origin is kept if and only if the node of its token can be reached. -/
theorem keepsOrigin_iff (h : NormalForm tokens phrase m out) (hk : k < tokens.length)
    (hr : MadeFor tokens phrase r k) :
    KeepsOrigin tokens phrase (TokenGraph.ofTokens tokens phrase) r ↔
      m.resolve k ∈ (TokenGraph.mergedForest tokens phrase).reachable := by
  have hrecord : r ∈ ((fill (ofTokens tokens phrase)).node k).origins :=
    (mem_origins_fill_iff inRange_ofTokens).2 hr
  constructor
  · intro hkeeps
    have hlt := hkeeps.node_lt
    rw [h.eq] at hlt
    obtain ⟨i, hi, hplace⟩ := TokenGraph.exists_place h.inRange
      (hlt.trans_eq (TokenGraph.size_compact h.inRange))
    have hmem := hkeeps.mem_origins
    rw [h.eq, ← hplace, ← h.eq, h.node_place hi] at hmem
    -- The node that knows the origin stands for its token.
    obtain ⟨k', ⟨-, rfl⟩, hmade⟩ := (h.records.mem_origins_iff i r).1 hmem
    obtain ⟨-, rfl⟩ := (mem_origins_fill_iff inRange_ofTokens).1 hmade
    exact hr.2 ▸ hi
  · intro hreach
    have hnode := h.node_origin hk hr
    rw [if_pos hreach] at hnode
    refine ⟨?_, ⟨k, hk, hr, ?_⟩, ?_⟩
    · rw [hnode, h.eq]
      exact (TokenGraph.place_lt h.inRange hreach).trans_eq
        (TokenGraph.size_compact h.inRange).symm
    · rw [hnode, TokenGraph.text, home, h.node_place hreach, ← h.text_eq hk]
      rfl
    · rw [hnode, home, h.node_place hreach]
      exact (h.records.mem_origins_iff _ r).2 ⟨k, ⟨h.size_eq ▸ hk, rfl⟩, hrecord⟩

/-- The origins are kept if and only if no node with origins is cut off. -/
theorem keepsOrigins_iff (h : NormalForm tokens phrase m out) :
    KeepsOrigins tokens phrase (TokenGraph.ofTokens tokens phrase) ↔ ¬CutsOff tokens phrase := by
  have hnode : ∀ i, (TokenGraph.mergedForest tokens phrase).node i = m.node i := fun i => by
    rw [h.mergedForest_eq]
    rfl
  constructor
  · rintro hkeeps ⟨i, horigins, hi⟩
    obtain ⟨r, hr⟩ := List.exists_mem_of_ne_nil _ horigins
    rw [hnode] at hr
    obtain ⟨k, ⟨hk, rfl⟩, hmade⟩ := (h.records.mem_origins_iff i r).1 hr
    rw [h.size_eq] at hk
    have hmade := (mem_origins_fill_iff inRange_ofTokens).1 hmade
    exact hi ((h.keepsOrigin_iff hk hmade).1
      (hkeeps r (h.originReached_iff.2 ⟨k, hk, hmade⟩)))
  · intro hcut r hr
    obtain ⟨k, hk, hmade⟩ := h.originReached_iff.1 hr
    refine (h.keepsOrigin_iff hk hmade).2 ?_
    by_contra hreach
    refine hcut ⟨m.resolve k, List.ne_nil_of_mem (a := r) ?_, hreach⟩
    rw [hnode]
    exact (h.records.mem_origins_iff _ r).2
      ⟨k, ⟨h.size_eq ▸ hk, rfl⟩, (mem_origins_fill_iff inRange_ofTokens).2 hmade⟩

/-- Nothing is cut off among tokens that are consistent with their slots. -/
theorem not_cutsOff (h : NormalForm tokens phrase m out) (hc : SlotConsistent tokens) :
    ¬CutsOff tokens phrase := by
  rw [← h.keepsOrigins_iff]
  intro r hr
  obtain ⟨k, hk, hmade⟩ := h.originReached_iff.1 hr
  exact (h.keepsOrigin_iff hk hmade).2 (h.reachable hc hk)

end NormalForm

/-! ### The phrases of the graph -/

namespace Enumeration

variable {α β : Type}

theorem failure_append {e e' : Enumeration α} (h : e.failure = none) (h' : e'.failure = none) :
    (e.append e').failure = none := by
  simp [append, h, h']

theorem failure_gather {l : List α} {f : α → Enumeration β} (h : ∀ a ∈ l, (f a).failure = none) :
    (gather l f).failure = none := by
  induction l with
  | nil => rfl
  | cons a l ih =>
    rw [gather_cons]
    exact failure_append (h a List.mem_cons_self) (ih fun b hb => h b (List.mem_cons_of_mem _ hb))

end Enumeration

namespace TokenGraph

variable {g : TokenGraph}

/-- The phrases come to their end where every origin contributes some. -/
theorem failure_expand {own : Origin → Except Failure (List Phrase)}
    (hown : ∀ r, g.OriginReached r → ∃ c, g.contribution own (g.origin r) = .ok c)
    {steps : Nat} {ids : List OriginId} (hids : ∀ r ∈ ids, g.OriginReached r) :
    (g.expand own steps ids).failure = none := by
  induction steps generalizing ids with
  | zero => rfl
  | succ steps ih =>
    refine Enumeration.failure_gather fun r hr => ?_
    obtain ⟨⟨phrases, isEnd⟩, hc⟩ := hown r (hids r hr)
    rw [hc]
    refine Enumeration.failure_append ?_ rfl
    refine ih fun r' hr' => ?_
    obtain ⟨root, hroot, hreach⟩ := hids r hr
    exact ⟨root, hroot, hreach.tail hr'⟩

end TokenGraph

/-- Where the origins are kept no phrase breaks off, if those of the variables do not. -/
theorem KeepsOrigins.failure_phrases {g : TokenGraph} (h : KeepsOrigins tokens phrase g)
    (now : Int) (vars : Variables) (hvars : ∀ name v, vars.get? name = some v →
      ∀ pre suf, ∃ phrases, v.phrases now pre suf = .ok phrases) :
    (g.phrases now vars).failure = none := by
  refine TokenGraph.failure_expand (fun r hr => ?_) fun r hr => ⟨r, hr, .refl⟩
  have hnode : g.nodeOf (g.origin r) = .ok (g.node (g.origin r).node) := by
    have hlt : (g.origin r).node < g.nodes.size := (h r hr).node_lt
    simp [TokenGraph.nodeOf, TokenGraph.node, hlt]
  have hown : ∃ phrases, g.ownPhrases now vars (g.origin r) = .ok phrases := by
    rw [TokenGraph.ownPhrases]
    split
    · next v hv => exact hvars _ v hv _ _
    · rw [TokenGraph.literalPhrase, hnode]
      exact ⟨_, rfl⟩
  obtain ⟨phrases, hown⟩ := hown
  rw [TokenGraph.contribution, hown, hnode]
  exact ⟨_, rfl⟩

/-! ### The main statement -/

/-- In the graph of a phrase the origins are kept if and only if no node with origins is cut off from
    the roots, as is so where the words are consistent with their slots; and where the origins are kept
    the phrases of the graph can be listed to their end. -/
theorem ofPhrase_keepsOrigins_iff (a : WordAnalyzer) (phrase language : String) :
    ∃ g, TokenGraph.ofPhrase (.uniform a) phrase language = .ok g ∧
      (KeepsOrigins (a.analyze phrase) phrase g ↔ ¬CutsOff (a.analyze phrase) phrase) ∧
      (SlotConsistent (a.analyze phrase) → KeepsOrigins (a.analyze phrase) phrase g) ∧
      (KeepsOrigins (a.analyze phrase) phrase g → ∀ (now : Int) (vars : Variables),
        (∀ name v, vars.get? name = some v →
          ∀ pre suf, ∃ phrases, v.phrases now pre suf = .ok phrases) →
        (g.phrases now vars).failure = none) := by
  obtain ⟨m, out, h⟩ := exists_normalForm (a.analyze phrase) phrase
  refine ⟨TokenGraph.ofTokens (a.analyze phrase) phrase, rfl, h.keepsOrigins_iff, fun hc => ?_,
    fun hkeeps now vars hvars => hkeeps.failure_phrases now vars hvars⟩
  exact h.keepsOrigins_iff.2 (h.not_cutsOff hc)

namespace Example

/-- An analyzer for which one word may be put as two of which it is the first. -/
def startsWithItself : WordAnalyzer := { synonyms := (Synonyms.empty.add ["b", "b c"]).1 }

/-- The words after the first two are cut off, so an origin tells a node that is not there, and the
    first phrase breaks off, whatever year it is. -/
theorem not_keepsOrigins : ∃ g,
    TokenGraph.ofPhrase (.uniform startsWithItself) "b c c c b" "en" = .ok g ∧
      ¬KeepsOrigins (startsWithItself.analyze "b c c c b") "b c c c b" g ∧
      ∀ now, g.firstPhrases now ∅ 1 = .failed (.lostNode 5) := by
  have hlost : ((TokenGraph.ofTokens (startsWithItself.analyze "b c c c b") "b c c c b").phrases
      2024 ∅).failure = some (.lostNode 5) := by decide +kernel
  have hfirst : (TokenGraph.ofTokens (startsWithItself.analyze "b c c c b") "b c c c b").firstPhrases
      2024 ∅ 1 = .failed (.lostNode 5) := by decide +kernel
  refine ⟨_, rfl, fun h => ?_, fun now => hfirst⟩
  have hnone := h.failure_phrases 2024 ∅ fun _ _ hv => nomatch hv
  rw [hlost] at hnone
  exact absurd hnone (by simp)

end Example

end PhraseGraph
