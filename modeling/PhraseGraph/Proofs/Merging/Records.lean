import PhraseGraph.Proofs.Merging.Settling
import PhraseGraph.Proofs.Origins

/-!
# Origins through merges

A merge moves the origins of one node to another. So at every moment a node has the origins of all
tokens that it stands for, each once, and an origin tells the node that stands for its token
(`Merging.Records`). This holds for all merges, whatever they do to the edges.
-/

namespace PhraseGraph

theorem getD_foldl_modify {α : Type} [Inhabited α] {f : α → α} (hf : ∀ a, f (f a) = f a) {ids : List Nat}
    {as : Array α} {i : Nat} :
    (ids.foldl (fun as id => as.modify id f) as).getD i default =
      if i ∈ ids ∧ i < as.size then f (as.getD i default) else as.getD i default := by
  induction ids generalizing as with
  | nil => simp
  | cons id ids ih =>
    rw [List.foldl_cons, ih]
    by_cases hi : i < as.size
    · by_cases hid : i = id
      · subst hid
        by_cases hmem : i ∈ ids <;> simp [hi, hmem, hf, Array.getElem_modify]
      · simp [hi, hid, Ne.symm hid, Array.getElem_modify]
    · simp [hi]

namespace Merging

variable {g : TokenGraph} {m m' : Merging} {todo siblings out : List NodeId}
  {i k keep gone : NodeId} {r : OriginId}

/-- The origin at a place. -/
def origin (m : Merging) (id : OriginId) : Origin := m.origins.getD id default

/-- The node `i` stands for the token `k`. -/
def Covers (m : Merging) (i k : NodeId) : Prop := k < m.size ∧ m.resolve k = i

/-- After a merge the kept node stands for what both have stood for. -/
theorem covers_merge_iff (hne : keep ≠ gone) : (m.merge keep gone).Covers i k ↔
    i ≠ gone ∧ (m.Covers i k ∨ i = keep ∧ m.Covers gone k) := by
  rw [Covers, size_merge, resolve_merge, renamed]
  split
  · next hk =>
    constructor
    · rintro ⟨hlt, rfl⟩
      exact ⟨hne, .inr ⟨rfl, hlt, hk⟩⟩
    · rintro ⟨hi, ⟨-, hki⟩ | ⟨hi, hlt, -⟩⟩
      · exact absurd (hki.symm.trans hk) hi
      · exact ⟨hlt, hi.symm⟩
  · next hk =>
    constructor
    · rintro ⟨hlt, rfl⟩
      exact ⟨hk, .inl ⟨hlt, rfl⟩⟩
    · rintro ⟨hi, h | ⟨-, -, hki⟩⟩
      · exact h
      · exact absurd hki hk

/-- The nodes have the origins of the tokens that they stand for. -/
structure Records (g : TokenGraph) (m : Merging) : Prop where
  mem_origins_iff : ∀ i r, r ∈ (m.node i).origins ↔ ∃ k, m.Covers i k ∧ r ∈ (g.node k).origins
  nodup_origins : ∀ i, (m.node i).origins.Nodup
  isEnd_iff : ∀ i, m.resolve i = i →
    ((m.node i).isEnd = true ↔ ∃ k, m.Covers i k ∧ (g.node k).isEnd = true)
  origin_eq : ∀ r, m.origin r = { g.origin r with node := (m.origin r).node }
  origin_node : ∀ k < m.size, ∀ r ∈ (g.node k).origins, (m.origin r).node = m.resolve k
  size_origins : m.origins.size = g.origins.size

theorem origin_merge : (m.merge keep gone).origin r =
    if r ∈ (m.node gone).origins ∧ r < m.origins.size then { m.origin r with node := keep }
    else m.origin r := by
  rw [origin, origins_merge]
  exact getD_foldl_modify (f := fun o : Origin => { o with node := keep }) fun _ => rfl

theorem size_origins_merge : (m.merge keep gone).origins.size = m.origins.size := by
  rw [origins_merge]
  generalize (m.node gone).origins = ids
  generalize m.origins = os
  induction ids generalizing os with
  | nil => rfl
  | cons id ids ih => rw [List.foldl_cons, ih, Array.size_modify]

theorem records_of_graph (hg : g.Recorded) :
    Records g { nodes := g.nodes, origins := g.origins } where
  mem_origins_iff i r := by
    constructor
    · intro hr
      refine ⟨i, ⟨?_, rfl⟩, hr⟩
      by_contra hi
      rw [node_of_size_le (Nat.not_lt.1 hi)] at hr
      exact absurd hr List.not_mem_nil
    · rintro ⟨k, ⟨-, rfl⟩, hr⟩
      exact hr
  nodup_origins := hg.nodup
  isEnd_iff i _ := by
    constructor
    · intro hend
      refine ⟨i, ⟨?_, rfl⟩, hend⟩
      by_contra hi
      rw [node_of_size_le (Nat.not_lt.1 hi)] at hend
      exact absurd hend Bool.false_ne_true
    · rintro ⟨k, ⟨-, rfl⟩, hend⟩
      exact hend
  origin_eq _ := rfl
  origin_node k _ r hr := ((hg.mem_iff k r).1 hr).2
  size_origins := rfl

namespace Records

theorem setChildren {s : NodeId} {ids : List NodeId} (h : m.Records g) :
    (m.setChildren s ids).Records g := by
  have hcovers : ∀ i k, (m.setChildren s ids).Covers i k ↔ m.Covers i k := fun i k => by
    rw [Covers, size_setChildren]
    rfl
  have horigins : ∀ i, ((m.setChildren s ids).node i).origins = (m.node i).origins := fun i => by
    rw [Merging.setChildren, node_modify]
    split <;> rfl
  have hisEnd : ∀ i, ((m.setChildren s ids).node i).isEnd = (m.node i).isEnd := fun i => by
    rw [Merging.setChildren, node_modify]
    split <;> rfl
  refine ⟨fun i r => ?_, fun i => ?_, fun i hi => ?_, h.origin_eq, fun k hk => ?_, h.size_origins⟩
  · simp only [horigins, hcovers, h.mem_origins_iff]
  · rw [horigins]
    exact h.nodup_origins i
  · simp only [hisEnd, hcovers]
    exact h.isEnd_iff i hi
  · rw [size_setChildren] at hk
    exact h.origin_node k hk

/-- An origin is with one node only. -/
theorem unique (h : m.Records g) (hg : g.Recorded) {i j : NodeId} (hi : r ∈ (m.node i).origins)
    (hj : r ∈ (m.node j).origins) : i = j := by
  obtain ⟨k, ⟨-, rfl⟩, hk⟩ := (h.mem_origins_iff i r).1 hi
  obtain ⟨l, ⟨-, rfl⟩, hl⟩ := (h.mem_origins_iff j r).1 hj
  rw [← ((hg.mem_iff k r).1 hk).2, ((hg.mem_iff l r).1 hl).2]

/-- The tokens of the kept node are those of both. -/
theorem merge (h : m.Records g) (hg : g.Recorded) (hm : m.Valid)
    (hs : ∀ s ∈ siblings, s < m.size) (htwins : m.Twins siblings keep gone) :
    (m.merge keep gone).Records g := by
  have fits := hm.mergeable hs htwins
  have hgone := hm.resolve_of_mem_canonical htwins.gone_mem
  refine ⟨fun i r => ?_, fun i => ?_, fun i hi => ?_, fun r => ?_, fun k hk r hr => ?_,
    size_origins_merge.trans h.size_origins⟩
  -- The origins of both twins are with the kept one, and those of all other nodes stay.
  · simp only [fits.origins_merge, covers_merge_iff htwins.ne]
    by_cases hig : i = gone
    · simp [hig]
    · by_cases hik : i = keep
      · subst hik
        simp [hig, h.mem_origins_iff, or_and_right, exists_or]
      · simp [hig, hik, h.mem_origins_iff]
  · rw [fits.origins_merge]
    split
    · exact List.nodup_nil
    · split
      · exact List.nodup_append.2 ⟨h.nodup_origins keep, h.nodup_origins gone,
          fun r hr r' hr' hrr' => htwins.ne (h.unique hg hr (hrr' ▸ hr'))⟩
      · exact h.nodup_origins i
  · obtain ⟨hig, hlive⟩ := (hm.resolve_merge_eq_self_iff htwins).1 hi
    simp only [fits.isEnd_merge, covers_merge_iff htwins.ne]
    by_cases hik : i = keep
    · subst hik
      simp [hig, h.isEnd_iff i hlive, h.isEnd_iff gone hgone, or_and_right, exists_or]
    · simp [hig, hik, h.isEnd_iff i hlive]
  · rw [origin_merge]
    split
    · next hr => rw [h.origin_eq r]
    · exact h.origin_eq r
  -- Only the origins of the merged twin are told of another node.
  · rw [size_merge] at hk
    have hlt : r < m.origins.size := h.size_origins.symm ▸ ((hg.mem_iff k r).1 hr).1
    have hmem : r ∈ (m.node (m.resolve k)).origins := (h.mem_origins_iff _ r).2 ⟨k, ⟨hk, rfl⟩, hr⟩
    by_cases hkg : m.resolve k = gone
    · rw [origin_merge, resolve_merge, hkg, renamed_self, if_pos ⟨hkg ▸ hmem, hlt⟩]
    · rw [origin_merge, resolve_merge, renamed_of_ne hkg, if_neg, h.origin_node k hk r hr]
      exact fun hgone => hkg (h.unique hg hmem hgone.1)

end Records

/-- Every run keeps the origins with the nodes that stand for their tokens. -/
theorem Settles.records (h : Settles m todo siblings m' out) (hm : m.Ready todo siblings)
    (hg : g.Recorded) (hrecords : m.Records g) : m'.Records g := by
  induction h with
  | seen _ _ ih => exact ih hm.tail hrecords
  | @fresh m s todo siblings m₁ out₁ m' out _ hunder _ ihunder ihrest =>
    have h₁ : m₁.Records g := ihunder hm.under
      ⟨hrecords.mem_origins_iff, hrecords.nodup_origins, hrecords.isEnd_iff, hrecords.origin_eq,
        hrecords.origin_node, hrecords.size_origins⟩
    exact ihrest (hm.rest (hunder.settled hm.under)) h₁.setChildren
  | sorted => exact hrecords
  | merged h _ ih =>
    have htwins := twins_of_firstEqual? h
    exact ih (hm.merge htwins) (hrecords.merge hg hm.valid hm.lt htwins)

end Merging

end PhraseGraph
