import PhraseGraph.Proofs.Forest
import PhraseGraph.Proofs.Merging.Records

/-!
# Merging tokens that hang off one slot

Two tokens are *kin* if they hang off the same slot and have the same text. A list of tokens is
*consistent with its slots* if kin that end at different slots are not followed by the same text
(`SlotConsistent`). Then only kin are merged, and at every moment the edges of the merging are those of
the forest between the nodes that stand for its tokens (`Merging.Quotient`): no path goes through
another parent of a merged node, and none is lost.

The children of a node hang off later slots than the node itself. So while they are being merged the
node stays what it is (`Settles.quotient`), and its children can be written back at the end.
-/

namespace PhraseGraph

open Forest

namespace Forest

/-- The tokens hang off the same slot, or off none, and have the same text. -/
def Kin (tokens : List Token) (k j : Nat) : Prop :=
  (tokenAt tokens k).text = (tokenAt tokens j).text ∧ anchorAt tokens k = anchorAt tokens j

instance {tokens : List Token} {k j : Nat} : Decidable (Kin tokens k j) :=
  inferInstanceAs (Decidable (_ ∧ _))

/-- Some text hangs off both slots. -/
def SharedText (tokens : List Token) (slot slot' : Nat) : Prop :=
  ∃ v < tokens.length, ∃ w < tokens.length, anchorAt tokens v = some slot ∧
    anchorAt tokens w = some slot' ∧ (tokenAt tokens v).text = (tokenAt tokens w).text

instance {tokens : List Token} {slot slot' : Nat} : Decidable (SharedText tokens slot slot') :=
  inferInstanceAs (Decidable (∃ v < tokens.length, ∃ w < tokens.length, _ ∧ _ ∧ _))

/-- Kin that end at different slots are not followed by the same text. -/
def SlotConsistent (tokens : List Token) : Prop :=
  ∀ k < tokens.length, ∀ j < tokens.length, Kin tokens k j →
    endAt tokens k ≠ endAt tokens j → ¬SharedText tokens (endAt tokens k) (endAt tokens j)

instance {tokens : List Token} : Decidable (SlotConsistent tokens) :=
  inferInstanceAs (Decidable (∀ k < tokens.length, ∀ j < tokens.length, _ → _ → _))

end Forest

namespace Merging

variable {tokens : List Token} {m m' : Merging} {todo siblings out : List NodeId}
  {i c k j keep gone : NodeId}

/-- A token of `c` follows a token of `i`. -/
def Follows (tokens : List Token) (m : Merging) (i c : NodeId) : Prop :=
  ∃ k j, m.Covers i k ∧ m.Covers c j ∧ anchorAt tokens j = some (endAt tokens k)

/-- The edges are those between the tokens that the nodes stand for, which all hang off one slot. -/
structure Quotient (tokens : List Token) (m : Merging) : Prop where
  size_eq : m.size = tokens.length
  text_eq : ∀ k < m.size, m.text k = (tokenAt tokens k).text
  anchor_resolve : ∀ k < m.size, anchorAt tokens (m.resolve k) = anchorAt tokens k
  mem_children_iff : ∀ i c, c ∈ m.children i ↔ m.Follows tokens i c
  mem_parents_iff : ∀ i c, i ∈ m.parents c ↔ m.Follows tokens i c

/-- The siblings of a text hang off one slot. -/
def KinSiblings (tokens : List Token) (siblings : List NodeId) : Prop :=
  ∀ s ∈ siblings, ∀ t ∈ siblings, (tokenAt tokens s).text = (tokenAt tokens t).text →
    anchorAt tokens s = anchorAt tokens t

namespace Quotient

theorem level_resolve (h : m.Quotient tokens) (hk : k < m.size) :
    levelAt tokens (m.resolve k) = levelAt tokens k := by
  rw [levelAt, h.anchor_resolve k hk, levelAt]

theorem anchor_of_covers (h : m.Quotient tokens) (hk : m.Covers i k) :
    anchorAt tokens k = anchorAt tokens i := by
  rw [← hk.2, h.anchor_resolve k hk.1]

theorem level_of_covers (h : m.Quotient tokens) (hk : m.Covers i k) :
    levelAt tokens k = levelAt tokens i := by
  rw [← hk.2, h.level_resolve hk.1]

/-- Edges lead to later slots. -/
theorem level_lt_of_follows (h : m.Quotient tokens) (hic : m.Follows tokens i c) :
    levelAt tokens i < levelAt tokens c := by
  obtain ⟨k, j, hk, hj, hkj⟩ := hic
  rw [← h.level_of_covers hk, ← h.level_of_covers hj]
  exact levelAt_lt_of_anchorAt hkj

theorem text_resolve (h : m.Quotient tokens) (hm : m.Valid) (hk : k < m.size) :
    (tokenAt tokens (m.resolve k)).text = (tokenAt tokens k).text := by
  rw [← h.text_eq _ (hm.resolve_lt k hk), hm.text_resolve, h.text_eq k hk]

theorem text_of_covers (h : m.Quotient tokens) (hm : m.Valid) (hk : m.Covers i k) :
    (tokenAt tokens k).text = (tokenAt tokens i).text := by
  rw [← hk.2, h.text_resolve hm hk.1]

theorem kinSiblings_children (h : m.Quotient tokens) (hm : m.Valid) (hc : SlotConsistent tokens) :
    KinSiblings tokens (m.children i) := by
  intro s hs t ht htext
  obtain ⟨k, v, hk, hv, hkv⟩ := (h.mem_children_iff i s).1 hs
  obtain ⟨j, w, hj, hw, hjw⟩ := (h.mem_children_iff i t).1 ht
  rw [← h.anchor_of_covers hv, ← h.anchor_of_covers hw, hkv, hjw]
  by_contra hne
  refine hc k (h.size_eq ▸ hk.1) j (h.size_eq ▸ hj.1) ⟨?_, ?_⟩ (fun heq => hne (congrArg some heq))
    ⟨v, h.size_eq ▸ hv.1, w, h.size_eq ▸ hw.1, hkv, hjw, ?_⟩
  · rw [h.text_of_covers hm hk, h.text_of_covers hm hj]
  · rw [h.anchor_of_covers hk, h.anchor_of_covers hj]
  · rw [h.text_of_covers hm hv, h.text_of_covers hm hw, htext]

/-! ### Steps of a run -/

/-- What follows after a merge, where neither of the two nodes follows the other. -/
theorem follows_merge_iff (hne : keep ≠ gone) (hgone : ¬m.Follows tokens gone gone) :
    (m.merge keep gone).Follows tokens i c ↔ i ≠ gone ∧ c ≠ gone ∧
      (m.Follows tokens i c ∨ (i = keep ∧ m.Follows tokens gone c) ∨
        (c = keep ∧ m.Follows tokens i gone)) := by
  simp only [Follows, covers_merge_iff hne]
  constructor
  · rintro ⟨k, j, ⟨hi, hk⟩, ⟨hc, hj⟩, hkj⟩
    refine ⟨hi, hc, ?_⟩
    rcases hk with hk | ⟨hik, hk⟩
    · rcases hj with hj | ⟨hck, hj⟩
      · exact .inl ⟨k, j, hk, hj, hkj⟩
      · exact .inr (.inr ⟨hck, k, j, hk, hj, hkj⟩)
    · rcases hj with hj | ⟨hck, hj⟩
      · exact .inr (.inl ⟨hik, k, j, hk, hj, hkj⟩)
      · exact absurd ⟨k, j, hk, hj, hkj⟩ hgone
  · rintro ⟨hi, hc, ⟨k, j, hk, hj, hkj⟩ | ⟨hik, k, j, hk, hj, hkj⟩ | ⟨hck, k, j, hk, hj, hkj⟩⟩
    · exact ⟨k, j, ⟨hi, .inl hk⟩, ⟨hc, .inl hj⟩, hkj⟩
    · exact ⟨k, j, ⟨hi, .inr ⟨hik, hk⟩⟩, ⟨hc, .inl hj⟩, hkj⟩
    · exact ⟨k, j, ⟨hi, .inl hk⟩, ⟨hc, .inr ⟨hck, hj⟩⟩, hkj⟩

/-- Merging kin siblings leaves the edges between the tokens as they are. -/
theorem merge (h : m.Quotient tokens) (hm : m.Valid) (hs : ∀ s ∈ siblings, s < m.size)
    (htwins : m.Twins siblings keep gone)
    (hanchor : anchorAt tokens keep = anchorAt tokens gone) :
    (m.merge keep gone).Quotient tokens := by
  have fits := hm.mergeable hs htwins
  have hlevel : levelAt tokens keep = levelAt tokens gone := by rw [levelAt, hanchor, levelAt]
  -- The twins hang off one slot, and edges lead to later ones: no edge runs between them.
  have hgg : ¬m.Follows tokens gone gone := fun hf => lt_irrefl _ (h.level_lt_of_follows hf)
  have hgk : ¬m.Follows tokens gone keep := fun hf => (h.level_lt_of_follows hf).ne' hlevel
  have hkg : ¬m.Follows tokens keep gone := fun hf => (h.level_lt_of_follows hf).ne hlevel
  have hedge : ∀ i c, i ∈ m.parents c ↔ c ∈ m.children i := fun i c =>
    (h.mem_parents_iff i c).trans (h.mem_children_iff i c).symm
  refine ⟨size_merge.trans h.size_eq, fun k hk => ?_, fun k hk => ?_, fun i c => ?_, fun i c => ?_⟩
  · rw [size_merge] at hk
    rw [← h.text_eq k hk]
    exact congrArg Token.text fits.token_merge
  · rw [size_merge] at hk
    rw [resolve_merge, renamed, ← h.anchor_resolve k hk]
    split
    · next hkg => rw [hanchor, hkg]
    · rfl
  · rw [fits.mem_children_merge_iff, follows_merge_iff htwins.ne hgg, turned,
      mem_turned_iff htwins.ne (hedge i gone).2, exists_renamed_iff htwins.ne]
    simp only [h.mem_children_iff]
    -- Each end of an edge is one of the twins or neither, and no edge runs between them.
    grind
  · rw [fits.mem_parents_merge_iff, follows_merge_iff htwins.ne hgg, turned,
      mem_turned_iff htwins.ne (hedge gone c).1, exists_renamed_iff htwins.ne]
    simp only [h.mem_parents_iff]
    grind

/-- Children are written back in another order. -/
theorem setChildren {s : NodeId} {ids : List NodeId} (h : m.Quotient tokens)
    (hids : ∀ c, c ∈ ids ↔ c ∈ m.children s) : (m.setChildren s ids).Quotient tokens := by
  have hcovers : ∀ i k, (m.setChildren s ids).Covers i k ↔ m.Covers i k := fun i k => by
    rw [Covers, size_setChildren]
    rfl
  have hfollows : ∀ i c, (m.setChildren s ids).Follows tokens i c ↔ m.Follows tokens i c :=
    fun i c => by simp only [Follows, hcovers]
  refine ⟨size_setChildren.trans h.size_eq, fun k hk => ?_, fun k hk => ?_, fun i c => ?_,
    fun i c => ?_⟩
  · rw [size_setChildren] at hk
    rw [text_setChildren, h.text_eq k hk]
  · rw [size_setChildren] at hk
    exact h.anchor_resolve k hk
  · rw [hfollows, ← h.mem_children_iff, children_setChildren]
    split
    · next hi => rw [hids, hi.1]
    · exact Iff.rfl
  · rw [parents_setChildren, hfollows, h.mem_parents_iff]

end Quotient

/-! ### Runs -/

theorem KinSiblings.canonical (hkin : KinSiblings tokens siblings) (h : m.Quotient tokens)
    (hm : m.Ready todo siblings) : KinSiblings tokens (m.canonical siblings) := by
  intro _ hcs _ hct htext
  obtain ⟨s, hs, rfl⟩ := mem_canonical_iff.1 hcs
  obtain ⟨t, ht, rfl⟩ := mem_canonical_iff.1 hct
  rw [h.text_resolve hm.valid (hm.lt s hs), h.text_resolve hm.valid (hm.lt t ht)] at htext
  rw [h.anchor_resolve s (hm.lt s hs), h.anchor_resolve t (hm.lt t ht)]
  exact hkin s hs t ht htext

/-- The twins among kin siblings hang off one slot. -/
theorem KinSiblings.anchor_eq (hkin : KinSiblings tokens siblings) (h : m.Quotient tokens)
    (hm : m.Ready todo siblings) (htwins : m.Twins siblings keep gone) :
    anchorAt tokens keep = anchorAt tokens gone := by
  have hlt := lt_size_canonical hm.valid hm.lt
  refine hkin.canonical h hm keep htwins.keep_mem gone htwins.gone_mem ?_
  rw [← h.text_eq keep (hlt keep htwins.keep_mem), ← h.text_eq gone (hlt gone htwins.gone_mem),
    htwins.text_eq]

/-- What is written back are the children, since no token of the node has been merged meanwhile. -/
theorem Quotient.mem_out_iff (h : m.Quotient tokens) (h' : m'.Quotient tokens) {id : NodeId}
    (hsettled : (m.visit id).Settled (m.children id) m' out)
    (hframe : ∀ k < m.size, levelAt tokens k ≤ levelAt tokens id → m'.resolve k = m.resolve k) :
    ∀ c, c ∈ out ↔ c ∈ m'.children id := by
  intro c
  have hsize : m'.size = m.size := hsettled.size_eq
  have hcovers : ∀ k, m'.Covers id k ↔ m.Covers id k := by
    intro k
    constructor
    · rintro ⟨hk, hkid⟩
      have hlevel := h'.level_of_covers ⟨hk, hkid⟩
      rw [hsize] at hk
      exact ⟨hk, hframe k hk hlevel.le ▸ hkid⟩
    · rintro ⟨hk, hkid⟩
      have hlevel := h.level_of_covers ⟨hk, hkid⟩
      exact ⟨hsize ▸ hk, (hframe k hk hlevel.le).trans hkid⟩
  rw [hsettled.mem_out_iff, h'.mem_children_iff]
  constructor
  · rintro ⟨t, ht, rfl⟩
    obtain ⟨k, j, hk, ⟨hj, rfl⟩, hkj⟩ := (h.mem_children_iff id t).1 ht
    exact ⟨k, j, (hcovers k).2 hk, ⟨hsize ▸ hj, (hsettled.absorbs j).symm⟩, hkj⟩
  · rintro ⟨k, j, hk, ⟨hj, rfl⟩, hkj⟩
    rw [hsize] at hj
    exact ⟨m.resolve j, (h.mem_children_iff _ _).2 ⟨k, j, (hcovers k).1 hk, ⟨hj, rfl⟩, hkj⟩,
      hsettled.absorbs j⟩

/-- A run keeps the edges between the tokens, and merges nothing that hangs off a slot before those
    of its siblings. -/
theorem Settles.quotient (h : Settles m todo siblings m' out) (hm : m.Ready todo siblings)
    (hc : SlotConsistent tokens) (hq : m.Quotient tokens) (hkin : KinSiblings tokens siblings) :
    m'.Quotient tokens ∧ ∀ level, (∀ s ∈ siblings, level < levelAt tokens s) →
      ∀ k < m.size, levelAt tokens k ≤ level → m'.resolve k = m.resolve k := by
  induction h with
  | seen _ _ ih => exact ih hm.tail hq hkin
  | @fresh m s todo siblings m₁ out₁ m' out _ hunder _ ihunder ihrest =>
    have hmem : s ∈ siblings := hm.subset List.mem_cons_self
    have under := hunder.settled hm.under
    obtain ⟨hq₁, hframe₁⟩ := ihunder hm.under
      ⟨hq.size_eq, hq.text_eq, hq.anchor_resolve, hq.mem_children_iff, hq.mem_parents_iff⟩
      (hq.kinSiblings_children hm.valid hc)
    -- The children hang off later slots than the node, so the run below does not merge its tokens.
    have hbelow : ∀ c ∈ m.children (m.resolve s), levelAt tokens (m.resolve s) < levelAt tokens c :=
      fun c hc => hq.level_lt_of_follows ((hq.mem_children_iff _ c).1 hc)
    have hout := hq.mem_out_iff hq₁ under (hframe₁ _ hbelow)
    obtain ⟨hq', hframe⟩ := ihrest (hm.rest under) (hq₁.setChildren hout) hkin
    refine ⟨hq', fun level hlevel k hk hle => ?_⟩
    have hs : level < levelAt tokens (m.resolve s) := by
      rw [hq.level_resolve (hm.lt s hmem)]
      exact hlevel s hmem
    calc m'.resolve k = m₁.resolve k :=
          hframe level hlevel k (by rw [size_setChildren, under.size_eq]; exact hk) hle
      _ = m.resolve k := hframe₁ level (fun c hc => hs.trans (hbelow c hc)) k hk hle
  | sorted => exact ⟨hq, fun _ _ _ _ _ => rfl⟩
  | @merged m siblings keep gone m' out h _ ih =>
    have htwins := twins_of_firstEqual? h
    have hlt := lt_size_canonical hm.valid hm.lt
    obtain ⟨hq', hframe⟩ := ih (hm.merge htwins)
      (hq.merge hm.valid hm.lt htwins (hkin.anchor_eq hq hm htwins)) (hkin.canonical hq hm)
    refine ⟨hq', fun level hlevel k hk hle => ?_⟩
    have hcanonical : ∀ c ∈ m.canonical siblings, level < levelAt tokens c := by
      intro c hc
      obtain ⟨s, hs, rfl⟩ := mem_canonical_iff.1 hc
      rw [hq.level_resolve (hm.lt s hs)]
      exact hlevel s hs
    -- The merged twin hangs off a slot after the level, and the token does not.
    have hkgone : m.resolve k ≠ gone := fun hkg => by
      have hgone := hcanonical gone htwins.gone_mem
      rw [← hkg, hq.level_resolve hk] at hgone
      omega
    rw [hframe level hcanonical k (by rwa [size_merge]) hle, resolve_merge, renamed_of_ne hkgone]

end Merging

end PhraseGraph
