import PhraseGraph.Proofs.Normalization
import PhraseGraph.Proofs.Readings

/-!
# The graph of tokens with one slot each

Tokens that each cover one slot, one after another, hang together in a row: each one follows the one
before it, even where slots between them are empty, and no two are kin. So nothing is merged, and the
graph has a single path, which spells the texts of the tokens (`OnePerSlot.accepts_iff`).
-/

namespace PhraseGraph

open Forest

/-- Each token covers one slot, and begins in a later one than those before it. -/
structure OnePerSlot (tokens : List Token) : Prop where
  ascends : tokens.Pairwise fun t u => t.position < u.position
  span_eq : ∀ t ∈ tokens, t.span = 1

theorem eq_singleton_of_nodup {l : List Nat} {a : Nat} (hl : l.Nodup) (h : ∀ c, c ∈ l ↔ c = a) :
    l = [a] := by
  refine List.perm_singleton.1 ((List.perm_ext_iff_of_nodup hl (List.nodup_singleton a)).2 ?_)
  simpa using h

namespace OnePerSlot

variable {tokens : List Token} {phrase : String} {i j k : Nat} {ws : List String}

/-! ### Slots -/

section Slots

variable (h : OnePerSlot tokens)
include h

theorem position_lt (hij : i < j) (hj : j < tokens.length) :
    (tokenAt tokens i).position < (tokenAt tokens j).position := by
  rw [tokenAt_eq_getElem hj, tokenAt_eq_getElem (hij.trans hj)]
  exact List.pairwise_iff_getElem.1 h.ascends i j (hij.trans hj) hj hij

theorem position_le (hij : i ≤ j) (hj : j < tokens.length) :
    (tokenAt tokens i).position ≤ (tokenAt tokens j).position := by
  rcases Nat.eq_or_lt_of_le hij with rfl | hlt
  · exact Nat.le_refl _
  · exact (h.position_lt hlt hj).le

theorem endAt_eq (hk : k < tokens.length) :
    endAt tokens k = (tokenAt tokens k).position + 1 := by
  rw [endAt, Token.endPosition, h.span_eq _ (tokenAt_mem hk)]

theorem anchorAt_zero : anchorAt tokens 0 = none := by
  refine anchorAt_eq_none_iff.2 fun s hs => ?_
  obtain ⟨i, hi, rfl⟩ := mem_endSlots_iff.1 hs
  rw [h.endAt_eq hi]
  exact Nat.lt_succ_of_le (h.position_le (Nat.zero_le i) hi)

/-- Each token hangs off the end of the one before it. -/
theorem anchorAt_succ (hk : k + 1 < tokens.length) :
    anchorAt tokens (k + 1) = some (endAt tokens k) := by
  have hk' : k < tokens.length := Nat.lt_of_succ_lt hk
  refine anchorAt_eq_some_iff.2 ⟨⟨mem_endSlots_iff.2 ⟨k, hk', rfl⟩, ?_⟩, fun s hs hle => ?_⟩
  · rw [h.endAt_eq hk']
    exact h.position_lt (Nat.lt_add_one k) hk
  · obtain ⟨i, hi, rfl⟩ := mem_endSlots_iff.1 hs
    rw [h.endAt_eq hi] at hle
    -- What ends so early does not come later.
    have hik : i ≤ k := by
      by_contra hki
      have hlater : (tokenAt tokens (k + 1)).position ≤ (tokenAt tokens i).position :=
        h.position_le (Nat.not_le.1 hki) hi
      omega
    rw [h.endAt_eq hi, h.endAt_eq hk']
    exact Nat.succ_le_succ (h.position_le hik hk')

theorem endAt_inj (hi : i < tokens.length) (hj : j < tokens.length)
    (hij : endAt tokens i = endAt tokens j) : i = j := by
  rw [h.endAt_eq hi, h.endAt_eq hj, Nat.add_right_cancel_iff] at hij
  -- Of two tokens the later one ends later.
  rcases Nat.lt_trichotomy i j with hlt | rfl | hlt
  · exact absurd hij (h.position_lt hlt hj).ne
  · rfl
  · exact absurd hij (h.position_lt hlt hi).ne'

/-! ### The forest -/

theorem edge_iff : (ofTokens tokens phrase).Edge k j ↔ j = k + 1 ∧ j < tokens.length := by
  rw [Forest.edge_iff]
  constructor
  · rintro ⟨hk, hj, hanchor⟩
    cases j with
    | zero => rw [h.anchorAt_zero] at hanchor; exact absurd hanchor (by simp)
    | succ j =>
      rw [h.anchorAt_succ hj, Option.some_inj] at hanchor
      exact ⟨congrArg (· + 1) (h.endAt_inj (Nat.lt_of_succ_lt hj) hk hanchor), hj⟩
  · rintro ⟨rfl, hj⟩
    exact ⟨Nat.lt_of_succ_lt hj, hj, h.anchorAt_succ hj⟩

theorem eq_of_kin (hk : k < tokens.length) (hj : j < tokens.length) (hkj : Kin tokens k j) :
    k = j := by
  have hanchor := hkj.2
  cases k with
  | zero =>
    cases j with
    | zero => rfl
    | succ j =>
      rw [h.anchorAt_zero, h.anchorAt_succ hj] at hanchor
      exact absurd hanchor (by simp)
  | succ k =>
    cases j with
    | zero =>
      rw [h.anchorAt_zero, h.anchorAt_succ hk] at hanchor
      exact absurd hanchor (by simp)
    | succ j =>
      rw [h.anchorAt_succ hk, h.anchorAt_succ hj, Option.some_inj] at hanchor
      exact congrArg (· + 1) (h.endAt_inj (Nat.lt_of_succ_lt hk) (Nat.lt_of_succ_lt hj) hanchor)

theorem no_kin : ∀ k < tokens.length, ∀ j < tokens.length, Kin tokens k j → k = j :=
  fun _ hk _ hj => h.eq_of_kin hk hj

theorem mem_roots_iff : k ∈ (ofTokens tokens phrase).roots ↔ k = 0 ∧ tokens ≠ [] := by
  rw [Forest.mem_roots_iff]
  constructor
  · rintro ⟨hk, hanchor⟩
    cases k with
    | zero => exact ⟨rfl, List.ne_nil_of_length_pos hk⟩
    | succ k => rw [h.anchorAt_succ hk] at hanchor; exact absurd hanchor (by simp)
  · rintro ⟨rfl, hne⟩
    exact ⟨List.length_pos_iff.2 hne, h.anchorAt_zero⟩

theorem isEnd_iff (hk : k < tokens.length) :
    (ofTokens tokens phrase).isEnd k = true ↔ k + 1 = tokens.length := by
  rw [Forest.isEnd_iff hk]
  constructor
  · intro hlast
    by_contra hne
    have hk1 : k + 1 < tokens.length := by omega
    have hle := hlast (k + 1) hk1
    rw [h.endAt_eq hk, h.endAt_eq hk1] at hle
    have := h.position_lt (Nat.lt_add_one k) hk1
    omega
  · intro hlast j hj
    rw [h.endAt_eq hj, h.endAt_eq hk]
    exact Nat.succ_le_succ (h.position_le (by omega) hk)

theorem children_forest :
    (ofTokens tokens phrase).children k = if k + 1 < tokens.length then [k + 1] else [] := by
  have hedge : ∀ c, c ∈ (ofTokens tokens phrase).children k ↔ c = k + 1 ∧ c < tokens.length :=
    fun c => h.edge_iff
  split
  · next hk =>
    exact eq_singleton_of_nodup nodup_children fun c => (hedge c).trans
      ⟨fun hc => hc.1, fun hc => ⟨hc, hc ▸ hk⟩⟩
  · next hk =>
    refine List.eq_nil_iff_forall_not_mem.2 fun c hc => hk ?_
    obtain ⟨rfl, hlt⟩ := (hedge c).1 hc
    exact hlt

theorem children_eq_nil_iff (hk : k < tokens.length) :
    (ofTokens tokens phrase).children k = [] ↔ k + 1 = tokens.length := by
  rw [h.children_forest]
  split
  · next hk' => simp [hk'.ne]
  · next hk' => simp only [true_iff]; omega

theorem noneDangles : NoneDangles tokens := by
  intro t ht
  obtain ⟨k, hk, rfl⟩ := mem_iff_exists_tokenAt.1 ht
  by_cases hlast : k + 1 = tokens.length
  · have hend : (ofTokens tokens "").isEnd k = true := (h.isEnd_iff hk).2 hlast
    exact .inl ((isEnd_iff_max? hk).1 hend)
  · have hk' : k + 1 < tokens.length := by omega
    exact .inr ⟨_, tokenAt_mem hk', h.anchorAt_succ hk'⟩

/-- A path to the last token goes through all tokens that follow. -/
theorem map_text_of_isPath {path : List NodeId} (hk : k < tokens.length)
    (hpath : (ofTokens tokens phrase).IsPath [k] path)
    (hlast : ∃ last ∈ path.getLast?, last + 1 = tokens.length) :
    path.map (ofTokens tokens phrase).text = (tokens.drop k).map (·.text) := by
  induction path generalizing k with
  | nil =>
    obtain ⟨last, hlast, -⟩ := hlast
    exact absurd hlast (by simp)
  | cons i path ih =>
    obtain rfl : i = k := List.mem_singleton.1 hpath.1
    rw [List.drop_eq_getElem_cons hk, List.map_cons, List.map_cons, text_ofTokens hk,
      tokenAt_eq_getElem hk]
    refine congrArg (_ :: ·) ?_
    cases path with
    | nil =>
      obtain ⟨last, hlast, hend⟩ := hlast
      obtain rfl : i = last := by simpa using hlast
      rw [List.drop_eq_nil_of_le hend.ge]
      rfl
    | cons c path =>
      have hc : c ∈ (ofTokens tokens phrase).children i := hpath.2.1
      obtain ⟨rfl, hlt⟩ := h.edge_iff.1 hc
      obtain ⟨last, hlast, hend⟩ := hlast
      rw [List.getLast?_cons_cons] at hlast
      exact ih hlt ⟨List.mem_singleton_self _, hpath.2.2⟩ ⟨last, hlast, hend⟩

/-- The path from the root to where it can end spells the texts of the tokens. -/
theorem map_text_of_isPath_roots {path : List NodeId}
    (hpath : (ofTokens tokens phrase).IsPath (ofTokens tokens phrase).roots path)
    (hlast : ∃ last ∈ path.getLast?, (ofTokens tokens phrase).isEnd last = true ∨
      (ofTokens tokens phrase).children last = []) :
    path.map (ofTokens tokens phrase).text = tokens.map (·.text) := by
  obtain ⟨last, hlast, hstop⟩ := hlast
  have hlt : last < tokens.length :=
    (hpath.lt_size_of_mem inRange_ofTokens inRange_ofTokens.roots_lt
      (List.mem_of_getLast? hlast)).trans_eq Forest.size_ofTokens
  have hend : last + 1 = tokens.length :=
    hstop.elim (h.isEnd_iff hlt).1 (h.children_eq_nil_iff hlt).1
  cases path with
  | nil => exact absurd hlast (by simp)
  | cons k path =>
    obtain ⟨rfl, hne⟩ := h.mem_roots_iff.1 hpath.1
    exact h.map_text_of_isPath (List.length_pos_iff.2 hne) ⟨List.mem_singleton_self _, hpath.2⟩
      ⟨last, hlast, hend⟩

end Slots

/-! ### The graph -/

section Graph

variable (h : OnePerSlot tokens)
include h

theorem slotConsistent : SlotConsistent tokens := NormalForm.slotConsistent_of_no_kin h.no_kin

theorem children_ofTokens :
    (TokenGraph.ofTokens tokens phrase).children k = (ofTokens tokens phrase).children k := by
  obtain ⟨m, out, hn⟩ := exists_normalForm tokens phrase
  have hnodup : ((TokenGraph.ofTokens tokens phrase).children k).Nodup := by
    rw [TokenGraph.children, hn.node_eq h.no_kin]
    exact hn.settled.valid.nodup_children k
  have hperm := (List.perm_ext_iff_of_nodup hnodup nodup_children).2 fun c =>
    hn.mem_children_iff h.no_kin
  rw [h.children_forest] at hperm ⊢
  split at hperm
  · next hk => rw [if_pos hk, List.perm_singleton.1 hperm]
  · next hk => rw [if_neg hk, hperm.eq_nil]

theorem roots_ofTokens (hne : tokens ≠ []) : (TokenGraph.ofTokens tokens phrase).roots = [0] := by
  obtain ⟨m, out, hn⟩ := exists_normalForm tokens phrase
  have hnodup : (TokenGraph.ofTokens tokens phrase).roots.Nodup := by
    rw [hn.ofTokens_eq h.no_kin]
    exact List.Pairwise.imp (fun hlt heq => ne_of_lt hlt (congrArg m.text heq)) hn.settled.ascends
  refine eq_singleton_of_nodup hnodup fun c => ?_
  rw [hn.mem_roots_iff h.no_kin, h.mem_roots_iff, and_iff_left hne]

theorem size_ofTokens : (TokenGraph.ofTokens tokens phrase).size = tokens.length := by
  obtain ⟨m, out, hn⟩ := exists_normalForm tokens phrase
  rw [hn.ofTokens_eq h.no_kin]
  exact hn.size_eq

/-- The end of the graph is the token that nothing follows. -/
theorem isEnd_iff_children_eq_nil (hk : k < tokens.length) :
    (TokenGraph.ofTokens tokens phrase).isEnd k = true ↔
      (TokenGraph.ofTokens tokens phrase).children k = [] := by
  obtain ⟨m, out, hn⟩ := exists_normalForm tokens phrase
  rw [hn.isEnd_eq_iff h.no_kin hk, h.isEnd_iff hk, h.children_ofTokens, h.children_eq_nil_iff hk]

theorem lt_length_of_listed (hk : (TokenGraph.ofTokens tokens phrase).Listed k) :
    k < tokens.length := by
  rcases hk with hroot | ⟨p, hedge⟩
  · obtain ⟨m, out, hn⟩ := exists_normalForm tokens phrase
    exact (Forest.mem_roots_iff.1 ((hn.mem_roots_iff h.no_kin).1 hroot)).1
  · rw [TokenGraph.Edge, h.children_ofTokens] at hedge
    exact (h.edge_iff.1 hedge).2

variable (phrase) in
theorem tidy_ofTokens : (TokenGraph.ofTokens tokens phrase).Tidy := by
  obtain ⟨m, out, hn⟩ := exists_normalForm tokens phrase
  refine ⟨hn.roots_ascend, hn.children_ascend, (hn.gathers h.slotConsistent).acyclic, fun id hid => ?_⟩
  exact h.isEnd_iff_children_eq_nil (h.lt_length_of_listed hid)

/-- The graph accepts the texts of the tokens. -/
theorem accepts_iff :
    (TokenGraph.ofTokens tokens phrase).Accepts ws ↔ ws = tokens.map (·.text) := by
  obtain ⟨m, out, hn⟩ := exists_normalForm tokens phrase
  rw [(hn.gathers h.slotConsistent).accepts_iff]
  have hwhole : ∀ path, (ofTokens tokens phrase).IsWhole (ofTokens tokens phrase).roots path →
      path.map (ofTokens tokens phrase).text = tokens.map (·.text) := by
    rintro path (⟨hroots, rfl⟩ | ⟨hpath, last, hlast, hend⟩)
    · rw [eq_nil_of_roots_eq_nil phrase hroots]
      rfl
    · exact h.map_text_of_isPath_roots hpath ⟨last, hlast, .inl hend⟩
  constructor
  · rintro ⟨path, hpath, rfl⟩
    exact hwhole path hpath
  · rintro rfl
    by_cases hne : tokens = []
    · subst hne
      exact ⟨[], .inl ⟨rfl, rfl⟩, rfl⟩
    · obtain ⟨path, hpath, -⟩ :=
        h.noneDangles.exists_isWhole phrase (List.length_pos_iff.2 hne)
      exact ⟨path, hpath, hwhole path hpath⟩

end Graph

/-! ### Origins -/

section Origins

open Provenance

variable {r : OriginId} (h : OnePerSlot tokens)

theorem children_origin_fill (hr : MadeFor tokens phrase r k) :
    ((fill (ofTokens tokens phrase)).origin r).children =
      ((ofTokens tokens phrase).children k).map (order (ofTokens tokens phrase)).idxOf := by
  obtain ⟨hlt, rfl⟩ := hr
  rw [size_origins_fill] at hlt
  rw [(origin_fill hlt).1, (origin_fill hlt).2]

include h

/-- Every origin is as it was made. -/
theorem origin_ofTokens (hk : k < tokens.length) (hr : MadeFor tokens phrase r k) :
    (TokenGraph.ofTokens tokens phrase).origin r = (fill (ofTokens tokens phrase)).origin r := by
  obtain ⟨m, out, hn⟩ := exists_normalForm tokens phrase
  have horigin := hn.origin_eq h.no_kin hk hr
  have hlt : r < m.origins.size := hn.records.size_origins.symm ▸ hr.1
  rw [hn.ofTokens_eq h.no_kin]
  refine (TokenGraph.origin_sortOrigins_of_length_le_one hlt ?_).trans horigin
  have hchildren : (m.origin r).children.length ≤ 1 := by
    rw [horigin, children_origin_fill hr, List.length_map, h.children_forest]
    split <;> simp
  exact hchildren

/-- A node has the origin of its token alone. -/
theorem origins_ofTokens (hk : k < tokens.length) (hr : MadeFor tokens phrase r k) :
    ((TokenGraph.ofTokens tokens phrase).node k).origins = [r] := by
  obtain ⟨m, out, hn⟩ := exists_normalForm tokens phrase
  have hnodup : ((TokenGraph.ofTokens tokens phrase).node k).origins.Nodup := by
    rw [hn.node_eq h.no_kin]
    exact hn.records.nodup_origins k
  rw [(madeFor_iff hk).1 hr]
  exact eq_singleton_of_nodup hnodup fun r' =>
    (hn.mem_origins_iff h.no_kin hk).trans (madeFor_iff hk)

/-- The origins follow one another as the nodes do. -/
theorem children_origin_ofTokens (hk : k < tokens.length) (hr : MadeFor tokens phrase r k) :
    ((TokenGraph.ofTokens tokens phrase).origin r).children =
      (TokenGraph.ofTokens tokens phrase).originsOf
        ((TokenGraph.ofTokens tokens phrase).children k) := by
  rw [h.origin_ofTokens hk hr, children_origin_fill hr, h.children_ofTokens, h.children_forest]
  split
  · next hk' =>
    have hnext : MadeFor tokens phrase _ (k + 1) := (madeFor_iff hk').2 rfl
    simp [TokenGraph.originsOf, h.origins_ofTokens hk' hnext]
  · rfl

end Origins

end OnePerSlot

end PhraseGraph
