import Mathlib.Algebra.Order.BigOperators.Group.List
import PhraseGraph.Proofs.Forest

/-!
# What can be read along a list of tokens

The forest of a list of tokens knows the tokens by their places, but what its paths spell depends on the
slots alone: a token is read at the slot that it hangs off, the reading goes on at the slot after it, and
it is over at the last slot of all (`Reads`). The forest accepts what can be read from the beginning
(`accepts_iff_reads`).

Where from every slot but the last one some token can be read, nothing dangles (`NoneDangles`): every
token is on a path to an end, and the ends are the tokens that nothing follows.
-/

namespace PhraseGraph.Forest

open TokenGraph Relation

/-! ### Slots to hang off -/

section Anchor

variable {ends : List Nat} {position slot : Nat}

theorem anchor?_eq_some_iff : anchor? ends position = some slot ↔
    (slot ∈ ends ∧ slot ≤ position) ∧ ∀ s ∈ ends, s ≤ position → s ≤ slot := by
  rw [anchor?, List.max?_eq_some_iff]
  simp

theorem anchor?_eq_none_iff : anchor? ends position = none ↔ ∀ s ∈ ends, position < s := by
  rw [anchor?, List.max?_eq_none_iff]
  simp

/-- A slot before the position is not after the one that is hung off. -/
theorem exists_anchor?_ge (hslot : slot ∈ ends) (hle : slot ≤ position) :
    ∃ s, anchor? ends position = some s ∧ slot ≤ s := by
  cases h : anchor? ends position with
  | none => exact absurd (anchor?_eq_none_iff.1 h slot hslot) (Nat.not_lt.2 hle)
  | some s => exact ⟨s, rfl, (anchor?_eq_some_iff.1 h).2 slot hslot hle⟩

end Anchor

variable {tokens : List Token} {phrase : String} {slot : Option Nat} {w : String}
  {ws : List String} {k : Nat} {t : Token}

theorem mem_endSlots_iff_exists {s : Nat} : s ∈ endSlots tokens ↔ ∃ t ∈ tokens, t.endPosition = s :=
  List.mem_map

theorem mem_iff_exists_tokenAt : t ∈ tokens ↔ ∃ k < tokens.length, tokenAt tokens k = t := by
  rw [List.mem_iff_getElem]
  constructor
  · rintro ⟨k, hk, rfl⟩
    exact ⟨k, hk, tokenAt_eq_getElem hk⟩
  · rintro ⟨k, hk, rfl⟩
    exact ⟨k, hk, (tokenAt_eq_getElem hk).symm⟩

/-! ### Readings -/

/-- The words can be read along the tokens from the slot on, to the last slot of all. -/
inductive Reads (tokens : List Token) : Option Nat → List String → Prop
  | done : Reads tokens (endSlots tokens).max? []
  | next {t : Token} {ws : List String} : t ∈ tokens → Reads tokens (some t.endPosition) ws →
      Reads tokens (anchor? (endSlots tokens) t.position) (t.text :: ws)

theorem reads_nil_iff : Reads tokens slot [] ↔ (endSlots tokens).max? = slot := by
  refine ⟨fun h => ?_, fun h => h ▸ .done⟩
  cases h
  rfl

theorem reads_cons_iff : Reads tokens slot (w :: ws) ↔
    ∃ t ∈ tokens, anchor? (endSlots tokens) t.position = slot ∧ t.text = w ∧
      Reads tokens (some t.endPosition) ws := by
  constructor
  · intro h
    cases h with
    | next ht h => exact ⟨_, ht, rfl, rfl, h⟩
  · rintro ⟨t, ht, rfl, rfl, h⟩
    exact .next ht h

/-- Every token ends after the slot that it hangs off. -/
theorem anchor?_ne_max? (ht : t ∈ tokens) :
    anchor? (endSlots tokens) t.position ≠ (endSlots tokens).max? := by
  intro h
  have hmem : t.endPosition ∈ endSlots tokens := List.mem_map_of_mem ht
  have hlt : t.position < t.endPosition := by
    simp only [Token.endPosition, Token.span]
    omega
  cases hmax : (endSlots tokens).max? with
  | none =>
    rw [List.max?_eq_none_iff] at hmax
    exact absurd (hmax ▸ hmem) List.not_mem_nil
  | some s =>
    have hle := (List.max?_eq_some_iff.1 hmax).2 _ hmem
    have hs := (anchor?_eq_some_iff.1 (h.trans hmax)).1.2
    omega

/-- At the last slot the reading is over. -/
theorem reads_max?_iff : Reads tokens (endSlots tokens).max? ws ↔ ws = [] := by
  refine ⟨fun h => ?_, fun h => h ▸ .done⟩
  cases ws with
  | nil => rfl
  | cons w ws =>
    obtain ⟨t, ht, hanchor, -, -⟩ := reads_cons_iff.1 h
    exact absurd hanchor (anchor?_ne_max? ht)

/-! ### Readings and paths -/

theorem isEnd_iff_max? (hk : k < tokens.length) : (ofTokens tokens phrase).isEnd k = true ↔
    (endSlots tokens).max? = some (endAt tokens k) := by
  rw [isEnd, node_ofTokens hk]
  exact beq_iff_eq

variable (phrase) in
theorem eq_nil_of_roots_eq_nil (h : (ofTokens tokens phrase).roots = []) : tokens = [] := by
  by_contra hne
  obtain ⟨r, hr, -⟩ := exists_root_reaches phrase (List.length_pos_iff.2 hne)
  exact absurd (h ▸ hr) List.not_mem_nil

/-- A path to an end is a reading from the slot that its first node hangs off. -/
theorem reads_of_isPath {ids path : List NodeId}
    (hids : ∀ k ∈ ids, k < tokens.length ∧ anchorAt tokens k = slot)
    (hpath : (ofTokens tokens phrase).IsPath ids path)
    (hend : ∃ last ∈ path.getLast?, (ofTokens tokens phrase).isEnd last = true) :
    Reads tokens slot (path.map (ofTokens tokens phrase).text) := by
  induction path generalizing ids slot with
  | nil =>
    obtain ⟨last, hlast, -⟩ := hend
    exact absurd hlast (by simp)
  | cons k path ih =>
    obtain ⟨hk, rfl⟩ := hids k hpath.1
    rw [List.map_cons, text_ofTokens hk]
    refine .next (tokenAt_mem hk) ?_
    cases path with
    | nil =>
      obtain ⟨last, hlast, hend⟩ := hend
      obtain rfl : k = last := by simpa using hlast
      exact reads_nil_iff.2 ((isEnd_iff_max? hk).1 hend)
    | cons c path =>
      rw [List.getLast?_cons_cons] at hend
      refine ih (fun c hc => ?_) hpath.2 hend
      obtain ⟨-, hc, hanchor⟩ := edge_iff.1 hc
      exact ⟨hc, hanchor⟩

/-- A reading of some words is a path to an end. -/
theorem exists_isPath_of_reads (h : Reads tokens slot ws) (hws : ws ≠ []) {ids : List NodeId}
    (hids : ∀ k < tokens.length, anchorAt tokens k = slot → k ∈ ids) :
    ∃ path, (ofTokens tokens phrase).IsPath ids path ∧
      (∃ last ∈ path.getLast?, (ofTokens tokens phrase).isEnd last = true) ∧
      path.map (ofTokens tokens phrase).text = ws := by
  induction h generalizing ids with
  | done => exact absurd rfl hws
  | @next t ws ht h ih =>
    obtain ⟨k, hk, rfl⟩ := mem_iff_exists_tokenAt.1 ht
    have hmem : k ∈ ids := hids k hk rfl
    by_cases hnil : ws = []
    · subst hnil
      have hend : (ofTokens tokens phrase).isEnd k = true :=
        (isEnd_iff_max? hk).2 (reads_nil_iff.1 h)
      exact ⟨[k], ⟨hmem, trivial⟩, ⟨k, rfl, hend⟩, by simp [text_ofTokens hk]⟩
    · have hfollow : ∀ c < tokens.length, anchorAt tokens c = some (endAt tokens k) →
          c ∈ (ofTokens tokens phrase).children k := fun c hc hanchor => edge_iff.2 ⟨hk, hc, hanchor⟩
      obtain ⟨path, hpath, ⟨last, hlast, hend⟩, rfl⟩ := ih hnil hfollow
      exact ⟨k :: path, ⟨hmem, hpath⟩, ⟨last, List.mem_getLast?_cons hlast, hend⟩,
        by simp [text_ofTokens hk]⟩

/-- The forest accepts what can be read from the beginning. -/
theorem accepts_iff_reads : (ofTokens tokens phrase).Accepts ws ↔ Reads tokens none ws := by
  constructor
  · rintro ⟨path, ⟨hroots, rfl⟩ | ⟨hpath, hend⟩, rfl⟩
    · obtain rfl := eq_nil_of_roots_eq_nil phrase hroots
      exact .done
    · exact reads_of_isPath (fun k hk => mem_roots_iff.1 hk) hpath hend
  · intro h
    by_cases hws : ws = []
    · subst hws
      have hends := List.max?_eq_none_iff.1 (reads_nil_iff.1 h)
      obtain rfl : tokens = [] := List.map_eq_nil_iff.1 hends
      exact ⟨[], .inl ⟨rfl, rfl⟩, rfl⟩
    · have hroots : ∀ k < tokens.length, anchorAt tokens k = none →
          k ∈ (ofTokens tokens phrase).roots := fun k hk hanchor => mem_roots_iff.2 ⟨hk, hanchor⟩
      obtain ⟨path, hpath, hend, htext⟩ := exists_isPath_of_reads h hws hroots
      exact ⟨path, .inr ⟨hpath, hend⟩, htext⟩

/-! ### Forests without dead ends -/

/-- Where a token ends some token can be read, unless it is the last slot. -/
def NoneDangles (tokens : List Token) : Prop :=
  ∀ t ∈ tokens, (endSlots tokens).max? = some t.endPosition ∨
    ∃ u ∈ tokens, anchor? (endSlots tokens) u.position = some t.endPosition

/-- Nothing follows an end. -/
theorem children_eq_nil_of_isEnd (hk : k < tokens.length)
    (hend : (ofTokens tokens phrase).isEnd k = true) : (ofTokens tokens phrase).children k = [] := by
  refine List.eq_nil_iff_forall_not_mem.2 fun j hj => ?_
  obtain ⟨-, hj, hanchor⟩ := edge_iff.1 hj
  have hmax := (isEnd_iff_max? hk).1 hend
  exact anchor?_ne_max? (tokenAt_mem hj) (hanchor.trans hmax.symm)

namespace NoneDangles

variable (h : NoneDangles tokens)
include h

theorem isEnd_or_exists_edge (phrase : String) (hk : k < tokens.length) :
    (ofTokens tokens phrase).isEnd k = true ∨ ∃ j, (ofTokens tokens phrase).Edge k j := by
  rcases h _ (tokenAt_mem hk) with hmax | ⟨u, hu, hanchor⟩
  · exact .inl ((isEnd_iff_max? hk).2 hmax)
  · obtain ⟨j, hj, rfl⟩ := mem_iff_exists_tokenAt.1 hu
    exact .inr ⟨j, edge_iff.2 ⟨hk, hj, hanchor⟩⟩

/-- The ends are the tokens that nothing follows. -/
theorem isEnd_iff_children_eq_nil (phrase : String) (hk : k < tokens.length) :
    (ofTokens tokens phrase).isEnd k = true ↔ (ofTokens tokens phrase).children k = [] := by
  refine ⟨children_eq_nil_of_isEnd hk, fun hnil => ?_⟩
  refine (h.isEnd_or_exists_edge phrase hk).resolve_right ?_
  rintro ⟨j, hj⟩
  exact absurd (hnil ▸ hj : j ∈ []) List.not_mem_nil

/-- From every token a path leads to an end. -/
theorem exists_isPath_to_end (phrase : String) (hk : k < tokens.length) :
    ∃ path, (ofTokens tokens phrase).IsPath ((ofTokens tokens phrase).children k) path ∧
      ∃ last ∈ (k :: path).getLast?, (ofTokens tokens phrase).isEnd last = true := by
  -- What follows a token ends after it, and no token ends after the last slot.
  obtain ⟨last, hlast⟩ : ∃ last, ∀ j < tokens.length, endAt tokens j ≤ last := by
    refine ⟨(endSlots tokens).sum, fun j hj => List.single_le_sum (fun _ _ => Nat.zero_le _) _ ?_⟩
    exact mem_endSlots_iff.2 ⟨j, hj, rfl⟩
  generalize hn : last - endAt tokens k = n
  induction n using Nat.strongRecOn generalizing k with
  | _ n ih =>
    rcases h.isEnd_or_exists_edge phrase hk with hend | ⟨j, hedge⟩
    · exact ⟨[], trivial, k, rfl, hend⟩
    · obtain ⟨-, hj, hanchor⟩ := edge_iff.1 hedge
      have hle : endAt tokens k ≤ (tokenAt tokens j).position :=
        (anchorAt_eq_some_iff.1 hanchor).1.2
      have hlt : (tokenAt tokens j).position < endAt tokens j := position_lt_endAt
      have := hlast j hj
      obtain ⟨path, hpath, hend⟩ := ih _ (by omega) hj rfl
      exact ⟨j :: path, ⟨hedge, hpath⟩, by rwa [List.getLast?_cons_cons]⟩

/-- Every token is on a path from a root to an end. -/
theorem exists_isWhole (phrase : String) (hk : k < tokens.length) :
    ∃ path, (ofTokens tokens phrase).IsWhole (ofTokens tokens phrase).roots path ∧ k ∈ path := by
  obtain ⟨r, hr, hreach⟩ := exists_root_reaches phrase hk
  obtain ⟨path, hpath, hend, hmem⟩ : ∃ path,
      (ofTokens tokens phrase).IsPath ((ofTokens tokens phrase).children r) path ∧
        (∃ last ∈ (r :: path).getLast?, (ofTokens tokens phrase).isEnd last = true) ∧
        k ∈ r :: path := by
    clear hr
    induction hreach using ReflTransGen.head_induction_on with
    | refl =>
      obtain ⟨path, hpath, hend⟩ := h.exists_isPath_to_end phrase hk
      exact ⟨path, hpath, hend, List.mem_cons_self⟩
    | @head a c hedge _ ih =>
      obtain ⟨path, hpath, hend, hmem⟩ := ih
      exact ⟨c :: path, ⟨hedge, hpath⟩, by rwa [List.getLast?_cons_cons],
        List.mem_cons_of_mem _ hmem⟩
  exact ⟨r :: path, .inr ⟨⟨hr, hpath⟩, hend⟩, hmem⟩

end NoneDangles

end PhraseGraph.Forest
