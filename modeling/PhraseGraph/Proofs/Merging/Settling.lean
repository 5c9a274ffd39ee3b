import PhraseGraph.Proofs.Merging.Basic

/-!
# What a run of merges goes through

`Merging.Settles` tells a run apart into its steps: a sibling that has been looked at is passed over,
below one that has not been looked at the children are settled first, and when no sibling is left the
siblings are in order or two of them are merged. A fact about all runs is proved by induction on it.

What a run comes to is a merging in which one node stands for each text of the siblings
(`Settles.settled`). What has been looked at stays so: after
a run the node that stands for it has been looked at (`Settles.visited`).
-/

namespace PhraseGraph.Merging

/-- The node is marked as looked at. -/
def visit (m : Merging) (id : NodeId) : Merging := { m with visited := id :: m.visited }

/-- The node has other children. -/
def setChildren (m : Merging) (id : NodeId) (ids : List NodeId) : Merging :=
  m.modify id fun n => { n with children := ids }

/-- From `m`, with the siblings `todo` still to be looked at, the run through `siblings` ends with
    `m'` and the siblings `out`. -/
inductive Settles : (m : Merging) → (todo siblings : List NodeId) → (m' : Merging) →
    (out : List NodeId) → Prop
  | seen {m s todo siblings m' out} (hs : m.resolve s ∈ m.visited)
      (rest : Settles m todo siblings m' out) : Settles m (s :: todo) siblings m' out
  | fresh {m s todo siblings m₁ out₁ m' out} (hs : m.resolve s ∉ m.visited)
      (under : Settles (m.visit (m.resolve s)) (m.children (m.resolve s))
        (m.children (m.resolve s)) m₁ out₁)
      (rest : Settles (m₁.setChildren (m.resolve s) out₁) todo siblings m' out) :
      Settles m (s :: todo) siblings m' out
  | sorted {m siblings} (h : m.firstEqual? (m.canonical siblings) = none) :
      Settles m [] siblings m (m.canonical siblings)
  | merged {m siblings keep gone m' out}
      (h : m.firstEqual? (m.canonical siblings) = some (keep, gone))
      (rest : Settles (m.merge keep gone) (m.canonical siblings) (m.canonical siblings) m' out) :
      Settles m [] siblings m' out

/-! ### The run of a walk -/

/-- Looks at one sibling. -/
def settleBelow (steps : Nat) (m : Merging) (sibling : NodeId) : Option Merging :=
  if m.visited.contains (m.resolve sibling) then some m
  else (settle steps (m.visit (m.resolve sibling)) (m.children (m.resolve sibling))).map
    fun r => r.1.setChildren (m.resolve sibling) r.2

variable {m m' : Merging} {todo siblings out : List NodeId} {steps : Nat} {s i keep gone : NodeId}

theorem settle_succ : settle (steps + 1) m siblings =
    (siblings.foldlM (settleBelow steps) m).bind fun m =>
      match m.firstEqual? (m.canonical siblings) with
      | none => some (m, m.canonical siblings)
      | some (keep, gone) => settle steps (m.merge keep gone) (m.canonical siblings) := by
  rw [settle]
  congr 1
  congr 1
  funext m s
  by_cases hs : m.visited.contains (m.resolve s) = true
  · simp only [settleBelow, hs, if_true]
  · simp only [settleBelow, hs, Option.map_eq_bind]
    rfl

theorem settles_of_settleBelow (ih : ∀ {m siblings m' out},
    settle steps m siblings = some (m', out) → Settles m siblings siblings m' out)
    {m₁ : Merging} (h : settleBelow steps m s = some m₁) (rest : Settles m₁ todo siblings m' out) :
    Settles m (s :: todo) siblings m' out := by
  rw [settleBelow] at h
  split at h
  · next hs =>
    cases h
    exact .seen (by simpa using hs) rest
  · next hs =>
    obtain ⟨⟨m₂, out₂⟩, hunder, rfl⟩ := Option.map_eq_some_iff.1 h
    exact .fresh (by simpa using hs) (ih hunder) rest

/-- What a walk gives a run leads to. -/
theorem settles_of_settle (h : settle steps m siblings = some (m', out)) :
    Settles m siblings siblings m' out := by
  induction steps generalizing m siblings m' out with
  | zero => simp [settle] at h
  | succ steps ih =>
    have hfold : ∀ todo m m₁, todo.foldlM (settleBelow steps) m = some m₁ →
        Settles m₁ [] siblings m' out → Settles m todo siblings m' out := by
      intro todo
      induction todo with
      | nil =>
        rintro m _ ⟨⟩ rest
        exact rest
      | cons s todo ihtodo =>
        intro m m₁ h rest
        rw [List.foldlM_cons] at h
        obtain ⟨m₂, hs, h⟩ := Option.bind_eq_some_iff.1 h
        exact settles_of_settleBelow ih hs (ihtodo m₂ m₁ h rest)
    rw [settle_succ] at h
    obtain ⟨m₁, hm₁, h⟩ := Option.bind_eq_some_iff.1 h
    refine hfold siblings m m₁ hm₁ ?_
    split at h
    · next hnone =>
      cases h
      exact .sorted hnone
    · next hsome => exact .merged hsome (ih h)

/-! ### What every run keeps -/

/-- The places of a merging are right: a node stands for itself or for others with its text, and all
    edges lead to nodes, none twice. -/
structure Valid (m : Merging) : Prop where
  resolve_lt : ∀ i < m.size, m.resolve i < m.size
  resolve_resolve : ∀ i, m.resolve (m.resolve i) = m.resolve i
  text_resolve : ∀ i, m.text (m.resolve i) = m.text i
  children_lt : ∀ i, ∀ c ∈ m.children i, c < m.size
  parents_lt : ∀ i, ∀ p ∈ m.parents i, p < m.size
  nodup_children : ∀ i, (m.children i).Nodup
  nodup_parents : ∀ i, (m.parents i).Nodup

theorem children_setChildren {ids : List NodeId} :
    (m.setChildren s ids).children i = if s = i ∧ i < m.size then ids else m.children i := by
  rw [children, setChildren, node_modify]
  split <;> rfl

theorem parents_setChildren {ids : List NodeId} :
    (m.setChildren s ids).parents i = m.parents i := by
  rw [parents, setChildren, node_modify]
  split <;> rfl

theorem token_setChildren {ids : List NodeId} :
    ((m.setChildren s ids).node i).token = (m.node i).token := by
  rw [setChildren, node_modify]
  split <;> rfl

theorem text_setChildren {ids : List NodeId} : (m.setChildren s ids).text i = m.text i :=
  congrArg Token.text token_setChildren

theorem size_setChildren {ids : List NodeId} : (m.setChildren s ids).size = m.size := size_modify

theorem lt_size_canonical (hm : m.Valid) (hs : ∀ s ∈ siblings, s < m.size) :
    ∀ c ∈ m.canonical siblings, c < m.size := by
  intro c hc
  obtain ⟨s, hmem, rfl⟩ := mem_canonical_iff.1 hc
  exact hm.resolve_lt s (hs s hmem)

/-- Two siblings that stand side by side with one text. -/
structure Twins (m : Merging) (siblings : List NodeId) (keep gone : NodeId) : Prop where
  keep_mem : keep ∈ m.canonical siblings
  gone_mem : gone ∈ m.canonical siblings
  text_eq : m.text keep = m.text gone
  ne : keep ≠ gone

theorem twins_of_firstEqual? (h : m.firstEqual? (m.canonical siblings) = some (keep, gone)) :
    m.Twins siblings keep gone := by
  obtain ⟨hsub, htext⟩ := of_firstEqual?_eq_some h
  have hnodup : [keep, gone].Nodup := hsub.nodup nodup_canonical
  exact { keep_mem := hsub.subset (by simp), gone_mem := hsub.subset (by simp),
          text_eq := htext, ne := by simpa using hnodup }

namespace Valid

theorem visit (hm : m.Valid) : (m.visit s).Valid :=
  ⟨hm.resolve_lt, hm.resolve_resolve, hm.text_resolve, hm.children_lt, hm.parents_lt,
    hm.nodup_children, hm.nodup_parents⟩

theorem setChildren {ids : List NodeId} (hm : m.Valid) (hids : ∀ c ∈ ids, c < m.size)
    (hnodup : ids.Nodup) : (m.setChildren s ids).Valid where
  resolve_lt i hi := by
    rw [size_setChildren] at hi ⊢
    exact hm.resolve_lt i hi
  resolve_resolve := hm.resolve_resolve
  text_resolve i := by
    rw [text_setChildren, text_setChildren]
    exact hm.text_resolve i
  children_lt i := by
    rw [children_setChildren, size_setChildren]
    split
    · exact hids
    · exact hm.children_lt i
  parents_lt i := by
    rw [parents_setChildren, size_setChildren]
    exact hm.parents_lt i
  nodup_children i := by
    rw [children_setChildren]
    split
    · exact hnodup
    · exact hm.nodup_children i
  nodup_parents i := by
    rw [parents_setChildren]
    exact hm.nodup_parents i

theorem resolve_of_mem_canonical (hm : m.Valid) (h : i ∈ m.canonical siblings) :
    m.resolve i = i := by
  obtain ⟨s, -, rfl⟩ := mem_canonical_iff.1 h
  exact hm.resolve_resolve s

theorem mergeable (hm : m.Valid) (hs : ∀ s ∈ siblings, s < m.size)
    (h : m.Twins siblings keep gone) : m.Mergeable keep gone where
  ne := h.ne
  keep_lt := lt_size_canonical hm hs keep h.keep_mem
  gone_lt := lt_size_canonical hm hs gone h.gone_mem
  nodup_parents := hm.nodup_parents gone
  nodup_children := hm.nodup_children gone

theorem merge (hm : m.Valid) (hs : ∀ s ∈ siblings, s < m.size) (h : m.Twins siblings keep gone) :
    (m.merge keep gone).Valid := by
  have hk := hm.resolve_of_mem_canonical h.keep_mem
  have fits := hm.mergeable hs h
  have hredirect : ∀ edges : List NodeId, (∀ c ∈ edges, c < m.size) →
      ∀ c ∈ redirect edges gone keep, c < m.size := by
    intro edges hedges c hc
    obtain ⟨d, hd, rfl⟩ := (mem_redirect_iff h.ne).1 hc
    rw [renamed]
    split
    · exact fits.keep_lt
    · exact hedges d hd
  have htext : ∀ i, (m.merge keep gone).text i = m.text i := fun i =>
    congrArg Token.text fits.token_merge
  refine ⟨fun i hi => ?_, fun i => ?_, fun i => ?_, fun i c hc => ?_, fun i p hp => ?_,
    fun i => fits.nodup_children_merge (hm.nodup_children i),
    fun i => fits.nodup_parents_merge (hm.nodup_parents i)⟩
  · rw [size_merge] at hi ⊢
    rw [resolve_merge, renamed]
    split
    · exact fits.keep_lt
    · exact hm.resolve_lt i hi
  · rw [resolve_merge, resolve_merge]
    by_cases hi : m.resolve i = gone
    · rw [hi, renamed_self, hk, renamed_of_ne h.ne]
    · rw [renamed_of_ne hi, hm.resolve_resolve, renamed_of_ne hi]
  · rw [htext, htext, resolve_merge, renamed]
    split
    · next hi => rw [h.text_eq, ← hi, hm.text_resolve]
    · exact hm.text_resolve i
  · rw [size_merge]
    obtain ⟨-, hc | ⟨-, hc, -⟩⟩ := fits.mem_children_merge_iff.1 hc
    · simp only [turned] at hc
      split at hc
      · exact hredirect _ (hm.children_lt i) c hc
      · exact hm.children_lt i c hc
    · exact hm.children_lt gone c hc
  · rw [size_merge]
    obtain ⟨-, hp | ⟨-, hp, -⟩⟩ := fits.mem_parents_merge_iff.1 hp
    · simp only [turned] at hp
      split at hp
      · exact hredirect _ (hm.parents_lt i) p hp
      · exact hm.parents_lt i p hp
    · exact hm.parents_lt gone p hp

/-- After a merge all nodes but the one that is gone stand for themselves if they did before. -/
theorem resolve_merge_eq_self_iff (hm : m.Valid) (h : m.Twins siblings keep gone) :
    (m.merge keep gone).resolve i = i ↔ i ≠ gone ∧ m.resolve i = i := by
  have hkeep := hm.resolve_of_mem_canonical h.keep_mem
  have hgone := hm.resolve_of_mem_canonical h.gone_mem
  rw [resolve_merge]
  constructor
  · intro hi
    by_cases hig : m.resolve i = gone
    · rw [hig, renamed_self] at hi
      exact absurd (hkeep.symm.trans (hi ▸ hig)) h.ne
    · rw [renamed_of_ne hig] at hi
      exact ⟨hi ▸ hig, hi⟩
  · intro ⟨hig, hi⟩
    rw [hi, renamed_of_ne hig]

/-- What stands for itself is stood for by itself or the kept node after a merge. -/
theorem resolve_merge_renamed (hm : m.Valid) (h : m.Twins siblings keep gone) (hi : m.resolve i = i) :
    (m.merge keep gone).resolve (renamed keep gone i) = renamed keep gone i := by
  rw [hm.resolve_merge_eq_self_iff h, renamed]
  split
  · exact ⟨h.ne, hm.resolve_of_mem_canonical h.keep_mem⟩
  · next hig => exact ⟨hig, hi⟩

end Valid

/-- What a run through siblings comes to: the nodes that stand for them, with ascending texts. -/
structure Settled (m : Merging) (siblings : List NodeId) (m' : Merging) (out : List NodeId) :
    Prop where
  valid : m'.Valid
  size_eq : m'.size = m.size
  token_eq : ∀ i, (m'.node i).token = (m.node i).token
  /-- What has been merged stays so. -/
  absorbs : ∀ i, m'.resolve (m.resolve i) = m'.resolve i
  mem_out_iff : ∀ c, c ∈ out ↔ ∃ s ∈ siblings, m'.resolve s = c
  ascends : out.Pairwise fun a b => m'.text a < m'.text b

namespace Settled

variable {m₁ : Merging} {ids : List NodeId}

theorem text_eq (h : m.Settled siblings m' out) (i : NodeId) : m'.text i = m.text i :=
  congrArg Token.text (h.token_eq i)

theorem out_lt (h : m.Settled siblings m' out) (hs : ∀ s ∈ siblings, s < m.size) :
    ∀ c ∈ out, c < m'.size := by
  intro c hc
  obtain ⟨s, hmem, rfl⟩ := (h.mem_out_iff c).1 hc
  exact h.valid.resolve_lt s (h.size_eq ▸ hs s hmem)

theorem nodup_out (h : m.Settled siblings m' out) : out.Nodup :=
  h.ascends.imp fun hlt hab => absurd (hab ▸ hlt) (lt_irrefl _)

/-- A run that goes on where another one has ended. -/
theorem trans (h₁ : m.Settled ids m₁ out) {out' : List NodeId}
    (h : (m₁.setChildren s out).Settled siblings m' out') : m.Settled siblings m' out' where
  valid := h.valid
  size_eq := by rw [h.size_eq, size_setChildren, h₁.size_eq]
  token_eq i := by rw [h.token_eq, token_setChildren, h₁.token_eq]
  absorbs i := by
    calc m'.resolve (m.resolve i) = m'.resolve (m₁.resolve (m.resolve i)) :=
          (h.absorbs (m.resolve i)).symm
      _ = m'.resolve (m₁.resolve i) := by rw [h₁.absorbs]
      _ = m'.resolve i := h.absorbs i
  mem_out_iff := h.mem_out_iff
  ascends := h.ascends

end Settled

/-- Siblings to be settled: all are nodes, and those still to be looked at are among them. -/
structure Ready (m : Merging) (todo siblings : List NodeId) : Prop where
  valid : m.Valid
  subset : todo ⊆ siblings
  lt : ∀ s ∈ siblings, s < m.size

namespace Ready

variable {m₁ : Merging} {out₁ : List NodeId}

theorem tail (h : m.Ready (s :: todo) siblings) : m.Ready todo siblings :=
  ⟨h.valid, List.Subset.trans (List.subset_cons_self s todo) h.subset, h.lt⟩

theorem under (h : m.Ready (s :: todo) siblings) :
    (m.visit (m.resolve s)).Ready (m.children (m.resolve s)) (m.children (m.resolve s)) :=
  ⟨h.valid.visit, List.Subset.refl _, h.valid.children_lt (m.resolve s)⟩

theorem rest (h : m.Ready (s :: todo) siblings)
    (h₁ : (m.visit (m.resolve s)).Settled (m.children (m.resolve s)) m₁ out₁) :
    (m₁.setChildren (m.resolve s) out₁).Ready todo siblings where
  valid := h₁.valid.setChildren (h₁.out_lt (h.valid.children_lt (m.resolve s))) h₁.nodup_out
  subset := h.tail.subset
  lt t ht := by
    rw [size_setChildren, h₁.size_eq]
    exact h.lt t ht

theorem merge (h : m.Ready [] siblings) (htwins : m.Twins siblings keep gone) :
    (m.merge keep gone).Ready (m.canonical siblings) (m.canonical siblings) where
  valid := h.valid.merge h.lt htwins
  subset := List.Subset.refl _
  lt := by
    rw [size_merge]
    exact lt_size_canonical h.valid h.lt

end Ready

theorem Settles.settled (h : Settles m todo siblings m' out) (hm : m.Ready todo siblings) :
    m.Settled siblings m' out := by
  induction h with
  | seen _ _ ih => exact ih hm.tail
  | @fresh m s todo siblings m₁ out₁ m' out _ _ _ ihunder ihrest =>
    have h₁ := ihunder hm.under
    have under : m.Settled (m.children (m.resolve s)) m₁ out₁ :=
      ⟨h₁.valid, h₁.size_eq, h₁.token_eq, h₁.absorbs, h₁.mem_out_iff, h₁.ascends⟩
    -- The run below the node changes no text and takes back no merge, so what the rest comes to
    -- is what the whole run comes to.
    exact under.trans (ihrest (hm.rest h₁))
  | sorted h =>
    exact { valid := hm.valid, size_eq := rfl, token_eq := fun _ => rfl,
            absorbs := hm.valid.resolve_resolve, mem_out_iff := fun _ => mem_canonical_iff,
            ascends := ascends_of_firstEqual?_eq_none h pairwise_canonical }
  | @merged m siblings keep gone m' out h _ ih =>
    have htwins := twins_of_firstEqual? h
    have rest := ih (hm.merge htwins)
    -- The rest of the run knows the siblings only by the nodes that stood for them before the merge.
    have habsorbs : ∀ i, m'.resolve (m.resolve i) = m'.resolve i := fun i => by
      have hi := rest.absorbs (m.resolve i)
      rw [resolve_merge, hm.valid.resolve_resolve, ← resolve_merge, rest.absorbs] at hi
      exact hi.symm
    refine { valid := rest.valid, size_eq := rest.size_eq.trans size_merge, token_eq := fun i => ?_,
             absorbs := habsorbs, mem_out_iff := fun c => ?_, ascends := rest.ascends }
    · rw [rest.token_eq, (hm.valid.mergeable hm.lt htwins).token_merge]
    · rw [rest.mem_out_iff]
      constructor
      · rintro ⟨t, ht, rfl⟩
        obtain ⟨s, hmem, rfl⟩ := mem_canonical_iff.1 ht
        exact ⟨s, hmem, (habsorbs s).symm⟩
      · rintro ⟨s, hmem, rfl⟩
        exact ⟨m.resolve s, mem_canonical_iff.2 ⟨s, hmem, rfl⟩, habsorbs s⟩

/-! ### What has been looked at -/

/-- After a run the nodes that stand for the siblings have been looked at, and what had been looked
    at before still is. A merge forgets the node that it keeps, but this is one of the siblings of
    the rest of the run. -/
theorem Settles.visited (h : Settles m todo siblings m' out) (hm : m.Ready todo siblings)
    (hseen : ∀ s ∈ siblings, s ∈ todo ∨ m.resolve s ∈ m.visited) :
    (∀ x ∈ m.visited, m.resolve x = x → m'.resolve x ∈ m'.visited) ∧
      ∀ c ∈ out, c ∈ m'.visited := by
  induction h with
  | @seen m s todo siblings m' out hvisited _ ih =>
    refine ih hm.tail fun t ht => ?_
    rcases hseen t ht with htodo | ht
    · rcases List.mem_cons.1 htodo with rfl | htodo
      · exact .inr hvisited
      · exact .inl htodo
    · exact .inr ht
  | @fresh m s todo siblings m₁ out₁ m' out _ hunder hrest ihunder ihrest =>
    have under := hunder.settled hm.under
    have hkeeps := (ihunder hm.under fun t ht => .inl ht).1
    -- A sibling looked at before the run below, or the node itself, is still known after it.
    have hstays : ∀ i, m.resolve i ∈ m.resolve s :: m.visited → m₁.resolve i ∈ m₁.visited :=
      fun i hi => under.absorbs i ▸ hkeeps _ hi (hm.valid.resolve_resolve i)
    have rest := ihrest (hm.rest under) fun t ht => by
      rcases hseen t ht with htodo | ht
      · rcases List.mem_cons.1 htodo with rfl | htodo
        · exact .inr (hstays t List.mem_cons_self)
        · exact .inl htodo
      · exact .inr (hstays t (List.mem_cons_of_mem _ ht))
    refine ⟨fun x hx hlive => ?_, rest.2⟩
    have hx₁ := hkeeps x (List.mem_cons_of_mem _ hx) hlive
    rw [← (hrest.settled (hm.rest under)).absorbs x]
    exact rest.1 _ hx₁ (under.valid.resolve_resolve x)
  | sorted =>
    refine ⟨fun x hx hlive => hlive.symm ▸ hx, fun c hc => ?_⟩
    obtain ⟨s, hmem, rfl⟩ := mem_canonical_iff.1 hc
    exact (hseen s hmem).resolve_left List.not_mem_nil
  | @merged m siblings keep gone m' out h hrest ih =>
    have htwins := twins_of_firstEqual? h
    have hmerge := hm.merge htwins
    have rest := ih hmerge fun t ht => .inl ht
    have hout : ∀ c ∈ m.canonical siblings, m'.resolve c ∈ m'.visited := fun c hc =>
      rest.2 _ (((hrest.settled hmerge).mem_out_iff _).2 ⟨c, hc, rfl⟩)
    refine ⟨fun x hx hlive => ?_, rest.2⟩
    -- The merge forgets the twins, but both are siblings of the rest of the run.
    by_cases hkeep : x = keep
    · exact hkeep ▸ hout keep htwins.keep_mem
    · by_cases hgone : x = gone
      · exact hgone ▸ hout gone htwins.gone_mem
      · refine rest.1 x ?_ ?_
        · rw [visited_merge]
          exact List.mem_filter.2 ⟨hx, by simpa using hkeep⟩
        · rw [resolve_merge, hlive, renamed_of_ne hgone]

end PhraseGraph.Merging
