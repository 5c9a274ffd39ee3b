import PhraseGraph.Proofs.Entries
import PhraseGraph.Proofs.LostNodes

/-!
# The phrases that are listed

The phrases of a graph are listed along its origins. An origin may contribute several phrases of its own,
and a phrase may stop where the node of an origin is an end, or where no origin follows. So what is listed
should be this: for each path of origins to one at which a phrase may stop, and each choice of a phrase
for every origin on it, these phrases one after another. That is so if every origin has some phrase of
its own and the paths are not too long (`Supplied.mem_items_expand_iff`); an origin without a phrase
would take the place of an end for those before it.

Literal text is the case of one phrase for each origin (`mem_items_literalPhrases_iff`). In the graph of a
list of tokens the paths of origins are paths of tokens (`NormalForm.isPath_map_tokenOf`,
`NormalForm.exists_isOriginPath`). The current year matters to what is listed only where a variable is a
year (`Variables.Yearless.phrases_eq`).
-/

namespace PhraseGraph

/-! ### Items -/

namespace Enumeration

variable {α β : Type}

theorem mem_items_append_iff {e e' : Enumeration α} (h : e.failure = none) {x : α} :
    x ∈ (e.append e').items ↔ x ∈ e.items ∨ x ∈ e'.items := by
  simp [append, h]

theorem mem_items_gather_iff {l : List α} {f : α → Enumeration β}
    (h : ∀ a ∈ l, (f a).failure = none) {x : β} :
    x ∈ (gather l f).items ↔ ∃ a ∈ l, x ∈ (f a).items := by
  induction l with
  | nil => simp [gather, EmptyCollection.emptyCollection, empty]
  | cons a l ih =>
    rw [gather_cons, mem_items_append_iff (h a List.mem_cons_self),
      ih fun b hb => h b (List.mem_cons_of_mem _ hb), List.exists_mem_cons_iff]

theorem gather_congr {l : List α} {f f' : α → Enumeration β} (h : ∀ a ∈ l, f a = f' a) :
    gather l f = gather l f' := by
  induction l with
  | nil => rfl
  | cons a l ih =>
    rw [gather_cons, gather_cons, h a List.mem_cons_self, ih fun b hb => h b (List.mem_cons_of_mem _ hb)]

end Enumeration

namespace Phrase

variable {p : Phrase} {parts : List Phrase}

/-- Phrases one after another. -/
def concat (parts : List Phrase) : Phrase := ⟨parts.flatMap (·.values)⟩

theorem concat_singleton : concat [p] = p := by
  simp [concat]

theorem concat_cons : concat (p :: parts) = p.append (concat parts) := rfl

theorem tokens_concat : (concat parts).tokens = parts.flatMap (·.tokens) := by
  simp [concat, tokens, List.flatMap_assoc]

end Phrase

section Through

variable {own : List Phrase} {isEnd : Bool} {below : Enumeration Phrase} {p : Phrase}

theorem mem_items_phrasesThrough_iff (h : below.failure = none) :
    p ∈ (phrasesThrough own isEnd below).items ↔
      (∃ first ∈ own, ∃ rest ∈ below.items, first.append rest = p) ∨
        (isEnd = true ∨ below.items = []) ∧ p ∈ own := by
  rw [phrasesThrough, Enumeration.mem_items_append_iff (by exact h)]
  refine or_congr ?_ ?_
  · simp only [Enumeration.flatMap, List.mem_flatMap, List.mem_map]
    constructor
    · rintro ⟨rest, hrest, first, hfirst, rfl⟩
      exact ⟨first, hfirst, rest, hrest, rfl⟩
    · rintro ⟨first, hfirst, rest, hrest, rfl⟩
      exact ⟨rest, hrest, first, hfirst, rfl⟩
  · cases isEnd <;> by_cases hitems : below.items = [] <;>
      simp [Enumeration.ofList, Enumeration.isEmpty, hitems]

theorem items_phrasesThrough_ne_nil (h : below.failure = none) (hown : own ≠ []) :
    (phrasesThrough own isEnd below).items ≠ [] := by
  obtain ⟨first, hfirst⟩ := List.exists_mem_of_ne_nil own hown
  by_cases hbelow : below.items = []
  · exact List.ne_nil_of_mem
      ((mem_items_phrasesThrough_iff h).2 (.inr ⟨.inr hbelow, hfirst⟩))
  · obtain ⟨rest, hrest⟩ := List.exists_mem_of_ne_nil _ hbelow
    exact List.ne_nil_of_mem
      ((mem_items_phrasesThrough_iff h).2 (.inl ⟨first, hfirst, rest, hrest, rfl⟩))

end Through

/-! ### Paths of origins -/

namespace TokenGraph

variable {g : TokenGraph} {own : Origin → Except Failure (List Phrase)} {ids path : List OriginId}
  {r : OriginId} {p : Phrase} {n steps : Nat}

/-- The origins of `path` follow one another, beginning with one of `ids`. -/
def IsOriginPath (g : TokenGraph) : (ids path : List OriginId) → Prop
  | _, [] => True
  | ids, r :: path => r ∈ ids ∧ g.IsOriginPath (g.origin r).children path

/-- A phrase may stop at the origin: its node is an end, or no origin follows. -/
def MayStop (g : TokenGraph) (r : OriginId) : Prop :=
  g.isEnd (g.origin r).node = true ∨ (g.origin r).children = []

/-- Within `n` origins every path from `ids` on has come to its end. -/
def EndsWithin (g : TokenGraph) : (n : Nat) → (ids : List OriginId) → Prop
  | 0, ids => ids = []
  | n + 1, ids => ∀ r ∈ ids, g.EndsWithin n (g.origin r).children

theorem EndsWithin.mono (h : g.EndsWithin n ids) (hn : n ≤ steps) : g.EndsWithin steps ids := by
  induction n generalizing ids steps with
  | zero =>
    obtain rfl : ids = [] := h
    cases steps with
    | zero => rfl
    | succ steps => exact fun r hr => absurd hr List.not_mem_nil
  | succ n ih =>
    obtain ⟨steps, rfl⟩ := Nat.exists_eq_add_one_of_ne_zero (Nat.ne_zero_of_lt hn)
    exact fun r hr => ih (h r hr) (Nat.le_of_succ_le_succ hn)

/-- Where all paths have come to their end, more steps list no more. -/
theorem EndsWithin.expand_eq (h : g.EndsWithin n ids) (hn : n ≤ steps) :
    g.expand own steps ids = g.expand own n ids := by
  induction n generalizing ids steps with
  | zero =>
    obtain rfl : ids = [] := h
    cases steps <;> rfl
  | succ n ih =>
    obtain ⟨steps, rfl⟩ := Nat.exists_eq_add_one_of_ne_zero (Nat.ne_zero_of_lt hn)
    rw [expand, expand]
    exact Enumeration.gather_congr fun r hr => by rw [ih (h r hr) (Nat.le_of_succ_le_succ hn)]

theorem OriginReached.child (h : g.OriginReached r) {r' : OriginId}
    (hr' : r' ∈ (g.origin r).children) : g.OriginReached r' := by
  obtain ⟨root, hroot, hreach⟩ := h
  exact ⟨root, hroot, hreach.tail hr'⟩

theorem IsOriginPath.reached_of_mem (h : g.IsOriginPath ids path)
    (hids : ∀ r ∈ ids, g.OriginReached r) (hr : r ∈ path) : g.OriginReached r := by
  induction path generalizing ids with
  | nil => exact absurd hr List.not_mem_nil
  | cons r₀ path ih =>
    rcases List.mem_cons.1 hr with rfl | hr
    · exact hids _ h.1
    · exact ih h.2 (fun r' hr' => (hids r₀ h.1).child hr') hr

/-- Every origin that can be reached tells a node and has some phrase of its own. -/
structure Supplied (g : TokenGraph) (own : Origin → Except Failure (List Phrase)) : Prop where
  node_lt : ∀ r, g.OriginReached r → (g.origin r).node < g.size
  own_ne_nil : ∀ r, g.OriginReached r → ∃ phrases, own (g.origin r) = .ok phrases ∧ phrases ≠ []

/-- The phrase is one of the origin's own. -/
def OwnPhrase (g : TokenGraph) (own : Origin → Except Failure (List Phrase)) (r : OriginId)
    (part : Phrase) : Prop :=
  ∃ phrases, own (g.origin r) = .ok phrases ∧ part ∈ phrases

theorem nodeOf_eq_ok {o : Origin} (h : o.node < g.size) : g.nodeOf o = .ok (g.node o.node) := by
  have hlt : o.node < g.nodes.size := h
  simp [nodeOf, node, hlt]

theorem literalPhrase_eq_ok {o : Origin} (h : o.node < g.size) : g.literalPhrase o =
    .ok (.text o.skippedPrefix o.text o.skippedSuffix (g.text o.node)) := by
  rw [literalPhrase, nodeOf_eq_ok h]
  rfl

namespace Supplied

variable (h : g.Supplied own)
include h

theorem contribution_eq_ok (hr : g.OriginReached r) : ∃ phrases, phrases ≠ [] ∧
    (∀ part, g.OwnPhrase own r part ↔ part ∈ phrases) ∧
    g.contribution own (g.origin r) = .ok (phrases, g.isEnd (g.origin r).node) := by
  obtain ⟨phrases, hown, hne⟩ := h.own_ne_nil r hr
  refine ⟨phrases, hne, fun part => ?_, ?_⟩
  · rw [OwnPhrase, hown]
    simp
  · rw [contribution, hown, nodeOf_eq_ok (h.node_lt r hr)]
    rfl

theorem failure_expand (hids : ∀ r ∈ ids, g.OriginReached r) :
    (g.expand own steps ids).failure = none := by
  refine TokenGraph.failure_expand (fun r hr => ?_) hids
  obtain ⟨phrases, -, -, hc⟩ := h.contribution_eq_ok hr
  exact ⟨_, hc⟩

/-- What is listed from some origins on is what is listed through one of them. -/
theorem mem_items_expand_succ_iff (hids : ∀ r ∈ ids, g.OriginReached r) :
    p ∈ (g.expand own (steps + 1) ids).items ↔ ∃ r ∈ ids, ∃ phrases, phrases ≠ [] ∧
      (∀ part, g.OwnPhrase own r part ↔ part ∈ phrases) ∧
      p ∈ (phrasesThrough phrases (g.isEnd (g.origin r).node)
        (g.expand own steps (g.origin r).children)).items := by
  have hbelow : ∀ r ∈ ids, (g.expand own steps (g.origin r).children).failure = none :=
    fun r hr => h.failure_expand fun r' hr' => (hids r hr).child hr'
  rw [expand, Enumeration.mem_items_gather_iff]
  · refine exists_congr fun r => and_congr_right fun hr => ?_
    obtain ⟨phrases, hne, hown, hc⟩ := h.contribution_eq_ok (hids r hr)
    rw [hc]
    constructor
    · exact fun hp => ⟨phrases, hne, hown, hp⟩
    · rintro ⟨phrases', -, hown', hp⟩
      -- The two lists have the same phrases, and no more than these is asked.
      have hsame : ∀ part, part ∈ phrases' ↔ part ∈ phrases := fun part =>
        (hown' part).symm.trans (hown part)
      rw [mem_items_phrasesThrough_iff (hbelow r hr)] at hp ⊢
      simpa only [hsame] using hp
  · intro r hr
    obtain ⟨phrases, -, -, hc⟩ := h.contribution_eq_ok (hids r hr)
    rw [hc]
    exact Enumeration.failure_append (hbelow r hr) rfl

/-- Where there are origins some phrase comes up. -/
theorem items_expand_eq_nil_iff (hids : ∀ r ∈ ids, g.OriginReached r) (hends : g.EndsWithin steps ids) :
    (g.expand own steps ids).items = [] ↔ ids = [] := by
  cases steps with
  | zero =>
    obtain rfl : ids = [] := hends
    simp [expand, EmptyCollection.emptyCollection, Enumeration.empty]
  | succ steps =>
    refine ⟨fun hnil => ?_, fun hnil => ?_⟩
    · refine List.eq_nil_iff_forall_not_mem.2 fun r hr => ?_
      obtain ⟨phrases, hne, hown, -⟩ := h.contribution_eq_ok (hids r hr)
      have hbelow : (g.expand own steps (g.origin r).children).failure = none :=
        h.failure_expand fun r' hr' => (hids r hr).child hr'
      have hsome : (phrasesThrough phrases (g.isEnd (g.origin r).node)
          (g.expand own steps (g.origin r).children)).items ≠ [] :=
        items_phrasesThrough_ne_nil hbelow hne
      obtain ⟨p, hp⟩ := List.exists_mem_of_ne_nil _ hsome
      have := (h.mem_items_expand_succ_iff hids).2 ⟨r, hr, phrases, hne, hown, hp⟩
      exact absurd (hnil ▸ this) List.not_mem_nil
    · subst hnil
      rfl

/-- What is listed: for each path of origins to one at which a phrase may stop, and each choice of a
    phrase for every origin on it, these phrases one after another. -/
theorem mem_items_expand_iff (hids : ∀ r ∈ ids, g.OriginReached r) (hends : g.EndsWithin steps ids) :
    p ∈ (g.expand own steps ids).items ↔ ∃ path parts, g.IsOriginPath ids path ∧
      (∃ last ∈ path.getLast?, g.MayStop last) ∧
      List.Forall₂ (g.OwnPhrase own) path parts ∧ Phrase.concat parts = p := by
  induction steps generalizing ids p with
  | zero =>
    obtain rfl : ids = [] := hends
    refine ⟨fun hp => absurd hp List.not_mem_nil, ?_⟩
    rintro ⟨path, parts, hpath, ⟨last, hlast, -⟩, -⟩
    cases path with
    | nil => exact absurd hlast (by simp)
    | cons r path => exact absurd hpath.1 List.not_mem_nil
  | succ steps ih =>
    have hbelow : ∀ r ∈ ids, ∀ r' ∈ (g.origin r).children, g.OriginReached r' :=
      fun r hr r' hr' => (hids r hr).child hr'
    have hstop : ∀ r ∈ ids, (g.isEnd (g.origin r).node = true ∨
        (g.expand own steps (g.origin r).children).items = []) ↔ g.MayStop r := fun r hr => by
      rw [h.items_expand_eq_nil_iff (hbelow r hr) (hends r hr), MayStop]
    rw [h.mem_items_expand_succ_iff hids]
    constructor
    · rintro ⟨r, hr, phrases, -, hown, hp⟩
      rw [mem_items_phrasesThrough_iff (h.failure_expand (hbelow r hr)), hstop r hr] at hp
      rcases hp with ⟨first, hfirst, rest, hrest, rfl⟩ | ⟨hstop, hp⟩
      · obtain ⟨path, parts, hpath, ⟨last, hlast, hmay⟩, hparts, rfl⟩ :=
          (ih (hbelow r hr) (hends r hr)).1 hrest
        exact ⟨r :: path, first :: parts, ⟨hr, hpath⟩, ⟨last, List.mem_getLast?_cons hlast, hmay⟩,
          .cons ((hown first).2 hfirst) hparts, rfl⟩
      · exact ⟨[r], [p], ⟨hr, trivial⟩, ⟨r, rfl, hstop⟩, .cons ((hown p).2 hp) .nil,
          Phrase.concat_singleton⟩
    · rintro ⟨path, parts, hpath, ⟨last, hlast, hmay⟩, hparts, rfl⟩
      cases hparts with
      | nil => exact absurd hlast (by simp)
      | @cons r first path parts hfirst hparts =>
        obtain ⟨phrases, hne, hown, -⟩ := h.contribution_eq_ok (hids r hpath.1)
        refine ⟨r, hpath.1, phrases, hne, hown, ?_⟩
        rw [mem_items_phrasesThrough_iff (h.failure_expand (hbelow r hpath.1)), hstop r hpath.1]
        cases hparts with
        | nil =>
          obtain rfl : r = last := by simpa using hlast
          exact .inr ⟨hmay, Phrase.concat_singleton ▸ (hown first).1 hfirst⟩
        | @cons r' second path parts hsecond hparts =>
          rw [List.getLast?_cons_cons] at hlast
          refine .inl ⟨first, (hown first).1 hfirst, _, ?_, Phrase.concat_cons.symm⟩
          exact (ih (hbelow r hpath.1) (hends r hpath.1)).2
            ⟨_, _, hpath.2, ⟨last, hlast, hmay⟩, .cons hsecond hparts, rfl⟩

end Supplied

/-! ### Literal text -/

/-- The origin as literal text. -/
def bindingOf (g : TokenGraph) (r : OriginId) : Binding :=
  .text (g.origin r).skippedPrefix (g.origin r).text (g.origin r).skippedSuffix
    (g.text (g.origin r).node)

/-- The origins of a path as literal text. -/
def phraseAlong (g : TokenGraph) (path : List OriginId) : Phrase := ⟨path.map g.bindingOf⟩

@[simp] theorem tokens_phraseAlong :
    (g.phraseAlong path).tokens = path.map fun r => g.text (g.origin r).node := by
  simp [phraseAlong, Phrase.tokens, List.flatMap_map, bindingOf, Binding.text, Binding.ofToken,
    ← List.map_eq_flatMap]

@[simp] theorem literal_phraseAlong :
    (g.phraseAlong path).literal = String.join (path.map fun r => (g.origin r).fullText) := by
  simp only [phraseAlong, Phrase.literal, List.map_map]
  rfl

theorem join_phraseAlong {separator : String} :
    (g.phraseAlong path).join separator = separator.intercalate (g.phraseAlong path).tokens := by
  rw [tokens_phraseAlong, phraseAlong, Phrase.join, List.map_map]
  refine congrArg _ (List.map_congr_left fun r _ => ?_)
  simp [bindingOf, Binding.text, Binding.ofToken]

theorem supplied_literal (hnode : ∀ r, g.OriginReached r → (g.origin r).node < g.size) :
    g.Supplied fun o => return [← g.literalPhrase o] where
  node_lt := hnode
  own_ne_nil r hr := by
    rw [literalPhrase_eq_ok (hnode r hr)]
    exact ⟨_, rfl, List.cons_ne_nil _ _⟩

theorem ownPhrase_literal_iff (hnode : (g.origin r).node < g.size) :
    g.OwnPhrase (fun o => return [← g.literalPhrase o]) r p ↔ ⟨[g.bindingOf r]⟩ = p := by
  simp only [OwnPhrase, literalPhrase_eq_ok hnode]
  constructor
  · rintro ⟨_, ⟨⟩, hp⟩
    exact (List.mem_singleton.1 hp).symm
  · rintro rfl
    exact ⟨_, rfl, List.mem_singleton_self _⟩

theorem forall₂_ownPhrase_literal_iff {parts : List Phrase}
    (hnode : ∀ r ∈ path, (g.origin r).node < g.size) :
    List.Forall₂ (g.OwnPhrase fun o => return [← g.literalPhrase o]) path parts ↔
      path.map (fun r => ⟨[g.bindingOf r]⟩) = parts := by
  induction path generalizing parts with
  | nil => simp [eq_comm]
  | cons r path ih =>
    rw [List.forall₂_cons_left_iff, List.map_cons]
    constructor
    · rintro ⟨part, rest, hpart, hrest, rfl⟩
      rw [(ownPhrase_literal_iff (hnode r List.mem_cons_self)).1 hpart,
        (ih fun r' hr' => hnode r' (List.mem_cons_of_mem _ hr')).1 hrest]
    · rintro rfl
      exact ⟨_, _, (ownPhrase_literal_iff (hnode r List.mem_cons_self)).2 rfl,
        (ih fun r' hr' => hnode r' (List.mem_cons_of_mem _ hr')).2 rfl, rfl⟩

theorem concat_bindingOf :
    Phrase.concat (path.map fun r => ⟨[g.bindingOf r]⟩) = g.phraseAlong path := by
  simp [Phrase.concat, phraseAlong, List.flatMap_map, ← List.map_eq_flatMap]

/-- The phrases of literal text are those along the paths of origins to one at which a phrase may
    stop. -/
theorem mem_items_literalPhrases_iff (hnode : ∀ r, g.OriginReached r → (g.origin r).node < g.size)
    (hends : g.EndsWithin (g.origins.size + 1) g.originRoots) :
    p ∈ g.literalPhrases.items ↔ ∃ path, g.IsOriginPath g.originRoots path ∧
      (∃ last ∈ path.getLast?, g.MayStop last) ∧ g.phraseAlong path = p := by
  have hroots : ∀ r ∈ g.originRoots, g.OriginReached r := fun r hr => ⟨r, hr, .refl⟩
  refine ((supplied_literal hnode).mem_items_expand_iff hroots hends).trans ?_
  refine exists_congr fun path => ?_
  constructor
  · rintro ⟨parts, hpath, hlast, hparts, rfl⟩
    have hlt : ∀ r ∈ path, (g.origin r).node < g.size := fun r hr =>
      hnode r (hpath.reached_of_mem hroots hr)
    rw [← (forall₂_ownPhrase_literal_iff hlt).1 hparts, concat_bindingOf]
    exact ⟨hpath, hlast, rfl⟩
  · rintro ⟨hpath, hlast, rfl⟩
    have hlt : ∀ r ∈ path, (g.origin r).node < g.size := fun r hr =>
      hnode r (hpath.reached_of_mem hroots hr)
    exact ⟨_, hpath, hlast, (forall₂_ownPhrase_literal_iff hlt).2 rfl, concat_bindingOf⟩

theorem failure_literalPhrases (hnode : ∀ r, g.OriginReached r → (g.origin r).node < g.size) :
    g.literalPhrases.failure = none :=
  (supplied_literal hnode).failure_expand fun r hr => ⟨r, hr, .refl⟩

end TokenGraph

/-! ### Origins and tokens -/

open Forest Provenance

variable {tokens : List Token} {phrase : String} {m : Merging} {out : List NodeId} {k : Nat}
  {r : OriginId}

theorem Forest.acyclic_ofTokens : (ofTokens tokens phrase).Acyclic :=
  TokenGraph.acyclic_of_rank (levelAt tokens) fun _ _ hedge =>
    levelAt_lt_of_anchorAt (edge_iff.1 hedge).2.2

/-- The token for which an origin has been made. -/
def Provenance.tokenOf (tokens : List Token) (phrase : String) (r : OriginId) : Nat :=
  ((fill (ofTokens tokens phrase)).origin r).node

namespace NormalForm

variable (h : NormalForm tokens phrase m out)
include h

/-- Every origin that can be reached has been made for a token. -/
theorem madeFor_tokenOf (hr : (TokenGraph.ofTokens tokens phrase).OriginReached r) :
    tokenOf tokens phrase r < tokens.length ∧
      MadeFor tokens phrase r (tokenOf tokens phrase r) := by
  obtain ⟨k, hk, hmade⟩ := h.originReached_iff.1 hr
  obtain rfl : tokenOf tokens phrase r = k := hmade.2
  exact ⟨hk, hmade⟩

theorem exists_madeFor_of_mem_originRoots (hr : r ∈ (TokenGraph.ofTokens tokens phrase).originRoots) :
    ∃ k < tokens.length, MadeFor tokens phrase r k := by
  obtain ⟨k, hk, hmade, -⟩ := h.mem_originRoots_iff.1 hr
  exact ⟨k, hk, hmade⟩

/-- Origins follow one another no longer than tokens do. -/
theorem endsWithin_of_bounded {n : Nat} {ids : List OriginId} {ks : List NodeId}
    (hbound : (ofTokens tokens phrase).Bounded n ks)
    (hids : ∀ r ∈ ids, ∃ k ∈ ks, MadeFor tokens phrase r k) :
    (TokenGraph.ofTokens tokens phrase).EndsWithin n ids := by
  induction n generalizing ids ks with
  | zero =>
    refine List.eq_nil_iff_forall_not_mem.2 fun r hr => ?_
    obtain ⟨k, hk, -⟩ := hids r hr
    exact absurd (hbound.eq_nil ▸ hk) List.not_mem_nil
  | succ n ih =>
    intro r hr
    obtain ⟨k, hk, hmade⟩ := hids r hr
    exact ih (hbound.children hk) fun r' hr' => (h.mem_children_origin_iff hmade).1 hr'

/-- As many steps as there are origins are enough for every path. -/
theorem endsWithin {ids : List OriginId}
    (hids : ∀ r ∈ ids, ∃ k < tokens.length, MadeFor tokens phrase r k) :
    (TokenGraph.ofTokens tokens phrase).EndsWithin
      ((TokenGraph.ofTokens tokens phrase).origins.size + 1) ids := by
  have hbounded : (ofTokens tokens phrase).Bounded (tokens.length + 1)
      (List.range tokens.length) := by
    rw [← @size_ofTokens tokens phrase]
    exact acyclic_ofTokens.bounded _
  have hends : (TokenGraph.ofTokens tokens phrase).EndsWithin (tokens.length + 1) ids :=
    h.endsWithin_of_bounded hbounded fun r hr => by
      obtain ⟨k, hk, hmade⟩ := hids r hr
      exact ⟨k, List.mem_range.2 hk, hmade⟩
  exact hends.mono (Nat.succ_le_succ h.length_le_size_origins)

theorem endsWithin_originRoots : (TokenGraph.ofTokens tokens phrase).EndsWithin
    ((TokenGraph.ofTokens tokens phrase).origins.size + 1)
    (TokenGraph.ofTokens tokens phrase).originRoots :=
  h.endsWithin fun _ => h.exists_madeFor_of_mem_originRoots

/-- A path of origins is a path of their tokens. -/
theorem isPath_map_tokenOf {ids path : List OriginId} {ks : List NodeId}
    (hids : ∀ r ∈ ids, ∃ k ∈ ks, MadeFor tokens phrase r k)
    (hpath : (TokenGraph.ofTokens tokens phrase).IsOriginPath ids path) :
    (ofTokens tokens phrase).IsPath ks (path.map (tokenOf tokens phrase)) := by
  induction path generalizing ids ks with
  | nil => trivial
  | cons r path ih =>
    obtain ⟨k, hk, hmade⟩ := hids r hpath.1
    obtain rfl : tokenOf tokens phrase r = k := hmade.2
    exact ⟨hk, ih (fun r' => (h.mem_children_origin_iff hmade).1) hpath.2⟩

/-- A path of tokens is a path of their origins. -/
theorem exists_isOriginPath {ids : List OriginId} {ks path : List NodeId}
    (hks : ∀ k ∈ ks, k < tokens.length ∧ ∀ r, MadeFor tokens phrase r k → r ∈ ids)
    (hpath : (ofTokens tokens phrase).IsPath ks path) :
    ∃ path', (TokenGraph.ofTokens tokens phrase).IsOriginPath ids path' ∧
      path'.map (tokenOf tokens phrase) = path := by
  induction path generalizing ids ks with
  | nil => exact ⟨[], trivial, rfl⟩
  | cons k path ih =>
    obtain ⟨hk, hids⟩ := hks k hpath.1
    obtain ⟨r, hmade, -⟩ := existsUnique_madeFor phrase hk
    have hbelow : ∀ j ∈ (ofTokens tokens phrase).children k, j < tokens.length ∧
        ∀ r', MadeFor tokens phrase r' j →
          r' ∈ ((TokenGraph.ofTokens tokens phrase).origin r).children := fun j hj =>
      ⟨(Forest.edge_iff.1 hj).2.1, fun r' hr' => (h.mem_children_origin_iff hmade).2 ⟨j, hj, hr'⟩⟩
    obtain ⟨path', hpath', rfl⟩ := ih hbelow hpath.2
    exact ⟨r :: path', ⟨hids r hmade, hpath'⟩, congrArg (· :: _) hmade.2⟩

/-- No origin follows that of a token that nothing follows. -/
theorem children_origin_eq_nil_iff (hr : MadeFor tokens phrase r k) :
    ((TokenGraph.ofTokens tokens phrase).origin r).children = [] ↔
      (ofTokens tokens phrase).children k = [] := by
  constructor
  · refine fun hnil => List.eq_nil_iff_forall_not_mem.2 fun j hj => ?_
    obtain ⟨r', hr', -⟩ := existsUnique_madeFor phrase (Forest.edge_iff.1 hj).2.1
    exact absurd (hnil ▸ (h.mem_children_origin_iff hr).2 ⟨j, hj, hr'⟩) List.not_mem_nil
  · refine fun hnil => List.eq_nil_iff_forall_not_mem.2 fun r' hr' => ?_
    obtain ⟨j, hj, -⟩ := (h.mem_children_origin_iff hr).1 hr'
    exact absurd (hnil ▸ hj : j ∈ []) List.not_mem_nil

end NormalForm

/-! ### The current year -/

/-- No variable is a year. -/
def Variables.Yearless (vars : Variables) : Prop := ∀ name start, vars.get? name ≠ some (.year start)

section Yearless

variable {g : TokenGraph} {vars : Variables} {name : String} {values : Dict String (List TokenGraph)}

theorem yearless_table : (Variables.ofVariables [.table name values]).Yearless := by
  intro name' start
  rw [Variables.ofVariables, List.foldl_cons, List.foldl_nil, Variables.add, Dict.get?_insert,
    Dict.get?_empty]
  split <;> simp

variable (h : vars.Yearless) (now now' : Int)
include h

theorem Variables.Yearless.ownPhrases_eq : g.ownPhrases now vars = g.ownPhrases now' vars := by
  funext o
  rw [TokenGraph.ownPhrases, TokenGraph.ownPhrases]
  split
  · next v hv =>
    cases v with
    | year start => exact absurd hv (h _ start)
    | table name values => rfl
  · rfl

/-- Where no variable is a year, it does not matter which year it is. -/
theorem Variables.Yearless.phrases_eq : g.phrases now vars = g.phrases now' vars := by
  rw [TokenGraph.phrases, TokenGraph.phrases, h.ownPhrases_eq now now']

end Yearless

end PhraseGraph
