import PhraseGraph.Proofs.CachedWork

/-!
# What a cache is used for goes unnoticed

A cache keeps the graph that was stored last for a key (`GraphCache.peek?_store_self`), until it drops it,
and makes up none (`GraphCache.peek?_of_store`). It is used to get the graphs of phrases, is asked for what
it keeps, and is cleared. However it is used, it keeps graphs that were made for their own keys, and not
more of them than it may (`GraphCache.IsSound`): what a use leaves of such a cache is such a cache again.
So a graph that it gives is the one that would be made, and a failure is the one that there would be
(`GraphCache.isTransparent_cached`).

How graphs are made does not matter, as long as the same key always leads to the same result.
-/

namespace PhraseGraph

/-- A use of a cache. -/
inductive CacheUse where
  /-- The graph of a phrase in a language is wanted. -/
  | graph (phrase language : String)
  /-- Whether the graph of a phrase in a language is kept is wanted. -/
  | has (phrase language : String)
  /-- The cache is cleared. -/
  | clear
deriving DecidableEq, Repr

/-- The cache after a use, where graphs are what `work` gives. -/
def CacheUse.after (work : String → String → Cached TokenGraph) (c : GraphCache) :
    CacheUse → GraphCache
  | graph phrase language => (Cached.perform c (work phrase language)).2
  | has _ _ => c
  | clear => c.clear

namespace GraphCache

section Store

variable {c : GraphCache} {key key' : GraphKey} {g g' : TokenGraph}

/-- The graph that was stored last is kept, if there is room for any. -/
theorem peek?_store_self (h : 0 < c.limit) : (c.store key g).peek? key = some g := by
  obtain ⟨n, hn⟩ := Nat.exists_eq_add_of_lt h
  rw [peek?, store, hn, Nat.zero_add, List.take_succ_cons, List.find?_cons_of_pos (by simp)]
  rfl

/-- What is kept of another key was kept before. -/
theorem peek?_of_store (hne : key' ≠ key) (hpeek : (c.store key g).peek? key' = some g') :
    c.peek? key' = some g' := by
  obtain ⟨entry, hfind, rfl⟩ := Option.map_eq_some_iff.1 hpeek
  have hkept := (List.take_prefix _ _).find?_eq_some hfind
  -- Only a graph with another key is added, and only graphs with that key or at the end are left out.
  rw [List.find?_cons_of_neg (by simpa using Ne.symm hne), List.find?_filter] at hkept
  have hother : (fun entry : GraphKey × TokenGraph => decide (entry.1 != key ∧ entry.1 == key')) =
      fun entry => entry.1 == key' := by
    funext entry
    by_cases hentry : entry.1 = key'
    · simp [hentry, hne]
    · simp [hentry]
  rw [hother] at hkept
  rw [peek?, hkept, Option.map_some]

end Store

/-- What becomes of an empty cache with a limit. -/
def afterUses (work : String → String → Cached TokenGraph) (limit : Nat) (uses : List CacheUse) :
    GraphCache :=
  uses.foldl (CacheUse.after work) { limit }

/-- The cache keeps graphs that were made for their keys, up to the limit. -/
structure IsSound (make : String → String → Except Failure TokenGraph) (limit : Nat)
    (c : GraphCache) : Prop where
  limit_eq : c.limit = limit
  size_le : c.size ≤ limit
  keeps : c.Keeps fun key g => make key.phrase key.language = .ok g

section IsSound

variable {make : String → String → Except Failure TokenGraph} {limit : Nat} {c : GraphCache}

theorem isSound_empty : IsSound make limit { limit } :=
  ⟨rfl, Nat.zero_le _, fun _ hentry => absurd hentry List.not_mem_nil⟩

theorem IsSound.store (h : IsSound make limit c) {phrase language : String} {g : TokenGraph}
    (hg : make phrase language = .ok g) : IsSound make limit (c.store { language, phrase } g) where
  limit_eq := h.limit_eq
  size_le := by
    rw [size, GraphCache.store, h.limit_eq]
    exact List.length_take_le ..
  keeps := h.keeps.store hg

theorem IsSound.clear (h : IsSound make limit c) : IsSound make limit c.clear :=
  ⟨h.limit_eq, Nat.zero_le _, fun _ hentry => absurd hentry List.not_mem_nil⟩

theorem IsSound.made_of_peek? (h : IsSound make limit c) {phrase language : String} {g : TokenGraph}
    (hpeek : c.peek? { language, phrase } = some g) : make phrase language = .ok g :=
  h.keeps.of_peek?_eq_some hpeek

/-- The graph is the one that would be made, and the cache is sound afterwards. -/
theorem yields_cachedBy_of_isSound {phrase language : String} :
    Cached.Yields (IsSound make limit) (Cached.cachedBy make phrase language) fun r =>
      r = make phrase language :=
  Cached.yields_cachedBy (fun _ _ hc hpeek => hc.made_of_peek? hpeek) fun _ _ hc hg => hc.store hg

/-- Where no graph can be made, none is kept, and nothing changes. -/
theorem IsSound.perform_of_failure (h : IsSound make limit c) {phrase language : String}
    {failure : Failure} (hfailure : make phrase language = .error failure) :
    Cached.perform c (Cached.cachedBy make phrase language) = (.error failure, c) := by
  rw [Cached.perform_cachedBy]
  cases hpeek : c.peek? { language, phrase } with
  | some g => exact absurd (hfailure.symm.trans (h.made_of_peek? hpeek)) (by simp)
  | none => rw [hfailure]

theorem IsSound.after (h : IsSound make limit c) (use : CacheUse) :
    IsSound make limit (use.after (Cached.cachedBy make) c) := by
  cases use with
  | graph phrase language => exact (yields_cachedBy_of_isSound c h).2
  | has phrase language => exact h
  | clear => exact h.clear

theorem IsSound.foldl_after (h : IsSound make limit c) (uses : List CacheUse) :
    IsSound make limit (uses.foldl (CacheUse.after (Cached.cachedBy make)) c) := by
  induction uses generalizing c with
  | nil => exact h
  | cons use uses ih => exact ih (h.after use)

end IsSound

/-- After the uses of an empty cache with the limit, it can not be told from what `work` gives that there is
    a cache: that is what `make` makes. -/
structure IsTransparent (work : String → String → Cached TokenGraph)
    (make : String → String → Except Failure TokenGraph) (limit : Nat) (uses : List CacheUse) :
    Prop where
  /-- The next graph, or failure, is the one that would be made. -/
  answer : ∀ phrase language,
    (Cached.perform (afterUses work limit uses) (work phrase language)).1 = make phrase language
  /-- A graph that is kept is the one that would be made. -/
  kept : ∀ {phrase language g}, (afterUses work limit uses).peek? { language, phrase } = some g →
    make phrase language = .ok g
  /-- A failure leaves no trace in the cache. -/
  failure : ∀ {phrase language failure}, make phrase language = .error failure →
    (Cached.perform (afterUses work limit uses) (work phrase language)).2 = afterUses work limit uses ∧
      (afterUses work limit uses).contains { language, phrase } = false
  /-- There are not more graphs than the limit allows. -/
  size_le : (afterUses work limit uses).size ≤ limit

theorem isTransparent_cachedBy (make : String → String → Except Failure TokenGraph) (limit : Nat)
    (uses : List CacheUse) : IsTransparent (Cached.cachedBy make) make limit uses := by
  have hsound : IsSound make limit (afterUses (Cached.cachedBy make) limit uses) :=
    isSound_empty.foldl_after uses
  refine ⟨fun phrase language => (yields_cachedBy_of_isSound _ hsound).1, hsound.made_of_peek?, ?_,
    hsound.size_le⟩
  intro phrase language failure hfailure
  refine ⟨by rw [hsound.perform_of_failure hfailure], ?_⟩
  rw [contains, Option.isSome_eq_false_iff, Option.isNone_iff_eq_none, Option.eq_none_iff_forall_ne_some]
  exact fun g hpeek => absurd (hfailure.symm.trans (hsound.made_of_peek? hpeek)) (by simp)

/-- A cache can not be told from its absence, for all analyzers, and for all other ways to make graphs. -/
theorem isTransparent_cached (limit : Nat) (uses : List CacheUse) :
    (∀ analyzer, IsTransparent (TokenGraph.cached analyzer) (TokenGraph.ofPhrase analyzer) limit uses) ∧
      ∀ make, IsTransparent (Cached.cachedBy make) make limit uses :=
  ⟨fun _ => isTransparent_cachedBy _ limit uses, fun make => isTransparent_cachedBy make limit uses⟩

end GraphCache

end PhraseGraph
