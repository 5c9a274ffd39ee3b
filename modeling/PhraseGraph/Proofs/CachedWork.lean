import PhraseGraph.Graph.Cache

/-!
# Work with a cache

What work with a cache gives is told step by step: each step gets the cache that the one before it has
left, and the first failure is the result of all (`Cached.perform_bind`).

Graphs are fetched as they were kept, and it does not matter how they are made (`Cached.perform_cachedBy`).
So a property of all graphs that are made is one of all graphs that are kept, and of those that are fetched
(`Cached.yields_cached`). What work yields from all caches with such a property, of which it leaves one
again (`Cached.Yields`), is found step by step.
-/

namespace PhraseGraph

/-! ### Steps -/

namespace Cached

variable {α β : Type} {c : GraphCache}

@[simp] theorem perform_pure {a : α} : perform c (pure a) = (.ok a, c) := rfl

@[simp] theorem perform_lift {x : Except Failure α} :
    perform c (liftM x : Cached α) = (x, c) := rfl

theorem perform_bind {x : Cached α} {f : α → Cached β} :
    perform c (x >>= f) = match perform c x with
      | (.ok a, c') => perform c' (f a)
      | (.error failure, c') => (.error failure, c') := by
  show (ExceptT.bindCont f (perform c x).1).run (perform c x).2 = _
  rcases perform c x with ⟨_ | a, c'⟩ <;> rfl

theorem perform_tryCatch {x : Cached α} {f : Failure → Cached α} :
    perform c (tryCatch x f) = match perform c x with
      | (.ok a, c') => (.ok a, c')
      | (.error failure, c') => perform c' (f failure) := by
  simp only [perform, ExceptT.run, StateT.run, tryCatch, tryCatchThe, MonadExceptOf.tryCatch,
    ExceptT.tryCatch, ExceptT.mk, bind, StateT.bind]
  rcases x c with ⟨_ | a, c'⟩ <;> rfl

/-- The graph of a phrase in a language, from the cache if it is kept there, and made otherwise. -/
def cachedBy (make : String → String → Except Failure TokenGraph) (phrase language : String) :
    Cached TokenGraph := do
  let key : GraphKey := { language, phrase }
  match (← get).fetch? key with
  | some (g, c) =>
    set c
    return g
  | none =>
    let g ← make phrase language
    modify fun c => c.store key g
    return g

theorem cached_eq {analyzer : Analyzer} :
    TokenGraph.cached analyzer = cachedBy (TokenGraph.ofPhrase analyzer) := rfl

/-- A graph that is given, kept or made, is stored. A failure changes nothing. -/
theorem perform_cachedBy {make : String → String → Except Failure TokenGraph}
    {phrase language : String} : perform c (cachedBy make phrase language) =
      match c.peek? { language, phrase } with
      | some g => (.ok g, c.store { language, phrase } g)
      | none => match make phrase language with
        | .ok g => (.ok g, c.store { language, phrase } g)
        | .error failure => (.error failure, c) := by
  have hget : perform c (get : Cached GraphCache) = (.ok c, c) := rfl
  rw [cachedBy, perform_bind, hget]
  simp only [GraphCache.fetch?]
  cases c.peek? { language, phrase } with
  | some g => rfl
  | none => cases make phrase language <;> rfl

end Cached

/-! ### What caches keep -/

/-- All graphs that are kept have the property, with the key that they are kept under. -/
def GraphCache.Keeps (P : GraphKey → TokenGraph → Prop) (c : GraphCache) : Prop :=
  ∀ entry ∈ c.recent, P entry.1 entry.2

namespace GraphCache

variable {P : GraphKey → TokenGraph → Prop} {c : GraphCache} {key : GraphKey} {g : TokenGraph}

theorem keeps_disabled : disabled.Keeps P := fun _ hentry => absurd hentry List.not_mem_nil

theorem Keeps.store (h : c.Keeps P) (hg : P key g) : (c.store key g).Keeps P := by
  intro entry hentry
  rcases List.mem_cons.1 (List.take_subset _ _ hentry) with rfl | hentry
  · exact hg
  · exact h entry (List.mem_filter.1 hentry).1

theorem Keeps.of_peek?_eq_some (h : c.Keeps P) (hpeek : c.peek? key = some g) : P key g := by
  obtain ⟨⟨key', g'⟩, hfind, rfl⟩ := Option.map_eq_some_iff.1 hpeek
  have hkey : key' = key := by simpa using List.find?_some hfind
  subst hkey
  exact h _ (List.mem_of_find?_eq_some hfind)

end GraphCache

/-- From every cache with the property `I` the work has a result with the property `R`, and leaves a
    cache that has `I` again. -/
def Cached.Yields {α : Type} (I : GraphCache → Prop) (work : Cached α)
    (R : Except Failure α → Prop) : Prop :=
  ∀ c, I c → R (perform c work).1 ∧ I (perform c work).2

namespace Cached

variable {α β γ δ : Type} {I : GraphCache → Prop} {work : Cached α} {R : Except Failure α → Prop}

theorem yields_pure {a : α} (h : R (.ok a)) : Yields I (pure a) R := fun _ hc => ⟨h, hc⟩

theorem yields_lift {x : Except Failure α} : Yields I (liftM x) fun r => r = x :=
  fun _ hc => ⟨rfl, hc⟩

theorem Yields.bind (h : Yields I work R) {f : α → Cached β} {S : Except Failure β → Prop}
    (herror : ∀ failure, R (.error failure) → S (.error failure))
    (hok : ∀ a, R (.ok a) → Yields I (f a) S) : Yields I (work >>= f) S := by
  intro c hc
  obtain ⟨hresult, hc'⟩ := h c hc
  rw [perform_bind]
  generalize perform c work = done at hresult hc'
  obtain ⟨failure | a, c'⟩ := done
  · exact ⟨herror failure hresult, hc'⟩
  · exact hok a hresult c' hc'

/-- Work that starts with something that needs no cache. -/
theorem yields_lift_bind {x : Except Failure α} {f : α → Cached β} {h : β → γ}
    {k : α → Except Failure γ} (hf : ∀ a, Yields I (f a) fun r => r.map h = k a) :
    Yields I (liftM x >>= f) fun r => r.map h = x >>= k := by
  refine yields_lift.bind (fun failure hx => ?_) fun a hx => ?_
  · rw [← hx]
    rfl
  · rw [← hx]
    exact hf a

/-- Where the results are told by those of other work, step by step, so is the result of all. -/
theorem Yields.bind_map {h : α → γ} {x : Except Failure γ} {f : α → Cached β} {h' : β → δ}
    {k : γ → Except Failure δ} (hwork : Yields I work fun r => r.map h = x)
    (hf : ∀ a, Yields I (f a) fun r => r.map h' = k (h a)) :
    Yields I (work >>= f) fun r => r.map h' = x >>= k := by
  refine hwork.bind (fun failure hx => ?_) fun a hx => ?_
  · rw [← hx]
    rfl
  · rw [← hx]
    exact hf a

theorem Yields.tryCatch (h : Yields I work R) {f : Failure → Cached α} {S : Except Failure α → Prop}
    (hok : ∀ a, R (.ok a) → S (.ok a))
    (herror : ∀ failure, R (.error failure) → Yields I (f failure) S) :
    Yields I (tryCatch work f) S := by
  intro c hc
  obtain ⟨hresult, hc'⟩ := h c hc
  rw [perform_tryCatch]
  generalize perform c work = done at hresult hc'
  obtain ⟨failure | a, c'⟩ := done
  · exact herror failure hresult c' hc'
  · exact ⟨hok a hresult, hc'⟩

/-- Where only graphs are kept that would be made, the graph of a phrase is the one that would be made. -/
theorem yields_cachedBy {make : String → String → Except Failure TokenGraph} {phrase language : String}
    (hkept : ∀ c g, I c → c.peek? { language, phrase } = some g → make phrase language = .ok g)
    (hstore : ∀ c g, I c → make phrase language = .ok g → I (c.store { language, phrase } g)) :
    Yields I (cachedBy make phrase language) fun r => r = make phrase language := by
  intro c hc
  rw [perform_cachedBy]
  cases hpeek : c.peek? { language, phrase } with
  | some g =>
    have hg := hkept c g hc hpeek
    exact ⟨hg.symm, hstore c g hc hg⟩
  | none =>
    cases hmade : make phrase language with
    | error failure => exact ⟨rfl, hc⟩
    | ok g => exact ⟨rfl, hstore c g hc hmade⟩

/-- What holds of every graph that is made, and of every graph that is kept, holds of the graph of a
    phrase, whether it is fetched or made. There is none only if it can not be made. -/
theorem yields_cached {P : GraphKey → TokenGraph → Prop} {analyzer : Analyzer}
    (hP : ∀ phrase language g, TokenGraph.ofPhrase analyzer phrase language = .ok g →
      P { language, phrase } g) (phrase language : String) :
    Yields (GraphCache.Keeps P) (TokenGraph.cached analyzer phrase language) fun r =>
      (∃ g, r = .ok g ∧ P { language, phrase } g) ∨
        ∃ failure, r = .error failure ∧
          TokenGraph.ofPhrase analyzer phrase language = .error failure := by
  intro c hc
  rw [cached_eq, perform_cachedBy]
  cases hpeek : c.peek? { language, phrase } with
  | some g =>
    have hg := hc.of_peek?_eq_some hpeek
    exact ⟨.inl ⟨g, rfl, hg⟩, hc.store hg⟩
  | none =>
    cases hmade : TokenGraph.ofPhrase analyzer phrase language with
    | error failure => exact ⟨.inr ⟨failure, rfl, rfl⟩, hc⟩
    | ok g =>
      have hg := hP phrase language g hmade
      exact ⟨.inl ⟨g, rfl, hg⟩, hc.store hg⟩

end Cached

end PhraseGraph
