import PhraseGraph.Proofs.Matching.Depth

/-!
# Either of two graphs as the text

Without variables a search walks down two graphs at once. It is told from the side of the text: the
nodes of the text are bound, it is the text that may be over first, and of two nodes with one text
it is the node of the text that comes first. None of this makes a difference to how the search ends.
The walk along two lists of siblings pairs the same nodes if the lists change places
(`alignByText_swap`), in the same order and whatever the lists are. So the two searches try the same
pairs, and both find a match, or both fail, or both are given up (`Outcome.Mirrors`), at every depth
(`mirrors_search`).

That the graphs are sorted, or come to an end, or that their ends are the nodes without children, is
not needed. The search with the graphs in their places ends if the other one does, and then both
find a match or none does (`findMatch_symm`).
-/

namespace PhraseGraph

/-- The words that a match binds, in order. -/
def Match.words (m : Match) : List String := m.values.flatMap (·.tokenized)

namespace Outcome

/-- Two searches end alike: with matches of the same words, without a match, or not at all. -/
inductive Mirrors : Outcome → Outcome → Prop
  | found {m m' : Match} (hwords : m.words = m'.words) : Mirrors (found m) (found m')
  | absent : Mirrors absent absent
  | unfinished : Mirrors unfinished unfinished

section Mirrors

variable {o o' : Outcome}

theorem Mirrors.orElse {next next' : Unit → Outcome} (h : o.Mirrors o')
    (hnext : (next ()).Mirrors (next' ())) : (o.orElse next).Mirrors (o'.orElse next') := by
  cases h with
  | found hwords => exact .found hwords
  | absent => exact hnext
  | unfinished => exact .unfinished

/-- Ways that are tried from either side. -/
theorem Mirrors.first {α β : Type} {ways : List (α × β)} {f : α × β → Outcome}
    {f' : β × α → Outcome} (h : ∀ way ∈ ways, (f way).Mirrors (f' way.swap)) :
    (Outcome.first ways f).Mirrors (Outcome.first (ways.map Prod.swap) f') := by
  induction ways with
  | nil => exact .absent
  | cons way rest ih =>
    exact (h way List.mem_cons_self).orElse (ih fun way hway => h way (List.mem_cons_of_mem _ hway))

theorem Mirrors.prepend {b b' : Binding} (hb : b.tokenized = b'.tokenized) (h : o.Mirrors o') :
    (o.prepend b).Mirrors (o'.prepend b') := by
  cases h with
  | found hwords =>
    refine .found ?_
    simp only [Match.words, Match.prepend, List.flatMap_cons] at hwords ⊢
    rw [hb, hwords]
  | absent => exact .absent
  | unfinished => exact .unfinished

theorem Mirrors.isSome_iff (h : o.Mirrors o') : o.toOption.isSome ↔ o'.toOption.isSome := by
  cases h <;> exact Iff.rfl

theorem Mirrors.unfinished_iff (h : o.Mirrors o') : o = .unfinished ↔ o' = .unfinished := by
  cases h <;> simp

theorem Mirrors.words_eq (h : o.Mirrors o') {m m' : Match} (hm : o.toOption = some m)
    (hm' : o'.toOption = some m') : m.words = m'.words := by
  cases h with
  | found hwords =>
    obtain rfl := Option.some_inj.1 hm
    obtain rfl := Option.some_inj.1 hm'
    exact hwords
  | absent => exact absurd hm (by simp [toOption])
  | unfinished => exact absurd hm (by simp [toOption])

end Mirrors

end Outcome

section Symmetry

variable {a b : TokenGraph}

/-! ### Pairs of siblings -/

theorem alignByText_nil_right (xs : List NodeId) : alignByText a b xs [] = [] := by
  cases xs <;> rfl

/-- The walk goes on behind the node whose text comes first, or behind both nodes. -/
theorem alignByText_cons_cons (x y : NodeId) (xs ys : List NodeId) :
    alignByText a b (x :: xs) (y :: ys) =
      if b.text y < a.text x then alignByText a b (x :: xs) ys
      else if b.text y = a.text x then (x, y) :: alignByText a b xs ys
      else alignByText a b xs (y :: ys) := by
  by_cases hlt : b.text y < a.text x
  · have hdrop := List.dropWhile_cons_of_pos (p := fun y => decide (b.text y < a.text x)) (l := ys)
      (decide_eq_true hlt)
    rw [if_pos hlt, alignByText, alignByText, hdrop]
  · have hdrop := List.dropWhile_cons_of_neg (p := fun y => decide (b.text y < a.text x)) (l := ys)
      (by simpa using hlt)
    simp only [alignByText, hdrop, if_neg hlt, beq_iff_eq]

theorem alignByText_swap (xs ys : List NodeId) :
    alignByText b a ys xs = (alignByText a b xs ys).map Prod.swap := by
  induction xs generalizing ys with
  | nil => rw [alignByText_nil_right]; rfl
  | cons x xs ihxs =>
    induction ys with
    | nil => rw [alignByText_nil_right]; rfl
    | cons y ys ihys =>
      rw [alignByText_cons_cons, alignByText_cons_cons]
      rcases lt_trichotomy (a.text x) (b.text y) with hlt | heq | hlt
      · rw [if_pos hlt, if_neg hlt.asymm, if_neg hlt.ne', ihxs]
      · rw [heq, if_neg (lt_irrefl _), if_pos rfl, if_neg (lt_irrefl _), if_pos rfl, ihxs]
        rfl
      · rw [if_neg hlt.asymm, if_neg hlt.ne', if_pos hlt, ihys]

/-! ### The search -/

theorem variableAt?_empty (id : NodeId) : variableAt? ∅ a id = none :=
  Option.bind_eq_none_iff.2 fun _ _ => rfl

/-- Without variables the pairs with one text are all that is tried. -/
theorem answer_of_no_variables {ask : Question → Outcome} {xs ys : List NodeId} (hxs : xs ≠ [])
    (hys : ys ≠ []) : answer a ∅ ask ⟨xs, b, ys, false⟩ =
      Outcome.first (alignByText a b xs ys) fun way =>
        matchLiteral a ask ⟨xs, b, ys, false⟩ way.1 way.2 := by
  have hvariable : variableWays ∅ ⟨xs, b, ys, false⟩ = [] :=
    List.eq_nil_iff_forall_not_mem.2 fun ⟨t, p, v⟩ hway =>
      absurd ((variableAt?_empty p).symm.trans (mem_variableWays_iff.1 hway).2.2) (by simp)
  have hliteral : literalWays ∅ a ⟨xs, b, ys, false⟩ = alignByText a b xs ys := by
    rw [literalWays, List.filter_eq_self.2 fun p _ => by rw [variableAt?_empty]; rfl]
  rw [answer_of_ne_nil (q := ⟨xs, b, ys, false⟩) hxs hys, hvariable, hliteral]
  rfl

theorem tokenized_literalBinding (t : NodeId) : (literalBinding a t).tokenized = [a.text t] := by
  rw [literalBinding]
  split <;> rfl

section Answer

variable {ask ask' : Question → Outcome}
  (hask : ∀ xs ys, (ask ⟨xs, b, ys, false⟩).Mirrors (ask' ⟨ys, a, xs, false⟩))
include hask

theorem mirrors_matchLiteral {x y : NodeId} (htext : a.text x = b.text y) (xs ys : List NodeId) :
    (matchLiteral a ask ⟨xs, b, ys, false⟩ x y).Mirrors
      (matchLiteral b ask' ⟨ys, a, xs, false⟩ y x) := by
  have hwords : (literalBinding a x).tokenized = (literalBinding b y).tokenized := by
    rw [tokenized_literalBinding, tokenized_literalBinding, htext]
  rw [matchLiteral, matchLiteral, Bool.and_comm]
  split
  · exact .found (by simp only [Match.words, List.flatMap_cons, hwords])
  · exact (hask (a.children x) (b.children y)).prepend hwords

theorem mirrors_answer (xs ys : List NodeId) :
    (answer a ∅ ask ⟨xs, b, ys, false⟩).Mirrors (answer b ∅ ask' ⟨ys, a, xs, false⟩) := by
  by_cases hys : ys = [] <;> by_cases hxs : xs = []
  · subst hxs hys
    exact .found rfl
  · -- One side is over and the other is not, which is a failure from both sides.
    rw [answer_of_patternNodes_eq_nil (q := ⟨xs, b, ys, false⟩) hys, if_neg (by simpa using hxs),
      answer_of_textNodes_eq_nil (q := ⟨ys, a, xs, false⟩) hys hxs]
    exact .absent
  · rw [answer_of_textNodes_eq_nil (q := ⟨xs, b, ys, false⟩) hxs hys,
      answer_of_patternNodes_eq_nil (q := ⟨ys, a, xs, false⟩) hxs, if_neg (by simpa using hys)]
    exact .absent
  · rw [answer_of_no_variables hxs hys, answer_of_no_variables hys hxs, alignByText_swap xs ys]
    refine Outcome.Mirrors.first fun ⟨x, y⟩ hway => ?_
    exact mirrors_matchLiteral hask (mem_of_mem_alignByText hway).2.2 xs ys

end Answer

theorem mirrors_search (steps : Nat) (xs ys : List NodeId) :
    (search a ∅ steps ⟨xs, b, ys, false⟩).Mirrors (search b ∅ steps ⟨ys, a, xs, false⟩) := by
  induction steps generalizing xs ys with
  | zero => exact .unfinished
  | succ steps ih => exact mirrors_answer ih xs ys

/-- The two searches may go to different depths, but both are deep enough. -/
theorem mirrors_searchBound (xs ys : List NodeId) :
    (search a ∅ (searchBound a ∅ b) ⟨xs, b, ys, false⟩).Mirrors
      (search b ∅ (searchBound b ∅ a) ⟨ys, a, xs, false⟩) := by
  have hsearch := @mirrors_search a b (max (searchBound a ∅ b) (searchBound b ∅ a)) xs ys
  rwa [stableFrom_searchBound a ∅ xs b ys false _ (Nat.le_max_left _ _),
    stableFrom_searchBound b ∅ ys a xs false _ (Nat.le_max_right _ _)] at hsearch

end Symmetry

/-- **Matching literal texts is symmetric.** Without variables, the search for a match of one graph
    against another one ends if and only if the search for a match of the other one against the
    first ends. If one of them finds a match, then so does the other one, and both matches bind the
    same words. -/
theorem findMatch_symm (a b : TokenGraph) :
    (Ends a ∅ ⟨a.roots, b, b.roots, false⟩ ↔ Ends b ∅ ⟨b.roots, a, a.roots, false⟩) ∧
    ((findMatch a b false ∅).isSome ↔ (findMatch b a false ∅).isSome) ∧
    (∀ m m', findMatch a b false ∅ = some m → findMatch b a false ∅ = some m' →
      m.words = m'.words) := by
  have hmirrors := @mirrors_searchBound a b a.roots b.roots
  refine ⟨?_, hmirrors.isSome_iff, fun m m' => hmirrors.words_eq⟩
  rw [ends_iff, ends_iff]
  exact not_congr hmirrors.unfinished_iff

end PhraseGraph
