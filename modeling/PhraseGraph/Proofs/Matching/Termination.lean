import Mathlib.Algebra.Order.BigOperators.Group.List
import PhraseGraph.Proofs.Matching.Depth
import PhraseGraph.Proofs.Matching.Exactness
import PhraseGraph.Proofs.Matching.Tiling
import PhraseGraph.Proofs.RowGraph

/-!
# Searches that end

A search goes on below a text node and a pattern node, and it begins anew with a phrasing, at the same
text node. So it may come back to a text node without having read a word, and where the text has a cycle
it may read on and on. What ends it is the pattern. Going on below a pattern node leaves less of the
pattern, as it has no cycle; and a phrasing, though it is a new pattern, names only variables of a lower
rank (`Ranks`). So a search is at most as deep as the pattern is high, plus once the height of the
phrasings for each rank (`search_ne_unfinished`), whatever the text is.

Main statement: `matching_ends`.
-/

namespace PhraseGraph

namespace Outcome

variable {o : Outcome}

theorem orElse_ne_unfinished {next : Unit → Outcome} (h : o ≠ unfinished)
    (hnext : next () ≠ unfinished) : o.orElse next ≠ unfinished := by
  cases o with
  | found m => exact h
  | absent => exact hnext
  | unfinished => exact h

theorem first_ne_unfinished {α : Type} {ways : List α} {f : α → Outcome}
    (h : ∀ way ∈ ways, f way ≠ unfinished) : first ways f ≠ unfinished := by
  induction ways with
  | nil => simp [first]
  | cons way rest ih =>
    exact orElse_ne_unfinished (h way List.mem_cons_self)
      (ih fun way hway => h way (List.mem_cons_of_mem _ hway))

theorem bind_ne_unfinished {next : Match → Outcome} (h : o ≠ unfinished)
    (hnext : ∀ m, next m ≠ unfinished) : o.bind next ≠ unfinished := by
  cases o with
  | found m => exact hnext m
  | absent => exact h
  | unfinished => exact h

theorem prepend_ne_unfinished {b : Binding} (h : o ≠ unfinished) : o.prepend b ≠ unfinished :=
  bind_ne_unfinished h fun _ => by simp

end Outcome

section Answer

variable {text : TokenGraph} {vars : Variables} {ask : Question → Outcome} {q : Question}
  {t p : NodeId} {v : Variable}

/-- The questions about a phrasing at any text node are answered. -/
def AnswersPhrasings (ask : Question → Outcome) (v : Variable) : Prop :=
  ∀ g ∈ v.phrasings, ∀ t, ask ⟨[t], g, g.roots, true⟩ ≠ .unfinished

/-- The questions about what follows a pattern node are answered, wherever the text stands. -/
def AnswersBelow (ask : Question → Outcome) (q : Question) (p : NodeId) : Prop :=
  ∀ ts, ask { q with textNodes := ts, patternNodes := q.pattern.children p } ≠ .unfinished

theorem matchAt_ne_unfinished (hphrasings : AnswersPhrasings ask v) (hbelow : AnswersBelow ask q p) :
    v.matchAt text ask q t p ≠ .unfinished := by
  cases v with
  | year start =>
    rw [Variable.matchAt]
    split
    · simp
    · exact Outcome.prepend_ne_unfinished (hbelow _)
  | table name values =>
    refine Outcome.first_ne_unfinished fun way hway => ?_
    obtain ⟨value, g⟩ := way
    have hstart := hphrasings g (mem_phrasings_iff.2 ⟨value, hway⟩) t
    exact Outcome.bind_ne_unfinished hstart fun start =>
      Outcome.prepend_ne_unfinished (hbelow start.continuation)

theorem matchLiteral_ne_unfinished (hbelow : AnswersBelow ask q p) :
    matchLiteral text ask q t p ≠ .unfinished := by
  rw [matchLiteral]
  split
  · simp
  · exact Outcome.prepend_ne_unfinished (hbelow _)

/-- A question is answered if those about what follows its pattern nodes are, and those about the
    phrasings of the variables that these nodes name. -/
theorem answer_ne_unfinished (hbelow : ∀ p ∈ q.patternNodes, AnswersBelow ask q p)
    (hphrasings : ∀ p ∈ q.patternNodes, ∀ v, variableAt? vars q.pattern p = some v →
      AnswersPhrasings ask v) : answer text vars ask q ≠ .unfinished := by
  by_cases hps : q.patternNodes = []
  · rw [answer_of_patternNodes_eq_nil hps]
    split <;> simp
  by_cases hts : q.textNodes = []
  · rw [answer_of_textNodes_eq_nil hts hps]
    simp
  rw [answer_of_ne_nil hts hps]
  refine Outcome.orElse_ne_unfinished (Outcome.first_ne_unfinished ?_) (Outcome.first_ne_unfinished ?_)
  · intro ⟨t, p, v⟩ hway
    obtain ⟨-, hp, hv⟩ := mem_variableWays_iff.1 hway
    exact matchAt_ne_unfinished (hphrasings p hp v hv) (hbelow p hp)
  · intro ⟨t, p⟩ hway
    obtain ⟨-, hp, -⟩ := mem_of_mem_alignByText hway
    exact matchLiteral_ne_unfinished (hbelow p (List.mem_of_mem_filter hp))

end Answer

/-! ### Ranks -/

/-- A phrasing of a variable names only variables of a lower rank. -/
def Ranks (vars : Variables) (rank : Variable → Nat) : Prop :=
  ∀ v ∈ vars.values, ∀ g ∈ v.phrasings, ∀ p w, variableAt? vars g p = some w → rank w < rank v

section Ranks

variable {text pattern : TokenGraph} {vars : Variables} {rank : Variable → Nat} {height r n : Nat}
  {q : Question}

/-- The height that all phrasings have at most. -/
def phrasingHeight (vars : Variables) : Nat :=
  ((vars.values.flatMap Variable.phrasings).map fun g => g.size + 1).sum

/-- Below a rank there is room for the height of a phrasing. -/
theorem height_le_of_rank_lt {v : Variable} {g : TokenGraph} (hv : v ∈ vars.values)
    (hg : g ∈ v.phrasings) (hlt : rank v < r) :
    rank v * phrasingHeight vars + (g.size + 1) ≤ r * phrasingHeight vars := by
  have hheight : g.size + 1 ≤ phrasingHeight vars :=
    List.le_sum_of_mem (List.mem_map_of_mem (List.mem_flatMap.2 ⟨v, hv, hg⟩))
  calc rank v * phrasingHeight vars + (g.size + 1)
      ≤ rank v * phrasingHeight vars + phrasingHeight vars := Nat.add_le_add_left hheight _
    _ = (rank v + 1) * phrasingHeight vars := (Nat.succ_mul _ _).symm
    _ ≤ r * phrasingHeight vars := Nat.mul_le_mul_right _ hlt

theorem search_ne_unfinished_of_le {m : Nat} (hle : n ≤ m)
    (h : search text vars n q ≠ .unfinished) : search text vars m q ≠ .unfinished := by
  rw [search_eq_of_le hle h]
  exact h

/-- A search that has room for the phrasings of all variables below a rank answers the questions about
    those of a variable below it. -/
theorem answersPhrasings_of_rank_lt {v : Variable} (hv : v ∈ vars.values) (hlt : rank v < r) (hn : 0 < n)
    (h : ∀ g ∈ v.phrasings, ∀ t, search text vars (rank v * phrasingHeight vars + (g.size + 1) + 1)
      ⟨[t], g, g.roots, true⟩ ≠ .unfinished) :
    AnswersPhrasings (search text vars (r * phrasingHeight vars + n)) v := by
  intro g hg t
  have hroom := height_le_of_rank_lt hv hg hlt
  exact search_ne_unfinished_of_le (by omega) (h g hg t)

/-- A search for at most `n` pattern nodes one after another, which name variables of a rank below `r`,
    is not deeper than `n` and `r` times the height of the phrasings. -/
theorem search_ne_unfinished (hphrasings : ∀ v ∈ vars.values, ∀ g ∈ v.phrasings, g.Acyclic)
    (hrank : Ranks vars rank) (hbound : q.pattern.Bounded n q.patternNodes)
    (hr : ∀ p v, variableAt? vars q.pattern p = some v → rank v < r) :
    search text vars (r * phrasingHeight vars + n + 1) q ≠ .unfinished := by
  induction r using Nat.strongRecOn generalizing q n with
  | _ r ihr =>
    induction n generalizing q with
    | zero =>
      rw [search, answer_of_patternNodes_eq_nil hbound.eq_nil]
      split <;> simp
    | succ n ihn =>
      rw [search]
      refine answer_ne_unfinished (fun p hp ts => ihn (hbound.children hp) hr) fun p _ v hv => ?_
      -- A phrasing is a pattern of its own, but the variables that it names have a rank below that of
      -- `v`, so the induction on ranks tells of it.
      have hvmem := mem_values_of_variableAt hv
      exact answersPhrasings_of_rank_lt hvmem (hr p v hv) n.succ_pos fun g hg t =>
        ihr (rank v) (hr p v hv) ((hphrasings v hvmem g hg).bounded g.roots) (hrank v hvmem g hg)

/-- A rank is above all others. -/
theorem exists_rank_lt (vars : Variables) (rank : Variable → Nat) :
    ∃ r, ∀ v ∈ vars.values, rank v < r :=
  ⟨(vars.values.map fun v => rank v + 1).sum, fun _ hv =>
    Nat.lt_of_succ_le (List.le_sum_of_mem (List.mem_map_of_mem hv))⟩

/-- It is enough to look at the nodes of the phrasings. -/
theorem ranks_of_forall_lt (h : ∀ v ∈ vars.values, ∀ g ∈ v.phrasings, ∀ p < g.size,
    ((variableAt? vars g p).all fun w => decide (rank w < rank v)) = true) : Ranks vars rank := by
  intro v hv g hg p w hw
  have hp : p < g.size := by
    by_contra hp
    have horigin : g.firstOrigin? p = none := by
      rw [TokenGraph.firstOrigin?, TokenGraph.node_of_size_le (Nat.not_lt.1 hp)]
      rfl
    rw [variableAt?, horigin] at hw
    exact absurd hw (by simp)
  have hall := h v hv g hg p hp
  rw [hw] at hall
  exact of_decide_eq_true hall

/-- **Matching ends.** Where the pattern and the phrasings have no cycles and the phrasings of each
    variable name only variables of a lower rank, there is a depth that no search exceeds: whatever the
    text is, with cycles or not, and from whatever siblings on, in either mode. So a match at a node
    that names a variable is decided too, and the answer is that of the whole search. -/
theorem matching_ends (hpattern : pattern.Acyclic)
    (hphrasings : ∀ v ∈ vars.values, ∀ g ∈ v.phrasings, g.Acyclic) (hrank : Ranks vars rank) :
    ∃ depth, ∀ text textNodes patternNodes allowPrefix,
      search text vars depth ⟨textNodes, pattern, patternNodes, allowPrefix⟩ ≠ .unfinished ∧
      matchSiblings text textNodes pattern patternNodes allowPrefix vars =
        (search text vars depth ⟨textNodes, pattern, patternNodes, allowPrefix⟩).toOption ∧
      ∀ v ∈ vars.values, ∀ t p, v.matchAt text (search text vars depth)
        ⟨textNodes, pattern, patternNodes, allowPrefix⟩ t p ≠ .unfinished := by
  obtain ⟨r, hr⟩ := exists_rank_lt vars rank
  have hends : ∀ text textNodes patternNodes allowPrefix,
      search text vars (r * phrasingHeight vars + (pattern.size + 1) + 1)
        ⟨textNodes, pattern, patternNodes, allowPrefix⟩ ≠ .unfinished :=
    fun _ _ patternNodes _ => search_ne_unfinished hphrasings hrank (hpattern.bounded patternNodes)
      fun _ v hv => hr v (mem_values_of_variableAt hv)
  refine ⟨_, fun text textNodes patternNodes allowPrefix =>
    ⟨hends text textNodes patternNodes allowPrefix, ?_, fun v hv t p => ?_⟩⟩
  · rw [matchSiblings, outcomeOfSiblings,
      search_searchBound (hends text textNodes patternNodes allowPrefix)]
  · refine matchAt_ne_unfinished ?_ fun ts => hends _ _ _ _
    exact answersPhrasings_of_rank_lt hv (hr v hv) (Nat.succ_pos _) fun g hg t =>
      search_ne_unfinished hphrasings hrank ((hphrasings v hv g hg).bounded g.roots) (hrank v hv g hg)

end Ranks

namespace Example

/-- A place, one of whose phrasings names the town. -/
def placesAndTowns : Variables :=
  .ofVariables [.table "$Place" (.ofList [("Old", [graphOf "old $Town"])]),
    .table "$Town" (.ofList [("Vienna", [graphOf "vienna"])])]

/-- The place ranks above the town. -/
def placeRank (v : Variable) : Nat := if v.name = "$Place" then 1 else 0

/-- A text that goes on with its own word. -/
def endless : TokenGraph where
  phrase := "old"
  nodes := #[{ token := wordAt "old" 0 0, parents := [0], children := [0] }]
  roots := [0]

/-- The words of a phrase stand in a row, so its graph has no cycle. -/
theorem acyclic_graphOf (phrase : String) : (graphOf phrase).Acyclic := by
  have hrow : InRow phrase.toList (WordAnalyzer.english.analyze phrase) :=
    WordAnalyzer.inRow_survivingWords .english phrase
  exact (hrow.onePerSlot.tidy_ofTokens phrase).acyclic

theorem endless_ends : ¬endless.Acyclic ∧ (graphOf "$Place").Acyclic ∧
    (∀ v ∈ placesAndTowns.values, ∀ g ∈ v.phrasings, g.Acyclic) ∧ Ranks placesAndTowns placeRank ∧
    ∃ depth, search endless placesAndTowns depth
      ⟨endless.roots, graphOf "$Place", (graphOf "$Place").roots, true⟩ ≠ .unfinished := by
  have hendless : ¬endless.Acyclic := fun h => h 0 (.single List.mem_cons_self)
  have hvars : placesAndTowns.values = [.table "$Place" (.ofList [("Old", [graphOf "old $Town"])]),
    .table "$Town" (.ofList [("Vienna", [graphOf "vienna"])])] := rfl
  have hphrasings : ∀ v ∈ placesAndTowns.values, ∀ g ∈ v.phrasings, g.Acyclic := by
    intro v hv g hg
    simp only [hvars, List.mem_cons, List.not_mem_nil, or_false] at hv
    rcases hv with rfl | rfl
    · obtain rfl : g = graphOf "old $Town" := List.mem_singleton.1 hg
      exact acyclic_graphOf _
    · obtain rfl : g = graphOf "vienna" := List.mem_singleton.1 hg
      exact acyclic_graphOf _
  have hrank : Ranks placesAndTowns placeRank := ranks_of_forall_lt (by decide +kernel)
  obtain ⟨depth, hdepth⟩ := matching_ends (acyclic_graphOf "$Place") hphrasings hrank
  exact ⟨hendless, acyclic_graphOf _, hphrasings, hrank, depth, (hdepth endless endless.roots _ true).1⟩

end Example

end PhraseGraph
