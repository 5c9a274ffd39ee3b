import PhraseGraph.Match
import PhraseGraph.Proofs.Phrasings
import PhraseGraph.Proofs.Siblings

/-!
# Graphs with cycles

The forest of a phrase has no cycle, but its graph can have one: among the words `a a a`, where `a` stands
for `a a`, the second word and the third one both follow a first one, so they become one node, and the
third word follows the second (`Example.stutter_has_cycle`). A traversal of such a graph does not end.

It ends if and only if the graph has no cycle (`TokenGraph.acyclic_iff_traversalEnds`), and then it lists
what `TokenGraph.traversal` says. There is no cycle where the words are consistent with their slots. This
is so for every phrase if no term of a group ends in a word that a longer term of the group has at the
same place (`EndsApart`): then words that become one node end at one slot.

Main statement: `ofPhrase_acyclic_iff`.
-/

namespace PhraseGraph

open Forest Relation

/-! ### Traversing a graph -/

namespace TokenGraph

variable {g : TokenGraph} {ids path : List NodeId} {id x : NodeId} {n depth steps : Nat}
  {stack : List (Nat × NodeId)}

/-- A traversal by a stack of nodes with their depths: what it lists in some steps, and what is left on
    the stack. A step lists the first node and puts its children in its place. -/
def traverse (g : TokenGraph) : (steps : Nat) → (stack : List (Nat × NodeId)) →
    List (Nat × String) × List (Nat × NodeId)
  | 0, stack => ([], stack)
  | _ + 1, [] => ([], [])
  | steps + 1, (depth, id) :: stack =>
    let (listed, left) := g.traverse steps ((g.children id).map (depth + 1, ·) ++ stack)
    ((depth, g.text id) :: listed, left)

/-- A traversal from the roots comes to its end. -/
def TraversalEnds (g : TokenGraph) : Prop :=
  ∃ steps, (g.traverse steps (g.roots.map (0, ·))).2 = []

/-- Where paths are not too long the nodes on the stack are listed with all below them, and no others. -/
theorem exists_traverse_eq (h : g.Bounded n ids) : ∃ steps, ∀ more stack,
    g.traverse (steps + more) (ids.map (depth, ·) ++ stack) =
      (g.walk depth n ids ++ (g.traverse more stack).1, (g.traverse more stack).2) := by
  induction n generalizing depth ids with
  | zero =>
    obtain rfl := h.eq_nil
    exact ⟨0, fun more stack => by rw [Nat.zero_add]; rfl⟩
  | succ n ih =>
    induction ids with
    | nil => exact ⟨0, fun more stack => by rw [Nat.zero_add]; rfl⟩
    | cons id ids ihids =>
      obtain ⟨below, hbelow⟩ := @ih _ (depth + 1) (h.children List.mem_cons_self)
      obtain ⟨after, hafter⟩ := ihids fun path hpath =>
        h path (hpath.mono (List.subset_cons_self id ids))
      refine ⟨below + after + 1, fun more stack => ?_⟩
      have hsteps : below + after + 1 + more = below + (after + more) + 1 := by omega
      rw [hsteps, List.map_cons, List.cons_append, traverse, hbelow, hafter, walk, walk,
        List.flatMap_cons]
      simp only [List.cons_append, List.append_assoc]

/-- A traversal that has a node on its stack from which paths go on and on does not end. -/
theorem traverse_ne_nil {P : NodeId → Prop} (hP : ∀ x, P x → ∃ c ∈ g.children x, P c)
    (hstack : ∃ e ∈ stack, P e.2) : (g.traverse steps stack).2 ≠ [] := by
  induction steps generalizing stack with
  | zero =>
    obtain ⟨e, he, -⟩ := hstack
    exact List.ne_nil_of_mem he
  | succ steps ih =>
    obtain ⟨e, he, hPe⟩ := hstack
    cases stack with
    | nil => exact absurd he List.not_mem_nil
    | cons first stack =>
      obtain ⟨depth, id⟩ := first
      refine ih ?_
      rcases List.mem_cons.1 he with rfl | he
      · obtain ⟨c, hc, hPc⟩ := hP _ hPe
        exact ⟨(depth + 1, c), List.mem_append_left _ (List.mem_map_of_mem hc), hPc⟩
      · exact ⟨e, List.mem_append_right _ he, hPe⟩

/-- A traversal of a graph without cycles lists all nodes with their depths. -/
theorem Acyclic.exists_traverse_eq (h : g.Acyclic) (hg : g.InRange) :
    ∃ steps, g.traverse steps (g.roots.map (0, ·)) = (g.traversal, []) := by
  obtain ⟨steps, hsteps⟩ := @TokenGraph.exists_traverse_eq g g.roots g.size 0 (h.bounded_roots hg)
  have heq := hsteps 0 []
  rw [List.append_nil] at heq
  exact ⟨steps, heq.trans (Prod.ext (List.append_nil _) rfl)⟩

/-- A node from which a cycle can be reached has a child from which it can be reached. -/
theorem exists_child_of_reaches_cycle
    (h : ∃ y, TransGen g.Edge y y ∧ ReflTransGen g.Edge x y) :
    ∃ c ∈ g.children x, ∃ y, TransGen g.Edge y y ∧ ReflTransGen g.Edge c y := by
  obtain ⟨y, hy, hxy⟩ := h
  rcases ReflTransGen.cases_head hxy with rfl | ⟨c, hc, hcy⟩
  · obtain ⟨c, hc, hcx⟩ := TransGen.head'_iff.1 hy
    exact ⟨c, hc, x, hy, hcx⟩
  · exact ⟨c, hc, y, hy, hcy⟩

/-- Where every node can be reached, a graph has no cycle if and only if its traversal ends. -/
theorem acyclic_iff_traversalEnds (hg : g.InRange)
    (hreach : ∀ a < g.size, ∃ r ∈ g.roots, ReflTransGen g.Edge r a) :
    g.Acyclic ↔ g.TraversalEnds := by
  constructor
  · intro h
    obtain ⟨steps, hsteps⟩ := h.exists_traverse_eq hg
    exact ⟨steps, by rw [hsteps]⟩
  · intro ⟨steps, hsteps⟩ a ha
    obtain ⟨c, hac, -⟩ := TransGen.head'_iff.1 ha
    obtain ⟨r, hr, hra⟩ := hreach a (lt_size_of_children_ne_nil (List.ne_nil_of_mem hac))
    exact traverse_ne_nil (fun _ => exists_child_of_reaches_cycle)
      ⟨(0, r), List.mem_map_of_mem hr, a, ha, hra⟩ hsteps

end TokenGraph

/-! ### Terms that end apart -/

/-- No term ends in a word that a longer term has at the same place. -/
def EndsApart (terms : List (List String)) : Prop :=
  ∀ u ∈ terms, ∀ v ∈ terms, u.length < v.length → v[u.length - 1]? ≠ u.getLast?

instance {terms : List (List String)} : Decidable (EndsApart terms) :=
  inferInstanceAs (Decidable (∀ u ∈ terms, ∀ v ∈ terms, _ → _))

namespace LaidOut

variable {ss : List Stretch} {tokens : List Token} {t u : Token}

/-- Where terms end apart, words with one text that begin at one slot end at one slot. -/
theorem endPosition_eq (h : LaidOut ss tokens) (hends : ∀ s ∈ ss, EndsApart s.terms)
    (ht : t ∈ tokens) (hu : u ∈ tokens) (heq : t.position = u.position) (htext : t.text = u.text) :
    t.endPosition = u.endPosition := by
  obtain ⟨s, hs, row, hrow, row', hrow', j, v, v', hv, hv', rfl, rfl⟩ := h.exists_column ht hu heq
  -- A row that is over has the text of the word at this place in no longer row.
  have hnot : ∀ {row row' : List Token} {v v' : Token}, row ∈ s.rows → row' ∈ s.rows →
      row[j]? = some v → row'[j]? = some v' → v.text = v'.text → j + 1 = row.length →
      ¬j + 1 < row'.length := by
    intro row row' v v' hrow hrow' hv hv' htext hlast hlt
    refine hends s hs _ (List.mem_map_of_mem hrow) _ (List.mem_map_of_mem hrow') ?_ ?_
    · rw [List.length_map, List.length_map]
      omega
    · rw [List.length_map, ← hlast, Nat.add_sub_cancel, List.getLast?_eq_getElem?, List.length_map,
        ← hlast, Nat.add_sub_cancel, List.getElem?_map, List.getElem?_map, hv, hv']
      exact congrArg some htext.symm
  have hfits := h.fits s hs
  obtain ⟨hj, -⟩ := List.getElem?_eq_some_iff.1 hv
  obtain ⟨hj', -⟩ := List.getElem?_eq_some_iff.1 hv'
  have hno := hnot hrow hrow' hv hv' htext
  have hno' := hnot hrow' hrow hv' hv htext.symm
  rw [hfits.endPosition_inColumn hrow, hfits.endPosition_inColumn hrow']
  split <;> split <;> omega

theorem slotConsistent_of_endsApart (h : LaidOut ss tokens) (hends : ∀ s ∈ ss, EndsApart s.terms) :
    SlotConsistent tokens := by
  intro k hk j hj hkin hne
  have hposition := h.position_eq_of_anchor?_eq (tokenAt_mem hk) (tokenAt_mem hj) hkin.2
  exact absurd (h.endPosition_eq hends (tokenAt_mem hk) (tokenAt_mem hj) hposition hkin.1) hne

end LaidOut

namespace WordAnalyzer

variable {a : WordAnalyzer} {phrase : String} {groups : List (List String)}

theorem slotConsistent_of_endsApart
    (hends : ∀ s ∈ segments a.synonyms (a.survivingWords phrase), EndsApart s.terms) :
    SlotConsistent (a.analyze phrase) := by
  refine (a.laidOut_analyze phrase).slotConsistent_of_endsApart fun p hp => ?_
  obtain ⟨s, hs, shift, -, rfl⟩ := exists_of_mem_stretches hp
  rw [Segment.terms_stretch]
  exact hends s hs

/-- The terms of a segment are a word, or terms of one group. -/
theorem endsApart_terms (hd : Synonyms.ofGroups groups = .ok a.synonyms)
    (hends : ∀ group ∈ a.synonyms.groups, EndsApart (group.map Synonyms.termWords)) :
    ∀ s ∈ segments a.synonyms (a.survivingWords phrase), EndsApart s.terms := by
  intro s hs u hu v hv hlt
  have hu := (offers_iff_mem_terms hd hs).2 hu
  have hv := (offers_iff_mem_terms hd hs).2 hv
  cases hu with
  | single t =>
    cases hv with
    | single => exact absurd hlt (Nat.lt_irrefl _)
  | matched hgroup hterm =>
    cases hv with
    | matched hgroup' hterm' =>
      obtain rfl := Option.some_inj.1 (hgroup.symm.trans hgroup')
      have hmem := ((Synonyms.sound_ofGroups hd).group?_eq_some_iff.1 hgroup).1
      exact hends _ hmem _ (List.mem_map_of_mem hterm) _ (List.mem_map_of_mem hterm') hlt

end WordAnalyzer

/-! ### The main statement -/

/-- **When the graph of a phrase has no cycle.** A phrase has a graph. The graph has no cycle if and only
    if its traversal ends, and then the traversal lists all nodes with their depths. This is so where
    the words are consistent with their slots, hence where no term that is found ends in a word that a
    longer term found there has at the same place; and for every phrase if there are no such terms in
    any group of the dictionary. -/
theorem ofPhrase_acyclic_iff (a : WordAnalyzer) (phrase language : String) :
    ∃ g, TokenGraph.ofPhrase (.uniform a) phrase language = .ok g ∧
      (g.Acyclic ↔ g.TraversalEnds) ∧
      (g.Acyclic → ∃ steps, g.traverse steps (g.roots.map (0, ·)) = (g.traversal, [])) ∧
      (SlotConsistent (a.analyze phrase) → g.Acyclic) ∧
      ((∀ s ∈ segments a.synonyms (a.survivingWords phrase), EndsApart s.terms) → g.Acyclic) ∧
      ∀ groups, Synonyms.ofGroups groups = .ok a.synonyms →
        (∀ group ∈ a.synonyms.groups, EndsApart (group.map Synonyms.termWords)) → g.Acyclic := by
  obtain ⟨m, out, h⟩ := exists_normalForm (a.analyze phrase) phrase
  have hconsistent : SlotConsistent (a.analyze phrase) →
      (TokenGraph.ofTokens (a.analyze phrase) phrase).Acyclic := fun hc => (h.gathers hc).acyclic
  refine ⟨TokenGraph.ofTokens (a.analyze phrase) phrase, rfl,
    TokenGraph.acyclic_iff_traversalEnds h.inRange_graph fun _ => h.exists_root_reaches_graph,
    fun hacyclic => hacyclic.exists_traverse_eq h.inRange_graph, hconsistent, ?_, ?_⟩
  · exact fun hends => hconsistent (WordAnalyzer.slotConsistent_of_endsApart hends)
  · intro groups hd hends
    exact hconsistent (WordAnalyzer.slotConsistent_of_endsApart (WordAnalyzer.endsApart_terms hd hends))

namespace Example

/-- Names of two words end at one slot. -/
example : ∀ group ∈ bigApple.synonyms.groups, EndsApart (group.map Synonyms.termWords) := by
  decide +kernel

/-- An analyzer for which a word may be put twice. -/
def stutter : WordAnalyzer := withGroups [["a a", "a"]]

/-- Some node follows itself, so a traversal does not end, and three words match a pattern of ten. -/
theorem stutter_has_cycle : ∃ g, TokenGraph.ofPhrase (.uniform stutter) "a a a" "en" = .ok g ∧
    ¬g.Acyclic ∧ ¬g.TraversalEnds ∧
      ∃ p, TokenGraph.ofPhrase (.uniform {}) "a a a a a a a a a a" "en" = .ok p ∧
        (findMatch g p false ∅).isSome := by
  obtain ⟨m, out, h⟩ := exists_normalForm (stutter.analyze "a a a") "a a a"
  have hedge : (TokenGraph.ofTokens (stutter.analyze "a a a") "a a a").Edge 1 1 := by
    rw [TokenGraph.Edge]
    decide +kernel
  have hcycle : ¬(TokenGraph.ofTokens (stutter.analyze "a a a") "a a a").Acyclic :=
    fun hacyclic => hacyclic 1 (.single hedge)
  have hiff := TokenGraph.acyclic_iff_traversalEnds h.inRange_graph fun _ => h.exists_root_reaches_graph
  exact ⟨_, rfl, hcycle, fun hends => hcycle (hiff.2 hends), _, rfl, by decide +kernel⟩

end Example

end PhraseGraph
