import PhraseGraph.Proofs.Normalization

/-!
# The graph of any tokens

What the graph of a list of tokens means is known where the tokens are consistent with their slots
(`ofForeignTokens_keeps_meaning`). Its form is always right: no two siblings have the same text, the
texts of siblings ascend, edges lead to nodes of the graph, and every node can be reached from a root.
This holds even where merging nodes that end at different slots has bent the graph into a cycle
(`Example.looping_has_cycle`); what two graphs are compared by does not rest on the tokens.

Main statement: `ofForeignTokens_siblings_ascend`.
-/

namespace PhraseGraph

open Relation

variable {tokens : List Token} {phrase : String}

namespace NormalForm

variable {m : Merging} {out : List NodeId} {a : NodeId}

theorem inRange_graph (h : NormalForm tokens phrase m out) :
    (TokenGraph.ofTokens tokens phrase).InRange := by
  rw [h.eq]
  exact (TokenGraph.inRange_compact h.inRange).sortOrigins

theorem exists_root_reaches_graph (h : NormalForm tokens phrase m out)
    (ha : a < (TokenGraph.ofTokens tokens phrase).size) :
    ∃ r ∈ (TokenGraph.ofTokens tokens phrase).roots,
      ReflTransGen (TokenGraph.ofTokens tokens phrase).Edge r a := by
  rw [h.eq, TokenGraph.size_sortOrigins] at ha
  rw [h.eq, TokenGraph.roots_sortOrigins, TokenGraph.edge_sortOrigins]
  exact TokenGraph.exists_root_reaches_compact h.inRange ha

end NormalForm

/-- **Siblings are in order whatever the tokens are.** Tokens whose slots can be counted have a graph.
    The texts of its roots ascend, and so do those of the children of each node, so that no two siblings
    have one text. All roots, children and parents are nodes of the graph, and every node can be reached
    from a root. -/
theorem ofForeignTokens_siblings_ascend (hslots : ∀ t ∈ tokens, t.endPosition < 2 ^ 64) :
    ∃ g, TokenGraph.ofForeignTokens tokens phrase = .ok g ∧
      g.Ascends g.roots ∧
      (∀ a < g.size, g.Ascends (g.children a)) ∧
      g.InRange ∧
      ∀ a < g.size, ∃ r ∈ g.roots, ReflTransGen g.Edge r a := by
  obtain ⟨m, out, h⟩ := exists_normalForm tokens phrase
  exact ⟨TokenGraph.ofTokens tokens phrase, ofForeignTokens_eq_ok hslots, h.roots_ascend,
    fun a _ => h.children_ascend a, h.inRange_graph, fun a ha => h.exists_root_reaches_graph ha⟩

namespace Example

/-- The words `a a a`, where a fourth `a` stands for the first two. -/
def looping : List Token :=
  [{ text := "a", startOffset := 0, endOffset := 1, position := 0 },
   { text := "a", startOffset := 0, endOffset := 3, kind := .synonym, position := 0,
     positionLength := 2 },
   { text := "a", startOffset := 2, endOffset := 3, position := 1 },
   { text := "a", startOffset := 4, endOffset := 5, position := 2 }]

/-- The second word and the third one both follow a first one, so they become one node; and the third
    follows the second. -/
theorem looping_has_cycle : ¬(TokenGraph.ofTokens looping "a a a").Acyclic := by
  have hedge : (TokenGraph.ofTokens looping "a a a").Edge 1 1 := by
    rw [TokenGraph.Edge]
    decide +kernel
  exact fun h => h 1 (.single hedge)

theorem looping_siblings_ascend : (∀ t ∈ looping, t.endPosition < 2 ^ 64) ∧
    ∃ g, TokenGraph.ofForeignTokens looping "a a a" = .ok g ∧ ¬g.Acyclic ∧ g.Ascends g.roots ∧
      ∀ a < g.size, g.Ascends (g.children a) := by
  have hslots : ∀ t ∈ looping, t.endPosition < 2 ^ 64 := by decide
  obtain ⟨g, hg, hroots, hchildren, -⟩ := @ofForeignTokens_siblings_ascend looping "a a a" hslots
  obtain rfl := Except.ok.inj ((ofForeignTokens_eq_ok hslots).symm.trans hg)
  exact ⟨hslots, _, hg, looping_has_cycle, hroots, hchildren⟩

end Example

end PhraseGraph
