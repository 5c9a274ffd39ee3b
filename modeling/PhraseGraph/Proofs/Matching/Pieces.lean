import PhraseGraph.Proofs.Matching.Derivations

/-!
# The pieces that a match binds

A match binds pieces of the text one after another. Suppose it is known what is left of the text at some
nodes, and that at each of them this is the piece that the node is bound to with what is left behind it
(`TokenGraph.Divides`). Then the pieces of a match, put together, are what was left at its beginning up
to what is left at its continuation, whatever the pattern and the variables are (`Match.Splits`).

Each kind of binding puts one piece before those of the rest, so this is an induction on how the match
comes about (`Derives.splits`), and it holds for every search, no matter how deep it goes
(`ensures_splits_search`).
-/

namespace PhraseGraph

/-- Whatever is left of the text at some nodes is, at each of them, the piece that the node is bound to
    with what is left at its children. -/
structure TokenGraph.Divides (g : TokenGraph) (vars : Variables)
    (left : List NodeId → String → Prop) : Prop where
  single : ∀ {ids s id}, left ids s → id ∈ ids → left [id] s
  literal : ∀ {ids s id}, left ids s → id ∈ ids →
    ∃ rest, left (g.children id) rest ∧ (literalBinding g id).originFull ++ rest = s
  year : ∀ {start}, Variable.year start ∈ vars.values → ∀ {ids s id y}, left ids s → id ∈ ids →
    parseYear? (g.text id) = some y →
      ∃ rest, left (g.children id) rest ∧ (yearBinding g id y).originFull ++ rest = s
  /-- Where a phrase may end nothing is left behind the piece. -/
  atEnd : ∀ {ids s id}, left ids s → id ∈ ids → g.isEnd id = true →
    left [] "" ∧ (literalBinding g id).originFull = s

/-- The pieces that the values of the match are bound to, with what is left at its continuation, are
    `s`. Only where the pattern may end first there is a continuation. -/
structure Match.Splits (left : List NodeId → String → Prop) (allowPrefix : Bool) (s : String)
    (m : Match) : Prop where
  continuation_eq_nil : allowPrefix = false → m.continuation = []
  exists_rest : ∃ rest, left m.continuation rest ∧
    String.join (m.values.map (·.originFull)) ++ rest = s

section Pieces

variable {left : List NodeId → String → Prop} {text : TokenGraph} {vars : Variables}
  {q : Question} {allowPrefix : Bool} {m : Match} {b : Binding} {s rest : String} {steps : Nat}

theorem Match.Splits.prepend (h : m.Splits left allowPrefix rest) (hs : b.originFull ++ rest = s) :
    (m.prepend b).Splits left allowPrefix s := by
  obtain ⟨hnil, last, hlast, rfl⟩ := h
  exact ⟨hnil, last, hlast, by rw [← hs]; simp [Match.prepend, String.append_assoc]⟩

theorem Derives.splits (hg : text.Divides vars left) (h : Derives text vars q m)
    (hleft : left q.textNodes s) : m.Splits left q.allowPrefix s := by
  induction h generalizing s with
  | exhausted _ hover => exact ⟨fun hfull => hover.resolve_right (by simp [hfull]), s, hleft, by simp⟩
  | last ht _ _ htend _ =>
    obtain ⟨hnil, hs⟩ := hg.atEnd hleft ht htend
    exact ⟨fun _ => rfl, "", hnil, by simpa using hs⟩
  | literal ht _ _ _ ih =>
    obtain ⟨rest, hrest, hs⟩ := hg.literal hleft ht
    exact (ih hrest).prepend hs
  | year ht _ hv hy _ ih =>
    obtain ⟨rest, hrest, hs⟩ := hg.year (mem_values_of_variableAt hv) hleft ht hy
    exact (ih hrest).prepend hs
  | table ht _ _ _ _ _ ihstart ihrest =>
    -- The phrasing is matched first, and what it leaves over is matched by the rest of the pattern.
    obtain ⟨-, rest, hrest, hs⟩ := ihstart (hg.single hleft ht)
    exact (ihrest hrest).prepend hs

theorem ensures_splits_search (hg : text.Divides vars left) (hleft : left q.textNodes s) :
    (search text vars steps q).Ensures (Match.Splits left q.allowPrefix s) :=
  fun m hm => (derives_search m hm).splits hg hleft

end Pieces

end PhraseGraph
