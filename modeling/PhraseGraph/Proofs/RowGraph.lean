import PhraseGraph.Phrase.Expansion
import PhraseGraph.Proofs.LostNodes
import PhraseGraph.Proofs.OriginTexts
import PhraseGraph.Proofs.Rows
import PhraseGraph.Proofs.SlotGraph

/-!
# The graph of words in a row

Where the tokens of a phrase stand in a row, each one follows the one before it and no two are kin. So
nothing is merged, and the graph has a single path. Along it every origin begins in the phrase where
the one before has ended, and the last one goes on to the end: the origins spell the phrase
(`recites_ofTokens`), and it is the only text that is listed (`TokenGraph.Recites.expand_literal`).
-/

namespace PhraseGraph

/-! ### Graphs with a single path -/

theorem Phrase.literal_append (p q : Phrase) : (p.append q).literal = p.literal ++ q.literal := by
  simp [append, literal]

theorem Phrase.literal_text (pre phrase suf token : String) :
    (Phrase.text pre phrase suf token).literal = pre ++ phrase ++ suf := by
  simp [Phrase.text, literal, Binding.text, Binding.ofToken]

namespace TokenGraph

/-- The node stands for one token, of origin `r`, that is no synonym. -/
structure Sole (g : TokenGraph) (id : NodeId) (r : OriginId) : Prop where
  lt_size : id < g.size
  origins_eq : (g.node id).origins = [r]
  node_eq : (g.origin r).node = id
  not_isSynonym : (g.node id).token.isSynonym = false
  children_eq : (g.origin r).children = g.originsOf (g.children id)
  end_iff : g.isEnd id = true ↔ g.children id = []

/-- From `ids` on there is one path, of `n` nodes, whose origins spell the text. -/
inductive Recites (g : TokenGraph) : (n : Nat) → (ids : List NodeId) → (text : String) → Prop where
  | done : Recites g 0 [] ""
  | next {n : Nat} {id : NodeId} {r : OriginId} {rest : String} : g.Sole id r →
      Recites g n (g.children id) rest → Recites g (n + 1) [id] ((g.origin r).fullText ++ rest)

variable {g : TokenGraph} {n steps : Nat} {ids : List NodeId} {id : NodeId} {r : OriginId}
  {s : String}

theorem Sole.contribution_literal (h : g.Sole id r) : ∃ p,
    g.contribution (fun o => return [← g.literalPhrase o]) (g.origin r) = .ok ([p], g.isEnd id) ∧
      p.literal = (g.origin r).fullText := by
  have hnode : g.nodeOf (g.origin r) = .ok (g.node id) := by
    have hlt := h.lt_size
    simp only [size] at hlt
    simp [nodeOf, h.node_eq, node, hlt]
  refine ⟨.text (g.origin r).skippedPrefix (g.origin r).text (g.origin r).skippedSuffix
    (g.node id).token.text, ?_, Phrase.literal_text _ _ _ _⟩
  rw [contribution, literalPhrase, hnode]
  rfl

theorem Recites.expand_literal (h : g.Recites n ids s) (hids : ids ≠ []) (hsteps : n ≤ steps) :
    ∃ p, g.expand (fun o => return [← g.literalPhrase o]) steps (g.originsOf ids) = .ofList [p] ∧
      p.literal = s := by
  induction h generalizing steps with
  | done => exact absurd rfl hids
  | @next n id r rest hsole hrest ih =>
    obtain ⟨steps, rfl⟩ := Nat.exists_eq_succ_of_ne_zero (Nat.ne_zero_of_lt hsteps)
    obtain ⟨p, hcontribution, hp⟩ := hsole.contribution_literal
    have horigins : g.originsOf [id] = [r] := by
      simp [originsOf, hsole.origins_eq]
    rw [horigins, expand, Enumeration.gather_cons, hcontribution, hsole.children_eq]
    by_cases hchildren : g.children id = []
    · rw [hchildren] at hrest ⊢
      cases hrest
      have hend : g.isEnd id = true := hsole.end_iff.2 hchildren
      refine ⟨p, ?_, by rw [hp, String.append_empty]⟩
      -- At the end the only phrase is that of the last origin.
      have hbelow : g.expand (fun o => return [← g.literalPhrase o]) steps [] = ∅ := by
        cases steps <;> rfl
      simp only [originsOf, List.flatMap_nil]
      rw [hbelow, hend]
      rfl
    · obtain ⟨q, hq, rfl⟩ := ih hchildren (Nat.le_of_succ_le_succ hsteps)
      have hend : g.isEnd id = false := by simpa [hchildren] using hsole.end_iff
      rw [hq]
      refine ⟨p.append q, ?_, by rw [Phrase.literal_append, hp]⟩
      -- Before the end nothing may stop, so the one phrase below goes on.
      rw [hend]
      rfl

end TokenGraph

/-! ### The slots of a row -/

open Forest

namespace InRow

variable {cs : List Char} {tokens : List Token} {phrase : String} {i j k : Nat}

theorem onePerSlot (h : InRow cs tokens) : OnePerSlot tokens where
  ascends := h.apart.imp And.left
  span_eq t ht := by rw [Token.span, h.positionLength_eq t ht, Nat.max_self]

theorem endOffset_le_startOffset (h : InRow cs tokens) (hij : i < j) (hj : j < tokens.length) :
    (tokenAt tokens i).endOffset ≤ (tokenAt tokens j).startOffset := by
  rw [tokenAt_eq_getElem hj, tokenAt_eq_getElem (hij.trans hj)]
  exact (List.pairwise_iff_getElem.1 h.apart i j (hij.trans hj) hj hij).2

end InRow

/-! ### The origins of a row -/

/-- The byte from which the origin of a token takes the text: where the token before it ends. -/
def doneBefore (tokens : List Token) : Nat → Nat
  | 0 => 0
  | k + 1 => (tokenAt tokens k).endOffset

namespace InRow

variable {tokens : List Token} {phrase : String} {k : Nat} {r : OriginId}

/-- The walk through a row comes to each token from the one before it. -/
theorem doneBefore_of_comesFrom (h : InRow phrase.toList tokens) (hk : k < tokens.length)
    {before : Option Token} (hbefore : Provenance.ComesFrom tokens k before) :
    (before.map (·.endOffset)).getD 0 = doneBefore tokens k ∧
      ∀ p ∈ before, p.startOffset ≠ (tokenAt tokens k).startOffset := by
  cases hbefore with
  | outside hanchor =>
    -- Only the first token of a row is a root.
    refine ⟨?_, fun p hp => absurd hp (by simp)⟩
    cases k with
    | zero => rfl
    | succ k =>
      rw [h.onePerSlot.anchorAt_succ hk] at hanchor
      exact absurd hanchor (by simp)
  | @along p hp hanchor =>
    -- The token before is the only parent.
    have hedge : (ofTokens tokens phrase).Edge p k := Forest.edge_iff.2 ⟨hp, hk, hanchor⟩
    obtain ⟨rfl, -⟩ := h.onePerSlot.edge_iff.1 hedge
    refine ⟨rfl, ?_⟩
    rintro _ ⟨⟩
    exact ((h.start_lt_end _ (tokenAt_mem hp)).trans_le
      (h.endOffset_le_startOffset (Nat.lt_add_one p) hk)).ne

theorem doneBefore_le (h : InRow phrase.toList tokens) (hk : k < tokens.length) :
    doneBefore tokens k ≤ (tokenAt tokens k).startOffset := by
  cases k with
  | zero => exact Nat.zero_le _
  | succ k => exact h.endOffset_le_startOffset (Nat.lt_add_one k) hk

theorem boundary_doneBefore (h : InRow phrase.toList tokens) (hk : k < tokens.length) :
    Text.Boundary phrase.toList (doneBefore tokens k) := by
  cases k with
  | zero => exact Text.boundary_zero
  | succ k => exact h.boundary_end _ (tokenAt_mem (Nat.lt_of_succ_lt hk))

/-- The origin of a token passes over what lies between the token before it and its own. -/
theorem skippedPrefix_fill (h : InRow phrase.toList tokens) (hk : k < tokens.length)
    (hr : Provenance.MadeFor tokens phrase r k) :
    ((Provenance.fill (ofTokens tokens phrase)).origin r).skippedPrefix =
      Text.sliceOf phrase.toList (doneBefore tokens k) (tokenAt tokens k).startOffset := by
  obtain ⟨before, htells⟩ := hr.exists_tells hk
  obtain ⟨hdone, -⟩ := h.doneBefore_of_comesFrom hk htells.comesFrom
  rw [htells.skippedPrefix_eq, hdone, Provenance.passedBefore_eq (h.doneBefore_le hk)]

theorem text_fill (h : InRow phrase.toList tokens) (hk : k < tokens.length)
    (hr : Provenance.MadeFor tokens phrase r k) :
    ((Provenance.fill (ofTokens tokens phrase)).origin r).text =
      Text.sliceOf phrase.toList (tokenAt tokens k).startOffset (tokenAt tokens k).endOffset := by
  have hsynonym : (tokenAt tokens k).isSynonym = false := h.not_isSynonym _ (tokenAt_mem hk)
  obtain ⟨before, htells⟩ := hr.exists_tells hk
  obtain ⟨-, hstart⟩ := h.doneBefore_of_comesFrom hk htells.comesFrom
  rw [htells.text_eq, Provenance.pieceText_eq hstart, hsynonym]
  rfl

/-- The origin of a token has the text from the end of the token before it to its own end, and the
    last one has all that follows besides. -/
theorem fullText_fill (h : InRow phrase.toList tokens) (hk : k < tokens.length)
    (hr : Provenance.MadeFor tokens phrase r k) :
    ((Provenance.fill (ofTokens tokens phrase)).origin r).fullText =
      Text.sliceOf phrase.toList (doneBefore tokens k) (tokenAt tokens k).endOffset ++
        if k + 1 = tokens.length then
          Text.sliceOf phrase.toList (tokenAt tokens k).endOffset (Text.byteLength phrase.toList)
        else "" := by
  have hmem := tokenAt_mem hk
  have hend := (h.boundary_end _ hmem).le_byteLength
  obtain ⟨before, htells⟩ := hr.exists_tells hk
  rw [Origin.fullText, h.skippedPrefix_fill hk hr, h.text_fill hk hr,
    htells.skippedSuffix_eq_sliceOf hk hend,
    Text.sliceOf_append (h.boundary_doneBefore hk) (h.boundary_start _ hmem)
      (h.boundary_end _ hmem) (h.doneBefore_le hk) (h.start_lt_end _ hmem).le]
  exact congrArg _ (if_congr (h.onePerSlot.isEnd_iff hk) rfl rfl)

end InRow

/-! ### The graph of a row -/

namespace InRow

variable {tokens : List Token} {phrase : String} {k : Nat} {r : OriginId}

theorem length_le_size_origins (_ : InRow phrase.toList tokens) :
    tokens.length ≤ (TokenGraph.ofTokens tokens phrase).origins.size := by
  obtain ⟨m, out, hn⟩ := exists_normalForm tokens phrase
  exact hn.length_le_size_origins

section Origins

open Provenance

/-- Each node of a row stands for one token. -/
theorem sole (h : InRow phrase.toList tokens) (hk : k < tokens.length)
    (hr : MadeFor tokens phrase r k) : (TokenGraph.ofTokens tokens phrase).Sole k r := by
  obtain ⟨m, out, hn⟩ := exists_normalForm tokens phrase
  refine ⟨h.onePerSlot.size_ofTokens.symm ▸ hk, ?_, ?_, ?_, ?_, ?_⟩
  · exact h.onePerSlot.origins_ofTokens hk hr
  · rw [h.onePerSlot.origin_ofTokens hk hr, hr.2]
  · have hsynonym : (tokenAt tokens k).isSynonym = false := h.not_isSynonym _ (tokenAt_mem hk)
    rw [hn.token_eq h.onePerSlot.no_kin hk]
    exact hsynonym
  · exact h.onePerSlot.children_origin_ofTokens hk hr
  · exact h.onePerSlot.isEnd_iff_children_eq_nil hk

end Origins

theorem sliceOf_doneBefore_append (h : InRow phrase.toList tokens) (hk : k < tokens.length) :
    Text.sliceOf phrase.toList (doneBefore tokens k) (tokenAt tokens k).endOffset ++
        Text.sliceOf phrase.toList (tokenAt tokens k).endOffset (Text.byteLength phrase.toList) =
      Text.sliceOf phrase.toList (doneBefore tokens k) (Text.byteLength phrase.toList) := by
  have hend := h.boundary_end _ (tokenAt_mem hk)
  have hle := (h.doneBefore_le hk).trans (h.start_lt_end _ (tokenAt_mem hk)).le
  exact Text.sliceOf_append (h.boundary_doneBefore hk) hend Text.boundary_byteLength hle
    hend.le_byteLength

/-- A token is recited before what follows it. -/
theorem recites_cons (h : InRow phrase.toList tokens) (hk : k < tokens.length) {n : Nat}
    {rest : String} (hrest : (TokenGraph.ofTokens tokens phrase).Recites n
      ((TokenGraph.ofTokens tokens phrase).children k) rest) :
    (TokenGraph.ofTokens tokens phrase).Recites (n + 1) [k]
      ((Text.sliceOf phrase.toList (doneBefore tokens k) (tokenAt tokens k).endOffset ++
        if k + 1 = tokens.length then
          Text.sliceOf phrase.toList (tokenAt tokens k).endOffset (Text.byteLength phrase.toList)
        else "") ++ rest) := by
  obtain ⟨r, hr, -⟩ := Provenance.existsUnique_madeFor phrase hk
  rw [← h.fullText_fill hk hr, ← h.onePerSlot.origin_ofTokens hk hr]
  exact .next (h.sole hk hr) hrest

/-- From each token on, the graph of a row recites what has not been recited before. -/
theorem recites_from (h : InRow phrase.toList tokens) {n : Nat} (hn : k + (n + 1) = tokens.length) :
    (TokenGraph.ofTokens tokens phrase).Recites (n + 1) [k]
      (Text.sliceOf phrase.toList (doneBefore tokens k) (Text.byteLength phrase.toList)) := by
  have hchildren : (TokenGraph.ofTokens tokens phrase).children k =
      if k + 1 < tokens.length then [k + 1] else [] :=
    h.onePerSlot.children_ofTokens.trans h.onePerSlot.children_forest
  induction n generalizing k with
  | zero =>
    have hk : k < tokens.length := by omega
    rw [if_neg (by omega)] at hchildren
    have hrecites := h.recites_cons hk (hchildren ▸ TokenGraph.Recites.done)
    rwa [if_pos hn, String.append_empty, h.sliceOf_doneBefore_append hk] at hrecites
  | succ n ih =>
    have hk : k < tokens.length := by omega
    rw [if_pos (by omega)] at hchildren
    have hrest := @ih (k + 1) (by omega) (h.onePerSlot.children_ofTokens.trans h.onePerSlot.children_forest)
    have hrecites := h.recites_cons hk (hchildren ▸ hrest)
    rwa [if_neg (by omega), String.append_empty, doneBefore,
      h.sliceOf_doneBefore_append hk] at hrecites

/-- The graph of a row recites the phrase. -/
theorem recites_ofTokens (h : InRow phrase.toList tokens) (hne : tokens ≠ []) :
    (TokenGraph.ofTokens tokens phrase).Recites tokens.length
      (TokenGraph.ofTokens tokens phrase).roots phrase := by
  obtain ⟨n, hn⟩ := Nat.exists_eq_succ_of_ne_zero (List.length_pos_iff.2 hne).ne'
  have hrecites := h.recites_from (k := 0) (n := n) (by omega)
  rw [h.onePerSlot.roots_ofTokens hne, hn]
  rwa [doneBefore, Text.sliceOf_whole, String.ofList_toList] at hrecites

end InRow

end PhraseGraph
