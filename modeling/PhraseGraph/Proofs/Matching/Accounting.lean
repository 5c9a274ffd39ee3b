import PhraseGraph.Proofs.FirstOrigins
import PhraseGraph.Proofs.Matching.Tiling
import PhraseGraph.Proofs.Offsets
import PhraseGraph.Proofs.Phrasings

/-!
# A match accounts for the typed text

A synonym is bound to the bytes of the words that it stands for, and its further words take nothing. So
along a path through synonyms, too, the pieces can make up the text: each node stands for the bytes
from where the nodes before it have stopped (`TokenGraph.Measured`).

But a node tells only its own slot and what its first origin says, which is made for one token and one
token before it. Where other tokens of the node or other tokens before it cover other bytes, a piece is
bound twice or not at all (`Example.binds_new_york_twice`). Where none do (`Forest.Unambiguous`), the
pieces of a match are the whole phrase: `accounts_for_phrase`.
-/

namespace PhraseGraph

open Forest Text Provenance

/-! ### Nodes that stand for bytes -/

/-- Each node is bound to the bytes from `start` to `stop`; the children start where the node stops,
    and the ends stop where the phrase is over. -/
structure TokenGraph.Measured (g : TokenGraph) (vars : Variables) (start stop : NodeId → Nat) :
    Prop where
  boundary_start : ∀ id < g.size, Boundary g.phrase.toList (start id)
  boundary_stop : ∀ id < g.size, Boundary g.phrase.toList (stop id)
  start_le_stop : ∀ id < g.size, start id ≤ stop id
  of_mem_roots : ∀ id ∈ g.roots, id < g.size ∧ start id = 0
  of_mem_children : ∀ id < g.size, ∀ c ∈ g.children id, c < g.size ∧ start c = stop id
  stop_of_leaf : ∀ id < g.size, g.children id = [] → stop id = byteLength g.phrase.toList
  stop_of_isEnd : ∀ id < g.size, g.isEnd id = true → stop id = byteLength g.phrase.toList
  literal : ∀ id < g.size,
    (literalBinding g id).originFull = sliceOf g.phrase.toList (start id) (stop id)
  year : ∀ {first}, Variable.year first ∈ vars.values → ∀ id < g.size, ∀ y,
    parseYear? (g.text id) = some y →
      (yearBinding g id y).originFull = sliceOf g.phrase.toList (start id) (stop id)

/-- The nodes all start at one byte, and `s` is the text from there on. Without nodes the text is
    over. -/
structure TokenGraph.LeftAt (g : TokenGraph) (start : NodeId → Nat) (ids : List NodeId) (s : String) :
    Prop where
  lt : ∀ id ∈ ids, id < g.size
  exists_byte : ∃ x, Boundary g.phrase.toList x ∧ (∀ id ∈ ids, start id = x) ∧
    (ids = [] → x = byteLength g.phrase.toList) ∧
    sliceOf g.phrase.toList x (byteLength g.phrase.toList) = s

namespace TokenGraph

variable {g : TokenGraph} {vars : Variables} {start stop : NodeId → Nat} {ids : List NodeId}
  {id : NodeId} {s : String}

theorem LeftAt.of_mem (h : g.LeftAt start ids s) (hid : id ∈ ids) : g.LeftAt start [id] s := by
  obtain ⟨hlt, x, hx, hstart, -, hs⟩ := h
  refine ⟨fun i hi => ?_, x, hx, fun i hi => ?_, fun hnil => absurd hnil (List.cons_ne_nil _ _), hs⟩
  · rw [List.mem_singleton.1 hi]
    exact hlt id hid
  · rw [List.mem_singleton.1 hi]
    exact hstart id hid

theorem leftAt_nil : g.LeftAt start [] "" :=
  ⟨fun _ hid => absurd hid List.not_mem_nil, _, boundary_byteLength,
    fun _ hid => absurd hid List.not_mem_nil, fun _ => rfl, sliceOf_self⟩

theorem LeftAt.eq_of_nil (h : g.LeftAt start [] s) : s = "" := by
  obtain ⟨-, x, -, -, hx, rfl⟩ := h
  rw [hx rfl, sliceOf_self]

namespace Measured

variable (h : g.Measured vars start stop)
include h

theorem leftAt_roots (hne : g.roots ≠ []) : g.LeftAt start g.roots g.phrase := by
  refine ⟨fun id hid => (h.of_mem_roots id hid).1, 0, boundary_zero,
    fun id hid => (h.of_mem_roots id hid).2, fun hnil => absurd hnil hne, ?_⟩
  rw [sliceOf_whole, String.ofList_toList]

/-- Behind the bytes of a node the rest of the text is left to its children. -/
theorem exists_leftAt_children (hleft : g.LeftAt start ids s) (hid : id ∈ ids) :
    ∃ rest, g.LeftAt start (g.children id) rest ∧
      sliceOf g.phrase.toList (start id) (stop id) ++ rest = s := by
  obtain ⟨hlt, x, hx, hstart, -, rfl⟩ := hleft
  have hid' := hlt id hid
  have hstop := h.boundary_stop id hid'
  refine ⟨sliceOf g.phrase.toList (stop id) (byteLength g.phrase.toList),
    ⟨fun c hc => (h.of_mem_children id hid' c hc).1, stop id, hstop,
      fun c hc => (h.of_mem_children id hid' c hc).2, h.stop_of_leaf id hid', rfl⟩, ?_⟩
  rw [← hstart id hid]
  exact sliceOf_append (h.boundary_start id hid') hstop boundary_byteLength
    (h.start_le_stop id hid') hstop.le_byteLength

theorem divides : g.Divides vars (g.LeftAt start) where
  single hleft hid := hleft.of_mem hid
  literal {ids s id} hleft hid := by
    rw [h.literal id (hleft.lt id hid)]
    exact h.exists_leftAt_children hleft hid
  year {_} hvar {ids s id y} hleft hid hy := by
    rw [h.year hvar id (hleft.lt id hid) y hy]
    exact h.exists_leftAt_children hleft hid
  atEnd {ids s id} hleft hid hend := by
    have hid' := hleft.lt id hid
    obtain ⟨-, x, -, hstart, -, rfl⟩ := hleft
    rw [h.literal id hid', h.stop_of_isEnd id hid' hend, hstart id hid]
    exact ⟨leftAt_nil, rfl⟩

end Measured

end TokenGraph

/-! ### What an origin is bound to -/

section Origins

variable {tokens : List Token} {phrase : String} {t p : Token} {before : Option Token} {o : Origin}
  {k : Nat}

/-- The part of the phrase that a token is bound to as literal text, where its origin has the text
    `own`. -/
def boundText (phrase : String) (t : Token) (own : String) : String :=
  if !t.isSynonym then own
  else if own.toList.head? == some ' ' then ""
  else slice phrase t.startOffset t.endOffset

theorem originFull_literalBinding {g : TokenGraph} {id : NodeId} (ho : g.firstOrigin? id = some o) :
    (literalBinding g id).originFull =
      o.skippedPrefix ++ boundText g.phrase (g.node id).token o.text ++ o.skippedSuffix := by
  simp only [literalBinding, ho, Binding.text, Binding.ofToken, boundText]

theorem boundText_of_not_isSynonym (h : t.isSynonym = false) (own : String) :
    boundText phrase t own = own := by
  simp [boundText, h]

/-- A token that begins where the one before it does not is bound to its bytes. -/
theorem boundText_pieceText (ht : t.InText phrase.toList)
    (hbefore : ∀ p ∈ before, p.startOffset ≠ t.startOffset) :
    boundText phrase t (pieceText phrase.toList t before) =
      sliceOf phrase.toList t.startOffset t.endOffset := by
  rw [pieceText_eq hbefore]
  cases hsynonym : t.isSynonym with
  | false => exact boundText_of_not_isSynonym hsynonym _
  | true =>
    have hblank : (t.text.toList.head? == some ' ') = false :=
      beq_eq_false_iff_ne.2 (ht.not_blank hsynonym)
    rw [boundText, hsynonym, if_pos rfl, hblank]
    rfl

/-- A token with the bytes of the one before it is bound to nothing. -/
theorem boundText_pieceText_of_eq (hstart : p.startOffset = t.startOffset)
    (hend : p.endOffset = t.endOffset) :
    boundText phrase t (pieceText phrase.toList t (some p)) = "" := by
  cases hsynonym : t.isSynonym <;> simp [boundText, pieceText, hstart, hend, hsynonym]

/-- The byte where the tokens end that end in a slot. -/
def reachedAt (tokens : List Token) : Option Nat → Nat
  | none => 0
  | some slot => ((tokens.find? fun t => t.endPosition == slot).map (·.endOffset)).getD 0

theorem reachedAt_endAt (h : SlotsTellBytes tokens) (hk : k < tokens.length) :
    reachedAt tokens (some (endAt tokens k)) = (tokenAt tokens k).endOffset := by
  obtain ⟨t, ht⟩ : ∃ t, tokens.find? (fun t => t.endPosition == endAt tokens k) = some t := by
    rw [← Option.isSome_iff_exists, List.find?_isSome]
    exact ⟨_, tokenAt_mem hk, beq_self_eq_true _⟩
  rw [reachedAt, ht]
  have hend : (t.endPosition == endAt tokens k) = true :=
    List.find?_some (p := fun t : Token => t.endPosition == endAt tokens k) ht
  exact h t (List.mem_of_find?_eq_some ht) _ (tokenAt_mem hk) (beq_iff_eq.1 hend)

theorem reachedAt_anchorAt (h : SlotsTellBytes tokens) (hbefore : ComesFrom tokens k before) :
    reachedAt tokens (anchorAt tokens k) = (before.map (·.endOffset)).getD 0 := by
  cases hbefore with
  | outside hanchor => rw [hanchor]; rfl
  | along hp hanchor => rw [hanchor, reachedAt_endAt h hp]; rfl

theorem boundary_reachedAt (h : InPhrase phrase.toList tokens) (htells : SlotsTellBytes tokens)
    (hbefore : ComesFrom tokens k before) :
    Boundary phrase.toList (reachedAt tokens (anchorAt tokens k)) := by
  rw [reachedAt_anchorAt htells hbefore]
  cases hbefore with
  | outside hanchor => exact boundary_zero
  | along hp hanchor => exact (h.inText _ (tokenAt_mem hp)).boundary_end

/-- Before a token the phrase is passed over up to its bytes, or they have been taken already. -/
theorem reachedAt_le_or_eq (h : InPhrase phrase.toList tokens) (htells : SlotsTellBytes tokens)
    (hk : k < tokens.length) (hbefore : ComesFrom tokens k before) :
    (reachedAt tokens (anchorAt tokens k) ≤ (tokenAt tokens k).startOffset ∧
        ∀ p ∈ before, p.startOffset ≠ (tokenAt tokens k).startOffset) ∨
      ∃ p ∈ before, p.startOffset = (tokenAt tokens k).startOffset ∧
        p.endOffset = (tokenAt tokens k).endOffset := by
  rw [reachedAt_anchorAt htells hbefore]
  refine (hbefore.endOffset_le_or h hk).imp (fun hle => ⟨hle, hbefore.startOffset_ne h hle⟩) ?_
  exact fun ⟨p, hp, heq⟩ => ⟨p, hp, heq.startOffset_eq, heq.endOffset_eq⟩

theorem reachedAt_le (h : InPhrase phrase.toList tokens) (htells : SlotsTellBytes tokens)
    (hk : k < tokens.length) (hbefore : ComesFrom tokens k before) :
    reachedAt tokens (anchorAt tokens k) ≤ (tokenAt tokens k).endOffset := by
  rcases reachedAt_le_or_eq h htells hk hbefore with ⟨hle, -⟩ | ⟨p, hp, -, hend⟩
  · exact hle.trans (h.inText _ (tokenAt_mem hk)).start_lt_end.le
  · rw [reachedAt_anchorAt htells hbefore, hp]
    exact hend.le

/-- Up to its end a token is bound to all that the tokens before it have left. -/
theorem Provenance.Tells.prefix_append_boundText (htells : Tells tokens phrase k before o)
    (h : InPhrase phrase.toList tokens) (hslots : SlotsTellBytes tokens) (hk : k < tokens.length) :
    o.skippedPrefix ++ boundText phrase (tokenAt tokens k) o.text =
      sliceOf phrase.toList (reachedAt tokens (anchorAt tokens k)) (tokenAt tokens k).endOffset := by
  have ht := h.inText _ (tokenAt_mem hk)
  have hbefore := htells.comesFrom
  rw [htells.skippedPrefix_eq, htells.text_eq, ← reachedAt_anchorAt hslots hbefore]
  rcases reachedAt_le_or_eq h hslots hk hbefore with ⟨hle, hstart⟩ | ⟨p, hp, hstart, hend⟩
  · rw [passedBefore_eq hle, boundText_pieceText ht hstart]
    exact sliceOf_append (boundary_reachedAt h hslots hbefore) ht.boundary_start ht.boundary_end hle
      ht.start_lt_end.le
  · obtain rfl : before = some p := hp
    have hreached : reachedAt tokens (anchorAt tokens k) = (tokenAt tokens k).endOffset :=
      (reachedAt_anchorAt hslots hbefore).trans hend
    rw [boundText_pieceText_of_eq hstart hend, hreached, sliceOf_self, passedBefore,
      if_neg (Nat.not_lt.2 ht.start_lt_end.le)]
    rfl

end Origins

/-! ### The graph of a phrase -/

/-- What a graph forgets of its tokens does not matter: a slot tells the byte that the tokens before it
    have reached, kin end at one byte, and where some kin end last and others do not, the phrase is over
    already. -/
structure Forest.Unambiguous (tokens : List Token) (phrase : String) : Prop where
  slotConsistent : SlotConsistent tokens
  slotsTellBytes : SlotsTellBytes tokens
  endOffset_eq : ∀ k < tokens.length, ∀ j < tokens.length, Kin tokens k j →
    (tokenAt tokens k).endOffset = (tokenAt tokens j).endOffset
  over_of_isEnd : ∀ k < tokens.length, ∀ j < tokens.length, Kin tokens k j →
    (ofTokens tokens phrase).isEnd k = true → (ofTokens tokens phrase).isEnd j = false →
      (tokenAt tokens k).endOffset = byteLength phrase.toList

/-- The byte where a node starts. -/
def TokenGraph.startOf (g : TokenGraph) (tokens : List Token) (id : NodeId) : Nat :=
  reachedAt tokens (anchor? (endSlots tokens) (g.node id).token.position)

/-- The byte where a node stops: that after its token, or after the phrase if nothing follows. -/
def TokenGraph.stopOf (g : TokenGraph) (id : NodeId) : Nat :=
  if g.children id = [] then byteLength g.phrase.toList else (g.node id).token.endOffset

/-- A node that shows no synonym is bound as a year to what it is bound to as literal text. -/
theorem TokenGraph.Shows.originFull_yearBinding {tokens : List Token} {g : TokenGraph} {id : NodeId}
    {i : Nat} (h : g.Shows tokens g.phrase id i) (hsynonym : (tokenAt tokens i).isSynonym = false)
    (y : Int) : (yearBinding g id y).originFull = (literalBinding g id).originFull := by
  obtain ⟨before, o, ho, -⟩ := h.exists_tells
  have htyped : boundText g.phrase (g.node id).token o.text = o.text := by
    rw [h.token_eq]
    exact boundText_of_not_isSynonym hsynonym _
  rw [originFull_literalBinding ho, htyped]
  simp only [yearBinding, ho, Binding.ofToken]

/-- The graph gathers the tokens of an unambiguous phrase, and each node shows one of its tokens. -/
structure Encodes (tokens : List Token) (g : TokenGraph) (home : Nat → NodeId) : Prop
    extends Gathers tokens g.phrase g home, Unambiguous tokens g.phrase,
      InPhrase g.phrase.toList tokens where
  exists_shows : ∀ id < g.size, ∃ i < tokens.length, home i = id ∧ g.Shows tokens g.phrase id i

namespace Encodes

variable {tokens : List Token} {g : TokenGraph} {home : Nat → NodeId} {vars : Variables}
  {id c : NodeId} {i j k : Nat} (h : Encodes tokens g home)
include h

theorem startOf_home (hk : k < tokens.length) :
    g.startOf tokens (home k) = reachedAt tokens (anchorAt tokens k) := by
  rw [TokenGraph.startOf, h.slot_home k hk]

/-- What follows a node follows one of its tokens. -/
theorem exists_anchorAt_of_mem_children (hi : i < tokens.length) (hc : c ∈ g.children (home i)) :
    ∃ k < tokens.length, Kin tokens i k ∧ (ofTokens tokens g.phrase).isEnd k = false ∧
      ∃ j < tokens.length, anchorAt tokens j = some (endAt tokens k) ∧ home j = c := by
  obtain ⟨k, j, hedge, hki, rfl⟩ := (h.edge_iff _ c).1 hc
  obtain ⟨hk, hj, hanchor⟩ := Forest.edge_iff.1 hedge
  refine ⟨k, hk, (h.home_eq_iff i hi k hk).1 hki.symm, ?_, j, hj, hanchor, rfl⟩
  by_contra hend
  rw [Bool.not_eq_false] at hend
  exact absurd (children_eq_nil_of_isEnd hk hend) (List.ne_nil_of_mem hedge)

/-- The children of a node start where its tokens end. -/
theorem startOf_of_mem_children (hi : i < tokens.length) (hc : c ∈ g.children (home i)) :
    c < g.size ∧ g.startOf tokens c = (tokenAt tokens i).endOffset := by
  obtain ⟨k, hk, hkin, -, j, hj, hanchor, rfl⟩ := h.exists_anchorAt_of_mem_children hi hc
  refine ⟨h.home_lt j hj, ?_⟩
  rw [h.startOf_home hj, hanchor, reachedAt_endAt h.slotsTellBytes hk,
    h.endOffset_eq i hi k hk hkin]

/-- Where some token of a node ends last but the node has children, the phrase is over after the
    node. -/
theorem endOffset_eq_byteLength (hi : i < tokens.length) (hchildren : g.children (home i) ≠ [])
    (hend : g.isEnd (home i) = true) :
    (tokenAt tokens i).endOffset = byteLength g.phrase.toList := by
  obtain ⟨c, hc⟩ := List.exists_mem_of_ne_nil _ hchildren
  obtain ⟨k, hk, hik, hkend, -⟩ := h.exists_anchorAt_of_mem_children hi hc
  obtain ⟨j, hj, hij, hjend⟩ := (h.isEnd_iff i hi).1 hend
  have hjk : Kin tokens j k := ⟨hij.1.symm.trans hik.1, hij.2.symm.trans hik.2⟩
  rw [h.endOffset_eq i hi j hj hij, h.over_of_isEnd j hj k hk hjk hjend hkend]

/-- A token whose node has no children ends last. -/
theorem isEnd_of_children_eq_nil (hi : i < tokens.length) (hchildren : g.children (home i) = []) :
    (ofTokens tokens g.phrase).isEnd i = true := by
  refine (h.noneDangles.isEnd_or_exists_edge g.phrase hi).resolve_right ?_
  rintro ⟨j, hedge⟩
  have hmem : home j ∈ g.children (home i) := (h.edge_iff _ _).2 ⟨i, j, hedge, rfl, rfl⟩
  exact absurd hchildren (List.ne_nil_of_mem hmem)

/-- A node is bound to the bytes from where it starts to where it stops. -/
theorem originFull_eq (hi : i < tokens.length) (hshows : g.Shows tokens g.phrase (home i) i) :
    (literalBinding g (home i)).originFull =
      sliceOf g.phrase.toList (g.startOf tokens (home i)) (g.stopOf (home i)) := by
  obtain ⟨before, o, ho, htells⟩ := hshows.exists_tells
  have ht := h.inText _ (tokenAt_mem hi)
  have htyped : boundText g.phrase (g.node (home i)).token o.text =
      boundText g.phrase (tokenAt tokens i) o.text := by
    rw [hshows.token_eq]
    rfl
  rw [originFull_literalBinding ho, htyped,
    htells.prefix_append_boundText h.toInPhrase h.slotsTellBytes hi,
    htells.skippedSuffix_eq_sliceOf hi ht.boundary_end.le_byteLength, h.startOf_home hi, TokenGraph.stopOf,
    hshows.token_eq]
  by_cases hchildren : g.children (home i) = []
  · rw [if_pos hchildren, if_pos (h.isEnd_of_children_eq_nil hi hchildren)]
    exact sliceOf_append (boundary_reachedAt h.toInPhrase h.slotsTellBytes htells.comesFrom)
      ht.boundary_end boundary_byteLength
      (reachedAt_le h.toInPhrase h.slotsTellBytes hi htells.comesFrom) ht.boundary_end.le_byteLength
  · rw [if_neg hchildren]
    split
    · next hend =>
      have hend' := (h.isEnd_iff i hi).2 ⟨i, hi, ⟨rfl, rfl⟩, hend⟩
      rw [h.endOffset_eq_byteLength hi hchildren hend', sliceOf_self, String.append_empty]
    · exact String.append_empty

/-- So each node stands for its bytes, unless a synonym is taken for a year. -/
theorem measured (hyear : (∃ first, Variable.year first ∈ vars.values) →
    ∀ t ∈ tokens, t.isSynonym = true → parseYear? t.text = none) :
    g.Measured vars (g.startOf tokens) g.stopOf := by
  have hbytes : ∀ id < g.size, Boundary g.phrase.toList (g.startOf tokens id) ∧
      Boundary g.phrase.toList (g.stopOf id) ∧ g.startOf tokens id ≤ g.stopOf id := fun id hid => by
    obtain ⟨i, hi, rfl, hshows⟩ := h.exists_shows id hid
    obtain ⟨before, o, -, htells⟩ := hshows.exists_tells
    have hstart := boundary_reachedAt h.toInPhrase h.slotsTellBytes htells.comesFrom
    have hend := (h.inText _ (tokenAt_mem hi)).boundary_end
    have hle := reachedAt_le h.toInPhrase h.slotsTellBytes hi htells.comesFrom
    rw [h.startOf_home hi, TokenGraph.stopOf, hshows.token_eq]
    split
    · exact ⟨hstart, boundary_byteLength, hstart.le_byteLength⟩
    · exact ⟨hstart, hend, hle⟩
  exact {
    boundary_start := fun id hid => (hbytes id hid).1
    boundary_stop := fun id hid => (hbytes id hid).2.1
    start_le_stop := fun id hid => (hbytes id hid).2.2
    of_mem_roots := fun id hid => by
      obtain ⟨k, hk, hanchor, rfl⟩ := (h.mem_roots_iff id).1 hid
      exact ⟨h.home_lt k hk, by rw [h.startOf_home hk, hanchor]; rfl⟩
    of_mem_children := fun id hid c hc => by
      obtain ⟨i, hi, rfl, hshows⟩ := h.exists_shows id hid
      rw [TokenGraph.stopOf, if_neg (List.ne_nil_of_mem hc), hshows.token_eq]
      exact h.startOf_of_mem_children hi hc
    stop_of_leaf := fun id _ hchildren => if_pos hchildren
    stop_of_isEnd := fun id hid hend => by
      obtain ⟨i, hi, rfl, hshows⟩ := h.exists_shows id hid
      rw [TokenGraph.stopOf, hshows.token_eq]
      split
      · rfl
      · next hchildren => exact h.endOffset_eq_byteLength hi hchildren hend
    literal := fun id hid => by
      obtain ⟨i, hi, rfl, hshows⟩ := h.exists_shows id hid
      exact h.originFull_eq hi hshows
    year := fun {first} hfirst id hid y hy => by
      obtain ⟨i, hi, rfl, hshows⟩ := h.exists_shows id hid
      have hsynonym : (tokenAt tokens i).isSynonym = false := by
        by_contra hsynonym
        rw [Bool.not_eq_false] at hsynonym
        have hnone := hyear ⟨first, hfirst⟩ _ (tokenAt_mem hi) hsynonym
        rw [h.text_home i hi, hnone] at hy
        exact absurd hy (by simp)
      rw [hshows.originFull_yearBinding hsynonym y]
      exact h.originFull_eq hi hshows }

end Encodes

theorem exists_encodes {tokens : List Token} {phrase : String} (hun : Unambiguous tokens phrase)
    (hin : InPhrase phrase.toList tokens) :
    ∃ home, Encodes tokens (TokenGraph.ofTokens tokens phrase) home := by
  obtain ⟨m, out, hn⟩ := exists_normalForm tokens phrase
  have hgathers := hn.gathers hun.slotConsistent
  have hshows : ∀ id < (TokenGraph.ofTokens tokens phrase).size, ∃ i < tokens.length,
      NormalForm.home tokens phrase m i = id ∧
        (TokenGraph.ofTokens tokens phrase).Shows tokens phrase id i := fun id hid => by
    obtain ⟨k, hk, rfl⟩ := hgathers.exists_home id hid
    exact hn.exists_shows hun.slotConsistent hk
  refine ⟨NormalForm.home tokens phrase m, ?_⟩
  have hphrase : (TokenGraph.ofTokens tokens phrase).phrase = phrase := TokenGraph.phrase_ofTokens
  generalize NormalForm.home tokens phrase m = home at hgathers hshows ⊢
  generalize TokenGraph.ofTokens tokens phrase = g at hgathers hshows hphrase ⊢
  subst hphrase
  exact { toGathers := hgathers, toUnambiguous := hun, toInPhrase := hin, exists_shows := hshows }

/-! ### The main statement -/

/-- A match accounts for the typed text, synonyms included. If the tokens of a phrase are unambiguous,
    and no synonym is taken for a year, then the pieces that a match of the whole phrase binds, put
    together, are the phrase. -/
theorem accounts_for_phrase {a : WordAnalyzer} {phrase language : String} {text pattern : TokenGraph}
    {vars : Variables} {m : Match} (hne : a.analyze phrase ≠ [])
    (hun : Unambiguous (a.analyze phrase) phrase)
    (hyear : (∃ first, Variable.year first ∈ vars.values) →
      ∀ t ∈ a.analyze phrase, t.isSynonym = true → parseYear? t.text = none)
    (htext : TokenGraph.ofPhrase (.uniform a) phrase language = .ok text)
    (hm : Finds text pattern false vars m) :
    String.join (m.values.map (·.originFull)) = phrase := by
  obtain rfl : TokenGraph.ofTokens (a.analyze phrase) phrase = text := Except.ok.inj htext
  obtain ⟨home, hencodes⟩ := exists_encodes hun (a.inPhrase_analyze hun.slotsTellBytes)
  have hmeasured := hencodes.measured hyear
  have hroots : (TokenGraph.ofTokens (a.analyze phrase) phrase).roots ≠ [] := by
    obtain ⟨k, hk⟩ := List.exists_mem_of_ne_nil _
      (mt (@eq_nil_of_roots_eq_nil (a.analyze phrase) phrase) hne)
    obtain ⟨hk, hanchor⟩ := Forest.mem_roots_iff.1 hk
    exact List.ne_nil_of_mem ((hencodes.mem_roots_iff _).2 ⟨k, hk, hanchor, rfl⟩)
  obtain ⟨steps, hsearch⟩ := hm
  have hsplits := ensures_splits_search hmeasured.divides (hmeasured.leftAt_roots hroots) m hsearch
  obtain ⟨rest, hrest, hpieces⟩ := hsplits.exists_rest
  -- The pattern may not end first, so nothing is left over.
  rw [hsplits.continuation_eq_nil rfl] at hrest
  rwa [hrest.eq_of_nil, String.append_empty, TokenGraph.phrase_ofTokens] at hpieces

namespace Example

/-- English words, and a city with names of one, two and three words. -/
def travels : WordAnalyzer :=
  { WordAnalyzer.english with
    synonyms := (withGroups [["ny", "new york", "new york city"]]).synonyms }

/-- The years, and the city by its longest name. -/
def yearsAndCities : Variables :=
  .ofVariables [.year 1996, .table "$City" (.ofList [("NYC", [graphOf "new york city"])])]

/-- The match binds `" Visit"`, `" NY"` and `", in 2019!"`. -/
theorem accounts_for_visit : ∃ m,
    findMatch (.ofTokens (travels.analyze " Visit NY, in 2019!") " Visit NY, in 2019!")
      (graphOf "visit $City $Year") false yearsAndCities = some m ∧
      String.join (m.values.map (·.originFull)) = " Visit NY, in 2019!" := by
  obtain ⟨m, hm⟩ : ∃ m, findMatch
      (.ofTokens (travels.analyze " Visit NY, in 2019!") " Visit NY, in 2019!")
      (graphOf "visit $City $Year") false yearsAndCities = some m :=
    Option.isSome_iff_exists.1 (by decide +kernel)
  have hne : travels.analyze " Visit NY, in 2019!" ≠ [] := by decide +kernel
  have hun : Unambiguous (travels.analyze " Visit NY, in 2019!") " Visit NY, in 2019!" :=
    ⟨by decide +kernel, by decide +kernel, by decide +kernel, by decide +kernel⟩
  have hyear : ∀ t ∈ travels.analyze " Visit NY, in 2019!", t.isSynonym = true →
      parseYear? t.text = none := by decide +kernel
  have htext : TokenGraph.ofPhrase (.uniform travels) " Visit NY, in 2019!" "en" =
      .ok (.ofTokens (travels.analyze " Visit NY, in 2019!") " Visit NY, in 2019!") := rfl
  exact ⟨m, hm, accounts_for_phrase hne hun (fun _ => hyear) htext (finds_of_findMatch hm)⟩

/-- Two names of two words share their inner slot. The walk comes to `apple` from the typed `new`, which
    has other bytes, so both words of the other name are bound to the whole text. -/
theorem binds_new_york_twice : bigApple.analyze "new york" ≠ [] ∧ ∃ m,
    findMatch (.ofTokens (bigApple.analyze "new york") "new york")
      (.ofTokens (bigApple.analyze "big apple") "big apple") false ∅ = some m ∧
      String.join (m.values.map (·.originFull)) = "new yorknew york" := by
  decide +kernel

end Example

end PhraseGraph
