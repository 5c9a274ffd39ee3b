import PhraseGraph.Proofs.Origins
import PhraseGraph.Proofs.Slices

/-!
# The texts of an origin

The walk that makes an origin comes to its token from a token that ends in the slot where this one
hangs off, or from outside (`ComesFrom`). The texts of the origin depend on the bytes of these two
tokens: what has been passed over between them, the text of the token itself, and behind a last token
the rest of the phrase (`MadeFor.exists_tells`).
-/

namespace PhraseGraph.Provenance

open Forest Text

section Texts

variable {cs : List Char} {phrase : String} {token : Token} {before : Option Token} {done : Nat}

theorem passedBefore_eq (h : done ≤ token.startOffset) :
    passedBefore cs done token = sliceOf cs done token.startOffset := by
  rw [passedBefore]
  split
  · rfl
  · next hge =>
    obtain rfl : done = token.startOffset := Nat.le_antisymm h (Nat.not_lt.1 hge)
    exact sliceOf_self.symm

/-- A token that begins where the one before it does not has a text of its own. -/
theorem pieceText_eq (hbefore : ∀ p ∈ before, p.startOffset ≠ token.startOffset) :
    pieceText cs token before =
      if token.isSynonym then token.text else sliceOf cs token.startOffset token.endOffset := by
  cases before with
  | none => cases hsynonym : token.isSynonym <;> simp [pieceText, hsynonym]
  | some p =>
    have hstart : (p.startOffset == token.startOffset) = false :=
      beq_eq_false_iff_ne.2 (hbefore p rfl)
    cases hsynonym : token.isSynonym <;> simp [pieceText, hsynonym, hstart]

theorem passedAfter_eq {n : Node} (h : n.token.endOffset ≤ byteLength phrase.toList) :
    passedAfter phrase n = if n.isEnd then
      sliceOf phrase.toList n.token.endOffset (byteLength phrase.toList) else "" := by
  rw [byteLength_toList] at h ⊢
  rw [passedAfter, slice]
  cases n.isEnd with
  | false => simp
  | true =>
    rcases Nat.eq_or_lt_of_le h with heq | hlt
    · simp [heq, sliceOf_self]
    · simp [hlt]

end Texts

variable {tokens : List Token} {phrase : String} {before : Option Token} {k : Nat} {o : Origin}
  {r : OriginId}

/-- The token from which the walk can come to the token at a place. -/
inductive ComesFrom (tokens : List Token) (k : Nat) : Option Token → Prop
  | outside : anchorAt tokens k = none → ComesFrom tokens k none
  | along {p : Nat} : p < tokens.length → anchorAt tokens k = some (endAt tokens p) →
      ComesFrom tokens k (some (tokenAt tokens p))

/-- The origin tells of the token at a place what it is to tell if the walk comes from `before`. -/
structure Tells (tokens : List Token) (phrase : String) (k : Nat) (before : Option Token)
    (o : Origin) : Prop where
  comesFrom : ComesFrom tokens k before
  skippedPrefix_eq : o.skippedPrefix = passedBefore phrase.toList
    ((before.map (·.endOffset)).getD 0) (tokenAt tokens k)
  text_eq : o.text = pieceText phrase.toList (tokenAt tokens k) before
  skippedSuffix_eq : o.skippedSuffix = passedAfter phrase ((ofTokens tokens phrase).node k)

/-- The origin of a token tells of the token. -/
theorem MadeFor.exists_tells (hk : k < tokens.length) (hr : MadeFor tokens phrase r k) :
    ∃ before, Tells tokens phrase k before ((fill (ofTokens tokens phrase)).origin r) := by
  obtain ⟨hlt, hnode⟩ := hr
  rw [size_origins_fill] at hlt
  obtain ⟨⟨parent, child⟩, hv, hchild, horigin⟩ := exists_visit_of_origin hlt
  obtain rfl : child = k := by rw [← hnode, (origin_fill hlt).1, ← hchild]
  have htoken : ((ofTokens tokens phrase).node child).token = _ := token_ofTokens hk
  rw [horigin]
  rcases parent_of_mem_walk hv with ⟨hparent, hroot⟩ | ⟨p, hparent, hedge⟩
  · simp only at hparent
    subst hparent
    refine ⟨none, .outside (mem_roots_iff.1 hroot).2, ?_, ?_, rfl⟩
    · simp only [originOf, htoken]
      rfl
    · simp only [originOf, htoken]
      rfl
  · simp only at hparent
    subst hparent
    obtain ⟨hp, -, hanchor⟩ := edge_iff.1 hedge
    have hbefore : ((ofTokens tokens phrase).node p).token = _ := token_ofTokens hp
    refine ⟨some (tokenAt tokens p), .along hp hanchor, ?_, ?_, rfl⟩
    · simp only [originOf, htoken, Option.map_some, hbefore]
      rfl
    · simp only [originOf, htoken, Option.map_some, hbefore]
      rfl

/-- Behind a last token the origin has the rest of the phrase. -/
theorem Tells.skippedSuffix_eq_sliceOf (h : Tells tokens phrase k before o) (hk : k < tokens.length)
    (hend : (tokenAt tokens k).endOffset ≤ byteLength phrase.toList) :
    o.skippedSuffix = if (ofTokens tokens phrase).isEnd k then
      sliceOf phrase.toList (tokenAt tokens k).endOffset (byteLength phrase.toList) else "" := by
  have htoken : ((ofTokens tokens phrase).node k).token.endOffset = (tokenAt tokens k).endOffset := by
    rw [token_ofTokens hk]
  rw [h.skippedSuffix_eq, passedAfter_eq (htoken.trans_le hend), htoken]
  rfl

end PhraseGraph.Provenance
