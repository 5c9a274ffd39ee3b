import Mathlib.Data.String.Basic
import PhraseGraph.Text.Bytes
import PhraseGraph.Text.Segmentation

/-!
# Slices of a text

A slice exists between two byte positions that lie between characters (`Boundary`). Slices that meet at
a boundary can be put together (`sliceOf_append`), and the slice from the first byte to the last is the
whole text. The pieces between the word boundaries of a text, put together, are the text too.
-/

namespace PhraseGraph.Text

variable {cs before after l m r : List Char} {a b c n : Nat}

@[simp] theorem byteLength_nil : byteLength [] = 0 := rfl

@[simp] theorem byteLength_cons (c : Char) : byteLength (c :: l) = c.utf8Size + byteLength l := rfl

theorem byteLength_append : byteLength (l ++ r) = byteLength l + byteLength r := by
  induction l with
  | nil => simp
  | cons c l ih => rw [List.cons_append, byteLength_cons, byteLength_cons, ih, Nat.add_assoc]

theorem byteLength_eq_zero_iff : byteLength l = 0 ↔ l = [] := by
  cases l with
  | nil => simp
  | cons c l =>
    have := c.utf8Size_pos
    simp only [byteLength_cons, List.cons_ne_nil, iff_false]
    omega

theorem byteLength_toList (s : String) : byteLength s.toList = s.utf8ByteSize := by
  have hlen : ∀ l : List Char, byteLength l = String.utf8Len l := by
    intro l
    induction l with
    | nil => rfl
    | cons c l ih =>
      rw [String.utf8Len_cons, ← ih, Nat.add_comm]
      rfl
  rw [hlen, ← String.utf8ByteSize_ofList, String.ofList_toList]

theorem dropBytes?_append : dropBytes? (byteLength l) (l ++ r) = some r := by
  induction l with
  | nil => rw [List.nil_append]; cases r <;> rfl
  | cons c l ih =>
    have hpos := c.utf8Size_pos
    have hlen : byteLength (c :: l) = (c.utf8Size + byteLength l - 1) + 1 := by
      rw [byteLength_cons]
      omega
    rw [hlen, List.cons_append, dropBytes?, if_neg (by omega)]
    have hsub : c.utf8Size + byteLength l - 1 + 1 - c.utf8Size = byteLength l := by omega
    rw [hsub, ih]

theorem takeBytes?_append : takeBytes? (byteLength l) (l ++ r) = some l := by
  induction l with
  | nil => cases r <;> rfl
  | cons c l ih =>
    have hpos := c.utf8Size_pos
    have hlen : byteLength (c :: l) = (c.utf8Size + byteLength l - 1) + 1 := by
      rw [byteLength_cons]
      omega
    rw [hlen, List.cons_append, takeBytes?, if_neg (by omega)]
    have hsub : c.utf8Size + byteLength l - 1 + 1 - c.utf8Size = byteLength l := by omega
    rw [hsub, ih]
    rfl

/-- A slice has the characters between its ends. -/
theorem sliceOf_eq :
    sliceOf (l ++ (m ++ r)) (byteLength l) (byteLength (l ++ m)) = String.ofList m := by
  have hsub : byteLength (l ++ m) - byteLength l = byteLength m := by
    rw [byteLength_append]
    omega
  rw [sliceOf, sliceBytes?, if_pos (by rw [byteLength_append]; omega), dropBytes?_append,
    Option.bind_some, hsub, takeBytes?_append]
  rfl

/-! ### Boundaries -/

/-- The byte position lies between two characters of a text or at an end of it. -/
def Boundary (cs : List Char) (n : Nat) : Prop := ∃ before, before <+: cs ∧ byteLength before = n

theorem boundary_zero : Boundary cs 0 := ⟨[], List.nil_prefix, rfl⟩

theorem boundary_byteLength : Boundary cs (byteLength cs) := ⟨cs, List.prefix_rfl, rfl⟩

theorem Boundary.le_byteLength (h : Boundary cs n) : n ≤ byteLength cs := by
  obtain ⟨before, ⟨after, rfl⟩, rfl⟩ := h
  rw [byteLength_append]
  omega

/-- Of two beginnings of a text the one with fewer bytes is a beginning of the other. -/
theorem prefix_of_byteLength_le (hl : l <+: cs) (hm : m <+: cs) (h : byteLength l ≤ byteLength m) :
    l <+: m := by
  rcases List.prefix_or_prefix_of_prefix hl hm with hlm | ⟨r, rfl⟩
  · exact hlm
  · rw [byteLength_append] at h
    have hr : r = [] := byteLength_eq_zero_iff.1 (by omega)
    simp [hr]

/-- A text is taken apart in one way only, if the bytes of the first part are given. -/
theorem eq_of_append_eq {before' after' : List Char} (h : before ++ after = before' ++ after')
    (hlength : byteLength before = byteLength before') : before = before' ∧ after = after' := by
  have hbefore : before <+: before' :=
    prefix_of_byteLength_le (List.prefix_append _ _) (h.symm ▸ List.prefix_append _ _) hlength.le
  obtain ⟨gap, rfl⟩ := hbefore
  rw [byteLength_append, Nat.left_eq_add, byteLength_eq_zero_iff] at hlength
  subst hlength
  exact ⟨(List.append_nil _).symm, by simpa using h⟩

/-- Between two boundaries lies some part of the text. -/
theorem Boundary.exists_parts (ha : Boundary cs a) (hb : Boundary cs b) (hab : a ≤ b) :
    ∃ l m r, cs = l ++ (m ++ r) ∧ byteLength l = a ∧ byteLength (l ++ m) = b := by
  obtain ⟨l, hl, rfl⟩ := ha
  obtain ⟨lm, hlm, rfl⟩ := hb
  obtain ⟨m, rfl⟩ := prefix_of_byteLength_le hl hlm hab
  obtain ⟨r, rfl⟩ := hlm
  exact ⟨l, m, r, List.append_assoc l m r, rfl, rfl⟩

theorem sliceOf_self : sliceOf cs n n = "" := by
  rw [sliceOf, sliceBytes?, if_pos (Nat.le_refl n), Nat.sub_self]
  cases dropBytes? n cs with
  | none => rfl
  | some rest => cases rest <;> rfl

/-- Slices that meet can be put together. -/
theorem sliceOf_append (ha : Boundary cs a) (hb : Boundary cs b) (hc : Boundary cs c)
    (hab : a ≤ b) (hbc : b ≤ c) : sliceOf cs a b ++ sliceOf cs b c = sliceOf cs a c := by
  obtain ⟨lm, m', r', rfl, rfl, rfl⟩ := hb.exists_parts hc hbc
  obtain ⟨l, hl, rfl⟩ := ha
  obtain ⟨m, rfl⟩ := prefix_of_byteLength_le hl (List.prefix_append _ _) hab
  have hleft : sliceOf (l ++ m ++ (m' ++ r')) (byteLength l) (byteLength (l ++ m)) =
      String.ofList m := by
    rw [List.append_assoc]
    exact sliceOf_eq
  have hwhole : sliceOf (l ++ m ++ (m' ++ r')) (byteLength l) (byteLength (l ++ m ++ m')) =
      String.ofList (m ++ m') := by
    rw [List.append_assoc, ← List.append_assoc m, List.append_assoc l]
    exact sliceOf_eq
  rw [hleft, sliceOf_eq, hwhole, String.ofList_append]

theorem sliceOf_whole : sliceOf cs 0 (byteLength cs) = String.ofList cs := by
  have h := sliceOf_eq (l := []) (m := cs) (r := [])
  rwa [List.nil_append, List.nil_append, List.append_nil] at h

/-! ### The pieces of a text -/

theorem flatten_wordPiecesFrom {piece : List Char} :
    (wordPiecesFrom before piece cs).flatten = piece.reverse ++ cs := by
  induction cs generalizing before piece with
  | nil =>
    rw [wordPiecesFrom]
    split
    · next h => rw [List.isEmpty_iff.1 h]; rfl
    · simp
  | cons c cs ih =>
    rw [wordPiecesFrom]
    split <;> simp [ih]

/-- The pieces of a text, put together, are the text. -/
theorem flatten_wordPieces : (wordPieces cs).flatten = cs := flatten_wordPiecesFrom

theorem ne_nil_of_mem_wordPiecesFrom {piece p : List Char}
    (h : p ∈ wordPiecesFrom before piece cs) : p ≠ [] := by
  induction cs generalizing before piece with
  | nil =>
    rw [wordPiecesFrom] at h
    split at h
    · exact absurd h List.not_mem_nil
    · next hpiece =>
      rw [List.mem_singleton.1 h]
      simpa using hpiece
  | cons c cs ih =>
    rw [wordPiecesFrom] at h
    split at h
    · next hpiece =>
      rcases List.mem_cons.1 h with rfl | h
      · simp only [Bool.and_eq_true, Bool.not_eq_true'] at hpiece
        simpa using hpiece.1
      · exact ih h
    · exact ih h

theorem ne_nil_of_mem_wordPieces : ∀ p ∈ wordPieces cs, p ≠ [] :=
  fun _ hp => ne_nil_of_mem_wordPiecesFrom hp

end PhraseGraph.Text
