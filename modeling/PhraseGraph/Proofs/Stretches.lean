import PhraseGraph.Analyzer
import PhraseGraph.Proofs.Merging.Quotient
import PhraseGraph.Proofs.Readings

/-!
# Rows of tokens in one stretch of slots

The terms of a group are laid out in rows that begin at one slot and end at one slot, where the last
token of a row is stretched as far as needed (`Stretch`). A token ends in the slot after its own column,
or, if it is the last one of its row, where the stretch ends. So a reader that has come to a column
can go on with any row that reaches it: what can be read across the stretch takes a word from some row
in each column, up to the end of one of them (`ReadAcross`).

Where the stretches stand one after another, with or without empty slots between them, what can be read
along all of their tokens is what can be read across one stretch after the other
(`LaidOut.reads_iff`), and nothing dangles (`LaidOut.noneDangles`).
-/

namespace PhraseGraph

/-- The token in column `j` of a row of `count` tokens that are laid out on `width` slots. -/
def Token.inColumn (t : Token) (start width count j : Nat) : Token :=
  { t with position := start + j, positionLength := if j + 1 = count then width - j else 1 }

theorem mem_layOut_iff {start width : Nat} {row : List Token} {t : Token} :
    t ∈ layOut start width row ↔
      ∃ j, ∃ u : Token, row[j]? = some u ∧ u.inColumn start width row.length j = t := by
  induction row generalizing start width with
  | nil => simp [layOut]
  | cons v row ih =>
    cases row with
    | nil =>
      simp only [layOut, List.mem_singleton]
      constructor
      · rintro rfl
        exact ⟨0, v, rfl, rfl⟩
      · rintro ⟨j, u, hu, rfl⟩
        obtain ⟨rfl, rfl⟩ : j = 0 ∧ v = u := by
          cases j <;> simp_all
        rfl
    | cons w row =>
      rw [layOut, List.mem_cons, ih]
      -- A later column of the row is the column before it of the rest, in a narrower stretch.
      have hshift : ∀ (j : Nat) (u : Token),
          u.inColumn (start + 1) (width - 1) (w :: row).length j =
            u.inColumn start width (v :: w :: row).length (j + 1) := fun j u => by
        simp only [Token.inColumn, List.length_cons, Nat.add_right_cancel_iff, Token.mk.injEq,
          true_and]
        exact ⟨by omega, by congr 1; omega⟩
      constructor
      · rintro (rfl | ⟨j, u, hu, rfl⟩)
        · exact ⟨0, v, rfl, by simp [Token.inColumn]⟩
        · exact ⟨j + 1, u, hu, (hshift j u).symm⟩
      · rintro ⟨_ | j, u, hu, rfl⟩
        · obtain rfl : v = u := by simpa using hu
          exact .inl (by simp [Token.inColumn])
        · exact .inr ⟨j, u, hu, hshift j u⟩

/-- What can be read in the rows of words from column `j` on, until a row is over. -/
inductive ReadAcross (terms : List (List String)) : Nat → List String → Prop
  | last {j : Nat} {term : List String} {w : String} : term ∈ terms → term[j]? = some w →
      j + 1 = term.length → ReadAcross terms j [w]
  | next {j : Nat} {term ws : List String} {w : String} : term ∈ terms → term[j]? = some w →
      j + 1 < term.length → ReadAcross terms (j + 1) ws → ReadAcross terms j (w :: ws)

theorem readAcross_cons_iff {terms : List (List String)} {j : Nat} {w : String} {ws : List String} :
    ReadAcross terms j (w :: ws) ↔ ∃ term ∈ terms, term[j]? = some w ∧
      (j + 1 = term.length ∧ ws = [] ∨ j + 1 < term.length ∧ ReadAcross terms (j + 1) ws) := by
  constructor
  · rintro (⟨hterm, hw, hj⟩ | ⟨hterm, hw, hj, h⟩)
    · exact ⟨_, hterm, hw, .inl ⟨hj, rfl⟩⟩
    · exact ⟨_, hterm, hw, .inr ⟨hj, h⟩⟩
  · rintro ⟨term, hterm, hw, ⟨hj, rfl⟩ | ⟨hj, h⟩⟩
    · exact .last hterm hw hj
    · exact .next hterm hw hj h

/-- A term can be read to its end from each of its columns. -/
theorem readAcross_drop {terms : List (List String)} {term : List String} {j : Nat}
    (hterm : term ∈ terms) (hj : j < term.length) : ReadAcross terms j (term.drop j) := by
  generalize hn : term.length - j = n
  induction n generalizing j with
  | zero => omega
  | succ n ih =>
    rw [List.drop_eq_getElem_cons hj]
    by_cases hlast : j + 1 = term.length
    · rw [hlast, List.drop_length]
      exact .last hterm (List.getElem?_eq_getElem hj) hlast
    · exact .next hterm (List.getElem?_eq_getElem hj) (by omega) (ih (by omega) (by omega))

/-- A term can be read as a whole. -/
theorem readAcross_of_mem {terms : List (List String)} {term : List String} (hterm : term ∈ terms)
    (hne : term ≠ []) : ReadAcross terms 0 term :=
  readAcross_drop hterm (List.length_pos_iff.2 hne)

/-- Where only one term has more than a word, what can be read is a term. -/
theorem mem_of_readAcross {terms : List (List String)} {ws : List String}
    (hlong : ∀ u ∈ terms, ∀ v ∈ terms, 2 ≤ u.length → 2 ≤ v.length → u = v)
    (h : ReadAcross terms 0 ws) : ws ∈ terms := by
  -- From an inner column on only the one long term can be read.
  have hinner : ∀ {j : Nat} {ws : List String}, ReadAcross terms j ws → 0 < j →
      ∃ term ∈ terms, 2 ≤ term.length ∧ ws = term.drop j := by
    intro j ws h hj
    induction h with
    | @last j term w hterm hw hlast =>
      obtain ⟨hlt, rfl⟩ := List.getElem?_eq_some_iff.1 hw
      refine ⟨term, hterm, by omega, ?_⟩
      rw [List.drop_eq_getElem_cons hlt, hlast, List.drop_length]
    | @next j term ws w hterm hw hlt _ ih =>
      obtain ⟨hlt', rfl⟩ := List.getElem?_eq_some_iff.1 hw
      obtain ⟨term', hterm', hlength, rfl⟩ := ih (Nat.succ_pos j)
      obtain rfl := hlong term' hterm' term hterm hlength (by omega)
      exact ⟨term', hterm', hlength, (List.drop_eq_getElem_cons hlt').symm⟩
  cases h with
  | @last _ term w hterm hw hlast =>
    obtain ⟨hlt, rfl⟩ := List.getElem?_eq_some_iff.1 hw
    obtain ⟨w, rfl⟩ := List.length_eq_one_iff.1 hlast.symm
    exact hterm
  | @next _ term ws w hterm hw hlt h =>
    obtain ⟨hlt', rfl⟩ := List.getElem?_eq_some_iff.1 hw
    obtain ⟨term', hterm', hlength, rfl⟩ := hinner h (Nat.succ_pos 0)
    obtain rfl := hlong term' hterm' term hterm hlength (by omega)
    rwa [← List.drop_eq_getElem_cons hlt', List.drop_zero]

/-- Rows of tokens that begin at one slot and end at one slot. -/
structure Stretch where
  /-- The slot where the rows begin. -/
  start : Nat
  /-- The number of slots that the rows cover. -/
  width : Nat
  /-- The tokens of each row. -/
  rows : List (List Token)

namespace Stretch

/-- The slot after the stretch. -/
def stop (s : Stretch) : Nat := s.start + s.width

/-- The tokens of the rows in their slots. -/
def tokens (s : Stretch) : List Token := s.rows.flatMap (layOut s.start s.width)

/-- The words of the rows. -/
def terms (s : Stretch) : List (List String) := s.rows.map fun row => row.map (·.text)

/-- There are rows, all of them have tokens, and none has too many. -/
structure Fits (s : Stretch) : Prop where
  rows_ne_nil : s.rows ≠ []
  row_ne_nil : ∀ row ∈ s.rows, row ≠ []
  length_le : ∀ row ∈ s.rows, row.length ≤ s.width

variable {s : Stretch} {row : List Token} {t : Token} {j : Nat}

theorem mem_tokens_iff : t ∈ s.tokens ↔ ∃ row ∈ s.rows, ∃ j, ∃ u : Token, row[j]? = some u ∧
    u.inColumn s.start s.width row.length j = t := by
  simp only [tokens, List.mem_flatMap, mem_layOut_iff]

namespace Fits

variable (h : s.Fits)
include h

theorem endPosition_inColumn (hrow : row ∈ s.rows) (u : Token) :
    (u.inColumn s.start s.width row.length j).endPosition =
      if j + 1 = row.length then s.stop else s.start + (j + 1) := by
  have := h.length_le row hrow
  simp only [Token.endPosition, Token.span, Token.inColumn, stop]
  split <;> omega

theorem bounds (ht : t ∈ s.tokens) :
    s.start ≤ t.position ∧ t.position < t.endPosition ∧ t.endPosition ≤ s.stop := by
  obtain ⟨row, hrow, j, u, hu, rfl⟩ := mem_tokens_iff.1 ht
  obtain ⟨hj, -⟩ := List.getElem?_eq_some_iff.1 hu
  have hlength := h.length_le row hrow
  have hposition : (u.inColumn s.start s.width row.length j).position = s.start + j := rfl
  rw [h.endPosition_inColumn hrow, hposition, stop]
  refine ⟨by omega, ?_⟩
  split <;> omega

theorem exists_row : ∃ row ∈ s.rows, 0 < row.length := by
  obtain ⟨row, hrow⟩ := List.exists_mem_of_ne_nil _ h.rows_ne_nil
  exact ⟨row, hrow, List.length_pos_iff.2 (h.row_ne_nil row hrow)⟩

theorem width_pos : 0 < s.width := by
  obtain ⟨row, hrow, hpos⟩ := h.exists_row
  exact hpos.trans_le (h.length_le row hrow)

/-- Some token ends where the stretch ends. -/
theorem exists_endPosition_eq_stop : ∃ t ∈ s.tokens, t.endPosition = s.stop := by
  obtain ⟨row, hrow, hpos⟩ := h.exists_row
  have hlast : row.length - 1 < row.length := by omega
  refine ⟨_, mem_tokens_iff.2 ⟨row, hrow, row.length - 1, _, List.getElem?_eq_getElem hlast, rfl⟩, ?_⟩
  rw [h.endPosition_inColumn hrow, if_pos (by omega)]

/-- Where a row goes on, some token ends. -/
theorem exists_endPosition_eq (hrow : row ∈ s.rows) (hj : j + 1 < row.length) :
    ∃ t ∈ s.tokens, t.endPosition = s.start + (j + 1) := by
  refine ⟨_, mem_tokens_iff.2 ⟨row, hrow, j, _, List.getElem?_eq_getElem (by omega), rfl⟩, ?_⟩
  rw [h.endPosition_inColumn hrow, if_neg (by omega)]

end Fits

end Stretch

/-- The slot after the last one of some stretches. -/
def lastStop (ss : List Stretch) : Option Nat := ss.getLast?.map Stretch.stop

/-- The tokens are those of the stretches, which stand one after another. -/
structure LaidOut (ss : List Stretch) (tokens : List Token) : Prop where
  fits : ∀ s ∈ ss, s.Fits
  apart : ss.Pairwise fun s s' => s.stop ≤ s'.start
  mem_iff : ∀ t, t ∈ tokens ↔ ∃ s ∈ ss, t ∈ s.tokens

namespace LaidOut

open Forest

variable {ss pre post : List Stretch} {tokens : List Token} {s s' : Stretch} {t u : Token}
  {row : List Token} {j : Nat} {ws : List String}

theorem eq_or_apart (h : LaidOut ss tokens) (hs : s ∈ ss) (hs' : s' ∈ ss) :
    s = s' ∨ s.stop ≤ s'.start ∨ s'.stop ≤ s.start :=
  eq_or_of_pairwise h.apart hs hs'

theorem inColumn_mem (h : LaidOut ss tokens) (hs : s ∈ ss) (hrow : row ∈ s.rows)
    (hu : row[j]? = some u) : u.inColumn s.start s.width row.length j ∈ tokens :=
  (h.mem_iff _).2 ⟨s, hs, Stretch.mem_tokens_iff.2 ⟨row, hrow, j, u, hu, rfl⟩⟩

/-! ### The slots that the tokens hang off -/

theorem stop_mem_endSlots (h : LaidOut ss tokens) (hs : s ∈ ss) : s.stop ∈ endSlots tokens := by
  obtain ⟨t, ht, hend⟩ := (h.fits s hs).exists_endPosition_eq_stop
  exact mem_endSlots_iff_exists.2 ⟨t, (h.mem_iff t).2 ⟨s, hs, ht⟩, hend⟩

theorem inner_mem_endSlots (h : LaidOut ss tokens) (hs : s ∈ ss) (hrow : row ∈ s.rows)
    (hj : j + 1 < row.length) : s.start + (j + 1) ∈ endSlots tokens := by
  obtain ⟨t, ht, hend⟩ := (h.fits s hs).exists_endPosition_eq hrow hj
  exact mem_endSlots_iff_exists.2 ⟨t, (h.mem_iff t).2 ⟨s, hs, ht⟩, hend⟩

/-- Inside a stretch a token hangs off its own slot. -/
theorem anchor?_inner (h : LaidOut ss tokens) (hs : s ∈ ss) (hrow : row ∈ s.rows)
    (hj : j + 1 < row.length) :
    anchor? (endSlots tokens) (s.start + (j + 1)) = some (s.start + (j + 1)) :=
  anchor?_eq_some_iff.2 ⟨⟨h.inner_mem_endSlots hs hrow hj, Nat.le_refl _⟩, fun _ _ hle => hle⟩

theorem exists_stretch_of_mem_endSlots (h : LaidOut ss tokens) {slot : Nat}
    (hslot : slot ∈ endSlots tokens) : ∃ s ∈ ss, s.start < slot ∧ slot ≤ s.stop := by
  obtain ⟨t, ht, rfl⟩ := mem_endSlots_iff_exists.1 hslot
  obtain ⟨s, hs, ht⟩ := (h.mem_iff t).1 ht
  have := (h.fits s hs).bounds ht
  exact ⟨s, hs, by omega, by omega⟩

/-- At its beginning a stretch hangs off the end of the one before. -/
theorem anchor?_start (h : LaidOut (pre ++ s :: post) tokens) :
    anchor? (endSlots tokens) s.start = lastStop pre := by
  have hs : s ∈ pre ++ s :: post := by simp
  obtain ⟨hpre, hpost, hacross⟩ := List.pairwise_append.1 h.apart
  -- What ends before the stretch belongs to a stretch before it.
  have hbefore : ∀ slot ∈ endSlots tokens, slot ≤ s.start → ∃ p ∈ pre, slot ≤ p.stop := by
    intro slot hslot hle
    obtain ⟨p, hp, hlt, hstop⟩ := h.exists_stretch_of_mem_endSlots hslot
    rcases List.mem_append.1 hp with hp | hp
    · exact ⟨p, hp, hstop⟩
    · rcases List.mem_cons.1 hp with rfl | hp
      · omega
      · have hle' : s.stop ≤ p.start := (List.pairwise_cons.1 hpost).1 p hp
        have := (h.fits s hs).width_pos
        simp only [Stretch.stop] at hle'
        omega
  rcases List.eq_nil_or_concat pre with rfl | ⟨init, q, rfl⟩
  · refine anchor?_eq_none_iff.2 fun slot hslot => ?_
    by_contra hlt
    obtain ⟨p, hp, -⟩ := hbefore slot hslot (Nat.not_lt.1 hlt)
    exact absurd hp List.not_mem_nil
  · rw [lastStop, List.concat_eq_append, List.getLast?_append, List.getLast?_singleton]
    have hq : q ∈ init.concat q := by simp
    refine anchor?_eq_some_iff.2 ⟨⟨h.stop_mem_endSlots (List.mem_append_left _ hq), ?_⟩, ?_⟩
    · exact hacross q hq s List.mem_cons_self
    · intro slot hslot hle
      obtain ⟨p, hp, hstop⟩ := hbefore slot hslot hle
      rw [List.concat_eq_append] at hp hpre
      rcases List.mem_append.1 hp with hp | hp
      · have hlt := (List.pairwise_append.1 hpre).2.2 p hp q List.mem_cons_self
        exact hstop.trans (hlt.trans (Nat.le_add_right _ _))
      · rwa [List.mem_singleton.1 hp] at hstop

/-- Between tokens of different slots some token ends. -/
theorem exists_endSlot_between (h : LaidOut ss tokens) (ht : t ∈ tokens) (hu : u ∈ tokens)
    (hlt : t.position < u.position) :
    ∃ slot ∈ endSlots tokens, t.position < slot ∧ slot ≤ u.position := by
  obtain ⟨s, hs, ht⟩ := (h.mem_iff t).1 ht
  obtain ⟨s', hs', hu⟩ := (h.mem_iff u).1 hu
  obtain ⟨row, hrow, j, v, hv, rfl⟩ := Stretch.mem_tokens_iff.1 hu
  obtain ⟨hj, -⟩ := List.getElem?_eq_some_iff.1 hv
  simp only [Token.inColumn] at hlt ⊢
  cases j with
  | succ j => exact ⟨_, h.inner_mem_endSlots hs' hrow hj, hlt, Nat.le_refl _⟩
  | zero =>
    refine ⟨s.stop, h.stop_mem_endSlots hs, ?_⟩
    have hbounds := (h.fits s hs).bounds ht
    have hwidth := (h.fits s' hs').width_pos
    rcases h.eq_or_apart hs hs' with rfl | hle | hle
    · omega
    · omega
    · simp only [Stretch.stop] at hle
      omega

/-- Tokens that hang off one slot begin at one slot. -/
theorem position_eq_of_anchor?_eq (h : LaidOut ss tokens) (ht : t ∈ tokens) (hu : u ∈ tokens)
    (heq : anchor? (endSlots tokens) t.position = anchor? (endSlots tokens) u.position) :
    t.position = u.position := by
  have hle : ∀ {t u : Token}, t ∈ tokens → u ∈ tokens →
      anchor? (endSlots tokens) t.position = anchor? (endSlots tokens) u.position →
      u.position ≤ t.position := by
    intro t u ht hu heq
    by_contra hlt
    obtain ⟨slot, hslot, hlt, hle⟩ := h.exists_endSlot_between ht hu (Nat.not_le.1 hlt)
    obtain ⟨s, hs, hslot⟩ := exists_anchor?_ge hslot hle
    have := (anchor?_eq_some_iff.1 (heq.trans hs)).1.2
    omega
  exact Nat.le_antisymm (hle hu ht heq.symm) (hle ht hu heq)

/-- What hangs off the slot of a column is in the column. -/
theorem anchor?_eq_iff_inColumn (h : LaidOut ss tokens) (hs : s ∈ ss) (hrow : row ∈ s.rows)
    (hj : j < row.length) :
    (t ∈ tokens ∧ anchor? (endSlots tokens) t.position = anchor? (endSlots tokens) (s.start + j)) ↔
      ∃ row ∈ s.rows, ∃ u : Token, row[j]? = some u ∧
        u.inColumn s.start s.width row.length j = t := by
  constructor
  · rintro ⟨ht, hanchor⟩
    have hposition : t.position = s.start + j := h.position_eq_of_anchor?_eq ht
      (h.inColumn_mem hs hrow (List.getElem?_eq_getElem hj)) hanchor
    have hlength := (h.fits s hs).length_le row hrow
    -- No other stretch has tokens there.
    obtain ⟨s', hs', ht⟩ := (h.mem_iff t).1 ht
    have hbounds := (h.fits s' hs').bounds ht
    have happart := h.eq_or_apart hs hs'
    simp only [Stretch.stop] at hbounds happart
    obtain rfl : s = s' := happart.resolve_right (by omega)
    obtain ⟨row', hrow', j', u, hu, rfl⟩ := Stretch.mem_tokens_iff.1 ht
    obtain rfl : j' = j := by simpa [Token.inColumn] using hposition
    exact ⟨row', hrow', u, hu, rfl⟩
  · rintro ⟨row', hrow', u, hu, rfl⟩
    exact ⟨h.inColumn_mem hs hrow' hu, rfl⟩

/-! ### Readings -/

/-- Behind a token a reader is at the end of the stretch or in the next column. -/
theorem reads_endPosition_iff (h : LaidOut ss tokens) (hs : s ∈ ss) (hrow : row ∈ s.rows)
    (hu : row[j]? = some u) :
    Reads tokens (some (u.inColumn s.start s.width row.length j).endPosition) ws ↔
      j + 1 = row.length ∧ Reads tokens (some s.stop) ws ∨
        j + 1 < row.length ∧ Reads tokens (anchor? (endSlots tokens) (s.start + (j + 1))) ws := by
  obtain ⟨hj, -⟩ := List.getElem?_eq_some_iff.1 hu
  rw [(h.fits s hs).endPosition_inColumn hrow]
  by_cases hlast : j + 1 = row.length
  · simp [hlast]
  · have hnext : j + 1 < row.length := by omega
    simp [hlast, hnext, h.anchor?_inner hs hrow hnext]

/-- A reader in a column reads a word that some term has there, and goes on behind it. -/
theorem reads_cons_inside_iff (h : LaidOut ss tokens) (hs : s ∈ ss) (hrow : row ∈ s.rows)
    (hj : j < row.length) {w : String} :
    Reads tokens (anchor? (endSlots tokens) (s.start + j)) (w :: ws) ↔
      ∃ row ∈ s.rows, (row.map (·.text))[j]? = some w ∧
        (j + 1 = row.length ∧ Reads tokens (some s.stop) ws ∨
          j + 1 < row.length ∧ Reads tokens (anchor? (endSlots tokens) (s.start + (j + 1))) ws) := by
  rw [reads_cons_iff]
  constructor
  · rintro ⟨t, ht, hanchor, rfl, hreads⟩
    obtain ⟨row', hrow', u, hu, rfl⟩ := (h.anchor?_eq_iff_inColumn hs hrow hj).1 ⟨ht, hanchor⟩
    have hword : (row'.map (·.text))[j]? = some u.text := by rw [List.getElem?_map, hu]; rfl
    exact ⟨row', hrow', hword, (h.reads_endPosition_iff hs hrow' hu).1 hreads⟩
  · rintro ⟨row', hrow', hw, hreads⟩
    rw [List.getElem?_map] at hw
    obtain ⟨u, hu, rfl⟩ := Option.map_eq_some_iff.1 hw
    exact ⟨_, h.inColumn_mem hs hrow' hu, rfl, rfl, (h.reads_endPosition_iff hs hrow' hu).2 hreads⟩

/-- A reader in a column of a stretch reads across it, and goes on where it ends. -/
theorem reads_inside_iff (h : LaidOut ss tokens) (hs : s ∈ ss) (hrow : row ∈ s.rows)
    (hj : j < row.length) : Reads tokens (anchor? (endSlots tokens) (s.start + j)) ws ↔
      ∃ part rest, ReadAcross s.terms j part ∧ Reads tokens (some s.stop) rest ∧
        part ++ rest = ws := by
  induction ws generalizing row j with
  | nil =>
    have hmem := h.inColumn_mem hs hrow (List.getElem?_eq_getElem hj)
    constructor
    · exact fun hreads => absurd (reads_nil_iff.1 hreads).symm (anchor?_ne_max? hmem)
    · rintro ⟨part, rest, hpart, -, hnil⟩
      obtain ⟨rfl, -⟩ := List.append_eq_nil_iff.1 hnil
      cases hpart
  | cons w ws ih =>
    rw [h.reads_cons_inside_iff hs hrow hj]
    constructor
    · rintro ⟨row', hrow', hw, ⟨hlast, hreads⟩ | ⟨hnext, hreads⟩⟩
      · have hpart : ReadAcross s.terms j [w] :=
          .last (List.mem_map_of_mem hrow') hw (by rwa [List.length_map])
        exact ⟨[w], ws, hpart, hreads, rfl⟩
      · obtain ⟨part, rest, hpart, hrest, rfl⟩ := (ih hrow' hnext).1 hreads
        have hpart : ReadAcross s.terms j (w :: part) :=
          .next (List.mem_map_of_mem hrow') hw (by rwa [List.length_map]) hpart
        exact ⟨w :: part, rest, hpart, hrest, rfl⟩
    · rintro ⟨part, rest, hpart, hrest, heq⟩
      cases part with
      | nil => cases hpart
      | cons w' part =>
        obtain ⟨rfl, rfl⟩ := List.cons_eq_cons.1 heq
        obtain ⟨term, hterm, hw, hcase⟩ := readAcross_cons_iff.1 hpart
        obtain ⟨row', hrow', rfl⟩ := List.mem_map.1 hterm
        rw [List.length_map] at hcase
        refine ⟨row', hrow', hw, hcase.imp ?_ ?_⟩
        · rintro ⟨hlast, rfl⟩
          exact ⟨hlast, hrest⟩
        · rintro ⟨hnext, hpart⟩
          exact ⟨hnext, (ih hrow' hnext).2 ⟨part, rest, hpart, hrest, rfl⟩⟩

/-- The last slot of all is where the last stretch ends. -/
theorem max?_endSlots (h : LaidOut ss tokens) : (endSlots tokens).max? = lastStop ss := by
  rcases List.eq_nil_or_concat ss with rfl | ⟨init, s, rfl⟩
  · rw [lastStop, List.getLast?_nil, Option.map_none, List.max?_eq_none_iff, endSlots,
      List.map_eq_nil_iff]
    refine List.eq_nil_iff_forall_not_mem.2 fun t ht => ?_
    obtain ⟨s, hs, -⟩ := (h.mem_iff t).1 ht
    exact absurd hs List.not_mem_nil
  · rw [List.concat_eq_append] at h ⊢
    rw [lastStop, List.getLast?_append, List.getLast?_singleton]
    refine List.max?_eq_some_iff.2 ⟨h.stop_mem_endSlots (by simp), fun slot hslot => ?_⟩
    obtain ⟨p, hp, -, hstop⟩ := h.exists_stretch_of_mem_endSlots hslot
    rcases List.mem_append.1 hp with hp | hp
    · have hle := (List.pairwise_append.1 h.apart).2.2 p hp s List.mem_cons_self
      exact hstop.trans (hle.trans (Nat.le_add_right _ _))
    · rwa [List.mem_singleton.1 hp] at hstop

theorem reads_from_iff (h : LaidOut (pre ++ post) tokens) : Reads tokens (lastStop pre) ws ↔
    ∃ parts, List.Forall₂ (fun s part => ReadAcross s.terms 0 part) post parts ∧
      parts.flatten = ws := by
  induction post generalizing pre ws with
  | nil =>
    rw [List.append_nil] at h
    rw [← h.max?_endSlots, reads_max?_iff]
    constructor
    · rintro rfl
      exact ⟨[], .nil, rfl⟩
    · rintro ⟨parts, hparts, rfl⟩
      cases hparts
      rfl
  | cons s post ih =>
    have hs : s ∈ pre ++ s :: post := by simp
    obtain ⟨row, hrow, hpos⟩ := (h.fits s hs).exists_row
    have hstop : lastStop (pre ++ [s]) = some s.stop := by
      rw [lastStop, List.getLast?_append, List.getLast?_singleton]
      rfl
    have hrest : ∀ {ws : List String}, Reads tokens (some s.stop) ws ↔
        ∃ parts, List.Forall₂ (fun s part => ReadAcross s.terms 0 part) post parts ∧
          parts.flatten = ws := fun {ws} => by
      rw [← hstop]
      exact ih (by rwa [List.append_assoc, List.singleton_append])
    rw [← h.anchor?_start, ← Nat.add_zero s.start, h.reads_inside_iff hs hrow hpos]
    constructor
    · rintro ⟨part, rest, hpart, hreads, rfl⟩
      obtain ⟨parts, hparts, rfl⟩ := hrest.1 hreads
      exact ⟨part :: parts, .cons hpart hparts, rfl⟩
    · rintro ⟨_, hparts, rfl⟩
      cases hparts with
      | cons hpart hparts => exact ⟨_, _, hpart, hrest.2 ⟨_, hparts, rfl⟩, rfl⟩

/-- What can be read along the tokens is what can be read across one stretch after the other. -/
theorem reads_iff (h : LaidOut ss tokens) : Reads tokens none ws ↔
    ∃ parts, List.Forall₂ (fun s part => ReadAcross s.terms 0 part) ss parts ∧
      parts.flatten = ws :=
  @reads_from_iff [] ss tokens ws h

/-- In a stretch every token goes on to the next of its row, and from the last one to the next
    stretch. -/
theorem noneDangles (h : LaidOut ss tokens) : NoneDangles tokens := by
  intro t ht
  obtain ⟨s, hs, ht⟩ := (h.mem_iff t).1 ht
  obtain ⟨row, hrow, j, u, hu, rfl⟩ := Stretch.mem_tokens_iff.1 ht
  obtain ⟨hj, -⟩ := List.getElem?_eq_some_iff.1 hu
  rw [(h.fits s hs).endPosition_inColumn hrow]
  split
  · obtain ⟨pre, post, rfl⟩ := List.append_of_mem hs
    cases post with
    | nil =>
      rw [h.max?_endSlots, lastStop, List.getLast?_append, List.getLast?_singleton]
      exact .inl rfl
    | cons s' post =>
      have h' : LaidOut ((pre ++ [s]) ++ s' :: post) tokens := by
        rwa [List.append_assoc, List.singleton_append]
      have hs' : s' ∈ pre ++ s :: s' :: post := by simp
      obtain ⟨row', hrow', hpos⟩ := (h.fits s' hs').exists_row
      refine .inr ⟨_, h.inColumn_mem hs' hrow' (List.getElem?_eq_getElem hpos), ?_⟩
      rw [Token.inColumn, Nat.add_zero, h'.anchor?_start, lastStop, List.getLast?_append,
        List.getLast?_singleton]
      rfl
  · have hnext : j + 1 < row.length := by omega
    refine .inr ⟨_, h.inColumn_mem hs hrow (List.getElem?_eq_getElem hnext), ?_⟩
    exact h.anchor?_inner hs hrow hnext

/-- Tokens that begin at one slot are in one column of one stretch. -/
theorem exists_column (h : LaidOut ss tokens) (ht : t ∈ tokens) (hu : u ∈ tokens)
    (heq : t.position = u.position) : ∃ s ∈ ss, ∃ row ∈ s.rows, ∃ row' ∈ s.rows,
      ∃ j, ∃ v v' : Token, row[j]? = some v ∧ row'[j]? = some v' ∧
        v.inColumn s.start s.width row.length j = t ∧
        v'.inColumn s.start s.width row'.length j = u := by
  obtain ⟨s, hs, ht⟩ := (h.mem_iff t).1 ht
  obtain ⟨s', hs', hu⟩ := (h.mem_iff u).1 hu
  have hbounds := (h.fits s hs).bounds ht
  have hbounds' := (h.fits s' hs').bounds hu
  have hsame : s = s' := (h.eq_or_apart hs hs').resolve_right fun hapart => by omega
  subst hsame
  obtain ⟨row, hrow, j, v, hv, rfl⟩ := Stretch.mem_tokens_iff.1 ht
  obtain ⟨row', hrow', j', v', hv', rfl⟩ := Stretch.mem_tokens_iff.1 hu
  obtain rfl : j = j' := Nat.add_left_cancel heq
  exact ⟨s, hs, row, hrow, row', hrow', j, v, v', hv, hv', rfl, rfl⟩

/-- In a single stretch kin in a column end in the next column or at the end, off which nothing
    hangs. -/
theorem slotConsistent (h : LaidOut [s] tokens) : SlotConsistent tokens := by
  rintro k hk j hj hkin hne ⟨v, hv, w, hw, hkv, hjw, -⟩
  have hs : s ∈ [s] := List.mem_singleton.2 rfl
  have hmem : ∀ t ∈ tokens, t ∈ s.tokens := fun t ht => by simpa using (h.mem_iff t).1 ht
  have hbefore : ∀ {i : Nat}, i < tokens.length → ∀ {slot : Nat}, anchorAt tokens i = some slot →
      slot < s.stop := fun hi _ hslot => by
    have hbounds := (h.fits s hs).bounds (hmem _ (tokenAt_mem hi))
    have hle := (anchorAt_eq_some_iff.1 hslot).1.2
    omega
  have hstopk := hbefore hv hkv
  have hstopj := hbefore hw hjw
  have hposition := h.position_eq_of_anchor?_eq (tokenAt_mem hk) (tokenAt_mem hj) hkin.2
  obtain ⟨s', hs', row, hrow, row', hrow', c, u, u', hu, hu', hk, hj⟩ :=
    h.exists_column (tokenAt_mem hk) (tokenAt_mem hj) hposition
  obtain rfl : s = s' := (List.mem_singleton.1 hs').symm
  -- Both are followed by some token, so neither is the last one of its row.
  have hnext : ∀ {row : List Token} {u : Token}, row ∈ s.rows →
      (u.inColumn s.start s.width row.length c).endPosition < s.stop →
      (u.inColumn s.start s.width row.length c).endPosition = s.start + (c + 1) := by
    intro row u hrow hlt
    rw [(h.fits s hs).endPosition_inColumn hrow] at hlt ⊢
    by_cases hlast : c + 1 = row.length
    · rw [if_pos hlast] at hlt
      exact absurd hlt (Nat.lt_irrefl _)
    · exact if_neg hlast
  rw [endAt, ← hk] at hstopk hne
  rw [endAt, ← hj] at hstopj hne
  exact hne ((hnext hrow hstopk).trans (hnext hrow' hstopj).symm)

end LaidOut

end PhraseGraph
