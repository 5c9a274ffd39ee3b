import Mathlib.Data.List.Range
import PhraseGraph.Proofs.LongestTerms
import PhraseGraph.Proofs.Segments

/-!
# Where terms are put

The words of a text are numbered (`Numbered`), and those that are left out leave their slots empty.
What is kept is cut into segments, and each segment gets a place (`Placement`): its words as they
were typed, and the other terms of the group, in rows that begin at one slot, go on from slot to
slot and end at one slot (`StandsIn`).

A place may be wider than the words that were typed, and then all that follows is moved. The shift
grows by just this difference, so between two places there is exactly the gap that the words left
out between them have made (`isChain_placements`). The sort that comes after this mixes the rows of
one place only, as the places stand one after another, and the typed words keep their order
(`exists_laysOut`).
-/

namespace PhraseGraph

open Text

/-! ### Words with numbers -/

/-- Tokens that begin one slot after the other. -/
def Consecutive (row : List Token) : Prop := row.IsChain fun t u => u.position = t.position + 1

/-- Words in consecutive slots, each of one slot, none of them a synonym. -/
structure Numbered (words : List Token) : Prop where
  consecutive : Consecutive words
  positionLength_eq : ∀ t ∈ words, t.positionLength = 1
  not_isSynonym : ∀ t ∈ words, t.isSynonym = false

namespace Numbered

variable {words : List Token}

/-- Other texts in the place of the words change nothing. -/
theorem map_text (h : Numbered words) (f : Token → String) :
    Numbered (words.map fun t => { t with text := f t }) where
  consecutive := List.isChain_map _ |>.2 h.consecutive
  positionLength_eq := List.forall_mem_map.2 h.positionLength_eq
  not_isSynonym := List.forall_mem_map.2 h.not_isSynonym

theorem pairwise_lt (h : Numbered words) : words.Pairwise fun t u => t.position < u.position := by
  have : IsTrans Token fun t u => t.position < u.position := ⟨fun _ _ _ => Nat.lt_trans⟩
  exact List.isChain_iff_pairwise.1 (h.consecutive.imp fun _ _ heq => by omega)

end Numbered

/-- The words of a text are numbered. -/
theorem numbered_words (text : String) : Numbered (words text) where
  consecutive := by
    have hrow : ∀ {position : Nat} {placed : List (Nat × List Char)},
        Consecutive (wordTokens position placed) := by
      intro position placed
      induction placed generalizing position with
      | nil => exact .nil
      | cons p placed ih =>
        cases placed with
        | nil => exact .singleton _
        | cons q placed => exact .cons_cons rfl (@ih (position + 1))
    exact hrow
  positionLength_eq t ht := (of_mem_wordTokens ht).2.1
  not_isSynonym t ht := (of_mem_wordTokens ht).2.2.1

/-- Numbers count the words between. -/
theorem position_of_consecutive {t u : Token} {between after : List Token}
    (h : Consecutive (t :: between ++ u :: after)) :
    u.position = t.position + between.length + 1 := by
  induction between generalizing t with
  | nil => exact (List.isChain_cons_cons.1 h).1
  | cons v between ih =>
    obtain ⟨hv, hrest⟩ := List.isChain_cons_cons.1 h
    rw [ih hrest, hv, List.length_cons]
    omega

theorem position_getLastD {row : List Token} (hne : row ≠ []) (h : Consecutive row) :
    (row.getLastD default).position + 1 = (row.headD default).position + row.length := by
  induction row with
  | nil => exact absurd rfl hne
  | cons t row ih =>
    cases row with
    | nil => rfl
    | cons u row =>
      obtain ⟨hu, hrest⟩ := List.isChain_cons_cons.1 h
      have hlast := ih (List.cons_ne_nil _ _) hrest
      simp only [List.getLastD_cons, List.headD_cons, List.length_cons] at hlast ⊢
      omega

/-- What stands next to each other when some words are left out had only such words between. -/
theorem exists_gap {words before after : List Token} {keep : Token → Bool} {t u : Token}
    (h : words.filter keep = before ++ t :: u :: after) :
    ∃ before gap after, words = before ++ (t :: gap ++ u :: after) ∧ ∀ w ∈ gap, keep w = false := by
  obtain ⟨front, rest, rfl, -, hrest⟩ := List.filter_eq_append_iff.1 h
  obtain ⟨dropped, rest, rfl, -, -, hrest⟩ := List.filter_eq_cons_iff.1 hrest
  obtain ⟨gap, after, rfl, hgap, -, -⟩ := List.filter_eq_cons_iff.1 hrest
  refine ⟨front ++ dropped, gap, after, by simp, fun w hw => ?_⟩
  simpa using hgap w hw

/-! ### Rows -/

/-- The token without its slots. -/
def Token.unplaced (t : Token) : Token := { t with position := 0, positionLength := 1 }

/-- A row from one slot to another one: the tokens begin one slot after the other, each ends where the
    next one begins, and the last one ends where the row does. -/
structure StandsIn (start stop : Nat) (row : List Token) : Prop where
  positions_eq : row.map (·.position) = List.range' start row.length
  meet : row.IsChain fun t u => t.endPosition = u.position
  last_eq : row.getLast?.map (·.endPosition) = some stop

theorem map_unplaced_layOut (start width : Nat) (row : List Token) :
    (layOut start width row).map Token.unplaced = row.map Token.unplaced := by
  induction row generalizing start width with
  | nil => rfl
  | cons t row ih =>
    cases row with
    | nil => rfl
    | cons u row => rw [layOut, List.map_cons, ih, List.map_cons]; rfl

variable {start width : Nat} {row : List Token}

/-- What does not read the slots is the same when a row is laid out. -/
theorem forall_mem_layOut {P : Token → Prop} (hP : ∀ t : Token, P t.unplaced ↔ P t)
    (h : ∀ t ∈ row, P t) : ∀ t ∈ layOut start width row, P t := by
  intro t ht
  have hmem : t.unplaced ∈ row.map Token.unplaced :=
    map_unplaced_layOut start width row ▸ List.mem_map_of_mem ht
  obtain ⟨u, hu, heq⟩ := List.mem_map.1 hmem
  exact (hP t).1 (heq ▸ (hP u).2 (h u hu))

theorem positionLength_pos_of_mem_layOut (hwidth : row.length ≤ width) {t : Token}
    (ht : t ∈ layOut start width row) : 1 ≤ t.positionLength := by
  obtain ⟨j, u, hu, rfl⟩ := mem_layOut_iff.1 ht
  obtain ⟨hj, -⟩ := List.getElem?_eq_some_iff.1 hu
  rw [Token.inColumn]
  split
  · dsimp only
    omega
  · exact Nat.le_refl 1

theorem position_of_mem_layOut (hwidth : row.length ≤ width) {t : Token}
    (ht : t ∈ layOut start width row) : start ≤ t.position ∧ t.position < start + width := by
  obtain ⟨j, u, hu, rfl⟩ := mem_layOut_iff.1 ht
  obtain ⟨hj, -⟩ := List.getElem?_eq_some_iff.1 hu
  exact ⟨Nat.le_add_right _ _, Nat.add_lt_add_left (by omega) _⟩

/-- A row that is laid out stands where it should. -/
theorem standsIn_layOut (hne : row ≠ []) (hwidth : row.length ≤ width) :
    StandsIn start (start + width) (layOut start width row) := by
  induction row generalizing start width with
  | nil => exact absurd rfl hne
  | cons t row ih =>
    rw [List.length_cons] at hwidth
    cases row with
    | nil =>
      refine ⟨rfl, .singleton _, ?_⟩
      have hspan : max width 1 = width := by simpa using hwidth
      simp [layOut, Token.endPosition, Token.span, hspan]
    | cons u row =>
      obtain ⟨hpositions, hmeet, hlast⟩ := @ih (start + 1) (width - 1) (List.cons_ne_nil _ _)
        (by omega)
      rw [layOut]
      obtain ⟨v, rest, hv⟩ : ∃ v rest, layOut (start + 1) (width - 1) (u :: row) = v :: rest := by
        cases row <;> exact ⟨_, _, rfl⟩
      rw [hv] at hpositions hmeet hlast ⊢
      refine ⟨?_, .cons_cons ?_ hmeet, ?_⟩
      · rw [List.map_cons, hpositions]
        rfl
      · rw [List.length_cons, List.range'_succ, List.map_cons] at hpositions
        exact (List.cons_eq_cons.1 hpositions).1.symm
      · rw [List.getLast?_cons_cons, hlast]
        congr 1
        rw [List.length_cons] at hwidth
        omega

theorem pairwise_layOut (hwidth : row.length ≤ width) :
    (layOut start width row).Pairwise fun t u => t.position < u.position := by
  rcases eq_or_ne row [] with rfl | hne
  · exact .nil
  · refine List.pairwise_map.1 ?_
    rw [(standsIn_layOut hne hwidth).positions_eq]
    exact List.pairwise_lt_range' _

/-! ### Segments without gaps -/

theorem consecutive_take_runLength {tokens : List Token} {n : Nat} (hn : n ≤ runLength tokens) :
    Consecutive (tokens.take n) := by
  induction tokens generalizing n with
  | nil =>
    rw [List.take_nil]
    exact .nil
  | cons t rest ih =>
    cases rest with
    | nil =>
      match n with
      | 0 => exact .nil
      | n + 1 =>
        rw [List.take_succ_cons, List.take_nil]
        exact .singleton t
    | cons u rest =>
      match n with
      | 0 => exact .nil
      | 1 => exact .singleton _
      | n + 2 =>
        rw [runLength] at hn
        split at hn
        · next hu => exact .cons_cons (by simpa using hu) (ih (n := n + 1) (by omega))
        · omega

/-- The words of a segment have no empty slots between them. -/
theorem consecutive_typed {d : Synonyms} {steps : Nat} {tokens : List Token} {s : Segment}
    (hs : s ∈ cutSegments d steps tokens) : Consecutive s.typed := by
  induction steps generalizing tokens with
  | zero => exact absurd hs List.not_mem_nil
  | succ steps ih =>
    rcases tokens with _ | ⟨t, rest⟩
    · exact absurd hs List.not_mem_nil
    rw [cutSegments] at hs
    split at hs
    · rcases List.mem_cons.1 hs with rfl | hs
      · exact .singleton t
      · exact ih hs
    · next n group hsome =>
      rcases List.mem_cons.1 hs with rfl | hs
      · have hn := (Synonyms.of_longestUpTo?_eq_some hsome).2
        simp only [List.length_map, List.length_take, le_inf_iff] at hn
        exact consecutive_take_runLength hn.2.1
      · exact ih hs

/-! ### Places -/

/-- The words of the terms that are put in for a segment. -/
def Segment.alternatives : Segment → List (List String)
  | single _ => []
  | matched _ alternatives => alternatives

/-- A segment in its slots. -/
structure Placement where
  /-- The segment. -/
  segment : Segment
  /-- The slot where all rows begin. -/
  start : Nat
  /-- The number of slots that the rows cover. -/
  width : Nat
  /-- The words that were typed. -/
  typed : List Token
  /-- The terms that are put in. -/
  synonyms : List (List Token)

/-- The slot where all rows end. -/
def Placement.stop (p : Placement) : Nat := p.start + p.width

/-- The tokens of all rows. -/
def Placement.tokens (p : Placement) : List Token := p.typed ++ p.synonyms.flatten

/-- The stretch of slots that the place covers. -/
def Placement.stretch (p : Placement) : Stretch where
  start := p.start
  width := p.width
  rows := p.segment.rows

/-- The place of a segment that is moved by `shift` slots. -/
def Segment.place (shift : Nat) (s : Segment) : Placement where
  segment := s
  start := s.first.position + shift
  width := s.width
  typed := layOut (s.first.position + shift) s.width s.typed
  synonyms := s.alternatives.map fun words => layOut (s.first.position + shift) s.width
    (synonymTokens s.first.startOffset s.last.endOffset words)

/-- The places of the segments one after another. Each segment that is wider than its own words moves
    what follows by the difference. -/
def placements (shift : Nat) : List Segment → List Placement
  | [] => []
  | s :: rest => s.place shift :: placements (shift + (s.width - s.typedLength)) rest

/-- The words of a segment stand in its place as they were typed, without empty slots between them, and
    so do the other terms of the group they are found in, as synonyms for all of them. -/
structure Placement.Proper (d : Synonyms) (p : Placement) : Prop where
  consecutive : Consecutive p.segment.typed
  typed_eq : p.typed.map Token.unplaced = p.segment.typed.map Token.unplaced
  standsIn : ∀ row ∈ p.typed :: p.synonyms, StandsIn p.start p.stop row
  stands_for : ∀ row ∈ p.synonyms, ∀ t ∈ row, t.isSynonym = true ∧
    t.startOffset = p.segment.first.startOffset ∧ t.endOffset = p.segment.last.endOffset
  terms_eq : match p.segment with
    | .single _ => p.synonyms = []
    | .matched typed _ => ∃ group, d.group? (" ".intercalate (typed.map (·.text))) = some group ∧
        " ".intercalate (typed.map (·.text)) ∈ group ∧
        p.synonyms.map (·.map (·.text)) =
          (group.filter (· != " ".intercalate (typed.map (·.text)))).map Synonyms.termWords

/-- Between two places there are as many slots as words were left out between their segments. -/
def Spaced (words : List Token) (keep : Token → Bool) (p q : Placement) : Prop :=
  ∃ before gap after, words = before ++ (p.segment.last :: gap ++ q.segment.first :: after) ∧
    (∀ w ∈ gap, keep w = false) ∧ q.start = p.stop + gap.length

namespace Segment

variable {d : Synonyms} {s : Segment} {shift : Nat}

theorem rows_eq : s.rows =
    s.typed :: s.alternatives.map (synonymTokens s.first.startOffset s.last.endOffset) := by
  cases s <;> rfl

theorem tokens_place : (s.place shift).tokens = (s.stretch shift).tokens := by
  simp only [Stretch.tokens, stretch, rows_eq, List.flatMap_cons, List.flatMap_map,
    Placement.tokens, place, ← List.flatMap_def]

theorem length_synonymTokens_le_width {words : List String} (hwords : words ∈ s.alternatives) :
    (synonymTokens s.first.startOffset s.last.endOffset words).length ≤ s.width := by
  have hterms : words ∈ s.terms := by
    cases s with
    | single t => exact absurd hwords List.not_mem_nil
    | matched typed alternatives => exact List.mem_cons_of_mem _ hwords
  simpa [synonymTokens] using length_le_width hterms

theorem length_typed_le_width : s.typed.length ≤ s.width :=
  typedLength_eq (s := s) ▸ typedLength_le_width

theorem IsCut.alternatives_ne_nil (h : s.IsCut d) {words : List String}
    (hwords : words ∈ s.alternatives) : words ≠ [] := by
  cases h with
  | single t => exact absurd hwords List.not_mem_nil
  | matched _ _ =>
    obtain ⟨term, -, rfl⟩ := List.mem_map.1 hwords
    exact Synonyms.termWords_ne_nil term

/-- A row of a place has the slots of the place. -/
theorem IsCut.exists_layOut (h : s.IsCut d) {row : List Token}
    (hrow : row ∈ (s.place shift).typed :: (s.place shift).synonyms) :
    ∃ words ≠ [], words.length ≤ s.width ∧
      row = layOut (s.place shift).start s.width words := by
  rcases List.mem_cons.1 hrow with rfl | hrow
  · exact ⟨s.typed, h.typed_ne_nil, length_typed_le_width, rfl⟩
  · obtain ⟨words, hwords, rfl⟩ := List.mem_map.1 hrow
    refine ⟨_, ?_, length_synonymTokens_le_width hwords, rfl⟩
    simpa [synonymTokens] using h.alternatives_ne_nil hwords

theorem IsCut.positionLength_pos (h : s.IsCut d) {t : Token}
    (ht : t ∈ (s.place shift).tokens) : 1 ≤ t.positionLength := by
  obtain ⟨row, hrow, ht⟩ := List.mem_flatten (L := _ :: _) |>.1 ht
  obtain ⟨words, -, hwidth, rfl⟩ := h.exists_layOut hrow
  exact positionLength_pos_of_mem_layOut hwidth ht

theorem IsCut.proper (hd : d.Sound) (h : s.IsCut d) (hchain : Consecutive s.typed) :
    (s.place shift).Proper d where
  consecutive := hchain
  typed_eq := map_unplaced_layOut _ _ _
  standsIn row hrow := by
    obtain ⟨words, hne, hwidth, rfl⟩ := h.exists_layOut hrow
    exact standsIn_layOut hne hwidth
  stands_for row hrow := by
    obtain ⟨words, -, rfl⟩ := List.mem_map.1 hrow
    refine forall_mem_layOut (fun t => Iff.rfl) fun t ht => ?_
    obtain ⟨text, -, rfl⟩ := List.mem_map.1 ht
    exact ⟨rfl, rfl, rfl⟩
  terms_eq := by
    cases h with
    | single t => rfl
    | @matched typed group htyped hgroup =>
      refine ⟨group, hgroup, (hd.group?_eq_some_iff.1 hgroup).2, ?_⟩
      have htexts : ∀ {start width startOffset endOffset : Nat} {words : List String},
          (layOut start width (synonymTokens startOffset endOffset words)).map (·.text) = words := by
        intro start width startOffset endOffset words
        have hmap := congrArg (List.map (·.text))
          (map_unplaced_layOut start width (synonymTokens startOffset endOffset words))
        simpa [Token.unplaced, synonymTokens, Function.comp_def] using hmap
      simp only [place, alternatives, List.map_map, Function.comp_def, htexts]

/-- The words of a place are those tokens of it that are not synonyms. -/
theorem IsCut.filter_tokens_place (hd : d.Sound) (h : s.IsCut d) (hchain : Consecutive s.typed)
    (hsynonym : ∀ t ∈ s.typed, t.isSynonym = false) :
    ((s.place shift).tokens.filter fun t => !t.isSynonym) = (s.place shift).typed := by
  have hproper : (s.place shift).Proper d := h.proper hd hchain
  have htyped : ∀ t ∈ (s.place shift).typed, t.isSynonym = false :=
    forall_mem_layOut (fun t => Iff.rfl) hsynonym
  rw [Placement.tokens, List.filter_append, List.filter_eq_self.2, List.filter_eq_nil_iff.2,
    List.append_nil]
  · intro t ht
    obtain ⟨row, hrow, ht⟩ := List.mem_flatten.1 ht
    simp [(hproper.stands_for row hrow t ht).1]
  · intro t ht
    simp [htyped t ht]

end Segment

variable {d : Synonyms} {segs : List Segment} {shift : Nat}

theorem exists_of_mem_placements {p : Placement} (hp : p ∈ placements shift segs) :
    ∃ s ∈ segs, ∃ shift' ≥ shift, p = s.place shift' := by
  induction segs generalizing shift with
  | nil => exact absurd hp List.not_mem_nil
  | cons s segs ih =>
    rcases List.mem_cons.1 hp with rfl | hp
    · exact ⟨s, List.mem_cons_self, shift, Nat.le_refl _, rfl⟩
    · obtain ⟨s', hs', shift', hle, rfl⟩ := ih hp
      exact ⟨s', List.mem_cons_of_mem _ hs', shift', (Nat.le_add_right _ _).trans hle, rfl⟩

theorem map_segment_placements : (placements shift segs).map Placement.segment = segs := by
  induction segs generalizing shift with
  | nil => rfl
  | cons s segs ih => rw [placements, List.map_cons, ih]; rfl

/-- Nothing in front of it moves the first place. -/
theorem start_of_mem_head? {p : Placement} (hp : p ∈ (placements 0 segs).head?) :
    p.start = p.segment.first.position := by
  cases segs with
  | nil => exact absurd hp (by simp [placements])
  | cons s segs =>
    rw [placements, List.head?_cons, Option.mem_some_iff] at hp
    subst hp
    rfl

theorem map_stretch_placements :
    (placements shift segs).map Placement.stretch = stretches shift segs := by
  induction segs generalizing shift with
  | nil => rfl
  | cons s segs ih => exact congrArg _ ih

theorem placeSegments_eq_flatMap (hcut : ∀ s ∈ segs, s.IsCut d)
    (hlength : ∀ t ∈ segs.flatMap Segment.typed, t.positionLength = 1) :
    placeSegments shift segs = (placements shift segs).flatMap Placement.tokens := by
  rw [placeSegments_eq hcut hlength, ← map_stretch_placements, List.flatMap_map]
  refine List.flatMap_congr fun p hp => ?_
  obtain ⟨s, -, shift', -, rfl⟩ := exists_of_mem_placements hp
  exact Segment.tokens_place.symm

/-- The places stand one after another. -/
theorem pairwise_placements (hcut : ∀ s ∈ segs, s.IsCut d)
    (hrow : (segs.flatMap Segment.typed).Pairwise fun t u => t.position < u.position) :
    (placements shift segs).Pairwise fun p q => p.stop ≤ q.start := by
  have hapart := @pairwise_stretches _ segs shift hcut hrow
  rw [← map_stretch_placements] at hapart
  exact List.pairwise_map.1 hapart

/-- Between the places of two neighbours there are exactly the slots of the words left out. -/
theorem spaced_place {words before after : List Token} {keep : Token → Bool} {s s' : Segment}
    (hwords : Numbered words) (hs : s.IsCut d) (hs' : s'.IsCut d)
    (hchain : Consecutive s.typed)
    (hkept : words.filter keep = before ++ (s.typed ++ (s'.typed ++ after))) :
    Spaced words keep (s.place shift) (s'.place (shift + (s.width - s.typedLength))) := by
  have hlast : s.typed = s.typed.dropLast ++ [s.last] := by
    rw [Segment.last, List.getLastD_eq_getLast?, List.getLast?_eq_some_getLast hs.typed_ne_nil]
    exact (List.dropLast_concat_getLast hs.typed_ne_nil).symm
  have hfirst : s'.typed = s'.first :: s'.typed.tail := by
    rw [Segment.first, List.headD_eq_head?_getD, List.head?_eq_some_head hs'.typed_ne_nil]
    exact (List.cons_head_tail hs'.typed_ne_nil).symm
  have hneighbours : words.filter keep =
      (before ++ s.typed.dropLast) ++ s.last :: s'.first :: (s'.typed.tail ++ after) := by
    rw [hkept, hlast, hfirst]
    simp
  obtain ⟨front, gap, rest, heq, hgap⟩ := exists_gap hneighbours
  refine ⟨front, gap, rest, heq, hgap, ?_⟩
  -- The shift grows by what the place is wider than the words, so it cancels out.
  have hnext := position_of_consecutive (heq ▸ hwords.consecutive).right_of_append
  have hend := position_getLastD hs.typed_ne_nil hchain
  have hwidth := Segment.typedLength_le_width (s := s)
  rw [← Segment.typedLength_eq] at hend
  simp only [Placement.stop, Segment.place, Segment.first, Segment.last] at hend hnext ⊢
  omega

/-- Between the places of the segments that are cut from the words kept there are exactly the slots of
    the words left out. -/
theorem isChain_placements {words before : List Token} {keep : Token → Bool}
    (hwords : Numbered words) (hcut : ∀ s ∈ segs, s.IsCut d)
    (hchain : ∀ s ∈ segs, Consecutive s.typed)
    (hkept : words.filter keep = before ++ segs.flatMap Segment.typed) :
    (placements shift segs).IsChain (Spaced words keep) := by
  induction segs generalizing before shift with
  | nil => exact .nil
  | cons s segs ih =>
    cases segs with
    | nil => exact .singleton _
    | cons s' segs =>
      obtain ⟨hs, hcut⟩ := List.forall_mem_cons.1 hcut
      obtain ⟨hrow, hrows⟩ := List.forall_mem_cons.1 hchain
      have hrest : words.filter keep =
          (before ++ s.typed) ++ (s' :: segs).flatMap Segment.typed := by
        rw [hkept, List.flatMap_cons, List.append_assoc]
      exact .cons_cons (spaced_place hwords hs (hcut s' List.mem_cons_self) hrow hkept)
        (ih hcut hrows hrest)

theorem filter_placements (hd : d.Sound) (hcut : ∀ s ∈ segs, s.IsCut d)
    (hchain : ∀ s ∈ segs, Consecutive s.typed)
    (hsynonym : ∀ t ∈ segs.flatMap Segment.typed, t.isSynonym = false) :
    (((placements shift segs).flatMap Placement.tokens).filter fun t => !t.isSynonym) =
      (placements shift segs).flatMap Placement.typed := by
  rw [List.filter_flatMap]
  refine List.flatMap_congr fun p hp => ?_
  obtain ⟨s, hs, shift', -, rfl⟩ := exists_of_mem_placements hp
  exact (hcut s hs).filter_tokens_place hd (hchain s hs) fun t ht =>
    hsynonym t (List.mem_flatMap.2 ⟨s, hs, ht⟩)

theorem map_unplaced_placements : ((placements shift segs).flatMap Placement.typed).map
    Token.unplaced = (segs.flatMap Segment.typed).map Token.unplaced := by
  induction segs generalizing shift with
  | nil => rfl
  | cons s segs ih =>
    have hs : (s.place shift).typed.map Token.unplaced = s.typed.map Token.unplaced :=
      map_unplaced_layOut _ _ _
    rw [placements, List.flatMap_cons, List.map_append, hs, ih, List.flatMap_cons, List.map_append]

/-- The typed words stand in ascending slots. -/
theorem pairwise_typed_placements (hcut : ∀ s ∈ segs, s.IsCut d)
    (hrow : (segs.flatMap Segment.typed).Pairwise fun t u => t.position < u.position) :
    ((placements shift segs).flatMap Placement.typed).Pairwise
      fun t u => t.position < u.position := by
  refine List.pairwise_flatMap.2 ⟨fun p hp => ?_, ?_⟩
  · obtain ⟨s, -, shift', -, rfl⟩ := exists_of_mem_placements hp
    exact pairwise_layOut Segment.length_typed_le_width
  · refine (pairwise_placements hcut hrow).imp_of_mem fun hp hq hle t ht u hu => ?_
    obtain ⟨s, -, shift', -, rfl⟩ := exists_of_mem_placements hp
    obtain ⟨s', -, shift'', -, rfl⟩ := exists_of_mem_placements hq
    exact (position_of_mem_layOut Segment.length_typed_le_width ht).2.trans_le
      (hle.trans (position_of_mem_layOut Segment.length_typed_le_width hu).1)

/-! ### The tokens of a phrase -/

theorem pairwise_bySlot {tokens : List Token} :
    (bySlot tokens).Pairwise fun t u => t.position ≤ u.position := by
  simp only [bySlot, stableSort_eq, decide_eq_true_iff]
  have : Std.Total fun t u : Token => t.position ≤ u.position := ⟨fun t u => Nat.le_total _ _⟩
  have : IsTrans Token fun t u => t.position ≤ u.position := ⟨fun _ _ _ => Nat.le_trans⟩
  exact List.pairwise_insertionSort _ tokens

/-- Words in order are sorted where there are no groups, too. -/
theorem withSynonyms_eq {tokens : List Token}
    (h : tokens.Pairwise fun t u => t.position < u.position) :
    withSynonyms d tokens = bySlot (placeSegments 0 (segments d tokens)) := by
  rw [withSynonyms]
  split
  · next hempty =>
    rw [placeSegments_segments_of_isEmpty hempty]
    exact (stableSort_of_pairwise (h.imp fun hlt => by simpa using Nat.le_of_lt hlt)).symm
  · rfl

/-- The tokens of the words that are kept, when their segments have the given places: the typed
    words come as they were, every segment has a proper place, and between the places there are as
    many slots as words were left out. -/
structure LaysOut (d : Synonyms) (words : List Token) (keep : Token → Bool)
    (placed : List Placement) (output : List Token) : Prop where
  typed_eq : (output.filter fun t => !t.isSynonym).map Token.unplaced =
    (words.filter keep).map Token.unplaced
  sorted : output.Pairwise fun t u => t.position ≤ u.position
  positionLength_pos : ∀ t ∈ output, 1 ≤ t.positionLength
  segments_eq : placed.map Placement.segment = segments d (words.filter keep)
  covers : placed.flatMap (·.segment.typed) = words.filter keep
  perm : output.Perm (placed.flatMap Placement.tokens)
  proper : ∀ p ∈ placed, p.Proper d
  start_eq : ∀ p ∈ placed.head?, p.start = p.segment.first.position
  spaced : placed.IsChain (Spaced words keep)

/-- **Synonyms are laid out consistently.** Of numbered words, some of which are left out, every segment
    has its place among the tokens. -/
theorem exists_laysOut {groups : List (List String)} {words : List Token}
    (hd : Synonyms.ofGroups groups = .ok d) (hwords : Numbered words) (keep : Token → Bool) :
    ∃ placed, LaysOut d words keep placed (withSynonyms d (words.filter keep)) := by
  have hsound := Synonyms.sound_ofGroups hd
  have hcut : ∀ s ∈ segments d (words.filter keep), s.IsCut d := fun s => isCut_of_mem_segments
  have hchain : ∀ s ∈ segments d (words.filter keep), Consecutive s.typed := fun s =>
    consecutive_typed
  have hflat : (segments d (words.filter keep)).flatMap Segment.typed = words.filter keep :=
    flatMap_typed_segments
  have hkept : words.filter keep = [] ++ (segments d (words.filter keep)).flatMap Segment.typed :=
    hflat.symm
  have hsegments : (placements 0 (segments d (words.filter keep))).map Placement.segment =
      segments d (words.filter keep) := map_segment_placements
  -- The words of the segments are those that are kept, and have the properties of all words.
  have hrow := hwords.pairwise_lt.filter keep
  have hlength : ∀ t ∈ words.filter keep, t.positionLength = 1 := fun t ht =>
    hwords.positionLength_eq t (List.mem_filter.1 ht).1
  have hsynonym : ∀ t ∈ words.filter keep, t.isSynonym = false := fun t ht =>
    hwords.not_isSynonym t (List.mem_filter.1 ht).1
  have hout := withSynonyms_eq (d := d) hrow
  rw [← hflat] at hrow hlength hsynonym
  rw [placeSegments_eq_flatMap hcut hlength] at hout
  have hperm : (withSynonyms d (words.filter keep)).Perm
      ((placements 0 (segments d (words.filter keep))).flatMap Placement.tokens) :=
    hout ▸ stableSort_perm
  refine ⟨placements 0 (segments d (words.filter keep)), {
    typed_eq := ?_
    sorted := hout ▸ pairwise_bySlot
    positionLength_pos := fun t ht => ?_
    segments_eq := hsegments
    covers := ?_
    perm := hperm
    proper := fun p hp => ?_
    start_eq := fun p => start_of_mem_head?
    spaced := isChain_placements hwords hcut hchain hkept }⟩
  · -- The typed words stand in order before the sort.
    have hfilter := @filter_placements d _ 0 hsound hcut hchain hsynonym
    rw [hout, bySlot, filter_stableSort, hfilter, map_unplaced_placements, hflat]
    rw [hfilter]
    exact (pairwise_typed_placements hcut hrow).imp fun hlt => by simpa using Nat.le_of_lt hlt
  · obtain ⟨p, hp, ht⟩ := List.mem_flatMap.1 (hperm.mem_iff.1 ht)
    obtain ⟨s, hs, shift, -, rfl⟩ := exists_of_mem_placements hp
    exact (hcut s hs).positionLength_pos ht
  · rw [← List.flatMap_map, hsegments, hflat]
  · obtain ⟨s, hs, shift, -, rfl⟩ := exists_of_mem_placements hp
    exact (hcut s hs).proper hsound (hchain s hs)

namespace Example

/-- An analyzer that knows a city by two names and leaves out some words. -/
def travel : WordAnalyzer :=
  { withGroups [["new york", "big apple city"]] with
    stopWords := WordAnalyzer.stopWordsOf ["in", "the"] }

/-- The longer name moves the last word by a slot, and the slots of the words that are left out stay
    empty. -/
theorem lays_out_jazz : Synonyms.ofGroups [["new york", "big apple city"]] = .ok travel.synonyms ∧
    Numbered ((words "Jazz in New York the day").map fun t => { t with text := lowercase t.text }) ∧
    (travel.analyze "Jazz in New York the day").map
      (fun t => (t.text, t.position, t.positionLength)) =
        [("jazz", 0, 1), ("new", 2, 1), ("big", 2, 1), ("york", 3, 2), ("apple", 3, 1),
          ("city", 4, 1), ("day", 6, 1)] ∧
    ∃ placed, LaysOut travel.synonyms
      ((words "Jazz in New York the day").map fun t => { t with text := lowercase t.text })
      (fun t => !travel.stopWords.contains t.text) placed
      (travel.analyze "Jazz in New York the day") := by
  have hd : Synonyms.ofGroups [["new york", "big apple city"]] = .ok travel.synonyms :=
    ofGroups_eq_ok (by decide +kernel)
  have hwords := (numbered_words "Jazz in New York the day").map_text fun t => lowercase t.text
  exact ⟨hd, hwords, by decide +kernel, exists_laysOut hd hwords _⟩

end Example

end PhraseGraph
