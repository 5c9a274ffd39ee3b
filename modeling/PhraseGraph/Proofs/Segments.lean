import PhraseGraph.Proofs.Rows
import PhraseGraph.Proofs.Stretches

/-!
# The segments of a phrase

The words that survive in a phrase are cut into segments: a word by itself, or a run of words that is a
term, with the other terms of its group (`Segment.IsCut`). Put together, the words of the segments are
the words that were cut (`flatMap_typed_segments`).

Each segment becomes a stretch of slots, with the words as they were typed in one row and the other
terms in rows of their own (`Segment.stretch`). A stretch that is wider than what was typed moves all
that follows by the difference, so the stretches stand one after another, and the slots that stop words
have left empty stay between them (`WordAnalyzer.laidOut_analyze`).
-/

namespace PhraseGraph

open Forest

theorem headD_mem {l : List Token} (h : l ≠ []) : l.headD default ∈ l := by
  rw [List.headD_eq_head?_getD, List.head?_eq_some_head h]
  exact List.head_mem h

theorem getLastD_mem {l : List Token} (h : l ≠ []) : l.getLastD default ∈ l := by
  rw [List.getLastD_eq_getLast?, List.getLast?_eq_some_getLast h]
  exact List.getLast_mem h

/-! ### The terms that are found -/

namespace Synonyms

variable {d : Synonyms} {words group : List String} {bound n : Nat}

theorem group?_of_longestUpTo?_eq_some (h : d.longestUpTo? words bound = some (n, group)) :
    d.group? (" ".intercalate (words.take n)) = some group := by
  induction bound with
  | zero => simp [longestUpTo?] at h
  | succ bound ih =>
    rw [longestUpTo?] at h
    split at h
    · next hgroup =>
      cases h
      exact hgroup
    · exact ih h

theorem longestUpTo?_eq_none (h : ∀ term, d.group? term = none) :
    d.longestUpTo? words bound = none := by
  induction bound with
  | zero => rfl
  | succ bound ih => rw [longestUpTo?, h, ih]

theorem group?_eq_none (h : d.isEmpty = true) (term : String) : d.group? term = none := by
  rw [group?, List.isEmpty_iff.1 h, Option.bind_eq_none_iff]
  exact fun _ _ => rfl

end Synonyms

namespace Segment

/-- The words of the segment as they were typed. -/
def typed : Segment → List Token
  | single t => [t]
  | matched tokens _ => tokens

/-- The words of the terms of the segment, those that were typed first. -/
def terms : Segment → List (List String)
  | single t => [[t.text]]
  | matched tokens alternatives => tokens.map (·.text) :: alternatives

/-- The first word that was typed. -/
def first (s : Segment) : Token := s.typed.headD default

/-- The last word that was typed. -/
def last (s : Segment) : Token := s.typed.getLastD default

/-- The tokens of the terms: the typed words, and synonyms that stand for them. -/
def rows : Segment → List (List Token)
  | single t => [[t]]
  | s@(matched tokens alternatives) =>
    tokens :: alternatives.map (synonymTokens s.first.startOffset s.last.endOffset)

/-- The slots of the segment, moved by `shift`. -/
def stretch (shift : Nat) (s : Segment) : Stretch where
  start := s.first.position + shift
  width := s.width
  rows := s.rows

/-- What is cut from a list of words: a word, or a term with the other terms of its group. -/
inductive IsCut (d : Synonyms) : Segment → Prop
  | single (t : Token) : IsCut d (.single t)
  | matched {typed : List Token} {group : List String} : typed ≠ [] →
      d.group? (" ".intercalate (typed.map (·.text))) = some group →
      IsCut d (.matched typed ((group.filter (· != " ".intercalate (typed.map (·.text)))).map
        Synonyms.termWords))

variable {d : Synonyms} {s : Segment} {shift : Nat}

theorem IsCut.typed_ne_nil (h : s.IsCut d) : s.typed ≠ [] := by
  cases h with
  | single t => exact List.cons_ne_nil _ _
  | matched htyped => exact htyped

theorem IsCut.first_mem (h : s.IsCut d) : s.first ∈ s.typed := headD_mem h.typed_ne_nil

theorem IsCut.last_mem (h : s.IsCut d) : s.last ∈ s.typed := getLastD_mem h.typed_ne_nil

theorem IsCut.ne_nil_of_mem_terms (h : s.IsCut d) {term : List String} (hterm : term ∈ s.terms) :
    term ≠ [] := by
  cases h with
  | single t =>
    rw [List.mem_singleton.1 hterm]
    exact List.cons_ne_nil _ _
  | matched htyped =>
    rcases List.mem_cons.1 hterm with rfl | hterm
    · simpa using htyped
    · obtain ⟨term, -, rfl⟩ := List.mem_map.1 hterm
      exact Synonyms.termWords_ne_nil term

/-- A row has the words that were typed, or those of a term of the group that was found. -/
theorem IsCut.eq_typed_or (h : s.IsCut d) {row : List Token} (hrow : row ∈ s.rows) :
    row = s.typed ∨ ∃ group term, d.group? (" ".intercalate (s.typed.map (·.text))) = some group ∧
      term ∈ group ∧
      row = synonymTokens s.first.startOffset s.last.endOffset (Synonyms.termWords term) := by
  cases h with
  | single t => exact .inl (List.mem_singleton.1 hrow)
  | @matched typed group _ hgroup =>
    refine (List.mem_cons.1 hrow).imp id fun hrow => ?_
    rw [List.map_map] at hrow
    obtain ⟨term, hterm, rfl⟩ := List.mem_map.1 hrow
    exact ⟨group, term, hgroup, (List.mem_filter.1 hterm).1, rfl⟩

theorem IsCut.typed_mem_rows (h : s.IsCut d) : s.typed ∈ s.rows := by
  cases h <;> exact List.mem_cons_self

theorem typedLength_eq : s.typedLength = s.typed.length := by
  cases s <;> rfl

theorem terms_stretch : (s.stretch shift).terms = s.terms := by
  cases s with
  | single t => rfl
  | matched typed alternatives =>
    simp [Stretch.terms, stretch, rows, terms, synonymTokens, Function.comp_def]

/-- No term has more words than the segment is wide. -/
theorem length_le_width {term : List String} (hterm : term ∈ s.terms) : term.length ≤ s.width := by
  cases s with
  | single t =>
    rw [List.mem_singleton.1 hterm]
    exact Nat.le_refl 1
  | matched typed alternatives =>
    -- The width is the largest of the lengths.
    have hfold : ∀ {lengths : List Nat} {n : Nat},
        n ≤ lengths.foldl max n ∧ ∀ m ∈ lengths, m ≤ lengths.foldl max n := by
      intro lengths
      induction lengths with
      | nil => simp
      | cons m lengths ih =>
        intro n
        obtain ⟨hle, hall⟩ := @ih (max n m)
        rw [List.foldl_cons]
        refine ⟨(Nat.le_max_left n m).trans hle, List.forall_mem_cons.2 ⟨?_, hall⟩⟩
        exact (Nat.le_max_right n m).trans hle
    rcases List.mem_cons.1 hterm with rfl | hterm
    · rw [List.length_map]
      exact hfold.1
    · exact hfold.2 _ (List.mem_map_of_mem hterm)

theorem typedLength_le_width : s.typedLength ≤ s.width := by
  cases s with
  | single t => exact Nat.le_refl 1
  | matched typed alternatives =>
    have := length_le_width (s := matched typed alternatives) List.mem_cons_self
    rwa [List.length_map] at this

theorem IsCut.fits (h : s.IsCut d) : (s.stretch shift).Fits := by
  have hrow : ∀ row ∈ s.rows, row.map (·.text) ∈ s.terms := fun row hrow =>
    (@terms_stretch s shift) ▸ List.mem_map_of_mem hrow
  refine ⟨?_, fun row hmem hnil => ?_, fun row hmem => ?_⟩
  · cases s <;> exact List.cons_ne_nil _ _
  · exact h.ne_nil_of_mem_terms (hrow row hmem) (by rw [hnil]; rfl)
  · have := length_le_width (hrow row hmem)
    rwa [List.length_map] at this

/-- The tokens of a segment are those of its stretch. -/
theorem IsCut.tokens_eq (h : s.IsCut d) (hlength : ∀ t ∈ s.typed, t.positionLength = 1) :
    s.tokens shift = (s.stretch shift).tokens := by
  cases h with
  | single t =>
    have ht := hlength t List.mem_cons_self
    simp only [tokens, Stretch.tokens, stretch, rows, width, first, typed, layOut,
      List.flatMap_cons, List.flatMap_nil, List.append_nil, List.headD_cons]
    rw [← ht]
  | @matched typed group htyped hgroup =>
    rw [tokens_matched htyped]
    simp only [Stretch.tokens, stretch, rows, first, last, Segment.typed, List.flatMap_cons,
      List.flatMap_map, List.headD_eq_head?_getD, List.head?_eq_some_head htyped,
      List.getLastD_eq_getLast?, List.getLast?_eq_some_getLast htyped, Option.getD_some]

end Segment

/-! ### Cutting -/

theorem cutSegments_spec {d : Synonyms} {steps : Nat} {tokens : List Token}
    (hsteps : tokens.length ≤ steps) :
    (cutSegments d steps tokens).flatMap Segment.typed = tokens ∧
      ∀ s ∈ cutSegments d steps tokens, s.IsCut d := by
  induction steps generalizing tokens with
  | zero =>
    obtain rfl := List.length_eq_zero_iff.1 (Nat.le_zero.1 hsteps)
    exact ⟨rfl, fun s hs => absurd hs List.not_mem_nil⟩
  | succ steps ih =>
    rcases tokens with _ | ⟨t, rest⟩
    · exact ⟨rfl, fun s hs => absurd hs List.not_mem_nil⟩
    rw [List.length_cons] at hsteps
    rw [cutSegments]
    split
    · obtain ⟨htyped, hcut⟩ := ih (Nat.le_of_succ_le_succ hsteps)
      exact ⟨congrArg (t :: ·) htyped, List.forall_mem_cons.2 ⟨.single t, hcut⟩⟩
    · next n group hsome =>
      obtain ⟨hpos, hn⟩ := Synonyms.of_longestUpTo?_eq_some hsome
      simp only [List.length_map, List.length_take, le_inf_iff] at hn
      have hgroup := Synonyms.group?_of_longestUpTo?_eq_some hsome
      -- The words of the term are the texts of the tokens that are cut.
      rw [← List.map_take, List.take_take, Nat.min_eq_left hn.2.1] at hgroup ⊢
      have hdrop : ((t :: rest).drop n).length ≤ steps := by
        rw [List.length_drop, List.length_cons]
        omega
      obtain ⟨htyped, hcut⟩ := ih hdrop
      refine ⟨?_, List.forall_mem_cons.2 ⟨.matched ?_ hgroup, hcut⟩⟩
      · rw [List.flatMap_cons, htyped]
        exact List.take_append_drop n _
      · simp
        omega

variable {d : Synonyms} {tokens : List Token} {s : Segment} {segs : List Segment} {shift : Nat}

theorem flatMap_typed_segments : (segments d tokens).flatMap Segment.typed = tokens :=
  (cutSegments_spec (Nat.le_refl _)).1

theorem isCut_of_mem_segments (hs : s ∈ segments d tokens) : s.IsCut d :=
  (cutSegments_spec (Nat.le_refl _)).2 s hs

/-! ### Placing -/

/-- The stretches of the segments one after another. Each segment that is wider than its own words
    moves what follows by the difference. -/
def stretches (shift : Nat) : List Segment → List Stretch
  | [] => []
  | s :: rest => s.stretch shift :: stretches (shift + (s.width - s.typedLength)) rest

theorem exists_of_mem_stretches {p : Stretch} (hp : p ∈ stretches shift segs) :
    ∃ s ∈ segs, ∃ shift' ≥ shift, p = s.stretch shift' := by
  induction segs generalizing shift with
  | nil => exact absurd hp List.not_mem_nil
  | cons s segs ih =>
    rcases List.mem_cons.1 hp with rfl | hp
    · exact ⟨s, List.mem_cons_self, shift, Nat.le_refl _, rfl⟩
    · obtain ⟨s', hs', shift', hle, rfl⟩ := ih hp
      exact ⟨s', List.mem_cons_of_mem _ hs', shift', (Nat.le_add_right _ _).trans hle, rfl⟩

theorem exists_mem_stretches (hs : s ∈ segs) : ∃ shift', s.stretch shift' ∈ stretches shift segs := by
  induction segs generalizing shift with
  | nil => exact absurd hs List.not_mem_nil
  | cons s' segs ih =>
    rcases List.mem_cons.1 hs with rfl | hs
    · exact ⟨shift, List.mem_cons_self⟩
    · exact (ih hs).imp fun _ => List.mem_cons_of_mem _

theorem placeSegments_eq (hcut : ∀ s ∈ segs, s.IsCut d)
    (hlength : ∀ t ∈ segs.flatMap Segment.typed, t.positionLength = 1) :
    placeSegments shift segs = (stretches shift segs).flatMap Stretch.tokens := by
  induction segs generalizing shift with
  | nil => rfl
  | cons s segs ih =>
    obtain ⟨hs, hcut⟩ := List.forall_mem_cons.1 hcut
    rw [List.flatMap_cons, List.forall_mem_append] at hlength
    rw [placeSegments, stretches, List.flatMap_cons, hs.tokens_eq hlength.1, ih hcut hlength.2]

/-- Words one after another have room for each other. -/
theorem position_headD_add_length_le {typed : List Token} (hne : typed ≠ []) {u : Token}
    (hrow : typed.Pairwise fun t u => t.position < u.position)
    (hu : ∀ t ∈ typed, t.position < u.position) :
    (typed.headD default).position + typed.length ≤ u.position := by
  induction typed with
  | nil => exact absurd rfl hne
  | cons t typed ih =>
    obtain ⟨ht, hrow⟩ := List.pairwise_cons.1 hrow
    obtain ⟨htu, hu⟩ := List.forall_mem_cons.1 hu
    rw [List.headD_cons, List.length_cons]
    cases typed with
    | nil => exact htu
    | cons v typed =>
      have hle := ih (List.cons_ne_nil _ _) hrow hu
      have hlt := ht v List.mem_cons_self
      rw [List.headD_cons] at hle
      omega

theorem pairwise_stretches (hcut : ∀ s ∈ segs, s.IsCut d)
    (hrow : (segs.flatMap Segment.typed).Pairwise fun t u => t.position < u.position) :
    (stretches shift segs).Pairwise fun p q => p.stop ≤ q.start := by
  induction segs generalizing shift with
  | nil => exact .nil
  | cons s segs ih =>
    obtain ⟨hs, hcut⟩ := List.forall_mem_cons.1 hcut
    rw [List.flatMap_cons, List.pairwise_append] at hrow
    obtain ⟨hrow, hrest, hacross⟩ := hrow
    refine List.pairwise_cons.2 ⟨fun q hq => ?_, ih hcut hrest⟩
    obtain ⟨s', hs', shift', hshift, rfl⟩ := exists_of_mem_stretches hq
    have hfirst : s'.first ∈ segs.flatMap Segment.typed :=
      List.mem_flatMap.2 ⟨s', hs', (hcut s' hs').first_mem⟩
    have hroom := position_headD_add_length_le hs.typed_ne_nil hrow fun t ht =>
      hacross t ht _ hfirst
    have hwidth := Segment.typedLength_le_width (s := s)
    rw [← Segment.typedLength_eq] at hroom
    simp only [Stretch.stop, Segment.stretch, Segment.first] at hroom ⊢
    omega

theorem laidOut_placeSegments (hcut : ∀ s ∈ segs, s.IsCut d)
    (hlength : ∀ t ∈ segs.flatMap Segment.typed, t.positionLength = 1)
    (hrow : (segs.flatMap Segment.typed).Pairwise fun t u => t.position < u.position) :
    LaidOut (stretches shift segs) (placeSegments shift segs) where
  fits p hp := by
    obtain ⟨s, hs, shift', -, rfl⟩ := exists_of_mem_stretches hp
    exact (hcut s hs).fits
  apart := pairwise_stretches hcut hrow
  mem_iff t := by rw [placeSegments_eq hcut hlength, List.mem_flatMap]

/-- Where there are no groups the words stay as they are. -/
theorem placeSegments_segments_of_isEmpty (hempty : d.isEmpty = true) :
    placeSegments 0 (segments d tokens) = tokens := by
  have hcut : ∀ {steps : Nat} {tokens : List Token}, tokens.length ≤ steps →
      cutSegments d steps tokens = tokens.map .single := by
    intro steps
    induction steps with
    | zero =>
      intro tokens hsteps
      obtain rfl := List.length_eq_zero_iff.1 (Nat.le_zero.1 hsteps)
      rfl
    | succ steps ih =>
      intro tokens hsteps
      cases tokens with
      | nil => rfl
      | cons t rest =>
        have hnone : ∀ words, d.longestTerm? words = none := fun words =>
          Synonyms.longestUpTo?_eq_none (Synonyms.group?_eq_none hempty)
        simp only [cutSegments, hnone, List.map_cons, ih (Nat.le_of_succ_le_succ hsteps)]
  rw [segments, hcut (Nat.le_refl _)]
  induction tokens with
  | nil => rfl
  | cons t rest ih => exact congrArg (t :: ·) ih

namespace WordAnalyzer

variable (a : WordAnalyzer) (phrase : String)

/-- The tokens of a phrase are those of its segments. -/
theorem mem_analyze_iff {t : Token} : t ∈ a.analyze phrase ↔
    t ∈ placeSegments 0 (segments a.synonyms (a.survivingWords phrase)) := by
  rw [analyze, withSynonyms]
  split
  · next hempty =>
    rw [placeSegments_segments_of_isEmpty hempty]
  · exact stableSort_perm.mem_iff

/-- The tokens of a phrase stand in the stretches of its segments. -/
theorem laidOut_analyze :
    LaidOut (stretches 0 (segments a.synonyms (a.survivingWords phrase))) (a.analyze phrase) := by
  have hrow := a.inRow_survivingWords phrase
  have hplaced : LaidOut (stretches 0 (segments a.synonyms (a.survivingWords phrase)))
      (placeSegments 0 (segments a.synonyms (a.survivingWords phrase))) := by
    refine laidOut_placeSegments (fun s hs => isCut_of_mem_segments hs) ?_ ?_
    · rw [flatMap_typed_segments]
      exact hrow.positionLength_eq
    · rw [flatMap_typed_segments]
      exact hrow.apart.imp And.left
  exact ⟨hplaced.fits, hplaced.apart, fun t => (a.mem_analyze_iff phrase).trans (hplaced.mem_iff t)⟩

/-- What the forest of a phrase accepts is what can be read across one segment after the other. -/
theorem accepts_analyze_iff {ws : List String} : (ofTokens (a.analyze phrase) phrase).Accepts ws ↔
    ∃ parts, List.Forall₂ (fun (s : Segment) part => ReadAcross s.terms 0 part)
        (segments a.synonyms (a.survivingWords phrase)) parts ∧ parts.flatten = ws := by
  have hforall : ∀ {segs : List Segment} {shift : Nat} {parts : List (List String)},
      List.Forall₂ (fun p part => ReadAcross p.terms 0 part) (stretches shift segs) parts ↔
        List.Forall₂ (fun (s : Segment) part => ReadAcross s.terms 0 part) segs parts := by
    intro segs
    induction segs with
    | nil => simp [stretches]
    | cons s segs ih =>
      intro shift parts
      simp only [stretches, List.forall₂_cons_left_iff, Segment.terms_stretch, ih]
  rw [accepts_iff_reads, (a.laidOut_analyze phrase).reads_iff]
  simp only [hforall]

end WordAnalyzer

end PhraseGraph
