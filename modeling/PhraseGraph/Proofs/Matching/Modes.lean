import PhraseGraph.Proofs.Matching.Depth
import PhraseGraph.Proofs.Matching.Tiling

/-!
# Prefix mode and full mode

In full mode a match takes the whole text; in prefix mode it may leave something over. The searches in
the two modes need not go the same way, as the first success wins: in prefix mode a way may succeed that
fails in full mode. But up to there both have tried the same ways, and phrasings are matched in prefix
mode in either of them. So at every depth, where the search in prefix mode finds nothing the one in full
mode finds nothing, and a match in prefix mode that leaves nothing over is the match in full mode
(`Outcome.Covers`). Each kind of way keeps that, and so does a whole search (`covers_search`).

Main statement: `matchSiblings_modes`.
-/

namespace PhraseGraph

namespace Outcome

/-- Where `o'`, in prefix mode, is a failure or leaves nothing over, `o`, in full mode, is the same. -/
structure Covers (o' o : Outcome) : Prop where
  absent : o' = absent → o = absent
  found : ∀ m, o' = found m → m.continuation = [] → o = found m

section Covers

variable {o o' : Outcome}

theorem Covers.refl (o : Outcome) : o.Covers o := ⟨id, fun _ hm _ => hm⟩

theorem Covers.orElse {next next' : Unit → Outcome} (h : o'.Covers o)
    (hnext : (next' ()).Covers (next ())) : (o'.orElse next').Covers (o.orElse next) := by
  cases o' with
  | found m =>
    refine ⟨fun habs => absurd habs (by simp [Outcome.orElse]), fun m' hm' hnil => ?_⟩
    cases hm'
    rw [h.found m rfl hnil]
    rfl
  | absent =>
    rw [h.absent rfl]
    exact hnext
  | unfinished => exact ⟨fun habs => absurd habs (by simp [Outcome.orElse]), fun m' hm' =>
      absurd hm' (by simp [Outcome.orElse])⟩

theorem Covers.first {α : Type} {ways : List α} {f f' : α → Outcome}
    (h : ∀ way ∈ ways, (f' way).Covers (f way)) :
    (Outcome.first ways f').Covers (Outcome.first ways f) := by
  induction ways with
  | nil => exact Covers.refl _
  | cons way rest ih =>
    exact (h way List.mem_cons_self).orElse (ih fun way hway => h way (List.mem_cons_of_mem _ hway))

theorem Covers.bind {next next' : Match → Outcome} (o : Outcome)
    (hnext : ∀ m, (next' m).Covers (next m)) : (o.bind next').Covers (o.bind next) := by
  cases o with
  | found m => exact hnext m
  | absent => exact Covers.refl _
  | unfinished => exact Covers.refl _

theorem Covers.prepend {b : Binding} (h : o'.Covers o) : (o'.prepend b).Covers (o.prepend b) := by
  cases o' with
  | found m =>
    refine ⟨fun habs => absurd habs (by simp [Outcome.prepend, Outcome.bind]), fun m' hm' hnil => ?_⟩
    cases hm'
    rw [h.found m rfl hnil]
    rfl
  | absent =>
    rw [h.absent rfl]
    exact Covers.refl _
  | unfinished => exact ⟨fun habs => absurd habs (by simp [Outcome.prepend, Outcome.bind]),
      fun m' hm' => absurd hm' (by simp [Outcome.prepend, Outcome.bind])⟩

end Covers

end Outcome

/-- The question in the given mode. -/
def Question.inMode (q : Question) (allowPrefix : Bool) : Question :=
  { q with allowPrefix := allowPrefix }

theorem Question.pattern_inMode (q : Question) (allowPrefix : Bool) :
    (q.inMode allowPrefix).pattern = q.pattern := rfl

section Modes

variable {text : TokenGraph} {vars : Variables} {ask : Question → Outcome} {q : Question}
  {t p : NodeId}

section Answer

variable (hask : ∀ q : Question, (ask (q.inMode true)).Covers (ask (q.inMode false)))
include hask

theorem covers_matchAt (v : Variable) :
    (v.matchAt text ask (q.inMode true) t p).Covers (v.matchAt text ask (q.inMode false) t p) := by
  cases v with
  | year start =>
    rw [Variable.matchAt, Variable.matchAt]
    split
    · exact Outcome.Covers.refl _
    · exact (hask { q with textNodes := _, patternNodes := _ }).prepend
  | table name values =>
    refine Outcome.Covers.first fun way _ => ?_
    obtain ⟨value, phrasing⟩ := way
    -- Either mode asks the same question about the phrasing.
    refine Outcome.Covers.bind _ fun start => ?_
    exact (hask { q with textNodes := start.continuation, patternNodes := _ }).prepend

theorem covers_matchLiteral : (matchLiteral text ask (q.inMode true) t p).Covers
    (matchLiteral text ask (q.inMode false) t p) := by
  rw [matchLiteral, matchLiteral, Question.pattern_inMode, Question.pattern_inMode]
  by_cases hend : (text.isEnd t && q.pattern.isEnd p) = true
  · rw [if_pos hend, if_pos hend]
    exact Outcome.Covers.refl _
  · rw [if_neg hend, if_neg hend]
    exact (hask { q with textNodes := _, patternNodes := _ }).prepend

theorem covers_answer : (answer text vars ask (q.inMode true)).Covers
    (answer text vars ask (q.inMode false)) := by
  by_cases hps : q.patternNodes = []
  · rw [answer_of_patternNodes_eq_nil (q := q.inMode true) hps,
      answer_of_patternNodes_eq_nil (q := q.inMode false) hps, if_pos (.inr rfl)]
    refine ⟨fun habs => absurd habs (by simp), fun m hm hnil => ?_⟩
    cases hm
    -- Nothing is left over, so the text is over with the pattern.
    have hts : q.textNodes = [] := hnil
    exact (if_pos (.inl hts)).trans (congrArg (fun ids => Outcome.found ⟨[], ids⟩) rfl)
  by_cases hts : q.textNodes = []
  · rw [answer_of_textNodes_eq_nil (q := q.inMode true) hts hps,
      answer_of_textNodes_eq_nil (q := q.inMode false) hts hps]
    exact Outcome.Covers.refl _
  rw [answer_of_ne_nil (q := q.inMode true) hts hps,
    answer_of_ne_nil (q := q.inMode false) hts hps]
  exact (Outcome.Covers.first fun ⟨t, p, v⟩ _ => covers_matchAt hask v).orElse
    (Outcome.Covers.first fun ⟨t, p⟩ _ => covers_matchLiteral hask)

end Answer

theorem covers_search (steps : Nat) (q : Question) :
    (search text vars steps (q.inMode true)).Covers (search text vars steps (q.inMode false)) := by
  induction steps generalizing q with
  | zero => exact Outcome.Covers.refl _
  | succ steps ih => exact covers_answer ih

end Modes

/-- **Prefix mode extends full mode.** Where the search in prefix mode ends, it finds a match if the
    search in full mode does. A match in full mode leaves nothing over, and a match in prefix mode that
    leaves nothing over is the match in full mode. -/
theorem matchSiblings_modes {text pattern : TokenGraph} {textNodes patternNodes : List NodeId}
    {vars : Variables} (hends : Ends text vars ⟨textNodes, pattern, patternNodes, true⟩) :
    ((matchSiblings text textNodes pattern patternNodes false vars).isSome →
      (matchSiblings text textNodes pattern patternNodes true vars).isSome) ∧
    (∀ m, matchSiblings text textNodes pattern patternNodes false vars = some m →
      m.continuation = []) ∧
    (∀ m, matchSiblings text textNodes pattern patternNodes true vars = some m →
      m.continuation = [] →
        matchSiblings text textNodes pattern patternNodes false vars = some m) := by
  have hcovers := @covers_search text vars (searchBound text vars pattern)
    ⟨textNodes, pattern, patternNodes, true⟩
  refine ⟨fun hfound => ?_, fun m hm => ?_, fun m hm hnil => ?_⟩
  · obtain ⟨m, hm⟩ := Option.isSome_iff_exists.1 hfound
    rw [matchSiblings_eq_some_iff] at hm
    -- The search in prefix mode ends, and it does not fail, as the one in full mode would fail too.
    cases hprefix : search text vars (searchBound text vars pattern)
        ⟨textNodes, pattern, patternNodes, true⟩ with
    | found m' => exact Option.isSome_iff_exists.2 ⟨m', matchSiblings_eq_some_iff.2 hprefix⟩
    | absent => exact absurd (hm.symm.trans (hcovers.absent hprefix)) (by simp)
    | unfinished => exact absurd hprefix (ends_iff.1 hends)
  · exact (derives_search m (matchSiblings_eq_some_iff.1 hm)).continuation_eq_nil rfl
  · exact matchSiblings_eq_some_iff.2 (hcovers.found m (matchSiblings_eq_some_iff.1 hm) hnil)

namespace Example

/-- A text that ends with a town. -/
def toVienna : TokenGraph := graphOf "visit 2019 old Vienna"

/-- A pattern that ends with a town. -/
def toTown : TokenGraph := graphOf "visit $Year $Town"

/-- The pattern takes the whole text, and both modes find the same match. -/
theorem toVienna_modes : ∃ m,
    matchSiblings toVienna toVienna.roots toTown toTown.roots true yearsAndTowns = some m ∧
    matchSiblings toVienna toVienna.roots toTown toTown.roots false yearsAndTowns = some m := by
  have hends : Ends toVienna yearsAndTowns ⟨toVienna.roots, toTown, toTown.roots, true⟩ :=
    ⟨5, by decide +kernel⟩
  obtain ⟨m, hm, hnil⟩ : ∃ m, matchSiblings toVienna toVienna.roots toTown toTown.roots true
      yearsAndTowns = some m ∧ m.continuation = [] := by decide +kernel
  exact ⟨m, hm, (matchSiblings_modes hends).2.2 m hm hnil⟩

end Example

end PhraseGraph
