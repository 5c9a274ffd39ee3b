import PhraseGraph.Proofs.Matching.Decision

/-!
# Patterns without variables

Where no node names a variable, a search walks down two graphs at once, from siblings with one text to
their children, and is over as soon as both nodes are ends, even if other words follow them. So it finds a
match exactly where the two graphs meet (`Meets`), whether their ends have children or not
(`findMatch_isSome_iff_meets`). They meet where both accept the same words (`meets_of_accepts`).
-/

namespace PhraseGraph

/-! ### Graphs that meet -/

/-- Some words lead from the siblings on both sides to ends, or there are no siblings on either side. -/
inductive Meets (text pattern : TokenGraph) : List NodeId → List NodeId → Prop
  | done : Meets text pattern [] []
  | stop {ts ps : List NodeId} {t p : NodeId} : t ∈ ts → p ∈ ps → text.text t = pattern.text p →
      text.isEnd t = true → pattern.isEnd p = true → Meets text pattern ts ps
  | next {ts ps : List NodeId} {t p : NodeId} : t ∈ ts → p ∈ ps → text.text t = pattern.text p →
      Meets text pattern (text.children t) (pattern.children p) → Meets text pattern ts ps

/-- Both nodes are ends, or the graphs meet below them. -/
def MeetsAt (text pattern : TokenGraph) (t p : NodeId) : Prop :=
  (text.isEnd t && pattern.isEnd p) = true ∨
    Meets text pattern (text.children t) (pattern.children p)

section Search

variable {text pattern : TokenGraph} {vars : Variables} {ask : Question → Outcome}
  {ts ps path path' : List NodeId} {t p : NodeId} {n steps : Nat} {ws : List String}

theorem meets_iff_exists_meetsAt (hts : ts ≠ []) : Meets text pattern ts ps ↔
    ∃ t ∈ ts, ∃ p ∈ ps, text.text t = pattern.text p ∧ MeetsAt text pattern t p := by
  constructor
  · intro h
    cases h with
    | done => exact absurd rfl hts
    | @stop _ _ t p ht hp htext hendt hendp =>
      exact ⟨t, ht, p, hp, htext, .inl (Bool.and_eq_true_iff.2 ⟨hendt, hendp⟩)⟩
    | @next _ _ t p ht hp htext h => exact ⟨t, ht, p, hp, htext, .inr h⟩
  · rintro ⟨t, ht, p, hp, htext, hends | h⟩
    · obtain ⟨hendt, hendp⟩ := Bool.and_eq_true_iff.1 hends
      exact .stop ht hp htext hendt hendp
    · exact .next ht hp htext h

theorem meets_nil_iff : Meets text pattern ts [] ↔ ts = [] := by
  refine ⟨fun h => ?_, ?_⟩
  swap
  · rintro rfl
    exact .done
  cases h with
  | done => rfl
  | stop _ hp => exact absurd hp List.not_mem_nil
  | next _ hp => exact absurd hp List.not_mem_nil

variable (text pattern ts ps) in
/-- The outcome tells whether the graphs meet. -/
def TellsMeeting (o : Outcome) : Prop :=
  o.Decides (fun _ => Meets text pattern ts ps) (Meets text pattern ts ps)

theorem matchLiteral_decides_meetsAt {q : Question}
    (h : TellsMeeting text q.pattern (text.children t) (q.pattern.children p)
      (ask { q with textNodes := text.children t, patternNodes := q.pattern.children p })) :
    (matchLiteral text ask q t p).Decides (fun _ => MeetsAt text q.pattern t p)
      (MeetsAt text q.pattern t p) := by
  rw [matchLiteral]
  split
  · next hends => exact .inl hends
  · next hends =>
    exact Outcome.Decides.prepend (Outcome.Decides.imp h (fun _ hmeets => .inr hmeets)
      fun hmeets => hmeets.resolve_left hends)

/-- An answer tells whether the graphs meet, if the answers to the questions below do. -/
theorem answer_tellsMeeting (hvars : ∀ p, variableAt? vars pattern p = none)
    (hts : text.Ascends ts) (hps : pattern.Ascends ps)
    (hask : ∀ t, ∀ p ∈ ps, TellsMeeting text pattern (text.children t) (pattern.children p)
      (ask ⟨text.children t, pattern, pattern.children p, false⟩)) :
    TellsMeeting text pattern ts ps (answer text vars ask ⟨ts, pattern, ps, false⟩) := by
  by_cases hpsnil : ps = []
  · subst hpsnil
    rw [TellsMeeting, meets_nil_iff, answer_of_patternNodes_eq_nil rfl]
    split
    · next hends => exact hends.resolve_right Bool.false_ne_true
    · next hgoes => exact fun hnil => hgoes (.inl hnil)
  by_cases htsnil : ts = []
  · subst htsnil
    rw [answer_of_textNodes_eq_nil rfl hpsnil]
    intro h
    cases h with
    | done => exact hpsnil rfl
    | stop ht => exact absurd ht List.not_mem_nil
    | next ht => exact absurd ht List.not_mem_nil
  -- No pattern node names a variable, so the pairs with one text are all the ways to begin.
  have hvariable : ∀ way ∈ variableWays vars ⟨ts, pattern, ps, false⟩,
      (way.2.2.matchAt text ask ⟨ts, pattern, ps, false⟩ way.1 way.2.1).Decides
        (fun _ => Meets text pattern ts ps) False := by
    rintro ⟨t, p, v⟩ hway
    exact absurd ((hvars p).symm.trans (mem_variableWays_iff.1 hway).2.2) (by simp)
  have hmem : ∀ {t p}, (t, p) ∈ literalWays vars text ⟨ts, pattern, ps, false⟩ ↔
      t ∈ ts ∧ p ∈ ps ∧ text.text t = pattern.text p := fun {t p} => by
    rw [@mem_literalWays_iff vars text ⟨ts, pattern, ps, false⟩ t p hts hps,
      and_iff_left (hvars p)]
  have hliteral : ∀ way ∈ literalWays vars text ⟨ts, pattern, ps, false⟩,
      (matchLiteral text ask ⟨ts, pattern, ps, false⟩ way.1 way.2).Decides
        (fun _ => Meets text pattern ts ps) (MeetsAt text pattern way.1 way.2) := by
    rintro ⟨t, p⟩ hway
    obtain ⟨ht, hp, htext⟩ := hmem.1 hway
    exact (matchLiteral_decides_meetsAt (hask t p hp)).imp
      (fun _ h => (meets_iff_exists_meetsAt htsnil).2 ⟨t, ht, p, hp, htext, h⟩) id
  rw [TellsMeeting, answer_of_ne_nil htsnil hpsnil]
  refine ((Outcome.Decides.first hvariable).orElse (Outcome.Decides.first hliteral)).imp
    (fun _ h => h) fun h => ?_
  obtain ⟨t, ht, p, hp, htext, h⟩ := (meets_iff_exists_meetsAt htsnil).1 h
  exact .inr ⟨(t, p), hmem.2 ⟨ht, hp, htext⟩, h⟩

/-- Where the pattern comes to an end within `n` levels, a search of more steps tells whether the graphs
    meet. -/
theorem search_tellsMeeting (hvars : ∀ p, variableAt? vars pattern p = none)
    (htext : ∀ id, text.Ascends (text.children id))
    (hpattern : ∀ id, pattern.Ascends (pattern.children id)) (hts : text.Ascends ts)
    (hps : pattern.Ascends ps) (hn : pattern.Bounded n ps) (hsteps : n < steps) :
    TellsMeeting text pattern ts ps (search text vars steps ⟨ts, pattern, ps, false⟩) := by
  induction n generalizing ts ps steps with
  | zero =>
    obtain ⟨steps, rfl⟩ := Nat.exists_eq_add_one_of_ne_zero (Nat.ne_zero_of_lt hsteps)
    obtain rfl := hn.eq_nil
    exact answer_tellsMeeting hvars hts hps fun _ _ hp => absurd hp List.not_mem_nil
  | succ n ih =>
    obtain ⟨steps, rfl⟩ := Nat.exists_eq_add_one_of_ne_zero (Nat.ne_zero_of_lt hsteps)
    refine answer_tellsMeeting hvars hts hps fun t p hp => ?_
    exact ih (htext t) (hpattern p) (hn.children hp) (by omega)

/-- Without variables a match is found exactly where the graphs meet. -/
theorem findMatch_isSome_iff_meets (hvars : ∀ p, variableAt? vars pattern p = none)
    (htext : ∀ id, text.Ascends (text.children id)) (hroots : text.Ascends text.roots)
    (hpattern : ∀ id, pattern.Ascends (pattern.children id))
    (hpatternRoots : pattern.Ascends pattern.roots) (hacyclic : pattern.Acyclic) :
    (findMatch text pattern false vars).isSome ↔ Meets text pattern text.roots pattern.roots := by
  have hsteps : pattern.size + 1 < searchBound text vars pattern := by
    rw [searchBound]
    simp only [List.map_cons, List.foldr_cons]
    generalize ((vars.values.flatMap Variable.phrasings).map fun g => g.size + 1).foldr
      (· + ·) 0 = S
    calc pattern.size + 1 < 1 * (1 + (pattern.size + 1 + S)) + 1 := by omega
      _ ≤ 2 * (2 * text.size + 2) * (1 + (pattern.size + 1 + S)) + 1 :=
        Nat.succ_le_succ (Nat.mul_le_mul_right _ (by omega))
  have htells := search_tellsMeeting hvars htext hpattern hroots hpatternRoots
    (hacyclic.bounded pattern.roots) hsteps
  exact Outcome.Decides.isSome_iff htells fun _ h => h

/-- Graphs meet at paths with the same texts to their ends. -/
theorem meets_of_isPath (hpath : text.IsPath ts path) (hpath' : pattern.IsPath ps path')
    (htext : path.map text.text = path'.map pattern.text)
    (hend : ∃ last ∈ path.getLast?, text.isEnd last = true)
    (hend' : ∃ last ∈ path'.getLast?, pattern.isEnd last = true) : Meets text pattern ts ps := by
  induction path generalizing ts ps path' with
  | nil =>
    obtain ⟨last, hlast, -⟩ := hend
    exact absurd hlast (by simp)
  | cons t path ih =>
    cases path' with
    | nil => exact absurd htext (by simp)
    | cons p path' =>
      obtain ⟨htp, htext⟩ := List.cons_eq_cons.1 htext
      cases path with
      | nil =>
        obtain rfl : path' = [] := by simpa using htext.symm
        obtain ⟨last, hlast, hend⟩ := hend
        obtain ⟨last', hlast', hend'⟩ := hend'
        obtain rfl : t = last := by simpa using hlast
        obtain rfl : p = last' := by simpa using hlast'
        exact .stop hpath.1 hpath'.1 htp hend hend'
      | cons c path =>
        cases path' with
        | nil => exact absurd htext (by simp)
        | cons c' path' =>
          rw [List.getLast?_cons_cons] at hend hend'
          exact .next hpath.1 hpath'.1 htp (ih hpath.2 hpath'.2 htext hend hend')

/-- Graphs that accept the same words meet. -/
theorem meets_of_accepts (h : text.Accepts ws) (h' : pattern.Accepts ws) :
    Meets text pattern text.roots pattern.roots := by
  obtain ⟨path, hpath, rfl⟩ := h
  obtain ⟨path', hpath', htext⟩ := h'
  rcases hpath with ⟨hroots, rfl⟩ | ⟨hpath, hend⟩ <;>
    rcases hpath' with ⟨hroots', rfl⟩ | ⟨hpath', hend'⟩
  · rw [hroots, hroots']
    exact .done
  · obtain rfl : path' = [] := by simpa using htext
    obtain ⟨last, hlast, -⟩ := hend'
    exact absurd hlast (by simp)
  · obtain rfl : path = [] := by simpa using htext.symm
    obtain ⟨last, hlast, -⟩ := hend
    exact absurd hlast (by simp)
  · exact meets_of_isPath hpath hpath' htext.symm hend hend'

end Search

end PhraseGraph
