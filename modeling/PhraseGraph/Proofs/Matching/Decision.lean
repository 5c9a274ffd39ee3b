import PhraseGraph.Match
import PhraseGraph.Proofs.Paths

/-!
# What a search decides

A search tries some ways one after another, and the first one that succeeds is the answer. Whatever
the ways are, its outcome is sound if every match that a way finds is right, and complete if each way
finds a match wherever there is a solution that begins with it. `Outcome.Decides` says both at once:
it takes what is right of a match, and whether there is a solution at all. An outcome that decides
the ways one by one decides all of them (`Decides.first`).

The ways to match literal nodes are the pairs that a walk along two sorted lists finds; they are all
the pairs with one text (`mem_alignByText_iff`). With the ways to match nodes that name a variable they
are all that a question tries (`answer_of_ne_nil`).
-/

namespace PhraseGraph

namespace Outcome

/-- A match that is found satisfies `P`, and if none is found then there is no solution. -/
def Decides (P : Match → Prop) (solvable : Prop) : Outcome → Prop
  | found m => P m
  | absent => ¬solvable
  | unfinished => False

variable {P Q : Match → Prop} {p q : Prop} {o : Outcome}

theorem Decides.imp (h : o.Decides P p) (hP : ∀ m, P m → Q m) (hp : q → p) : o.Decides Q q := by
  cases o with
  | found m => exact hP m h
  | absent => exact fun hq => h (hp hq)
  | unfinished => exact h

theorem Decides.orElse {next : Unit → Outcome} (h : o.Decides P p)
    (hnext : (next ()).Decides P q) : (o.orElse next).Decides P (p ∨ q) := by
  cases o with
  | found m => exact h
  | absent => exact hnext.imp (fun _ hm => hm) fun hpq => hpq.resolve_left h
  | unfinished => exact h

theorem Decides.first {α : Type} {ways : List α} {f : α → Outcome} {solvable : α → Prop}
    (h : ∀ way ∈ ways, (f way).Decides P (solvable way)) :
    (Outcome.first ways f).Decides P (∃ way ∈ ways, solvable way) := by
  induction ways with
  | nil => rintro ⟨way, hway, -⟩; exact absurd hway List.not_mem_nil
  | cons way rest ih =>
    have hrest := ih fun way hway => h way (List.mem_cons_of_mem _ hway)
    exact ((h way List.mem_cons_self).orElse hrest).imp (fun _ hm => hm)
      (List.exists_mem_cons_iff _ _ _).1

theorem Decides.bind {next : Match → Outcome} (h : o.Decides Q q)
    (hnext : ∀ m, Q m → (next m).Decides P p) (hp : p → q) : (o.bind next).Decides P p := by
  cases o with
  | found m => exact hnext m h
  | absent => exact fun h' => h (hp h')
  | unfinished => exact h

theorem Decides.prepend {b : Binding} (h : o.Decides (fun m => P (m.prepend b)) p) :
    (o.prepend b).Decides P p := by
  cases o <;> exact h

theorem Decides.isSome_iff (h : o.Decides P p) (hp : ∀ m, P m → p) : o.toOption.isSome ↔ p := by
  cases o with
  | found m => exact iff_of_true rfl (hp m h)
  | absent => exact iff_of_false (by simp [toOption]) h
  | unfinished => exact h.elim

end Outcome

/-! ### Pairs with one text -/

section Align

variable {text pattern : TokenGraph} {ts ps : List NodeId} {t p : NodeId}

theorem mem_of_mem_alignByText (h : (t, p) ∈ alignByText text pattern ts ps) :
    t ∈ ts ∧ p ∈ ps ∧ text.text t = pattern.text p := by
  induction ts generalizing ps with
  | nil => exact absurd h (by simp [alignByText])
  | cons t' ts ih =>
    have hsub := List.dropWhile_subset (fun p => decide (pattern.text p < text.text t')) (l := ps)
    simp only [alignByText] at h
    split at h
    · exact absurd h List.not_mem_nil
    · next p' rest hdrop =>
      rw [hdrop] at hsub
      split at h
      · next heq =>
        rcases List.mem_cons.1 h with h | h
        · obtain ⟨rfl, rfl⟩ := Prod.mk.inj h
          exact ⟨List.mem_cons_self, hsub List.mem_cons_self, (beq_iff_eq.1 heq).symm⟩
        · obtain ⟨ht, hp, htext⟩ := ih h
          exact ⟨List.mem_cons_of_mem _ ht, hsub (List.mem_cons_of_mem _ hp), htext⟩
      · obtain ⟨ht, hp, htext⟩ := ih h
        exact ⟨List.mem_cons_of_mem _ ht, hsub hp, htext⟩

/-- What the walk along the pattern nodes leaves behind comes before the text node. -/
theorem mem_dropWhile_of_le {w : String} (hp : p ∈ ps) (hle : w ≤ pattern.text p)
    (hps : pattern.Ascends ps) : p ∈ ps.dropWhile fun p => decide (pattern.text p < w) := by
  induction ps with
  | nil => exact hp
  | cons p' ps ih =>
    rw [List.dropWhile_cons]
    split
    · next hlt =>
      rcases List.mem_cons.1 hp with rfl | hp
      · exact absurd (of_decide_eq_true hlt) (not_lt.2 hle)
      · exact ih hp hps.of_cons
    · exact hp

theorem mem_alignByText (hts : text.Ascends ts) (hps : pattern.Ascends ps) (ht : t ∈ ts)
    (hp : p ∈ ps) (htext : text.text t = pattern.text p) :
    (t, p) ∈ alignByText text pattern ts ps := by
  induction ts generalizing ps with
  | nil => exact absurd ht List.not_mem_nil
  | cons t' ts ih =>
    obtain ⟨hhead, htail⟩ := List.pairwise_cons.1 hts
    have hle : text.text t' ≤ pattern.text p := by
      rcases List.mem_cons.1 ht with rfl | ht
      · exact htext.le
      · exact htext ▸ (hhead t ht).le
    have hmem := mem_dropWhile_of_le hp hle hps
    have hdropped : pattern.Ascends (ps.dropWhile fun p => decide (pattern.text p < text.text t')) :=
      hps.sublist (List.dropWhile_sublist _)
    simp only [alignByText]
    split
    · next hdrop => exact absurd (hdrop ▸ hmem) List.not_mem_nil
    · next p' rest hdrop =>
      rw [hdrop] at hmem hdropped
      split
      · next heq =>
        -- The walk stands at a pair. It is the one looked for, or that one lies behind it on both
        -- sides, as no text comes twice.
        rcases List.mem_cons.1 ht with rfl | ht
        · have : p = p' := hdropped.eq_of_text hmem List.mem_cons_self
            (htext.symm.trans (beq_iff_eq.1 heq).symm)
          exact this ▸ List.mem_cons_self
        · refine List.mem_cons_of_mem _ (ih htail hdropped.of_cons ht ?_)
          refine (List.mem_cons.1 hmem).resolve_left ?_
          rintro rfl
          exact absurd ((hhead t ht).trans_eq (htext.trans (beq_iff_eq.1 heq))) (lt_irrefl _)
      · next hne =>
        rcases List.mem_cons.1 ht with rfl | ht
        · -- The text node is left behind without a partner: its text comes before all that remain.
          exfalso
          have hlt : text.text t < pattern.text p' := by
            have hnot := List.head?_dropWhile_not
              (fun p => decide (pattern.text p < text.text t)) ps
            rw [hdrop] at hnot
            refine lt_of_le_of_ne (not_lt.1 (by simpa using hnot)) fun h => hne ?_
            exact beq_iff_eq.2 h.symm
          rcases List.mem_cons.1 hmem with rfl | hmem
          · exact absurd htext hlt.ne
          · exact absurd htext (hlt.trans ((List.pairwise_cons.1 hdropped).1 p hmem)).ne
        · exact ih htail hdropped ht hmem

theorem mem_alignByText_iff (hts : text.Ascends ts) (hps : pattern.Ascends ps) :
    (t, p) ∈ alignByText text pattern ts ps ↔
      t ∈ ts ∧ p ∈ ps ∧ text.text t = pattern.text p :=
  ⟨mem_of_mem_alignByText, fun ⟨ht, hp, htext⟩ => mem_alignByText hts hps ht hp htext⟩

end Align

/-! ### The ways to begin a match -/

section Ways

variable {vars : Variables} {text : TokenGraph} {ask : Question → Outcome} {q : Question}
  {t p : NodeId}

theorem mem_values_of_variableAt {pattern : TokenGraph} {v : Variable}
    (h : variableAt? vars pattern p = some v) : v ∈ vars.values := by
  obtain ⟨o, -, hv⟩ := Option.bind_eq_some_iff.1 h
  obtain ⟨e, he, rfl⟩ := Option.map_eq_some_iff.1 hv
  exact List.mem_map_of_mem (List.mem_of_find?_eq_some he)

theorem mem_phrasings_iff {name : String} {values : Dict String (List TokenGraph)}
    {g : TokenGraph} : g ∈ (Variable.table name values).phrasings ↔
      ∃ value, (value, g) ∈ Variable.valuedPhrasings values := by
  simp only [Variable.phrasings, Variable.valuedPhrasings, Dict.values, List.mem_flatten,
    List.mem_map, List.mem_flatMap, Prod.mk.injEq]
  constructor
  · rintro ⟨_, ⟨⟨value, gs⟩, hentry, rfl⟩, hg⟩
    exact ⟨value, (value, gs), hentry, g, hg, rfl, rfl⟩
  · rintro ⟨_, ⟨value, gs⟩, hentry, _, hg, rfl, rfl⟩
    exact ⟨gs, ⟨(value, gs), hentry, rfl⟩, hg⟩

variable (vars text q) in
/-- The ways to begin with a pattern node that names a variable. -/
def variableWays : List (NodeId × NodeId × Variable) :=
  q.textNodes.flatMap fun t => (q.patternNodes.filterMap fun p =>
    (variableAt? vars q.pattern p).map fun v => (p, v)).map fun pv => (t, pv)

variable (vars text q) in
/-- The ways to begin with a literal pattern node. -/
def literalWays : List (NodeId × NodeId) :=
  alignByText text q.pattern q.textNodes
    (q.patternNodes.filter fun p => (variableAt? vars q.pattern p).isNone)

theorem mem_variableWays_iff {v : Variable} : (t, p, v) ∈ variableWays vars q ↔
    t ∈ q.textNodes ∧ p ∈ q.patternNodes ∧ variableAt? vars q.pattern p = some v := by
  simp only [variableWays, List.mem_flatMap, List.mem_map, List.mem_filterMap,
    Option.map_eq_some_iff]
  constructor
  · rintro ⟨_, ht, _, ⟨_, hp, _, hv, rfl⟩, heq⟩
    simp only [Prod.mk.injEq] at heq
    obtain ⟨rfl, rfl, rfl⟩ := heq
    exact ⟨ht, hp, hv⟩
  · rintro ⟨ht, hp, hv⟩
    exact ⟨t, ht, (p, v), ⟨p, hp, v, hv, rfl⟩, rfl⟩

theorem mem_literalWays_iff (hts : text.Ascends q.textNodes)
    (hps : q.pattern.Ascends q.patternNodes) : (t, p) ∈ literalWays vars text q ↔
      t ∈ q.textNodes ∧ (p ∈ q.patternNodes ∧ variableAt? vars q.pattern p = none) ∧
        text.text t = q.pattern.text p := by
  rw [literalWays, mem_alignByText_iff hts (hps.sublist List.filter_sublist), List.mem_filter,
    Option.isNone_iff_eq_none]

/-- Where the pattern ends the text must end too, unless the pattern may end first. -/
theorem answer_of_patternNodes_eq_nil (hps : q.patternNodes = []) : answer text vars ask q =
    if q.textNodes = [] ∨ q.allowPrefix = true then .found { continuation := q.textNodes }
    else .absent := by
  obtain ⟨_ | ⟨t, ts⟩, pattern, ps, _ | _⟩ := q <;> obtain rfl : ps = [] := hps <;> rfl

/-- Where the text ends first there is no match. -/
theorem answer_of_textNodes_eq_nil (hts : q.textNodes = []) (hps : q.patternNodes ≠ []) :
    answer text vars ask q = .absent := by
  obtain ⟨ts, pattern, _ | ⟨p, ps⟩, allowPrefix⟩ := q
  · exact absurd rfl hps
  · obtain rfl : ts = [] := hts
    rfl

/-- Where text nodes and pattern nodes remain, the variables are tried before the literals. -/
theorem answer_of_ne_nil (hts : q.textNodes ≠ []) (hps : q.patternNodes ≠ []) :
    answer text vars ask q =
      (Outcome.first (variableWays vars q) fun (t, p, v) => v.matchAt text ask q t p).orElse
        fun _ => Outcome.first (literalWays vars text q) fun (t, p) =>
          matchLiteral text ask q t p := by
  obtain ⟨_ | ⟨t, ts⟩, pattern, _ | ⟨p, ps⟩, allowPrefix⟩ := q
  · exact absurd rfl hts
  · exact absurd rfl hts
  · exact absurd rfl hps
  · rfl

end Ways

end PhraseGraph
