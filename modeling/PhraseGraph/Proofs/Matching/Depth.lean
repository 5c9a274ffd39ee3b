import Mathlib.Data.Finset.Card
import Mathlib.Order.Monotone.Basic
import Mathlib.Tactic.Ring
import PhraseGraph.Proofs.Matching.Derivations

/-!
# How deep a search goes

A search answers a question with the answers to others, to a certain depth, and is given up where it
would go deeper. A search that is not given up has the same outcome at every greater depth
(`search_eq_of_le`), so a question has one answer, or none because the search would never end.

The bound of a search makes no difference to that: if a search ends at all, then it ends within the
bound (`ends_iff`), whatever the graphs, the variables and the first siblings are. The proof
counts the questions. At each depth, a search of some of them is given up. If those are the same ones at
two depths in a row, then nothing changes from there on, as all that an answer depends on is the answers
to the questions that it asks (`extends_answer`). So at each depth until then one question more is
answered (`stableFrom_card`).

The questions that a search comes to are few. Their pattern nodes are those of one of the places in the
pattern and in the phrasings (`patternPlaces`), and their text nodes are the first ones, one node, or
the children of one. A node outside the text has no children; questions about it lead to no others, which
are counted first.
-/

namespace PhraseGraph

namespace Outcome

/-- The outcome `o'` is that of a search that goes on where one with the outcome `o` is given up. -/
def Extends (o' o : Outcome) : Prop := o ≠ unfinished → o' = o

section Extends

variable {o o' o'' : Outcome}

theorem Extends.trans (h' : o''.Extends o') (h : o'.Extends o) : o''.Extends o := fun ho => by
  have heq := h ho
  rw [← heq] at ho
  rw [h' ho, heq]

theorem Extends.antisymm (h' : o'.Extends o) (h : o.Extends o') : o' = o := by
  by_cases ho : o = unfinished
  · by_contra hne
    exact hne (h (ho ▸ hne)).symm
  · exact h' ho

theorem Extends.orElse {next next' : Unit → Outcome} (h : o'.Extends o)
    (hnext : (next' ()).Extends (next ())) : (o'.orElse next').Extends (o.orElse next) := by
  cases o with
  | found m => rw [h (by simp)]; exact fun _ => rfl
  | absent => rw [h (by simp)]; exact hnext
  | unfinished => exact fun ho => absurd rfl ho

theorem Extends.first {α : Type} {ways : List α} {f f' : α → Outcome}
    (h : ∀ way ∈ ways, (f' way).Extends (f way)) :
    (Outcome.first ways f').Extends (Outcome.first ways f) := by
  induction ways with
  | nil => exact fun _ => rfl
  | cons way rest ih =>
    exact (h way List.mem_cons_self).orElse (ih fun way hway => h way (List.mem_cons_of_mem _ hway))

theorem Extends.bind {next next' : Match → Outcome} (h : o'.Extends o)
    (hnext : ∀ m, o = found m → (next' m).Extends (next m)) :
    (o'.bind next').Extends (o.bind next) := by
  cases o with
  | found m => rw [h (by simp)]; exact hnext m rfl
  | absent => rw [h (by simp)]; exact fun _ => rfl
  | unfinished => exact fun ho => absurd rfl ho

theorem Extends.prepend {b : Binding} (h : o'.Extends o) : (o'.prepend b).Extends (o.prepend b) :=
  h.bind fun _ _ _ => rfl

end Extends

end Outcome

/-! ### What a question asks -/

/-- The questions that a question may lead to, where the phrasings are answered by `ask`. -/
inductive Asks (text : TokenGraph) (vars : Variables) (ask : Question → Outcome) (q : Question) :
    Question → Prop
  /-- What follows a text node and a pattern node. -/
  | below {t p : NodeId} (ht : t ∈ q.textNodes) (hp : p ∈ q.patternNodes) : Asks text vars ask q
      { q with textNodes := text.children t, patternNodes := q.pattern.children p }
  /-- A phrasing at a text node. -/
  | phrasing {t : NodeId} {v : Variable} {g : TokenGraph} (ht : t ∈ q.textNodes)
      (hv : v ∈ vars.values) (hg : g ∈ v.phrasings) : Asks text vars ask q ⟨[t], g, g.roots, true⟩
  /-- What follows a phrasing and a pattern node. -/
  | rest {t p : NodeId} {v : Variable} {g : TokenGraph} {start : Match} (ht : t ∈ q.textNodes)
      (hp : p ∈ q.patternNodes) (hv : v ∈ vars.values) (hg : g ∈ v.phrasings)
      (hstart : ask ⟨[t], g, g.roots, true⟩ = .found start) : Asks text vars ask q
      { q with textNodes := start.continuation, patternNodes := q.pattern.children p }

section Asks

variable {text : TokenGraph} {vars : Variables} {ask ask' : Question → Outcome} {q q' : Question}
  {t p : NodeId}

section Answer

variable (h : ∀ q', Asks text vars ask q q' → (ask' q').Extends (ask q'))
include h

theorem extends_matchAt {v : Variable} (ht : t ∈ q.textNodes) (hp : p ∈ q.patternNodes)
    (hv : v ∈ vars.values) :
    (v.matchAt text ask' q t p).Extends (v.matchAt text ask q t p) := by
  cases v with
  | year start =>
    rw [Variable.matchAt, Variable.matchAt]
    split
    · exact fun _ => rfl
    · exact (h _ (.below ht hp)).prepend
  | table name values =>
    refine Outcome.Extends.first fun way hway => ?_
    obtain ⟨value, g⟩ := way
    have hg : g ∈ (Variable.table name values).phrasings := mem_phrasings_iff.2 ⟨value, hway⟩
    refine (h _ (.phrasing ht hv hg)).bind fun start hstart => ?_
    exact (h _ (.rest ht hp hv hg hstart)).prepend

theorem extends_matchLiteral (ht : t ∈ q.textNodes) (hp : p ∈ q.patternNodes) :
    (matchLiteral text ask' q t p).Extends (matchLiteral text ask q t p) := by
  rw [matchLiteral, matchLiteral]
  split
  · exact fun _ => rfl
  · exact (h _ (.below ht hp)).prepend

/-- An answer depends only on the answers to what is asked. -/
theorem extends_answer : (answer text vars ask' q).Extends (answer text vars ask q) := by
  by_cases hps : q.patternNodes = []
  · rw [answer_of_patternNodes_eq_nil hps, answer_of_patternNodes_eq_nil hps]
    exact fun _ => rfl
  by_cases hts : q.textNodes = []
  · rw [answer_of_textNodes_eq_nil hts hps, answer_of_textNodes_eq_nil hts hps]
    exact fun _ => rfl
  rw [answer_of_ne_nil hts hps, answer_of_ne_nil hts hps]
  refine (Outcome.Extends.first ?_).orElse (Outcome.Extends.first ?_)
  · intro ⟨t, p, v⟩ hway
    obtain ⟨ht, hp, hv⟩ := mem_variableWays_iff.1 hway
    exact extends_matchAt h ht hp (mem_values_of_variableAt hv)
  · intro ⟨t, p⟩ hway
    obtain ⟨ht, hp, -⟩ := mem_of_mem_alignByText hway
    exact extends_matchLiteral h ht (List.mem_of_mem_filter hp)

end Answer

/-- What is asked is about text nodes that the text reaches from those of the question. -/
theorem Asks.textNodes {K : List NodeId → Prop} (hK : text.ClosedUnder K)
    (hask : ∀ q, (ask q).Ensures (Derives text vars q)) (h : Asks text vars ask q q')
    (hq : K q.textNodes) : K q'.textNodes := by
  cases h with
  | below ht _ => exact hK.children _ hq _ ht
  | phrasing ht _ _ => exact hK.single _ hq _ ht
  | rest ht _ _ _ hstart => exact (hask _ _ hstart).continuation hK (hK.single _ hq _ ht)

end Asks

/-! ### More depth -/

section Depth

variable {text : TokenGraph} {vars : Variables} {q : Question} {n m k : Nat}

theorem extends_search_succ (n : Nat) (q : Question) :
    (search text vars (n + 1) q).Extends (search text vars n q) := by
  induction n generalizing q with
  | zero => exact fun h => absurd rfl h
  | succ n ih => exact extends_answer fun q' _ => ih q'

theorem extends_search_of_le (hle : n ≤ m) :
    (search text vars m q).Extends (search text vars n q) := by
  induction hle with
  | refl => exact fun _ => rfl
  | step _ ih => exact (extends_search_succ _ q).trans ih

/-- A search that ends has the same outcome at every greater depth. -/
theorem search_eq_of_le (hle : n ≤ m) (h : search text vars n q ≠ .unfinished) :
    search text vars m q = search text vars n q :=
  extends_search_of_le hle h

/-- From the depth `k` on, the outcome of the search does not depend on the depth. -/
def StableFrom (text : TokenGraph) (vars : Variables) (k : Nat) (q : Question) : Prop :=
  ∀ n, k ≤ n → search text vars n q = search text vars k q

theorem StableFrom.of_le (h : StableFrom text vars k q) (hle : k ≤ n) : StableFrom text vars n q :=
  fun m hm => (h m (hle.trans hm)).trans (h n hle).symm

theorem stableFrom_one_of_patternNodes_eq_nil (hps : q.patternNodes = []) :
    StableFrom text vars 1 q := fun n hn => by
  obtain ⟨n, rfl⟩ := Nat.exists_eq_add_of_le' hn
  rw [search, search, answer_of_patternNodes_eq_nil hps, answer_of_patternNodes_eq_nil hps]

theorem stableFrom_one_of_textNodes_eq_nil (hts : q.textNodes = []) :
    StableFrom text vars 1 q := by
  by_cases hps : q.patternNodes = []
  · exact stableFrom_one_of_patternNodes_eq_nil hps
  intro n hn
  obtain ⟨n, rfl⟩ := Nat.exists_eq_add_of_le' hn
  rw [search, search, answer_of_textNodes_eq_nil hts hps, answer_of_textNodes_eq_nil hts hps]

/-! ### Counting the questions -/

/-- Suppose some questions ask only each other, and others whose outcomes do not change any more. Then
    their outcomes do not change any more either once each of them may have been answered. -/
theorem stableFrom_card {S : Finset Question} (hS : ∀ q ∈ S, ∀ n, k ≤ n → ∀ q',
    Asks text vars (search text vars n) q q' → q' ∈ S ∨ StableFrom text vars k q') (hq : q ∈ S) :
    StableFrom text vars (k + S.card) q := by
  -- The questions that are given up at the depth `k + n`.
  let givenUp (n : Nat) : Finset Question :=
    S.filter fun q => search text vars (k + n) q = .unfinished
  have hmem : ∀ {n q}, q ∈ givenUp n ↔ q ∈ S ∧ search text vars (k + n) q = .unfinished :=
    Finset.mem_filter
  have hanti : Antitone givenUp := fun n m hnm q hq => by
    obtain ⟨hqS, hgiven⟩ := hmem.1 hq
    refine hmem.2 ⟨hqS, ?_⟩
    by_contra hne
    exact hne ((search_eq_of_le (Nat.add_le_add_left hnm k) hne).symm.trans hgiven)
  -- Where they are the same ones, so are the outcomes.
  have hsame : ∀ {n m}, n ≤ m → givenUp n = givenUp m → ∀ q ∈ S,
      search text vars (k + m) q = search text vars (k + n) q := fun {n m} hnm heq q hq => by
    by_cases hgiven : search text vars (k + n) q = .unfinished
    · have hq' : q ∈ givenUp m := heq ▸ hmem.2 ⟨hq, hgiven⟩
      rw [(hmem.1 hq').2, hgiven]
    · exact search_eq_of_le (Nat.add_le_add_left hnm k) hgiven
  have hstays : ∀ n, givenUp n = givenUp (n + 1) → givenUp (n + 1) = givenUp (n + 2) := by
    intro n heq
    have hask : ∀ q ∈ S, ∀ m, k ≤ m → ∀ q', Asks text vars (search text vars m) q q' →
        search text vars (k + n + 1) q' = search text vars (k + n) q' := fun q hq m hm q' hq' => by
      rcases hS q hq m hm q' hq' with hq' | hq'
      · exact hsame (Nat.le_succ n) heq q' hq'
      · rw [hq' _ (Nat.le_add_right k n), hq' _ (by omega)]
    refine Finset.filter_congr fun q hq => ?_
    have : search text vars (k + n + 2) q = search text vars (k + n + 1) q := by
      refine Outcome.Extends.antisymm (extends_answer fun q' hq' _ => ?_)
        (extends_answer fun q' hq' _ => ?_)
      · exact hask q hq _ (Nat.le_add_right k n) q' hq'
      · exact (hask q hq _ (by omega) q' hq').symm
    exact iff_of_eq (congrArg (· = Outcome.unfinished) this.symm)
  obtain ⟨n, hn, hconst⟩ := Nat.stabilises_of_antitone
    (f := fun n => (givenUp n).card) (fun n m hnm => Finset.card_le_card (hanti hnm)) fun n heq =>
      congrArg Finset.card (hstays n
        (Finset.eq_of_subset_of_card_le (hanti (Nat.le_succ n)) heq.le).symm)
  have hstable : StableFrom text vars (k + n) q := fun m hm => by
    obtain ⟨m, rfl⟩ := Nat.exists_eq_add_of_le ((Nat.le_add_right k n).trans hm)
    have hnm : n ≤ m := Nat.le_of_add_le_add_left hm
    exact hsame hnm
      (Finset.eq_of_subset_of_card_le (hanti hnm) (hconst m hnm).ge).symm q hq
  exact hstable.of_le (Nat.add_le_add_left (hn.trans (Finset.card_filter_le _ _)) k)

end Depth

/-! ### The questions that a search comes to -/

/-- The pattern nodes that a search comes to, each with its pattern: those that it begins with, and in
    the pattern and in each phrasing the roots and the children of each node. -/
def patternPlaces (vars : Variables) (pattern : TokenGraph) (patternNodes : List NodeId) :
    List (TokenGraph × List NodeId) :=
  (pattern, patternNodes) :: (pattern :: vars.values.flatMap Variable.phrasings).flatMap fun g =>
    (g, g.roots) :: (List.range g.size).map fun p => (g, g.children p)

/-- The questions about some lists of text nodes, at some places of the pattern, in either mode. -/
def questionsAbout (lists : List (List NodeId)) (places : List (TokenGraph × List NodeId)) :
    List Question :=
  lists.flatMap fun ts => places.flatMap fun place =>
    [false, true].map fun allowPrefix => ⟨ts, place.1, place.2, allowPrefix⟩

section Bound

variable {text pattern : TokenGraph} {vars : Variables} {patternNodes textNodes : List NodeId}
  {ask : Question → Outcome} {q q' : Question} {k n : Nat}

/-- The place of a question. -/
def Question.place (q : Question) : TokenGraph × List NodeId := (q.pattern, q.patternNodes)

theorem length_patternPlaces : (patternPlaces vars pattern patternNodes).length =
    1 + ((pattern :: vars.values.flatMap Variable.phrasings).map fun g => g.size + 1).foldr
      (· + ·) 0 := by
  simp only [patternPlaces, List.length_cons, List.length_flatMap, List.length_map,
    List.length_range, List.sum_eq_foldr, Nat.add_comm]

theorem mem_questionsAbout_iff {lists : List (List NodeId)}
    {places : List (TokenGraph × List NodeId)} :
    q ∈ questionsAbout lists places ↔ q.textNodes ∈ lists ∧ q.place ∈ places := by
  obtain ⟨ts, g, ps, allowPrefix⟩ := q
  simp only [questionsAbout, List.mem_flatMap, List.mem_map, Question.place]
  constructor
  · rintro ⟨_, hts, ⟨_, _⟩, hplace, _, -, heq⟩
    cases heq
    exact ⟨hts, hplace⟩
  · intro ⟨hts, hplace⟩
    exact ⟨ts, hts, (g, ps), hplace, allowPrefix, by cases allowPrefix <;> simp, rfl⟩

theorem length_questionsAbout (lists : List (List NodeId))
    (places : List (TokenGraph × List NodeId)) :
    (questionsAbout lists places).length = lists.length * (places.length * 2) := by
  simp [questionsAbout, List.length_flatMap]

/-- What is asked is asked at such a place, or the pattern is over. -/
theorem Asks.place (h : Asks text vars ask q q')
    (hq : q.place ∈ patternPlaces vars pattern patternNodes) :
    q'.place ∈ patternPlaces vars pattern patternNodes ∨ q'.patternNodes = [] := by
  have hgraph : q.pattern ∈ pattern :: vars.values.flatMap Variable.phrasings := by
    rcases List.mem_cons.1 hq with hq | hq
    · exact (Prod.mk.inj hq).1 ▸ List.mem_cons_self
    · obtain ⟨g, hg, hplace⟩ := List.mem_flatMap.1 hq
      rcases List.mem_cons.1 hplace with hplace | hplace
      · exact (Prod.mk.inj hplace).1 ▸ hg
      · obtain ⟨p, -, heq⟩ := List.mem_map.1 hplace
        exact (Prod.mk.inj heq).1 ▸ hg
  have hchildren : ∀ p, (q.pattern, q.pattern.children p) ∈ patternPlaces vars pattern patternNodes ∨
      q.pattern.children p = [] := fun p => by
    by_cases hp : p < q.pattern.size
    · refine .inl (List.mem_cons_of_mem _ (List.mem_flatMap.2 ⟨_, hgraph, ?_⟩))
      exact List.mem_cons_of_mem _ (List.mem_map.2 ⟨p, List.mem_range.2 hp, rfl⟩)
    · exact .inr (TokenGraph.children_of_size_le p (Nat.le_of_not_lt hp))
  cases h with
  | below _ _ => exact hchildren _
  | rest _ _ _ _ _ => exact hchildren _
  | phrasing _ hv hg =>
    refine .inl (List.mem_cons_of_mem _ (List.mem_flatMap.2 ⟨_, ?_, List.mem_cons_self⟩))
    exact List.mem_cons_of_mem _ (List.mem_flatMap.2 ⟨_, hv, hg⟩)

/-- Suppose the text reaches only some lists of nodes, and others about which the outcomes do not change
    any more. Then those about the former do not change any more either once each question about them
    may have been answered. -/
theorem stableFrom_of_lists {K : List NodeId → Prop} (hK : text.ClosedUnder K)
    {lists : List (List NodeId)} (hlists : ∀ ts ∈ lists, K ts) (hk : 1 ≤ k)
    (hothers : ∀ q : Question, K q.textNodes → q.place ∈ patternPlaces vars pattern patternNodes →
      q.textNodes ∈ lists ∨ StableFrom text vars k q)
    (hts : K q.textNodes) (hplace : q.place ∈ patternPlaces vars pattern patternNodes) :
    StableFrom text vars
      (k + lists.length * ((patternPlaces vars pattern patternNodes).length * 2)) q := by
  classical
  rcases hothers q hts hplace with hmem | hstable
  · have hcard := List.toFinset_card_le
      (questionsAbout lists (patternPlaces vars pattern patternNodes))
    rw [length_questionsAbout] at hcard
    refine (stableFrom_card (fun q hq n hn q' hask => ?_)
      (List.mem_toFinset.2 (mem_questionsAbout_iff.2 ⟨hmem, hplace⟩))).of_le
        (Nat.add_le_add_left hcard k)
    obtain ⟨hmem, hplace⟩ := mem_questionsAbout_iff.1 (List.mem_toFinset.1 hq)
    have hts := hask.textNodes hK (fun q => derives_search) (hlists _ hmem)
    rcases hask.place hplace with hplace | hnil
    · refine (hothers q' hts hplace).imp_left fun hmem => ?_
      exact List.mem_toFinset.2 (mem_questionsAbout_iff.2 ⟨hmem, hplace⟩)
    · exact .inr ((stableFrom_one_of_patternNodes_eq_nil hnil).of_le hk)
  · exact hstable.of_le (Nat.le_add_right _ _)

/-- A node outside the text is asked about alone. -/
theorem stableFrom_of_size_le {t : NodeId} (ht : text.size ≤ t) (hq : q.textNodes = [t])
    (hplace : q.place ∈ patternPlaces vars pattern patternNodes) :
    StableFrom text vars (1 + (patternPlaces vars pattern patternNodes).length * 2) q := by
  have hK : text.ClosedUnder fun ts => ts = [] ∨ ts = [t] := by
    refine ⟨.inl rfl, fun ts hts id hid => ?_, fun ts hts id hid => ?_⟩ <;>
      rcases hts with rfl | rfl
    · exact absurd hid List.not_mem_nil
    · exact .inr (by rw [List.mem_singleton.1 hid])
    · exact absurd hid List.not_mem_nil
    · exact .inl (by rw [List.mem_singleton.1 hid, TokenGraph.children_of_size_le t ht])
  have hothers : ∀ q : Question, (q.textNodes = [] ∨ q.textNodes = [t]) →
      q.place ∈ patternPlaces vars pattern patternNodes →
        q.textNodes ∈ [[t]] ∨ StableFrom text vars 1 q := fun q hts _ =>
    hts.symm.imp List.mem_singleton.2 stableFrom_one_of_textNodes_eq_nil
  have hstable := stableFrom_of_lists hK (fun ts hts => .inr (List.mem_singleton.1 hts))
    (Nat.le_refl 1) hothers (.inr hq) hplace
  rwa [List.length_singleton, Nat.one_mul] at hstable

/-- From the bound of a search on, its outcome does not depend on the depth. -/
theorem stableFrom_searchBound (text : TokenGraph) (vars : Variables) (textNodes : List NodeId)
    (pattern : TokenGraph) (patternNodes : List NodeId) (allowPrefix : Bool) :
    StableFrom text vars (searchBound text vars pattern)
      ⟨textNodes, pattern, patternNodes, allowPrefix⟩ := by
  -- A list of text nodes that a search comes to.
  let K (ts : List NodeId) : Prop :=
    ts = [] ∨ ts = textNodes ∨ (∃ t, ts = [t]) ∨ ∃ t < text.size, ts = text.children t
  have hchildren : ∀ t, K (text.children t) := fun t => by
    by_cases ht : t < text.size
    · exact .inr (.inr (.inr ⟨t, ht, rfl⟩))
    · exact .inl (TokenGraph.children_of_size_le t (Nat.le_of_not_lt ht))
  have hK : text.ClosedUnder K :=
    ⟨.inl rfl, fun _ _ id _ => .inr (.inr (.inl ⟨id, rfl⟩)), fun _ _ id _ => hchildren id⟩
  let lists := textNodes ::
    (List.range text.size).flatMap fun t => [[t], text.children t]
  have hlists : ∀ ts ∈ lists, K ts := fun ts hts => by
    rcases List.mem_cons.1 hts with rfl | hts
    · exact .inr (.inl rfl)
    obtain ⟨t, -, hts⟩ := List.mem_flatMap.1 hts
    rcases List.mem_cons.1 hts with rfl | hts
    · exact .inr (.inr (.inl ⟨t, rfl⟩))
    · exact List.mem_singleton.1 hts ▸ hchildren t
  have hothers : ∀ q : Question, K q.textNodes →
      q.place ∈ patternPlaces vars pattern patternNodes → q.textNodes ∈ lists ∨ StableFrom text vars
        (1 + (patternPlaces vars pattern patternNodes).length * 2) q := fun q hts hplace => by
    rcases hts with hts | hts | ⟨t, hts⟩ | ⟨t, ht, hts⟩
    · exact .inr ((stableFrom_one_of_textNodes_eq_nil hts).of_le (Nat.le_add_right _ _))
    · exact .inl (hts ▸ List.mem_cons_self)
    · by_cases ht : t < text.size
      · refine .inl (List.mem_cons_of_mem _ (List.mem_flatMap.2 ⟨t, List.mem_range.2 ht, ?_⟩))
        exact hts ▸ List.mem_cons_self
      · exact .inr (stableFrom_of_size_le (Nat.le_of_not_lt ht) hts hplace)
    · refine .inl (List.mem_cons_of_mem _ (List.mem_flatMap.2 ⟨t, List.mem_range.2 ht, ?_⟩))
      exact hts ▸ List.mem_cons_of_mem _ List.mem_cons_self
  have hlength : lists.length = 2 * text.size + 1 := by
    simp [lists, List.length_flatMap, Nat.mul_comm]
  refine (stableFrom_of_lists hK hlists (Nat.le_add_right _ _) hothers (.inr (.inl rfl))
    List.mem_cons_self).of_le (le_of_eq ?_)
  rw [hlength, searchBound, ← @length_patternPlaces pattern vars patternNodes]
  ring

/-- The search for the answer to a question ends, if it may go deep enough. -/
def Ends (text : TokenGraph) (vars : Variables) (q : Question) : Prop :=
  ∃ steps, search text vars steps q ≠ .unfinished

/-- The bound is deep enough: there the outcome is that of every search that ends. -/
theorem search_searchBound {allowPrefix : Bool}
    (h : search text vars n ⟨textNodes, pattern, patternNodes, allowPrefix⟩ ≠ .unfinished) :
    search text vars (searchBound text vars pattern)
        ⟨textNodes, pattern, patternNodes, allowPrefix⟩ =
      search text vars n ⟨textNodes, pattern, patternNodes, allowPrefix⟩ := by
  have hstable := stableFrom_searchBound text vars textNodes pattern patternNodes allowPrefix
  rcases Nat.le_total n (searchBound text vars pattern) with hle | hle
  · exact search_eq_of_le hle h
  · exact (hstable n hle).symm

/-- If a search ends at all, then it ends within its bound. -/
theorem ends_iff {allowPrefix : Bool} :
    Ends text vars ⟨textNodes, pattern, patternNodes, allowPrefix⟩ ↔
      search text vars (searchBound text vars pattern)
        ⟨textNodes, pattern, patternNodes, allowPrefix⟩ ≠ .unfinished :=
  ⟨fun ⟨_, h⟩ => search_searchBound h ▸ h, fun h => ⟨_, h⟩⟩

end Bound

end PhraseGraph
