import PhraseGraph.Proofs.Matching.Decision

/-!
# How a match comes about

A search finds a match by a chain of questions: each one takes a text node and a pattern node, binds
something to the text node, and asks for the rest. `Derives` tells these chains without the order in
which the ways are tried and without a depth. It does not tell which match a search finds, only what it
can be: every match that a search finds, no matter how deep it goes, is derived (`derives_search`).

So what holds of all matches that a search finds is proved by induction on their derivations, with one
case for each kind of binding. The first such fact is where a match may stop: at nodes that the text
reaches from the first ones (`Derives.continuation`); in full mode it stops with the text
(`Derives.continuation_eq_nil`).
-/

namespace PhraseGraph

namespace Outcome

/-- Every match that is found satisfies `P`. -/
def Ensures (P : Match → Prop) (o : Outcome) : Prop := ∀ m, o = found m → P m

variable {P Q : Match → Prop} {o : Outcome}

theorem Ensures.orElse {next : Unit → Outcome} (h : o.Ensures P) (hnext : (next ()).Ensures P) :
    (o.orElse next).Ensures P := by
  cases o with
  | found m => exact h
  | absent => exact hnext
  | unfinished => exact h

theorem Ensures.first {α : Type} {ways : List α} {f : α → Outcome}
    (h : ∀ way ∈ ways, (f way).Ensures P) : (Outcome.first ways f).Ensures P := by
  induction ways with
  | nil => exact fun m hm => absurd hm (by simp [Outcome.first])
  | cons way rest ih =>
    exact (h way List.mem_cons_self).orElse (ih fun way hway => h way (List.mem_cons_of_mem _ hway))

theorem Ensures.bind {next : Match → Outcome} (h : o.Ensures Q)
    (hnext : ∀ m, Q m → (next m).Ensures P) : (o.bind next).Ensures P := by
  cases o with
  | found m => exact hnext m (h m rfl)
  | absent => exact fun m hm => absurd hm (by simp [Outcome.bind])
  | unfinished => exact fun m hm => absurd hm (by simp [Outcome.bind])

theorem Ensures.prepend {b : Binding} (h : o.Ensures fun m => P (m.prepend b)) :
    (o.prepend b).Ensures P :=
  h.bind fun m hm m' hm' => by
    cases hm'
    exact hm

end Outcome

/-- A match that a question can have. -/
inductive Derives (text : TokenGraph) (vars : Variables) : Question → Match → Prop
  /-- The pattern is over, and so is the text, or it is left over. -/
  | exhausted {q : Question} (hps : q.patternNodes = [])
      (hover : q.textNodes = [] ∨ q.allowPrefix = true) :
      Derives text vars q { continuation := q.textNodes }
  /-- A literal node, with which both are over. -/
  | last {q : Question} {t p : NodeId} (ht : t ∈ q.textNodes) (hp : p ∈ q.patternNodes)
      (heq : text.text t = q.pattern.text p) (htend : text.isEnd t = true)
      (hpend : q.pattern.isEnd p = true) :
      Derives text vars q { values := [literalBinding text t] }
  /-- A literal node, and what follows it. -/
  | literal {q : Question} {t p : NodeId} {m : Match} (ht : t ∈ q.textNodes)
      (hp : p ∈ q.patternNodes) (heq : text.text t = q.pattern.text p)
      (hrest : Derives text vars
        { q with textNodes := text.children t, patternNodes := q.pattern.children p } m) :
      Derives text vars q (m.prepend (literalBinding text t))
  /-- A node that names the year, and what follows it. -/
  | year {q : Question} {t p : NodeId} {m : Match} {start y : Int} (ht : t ∈ q.textNodes)
      (hp : p ∈ q.patternNodes) (hv : variableAt? vars q.pattern p = some (.year start))
      (hy : parseYear? (text.text t) = some y)
      (hrest : Derives text vars
        { q with textNodes := text.children t, patternNodes := q.pattern.children p } m) :
      Derives text vars q (m.prepend (yearBinding text t y))
  /-- A node that names a table, a phrasing of it, and what follows the node behind the phrasing. -/
  | table {q : Question} {t p : NodeId} {start m : Match} {name value : String}
      {values : Dict String (List TokenGraph)} {phrasing : TokenGraph} (ht : t ∈ q.textNodes)
      (hp : p ∈ q.patternNodes) (hv : variableAt? vars q.pattern p = some (.table name values))
      (hphrasing : (value, phrasing) ∈ Variable.valuedPhrasings values)
      (hstart : Derives text vars ⟨[t], phrasing, phrasing.roots, true⟩ start)
      (hrest : Derives text vars
        { q with textNodes := start.continuation, patternNodes := q.pattern.children p } m) :
      Derives text vars q (m.prepend (tableBinding name value start.values))

section Derives

variable {text : TokenGraph} {vars : Variables} {ask : Question → Outcome} {q : Question}
  {t p : NodeId} {steps : Nat}

section Answer

variable (hask : ∀ q, (ask q).Ensures (Derives text vars q))
include hask

theorem derives_matchAt {v : Variable} (ht : t ∈ q.textNodes) (hp : p ∈ q.patternNodes)
    (hv : variableAt? vars q.pattern p = some v) :
    (v.matchAt text ask q t p).Ensures (Derives text vars q) := by
  cases v with
  | year start =>
    rw [Variable.matchAt]
    split
    · exact fun m hm => absurd hm (by simp)
    · next y hy => exact Outcome.Ensures.prepend fun m hm => .year ht hp hv hy (hask _ m hm)
  | table name values =>
    refine Outcome.Ensures.first fun ⟨value, phrasing⟩ hphrasing => ?_
    refine Outcome.Ensures.bind (hask ⟨[t], phrasing, phrasing.roots, true⟩) fun start hstart => ?_
    exact Outcome.Ensures.prepend fun m hm => .table ht hp hv hphrasing hstart (hask _ m hm)

theorem derives_matchLiteral (ht : t ∈ q.textNodes) (hp : p ∈ q.patternNodes)
    (heq : text.text t = q.pattern.text p) :
    (matchLiteral text ask q t p).Ensures (Derives text vars q) := by
  rw [matchLiteral]
  split
  · next hend =>
    rw [Bool.and_eq_true] at hend
    intro m hm
    cases hm
    exact .last ht hp heq hend.1 hend.2
  · exact Outcome.Ensures.prepend fun m hm => .literal ht hp heq (hask _ m hm)

theorem derives_answer : (answer text vars ask q).Ensures (Derives text vars q) := by
  by_cases hps : q.patternNodes = []
  · rw [answer_of_patternNodes_eq_nil hps]
    split
    · next hover =>
      intro m hm
      cases hm
      exact .exhausted hps hover
    · exact fun m hm => absurd hm (by simp)
  by_cases hts : q.textNodes = []
  · rw [answer_of_textNodes_eq_nil hts hps]
    exact fun m hm => absurd hm (by simp)
  rw [answer_of_ne_nil hts hps]
  refine (Outcome.Ensures.first ?_).orElse (Outcome.Ensures.first ?_)
  · intro ⟨t, p, v⟩ hway
    obtain ⟨ht, hp, hv⟩ := mem_variableWays_iff.1 hway
    exact derives_matchAt hask ht hp hv
  · intro ⟨t, p⟩ hway
    obtain ⟨ht, hp, heq⟩ := mem_of_mem_alignByText hway
    exact derives_matchLiteral hask ht (List.mem_of_mem_filter hp) heq

end Answer

theorem derives_search : (search text vars steps q).Ensures (Derives text vars q) := by
  induction steps generalizing q with
  | zero => exact fun m hm => absurd hm (by simp [search])
  | succ steps ih => exact derives_answer fun q => ih

theorem matchSiblings_eq_some_iff {textNodes patternNodes : List NodeId} {pattern : TokenGraph}
    {allowPrefix : Bool} {m : Match} :
    matchSiblings text textNodes pattern patternNodes allowPrefix vars = some m ↔
      search text vars (searchBound text vars pattern)
        ⟨textNodes, pattern, patternNodes, allowPrefix⟩ = .found m := by
  rw [matchSiblings, outcomeOfSiblings]
  generalize search text vars _ _ = o
  cases o <;> simp [Outcome.toOption]

/-! ### Where a match may stop -/

/-- With some siblings, the condition holds of each of them alone and of its children. -/
structure TokenGraph.ClosedUnder (g : TokenGraph) (K : List NodeId → Prop) : Prop where
  nil : K []
  single : ∀ ids, K ids → ∀ id ∈ ids, K [id]
  children : ∀ ids, K ids → ∀ id ∈ ids, K (g.children id)

theorem Derives.continuation {K : List NodeId → Prop} (hK : text.ClosedUnder K) {m : Match}
    (h : Derives text vars q m) (hq : K q.textNodes) : K m.continuation := by
  induction h with
  | exhausted => exact hq
  | last => exact hK.nil
  | literal ht _ _ _ ih => exact ih (hK.children _ hq _ ht)
  | year ht _ _ _ _ ih => exact ih (hK.children _ hq _ ht)
  | table ht _ _ _ _ _ ihstart ihrest => exact ihrest (ihstart (hK.single _ hq _ ht))

/-- Only in prefix mode a match leaves something over. -/
theorem Derives.continuation_eq_nil {m : Match} (h : Derives text vars q m)
    (hfull : q.allowPrefix = false) : m.continuation = [] := by
  induction h with
  | exhausted _ hover => exact hover.resolve_right (by simp [hfull])
  | last => rfl
  | literal _ _ _ _ ih => exact ih hfull
  | year _ _ _ _ _ ih => exact ih hfull
  | table _ _ _ _ _ _ _ ihrest => exact ihrest hfull

end Derives

end PhraseGraph
