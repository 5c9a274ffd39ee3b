import Mathlib.Algebra.Order.BigOperators.Group.List
import Mathlib.Data.List.Forall2
import PhraseGraph.Graph
import PhraseGraph.Proofs.Matching.Decision

/-!
# A match is found exactly where there is one

A pattern stands for sequences of words: along a whole path, a literal node stands for its text, a
node that names the year for any year, and a node that names a table variable for the words of any of
its phrasings (`Language`). A text should match a pattern if one of its own whole paths has the texts
of such a sequence; in prefix mode the sequence may end before the path does.

The search takes the first way that succeeds at every place, and never comes back to a phrasing that
has matched. That loses nothing if both graphs are tidy and each phrasing is a row of literal words.
Then the words of a way lead to one place of the text only, so that it does not matter which way has
led there. `search_decides` proves it by induction on the depth of the pattern, from the three ways to
match a node: as a literal, as a year, and as a phrasing that is matched in prefix mode and leaves
the rest of the text to what follows.

Main statement: `findMatch_isSome_iff`.
-/

namespace PhraseGraph

/-- The nodes of `row` one after another are all that follows, and a phrase can end only with the
    last one. -/
def TokenGraph.IsRow (g : TokenGraph) : (ids row : List NodeId) → Prop
  | ids, [] => ids = []
  | ids, id :: row =>
    ids = [id] ∧ (g.isEnd id = true → row = []) ∧ g.IsRow (g.children id) row

/-- The words that a pattern node can stand for. -/
def StandsFor (vars : Variables) (pattern : TokenGraph) (p : NodeId) (ws : List String) : Prop :=
  match variableAt? vars pattern p with
  | none => ws = [pattern.text p]
  | some (.year _) => ∃ w, (parseYear? w).isSome = true ∧ ws = [w]
  | some (.table name values) =>
    ∃ g ∈ (Variable.table name values).phrasings, ∃ row, g.IsRow g.roots row ∧ ws = row.map g.text

/-- The words that a pattern stands for: those of the nodes along a whole path. -/
def Language (vars : Variables) (pattern : TokenGraph) (ws : List String) : Prop :=
  ∃ path parts, pattern.IsWhole pattern.roots path ∧
    List.Forall₂ (StandsFor vars pattern) path parts ∧ parts.flatten = ws

/-- Every phrasing is a row of at least one word, and none of its nodes names a variable. -/
def RowPhrasings (vars : Variables) : Prop :=
  ∀ v ∈ vars.values, ∀ g ∈ v.phrasings, ∃ row, row ≠ [] ∧ g.IsRow g.roots row ∧
    ∀ id ∈ row, variableAt? vars g id = none

/-- The words that a pattern stands for from some siblings on. -/
inductive Spells (vars : Variables) (pattern : TokenGraph) : List NodeId → List String → Prop
  | done : Spells vars pattern [] []
  | step {ids : List NodeId} {p : NodeId} {u ws : List String} : p ∈ ids →
      StandsFor vars pattern p u → Spells vars pattern (pattern.children p) ws →
      Spells vars pattern ids (u ++ ws)

section Language

variable {vars : Variables} {pattern : TokenGraph} {ids : List NodeId} {ws : List String}

theorem spells_nil_iff : Spells vars pattern [] ws ↔ ws = [] := by
  refine ⟨fun h => ?_, fun h => h ▸ .done⟩
  cases h with
  | done => rfl
  | step hp => exact absurd hp List.not_mem_nil

theorem TokenGraph.Tidy.spells_iff (hg : pattern.Tidy) (hids : ∀ id ∈ ids, pattern.Listed id) :
    Spells vars pattern ids ws ↔ ∃ path parts, pattern.IsWhole ids path ∧
      List.Forall₂ (StandsFor vars pattern) path parts ∧ parts.flatten = ws := by
  constructor
  · intro h
    induction h with
    | done => exact ⟨[], [], isWhole_nil_iff.2 rfl, .nil, rfl⟩
    | @step ids p u ws hp hu _ ih =>
      obtain ⟨path, parts, hpath, hparts, rfl⟩ := ih fun c hc => .inr ⟨p, hc⟩
      exact ⟨p :: path, u :: parts, (hg.isWhole_cons_iff hids).2 ⟨hp, hpath⟩, .cons hu hparts, rfl⟩
  · rintro ⟨path, parts, hpath, hparts, rfl⟩
    induction hparts generalizing ids with
    | nil => exact isWhole_nil_iff.1 hpath ▸ .done
    | @cons p u path parts hu _ ih =>
      obtain ⟨hp, hpath⟩ := (hg.isWhole_cons_iff hids).1 hpath
      exact .step hp hu (ih (fun c hc => .inr ⟨p, hc⟩) hpath)

end Language

/-! ### Rows -/

namespace TokenGraph

variable {g : TokenGraph} {ids row : List NodeId}

theorem IsRow.unique {row' : List NodeId} (h : g.IsRow ids row) (h' : g.IsRow ids row') :
    row = row' := by
  induction row generalizing ids row' with
  | nil =>
    cases row' with
    | nil => rfl
    | cons id row' => exact absurd (h.symm.trans h'.1) (List.cons_ne_nil _ _).symm
  | cons id row ih =>
    cases row' with
    | nil => exact absurd (h'.symm.trans h.1) (List.cons_ne_nil _ _).symm
    | cons id' row' =>
      obtain rfl : id = id' := List.head_eq_of_cons_eq (h.1.symm.trans h'.1)
      rw [ih h.2.2 h'.2.2]

theorem IsRow.spells_iff {vars : Variables} (h : g.IsRow ids row)
    (hrow : ∀ id ∈ row, variableAt? vars g id = none) {ws : List String} :
    Spells vars g ids ws ↔ ws = row.map g.text := by
  induction row generalizing ids ws with
  | nil => obtain rfl : ids = [] := h; exact spells_nil_iff
  | cons id row ih =>
    obtain ⟨rfl, -, hbelow⟩ := h
    have hid : ∀ u, StandsFor vars g id u ↔ u = [g.text id] := fun u => by
      rw [StandsFor, hrow id List.mem_cons_self]
    have ih : ∀ {ws}, Spells vars g (g.children id) ws ↔ ws = row.map g.text :=
      ih hbelow fun c hc => hrow c (List.mem_cons_of_mem _ hc)
    constructor
    · intro hs
      cases hs with
      | step hp hu hs =>
        obtain rfl := List.mem_singleton.1 hp
        rw [(hid _).1 hu, ih.1 hs]
        rfl
    · rintro rfl
      exact .step List.mem_cons_self ((hid _).2 rfl) (ih.2 rfl)

theorem IsRow.exists_below (h : g.IsRow ids row) {x : NodeId} (hx : x ∈ row) :
    ∃ below, g.IsRow (g.children x) below ∧ below.length < row.length := by
  induction row generalizing ids with
  | nil => exact absurd hx List.not_mem_nil
  | cons id row ih =>
    rcases List.mem_cons.1 hx with rfl | hx
    · exact ⟨row, h.2.2, Nat.lt_succ_self _⟩
    · obtain ⟨below, hbelow, hlt⟩ := ih h.2.2 hx
      exact ⟨below, hbelow, Nat.lt_succ_of_lt hlt⟩

/-- What follows a node tells how far it is from the end of the row. -/
theorem IsRow.nodup (h : g.IsRow ids row) : row.Nodup := by
  induction row generalizing ids with
  | nil => exact List.nodup_nil
  | cons id row ih =>
    refine List.nodup_cons.2 ⟨fun hid => ?_, ih h.2.2⟩
    obtain ⟨below, hbelow, hlt⟩ := h.2.2.exists_below hid
    exact absurd hlt (hbelow.unique h.2.2 ▸ lt_irrefl _)

theorem IsRow.isPath (h : g.IsRow ids row) : g.IsPath ids row := by
  induction row generalizing ids with
  | nil => trivial
  | cons id row ih => exact ⟨h.1 ▸ List.mem_cons_self, ih h.2.2⟩

theorem IsRow.length_le (h : g.IsRow ids row) : row.length ≤ g.size + 1 :=
  h.isPath.length_le_of_nodup h.nodup

end TokenGraph

/-! ### Solutions -/

/-- A question is solved with `rest` left over: the text from its text nodes up to there has words
    that the pattern stands for. -/
def Solved (vars : Variables) (text : TokenGraph) (q : Question) (rest : List NodeId) : Prop :=
  ∃ ws, Spells vars q.pattern q.patternNodes ws ∧ text.After q.textNodes ws rest ∧
    (q.allowPrefix = false → rest = [])

/-- The outcome tells whether the question can be solved, and a match that it has is a solution. -/
def Answers (vars : Variables) (text : TokenGraph) (q : Question) (o : Outcome) : Prop :=
  o.Decides (fun m => Solved vars text q m.continuation) (∃ rest, Solved vars text q rest)

/-- The question is solved in a way that begins with the text node `t` and the pattern node `p`. -/
def SolvedAt (vars : Variables) (text : TokenGraph) (q : Question) (t p : NodeId)
    (rest : List NodeId) : Prop :=
  ∃ u, StandsFor vars q.pattern p u ∧ ∃ mid, text.After [t] u mid ∧
    Solved vars text { q with textNodes := mid, patternNodes := q.pattern.children p } rest

section Solutions

variable {vars : Variables} {text : TokenGraph} {q : Question} {t p : NodeId} {rest : List NodeId}

theorem after_singleton_iff {w : String} {ws : List String} :
    text.After [t] (w :: ws) rest ↔ text.text t = w ∧ text.After (text.children t) ws rest := by
  simp [TokenGraph.After]

theorem after_iff_exists_mem {ids : List NodeId} {ws : List String} (hws : ws ≠ []) :
    text.After ids ws rest ↔ ∃ t ∈ ids, text.After [t] ws rest := by
  cases ws with
  | nil => exact absurd rfl hws
  | cons w ws => simp [TokenGraph.After]

/-- A way to solve a question begins with some text node and some pattern node. -/
theorem solved_iff_exists_solvedAt (hp : q.patternNodes ≠ [])
    (hne : ∀ p ∈ q.patternNodes, ∀ u, StandsFor vars q.pattern p u → u ≠ []) :
    Solved vars text q rest ↔
      ∃ t ∈ q.textNodes, ∃ p ∈ q.patternNodes, SolvedAt vars text q t p rest := by
  obtain ⟨ts, pattern, ps, allowPrefix⟩ := q
  constructor
  · rintro ⟨ws, hspells, hafter, hrest⟩
    cases hspells with
    | done => exact absurd rfl hp
    | @step _ p u ws hmem hu hspells =>
      obtain ⟨mid, hmid, hafter⟩ := TokenGraph.after_append_iff.1 hafter
      obtain ⟨t, ht, hmid⟩ := (after_iff_exists_mem (hne p hmem u hu)).1 hmid
      exact ⟨t, ht, p, hmem, u, hu, mid, hmid, ws, hspells, hafter, hrest⟩
  · rintro ⟨t, ht, p, hmem, u, hu, mid, hmid, ws, hspells, hafter, hrest⟩
    have hmid := (after_iff_exists_mem (hne p hmem u hu)).2 ⟨t, ht, hmid⟩
    exact ⟨u ++ ws, .step hmem hu hspells, hmid.append hafter, hrest⟩

/-- A literal node is matched by its text, and what follows by what follows. -/
theorem solvedAt_iff_of_literal (hlit : variableAt? vars q.pattern p = none) :
    SolvedAt vars text q t p rest ↔ text.text t = q.pattern.text p ∧
      Solved vars text
        { q with textNodes := text.children t, patternNodes := q.pattern.children p } rest := by
  simp only [SolvedAt, StandsFor, hlit, exists_eq_left]
  constructor
  · rintro ⟨mid, hmid, h⟩
    obtain ⟨htext, rfl⟩ := after_singleton_iff.1 hmid
    exact ⟨htext, h⟩
  · rintro ⟨htext, h⟩
    exact ⟨_, after_singleton_iff.2 ⟨htext, rfl⟩, h⟩

/-- A node that names the year is matched by any year. -/
theorem solvedAt_iff_of_year {start : Int} (hyear : variableAt? vars q.pattern p = some (.year start)) :
    SolvedAt vars text q t p rest ↔ (parseYear? (text.text t)).isSome = true ∧
      Solved vars text
        { q with textNodes := text.children t, patternNodes := q.pattern.children p } rest := by
  simp only [SolvedAt, StandsFor, hyear]
  constructor
  · rintro ⟨_, ⟨w, hw, rfl⟩, mid, hmid, h⟩
    obtain ⟨rfl, rfl⟩ := after_singleton_iff.1 hmid
    exact ⟨hw, h⟩
  · rintro ⟨hw, h⟩
    exact ⟨_, ⟨_, hw, rfl⟩, _, after_singleton_iff.2 ⟨rfl, rfl⟩, h⟩

/-- A node that names a table is matched by the words of a phrasing. -/
theorem solvedAt_iff_of_table {name : String} {values : Dict String (List TokenGraph)}
    (htable : variableAt? vars q.pattern p = some (.table name values)) :
    SolvedAt vars text q t p rest ↔ ∃ g ∈ (Variable.table name values).phrasings,
      ∃ row, g.IsRow g.roots row ∧ ∃ mid, text.After [t] (row.map g.text) mid ∧
        Solved vars text { q with textNodes := mid, patternNodes := q.pattern.children p } rest := by
  simp only [SolvedAt, StandsFor, htable]
  constructor
  · rintro ⟨_, ⟨g, hg, row, hrow, rfl⟩, h⟩
    exact ⟨g, hg, row, hrow, h⟩
  · rintro ⟨g, hg, row, hrow, h⟩
    exact ⟨_, ⟨g, hg, row, hrow, rfl⟩, h⟩

end Solutions

/-! ### The search -/

/-- The nodes are listed, and their texts ascend. -/
structure TokenGraph.IsLevel (g : TokenGraph) (ids : List NodeId) : Prop where
  ascends : g.Ascends ids
  listed : ∀ id ∈ ids, g.Listed id

namespace TokenGraph.Tidy

variable {g : TokenGraph} (hg : g.Tidy)
include hg

theorem isLevel_roots : g.IsLevel g.roots := ⟨hg.roots_ascend, fun _ => .inl⟩

theorem isLevel_children (id : NodeId) : g.IsLevel (g.children id) :=
  ⟨hg.children_ascend id, fun _ hc => .inr ⟨id, hc⟩⟩

theorem isLevel_after {ids rest : List NodeId} {ws : List String} (hids : g.IsLevel ids)
    (h : g.After ids ws rest) : g.IsLevel rest := by
  induction ws generalizing ids with
  | nil => exact h ▸ hids
  | cons w ws ih =>
    obtain ⟨id, -, -, h⟩ := h
    exact ih (hg.isLevel_children id) h

end TokenGraph.Tidy

/-- The phrasing is a row of words, and `ask` tells whether the text goes on with them at a node; a
    match that it finds leaves over what follows them. -/
def AnswersPhrasing (text : TokenGraph) (ask : Question → Outcome) (g : TokenGraph) : Prop :=
  ∃ row, row ≠ [] ∧ g.IsRow g.roots row ∧ ∀ t, text.Listed t →
    (ask ⟨[t], g, g.roots, true⟩).Decides
      (fun m => text.After [t] (row.map g.text) m.continuation)
      (∃ mid, text.After [t] (row.map g.text) mid)

/-- What must hold of the questions within a question for its answer to be right. -/
structure AsksWell (vars : Variables) (text : TokenGraph) (ask : Question → Outcome)
    (q : Question) : Prop where
  /-- The pattern nodes ascend. -/
  ascends : q.pattern.Ascends q.patternNodes
  /-- An end node has no children. -/
  leaf : ∀ p ∈ q.patternNodes, q.pattern.isEnd p = true → q.pattern.children p = []
  /-- What follows a pattern node is answered. -/
  below : ∀ p ∈ q.patternNodes, ∀ ts, text.IsLevel ts →
    Answers vars text { q with textNodes := ts, patternNodes := q.pattern.children p }
      (ask { q with textNodes := ts, patternNodes := q.pattern.children p })
  /-- The phrasings that a pattern node stands for are answered. -/
  phrasings : ∀ p ∈ q.patternNodes, ∀ v, variableAt? vars q.pattern p = some v →
    ∀ g ∈ v.phrasings, AnswersPhrasing text ask g

section Step

variable {vars : Variables} {text : TokenGraph} {ask : Question → Outcome} {q : Question}
  {t p : NodeId}

/-- A pattern node does not stand for nothing. -/
theorem AsksWell.ne_nil (hq : AsksWell vars text ask q) (hp : p ∈ q.patternNodes) {u : List String}
    (hu : StandsFor vars q.pattern p u) : u ≠ [] := by
  rw [StandsFor] at hu
  split at hu
  · exact hu ▸ List.cons_ne_nil _ _
  · obtain ⟨w, -, rfl⟩ := hu
    exact List.cons_ne_nil _ _
  · next name values hv =>
    obtain ⟨g, hg, row, hrow, rfl⟩ := hu
    obtain ⟨row', hne, hrow', -⟩ := hq.phrasings p hp _ hv g hg
    exact hrow'.unique hrow ▸ by simpa using hne

theorem matchLiteral_decides (htext : text.Tidy) (ht : text.Listed t)
    (hq : AsksWell vars text ask q) (hp : p ∈ q.patternNodes)
    (hlit : variableAt? vars q.pattern p = none) (heq : text.text t = q.pattern.text p) :
    (matchLiteral text ask q t p).Decides
      (fun m => SolvedAt vars text q t p m.continuation) (∃ rest, SolvedAt vars text q t p rest) := by
  have hbelow := hq.below p hp (text.children t) (htext.isLevel_children t)
  simp only [solvedAt_iff_of_literal hlit, heq, true_and]
  rw [matchLiteral]
  split
  · next hend =>
    obtain ⟨htend, hpend⟩ := (Bool.and_eq_true _ _).mp hend
    refine ⟨[], ?_, ?_, fun _ => rfl⟩
    · rw [hq.leaf p hp hpend]
      exact .done
    · exact (htext.end_iff t ht).1 htend
  · exact Outcome.Decides.prepend hbelow

theorem matchAt_decides (htext : text.Tidy) (ht : text.Listed t) (hq : AsksWell vars text ask q)
    (hp : p ∈ q.patternNodes) {v : Variable} (hv : variableAt? vars q.pattern p = some v) :
    (v.matchAt text ask q t p).Decides
      (fun m => SolvedAt vars text q t p m.continuation) (∃ rest, SolvedAt vars text q t p rest) := by
  cases v with
  | year start =>
    simp only [solvedAt_iff_of_year hv, Variable.matchAt]
    split
    · next hno =>
      rintro ⟨_, hyear, -⟩
      simp [hno] at hyear
    · next y hyear =>
      simp only [hyear, Option.isSome_some, true_and]
      exact Outcome.Decides.prepend (hq.below p hp _ (htext.isLevel_children t))
  | table name values =>
    simp only [solvedAt_iff_of_table hv, Variable.matchAt]
    have hway : ∀ way ∈ Variable.valuedPhrasings values,
        ((ask ⟨[t], way.2, way.2.roots, true⟩).bind fun start =>
          (ask { q with textNodes := start.continuation,
                        patternNodes := q.pattern.children p }).prepend
            (tableBinding name way.1 start.values)).Decides
          (fun m => SolvedAt vars text q t p m.continuation)
          (∃ row, way.2.IsRow way.2.roots row ∧ ∃ mid, text.After [t] (row.map way.2.text) mid ∧
            ∃ rest, Solved vars text
              { q with textNodes := mid, patternNodes := q.pattern.children p } rest) := by
      rintro ⟨value, g⟩ hmem
      have hg : g ∈ (Variable.table name values).phrasings := mem_phrasings_iff.2 ⟨value, hmem⟩
      obtain ⟨row, -, hrow, hphrasing⟩ := hq.phrasings p hp _ hv g hg
      refine (hphrasing t ht).bind (fun start hstart => ?_) ?_
      · -- The words of the row lead to one place, so it is the place where this match has ended.
        have hlevel : text.IsLevel [t] := ⟨List.pairwise_singleton _ _, by simpa using ht⟩
        have hrest := hq.below p hp _ (htext.isLevel_after hlevel hstart)
        refine Outcome.Decides.prepend (hrest.imp (fun m hm => ?_) ?_)
        · exact (solvedAt_iff_of_table hv).2 ⟨g, hg, row, hrow, _, hstart, hm⟩
        · rintro ⟨row', hrow', mid, hmid, rest, hsolved⟩
          obtain rfl := hrow'.unique hrow
          obtain rfl := htext.after_unique hlevel.ascends hmid hstart
          exact ⟨rest, hsolved⟩
      · rintro ⟨row', hrow', mid, hmid, -⟩
        exact ⟨mid, hrow'.unique hrow ▸ hmid⟩
    refine (Outcome.Decides.first hway).imp (fun m hm => (solvedAt_iff_of_table hv).1 hm) ?_
    rintro ⟨rest, g, hg, row, hrow, mid, hmid, hsolved⟩
    obtain ⟨value, hmem⟩ := mem_phrasings_iff.1 hg
    exact ⟨(value, g), hmem, row, hrow, mid, hmid, rest, hsolved⟩

/-- The variables and the literals are all the ways to begin. -/
theorem answer_answers_of_ne_nil (htext : text.Tidy) (hts : text.IsLevel q.textNodes)
    (hne : q.textNodes ≠ []) (hps : q.patternNodes ≠ []) (hq : AsksWell vars text ask q) :
    Answers vars text q (answer text vars ask q) := by
  have hsolved : ∀ rest, Solved vars text q rest ↔
      ∃ t ∈ q.textNodes, ∃ p ∈ q.patternNodes, SolvedAt vars text q t p rest := fun rest =>
    solved_iff_exists_solvedAt hps fun p hp u => hq.ne_nil hp
  have hvars : ∀ way ∈ variableWays vars q, (way.2.2.matchAt text ask q way.1 way.2.1).Decides
      (fun m => Solved vars text q m.continuation)
      (∃ rest, SolvedAt vars text q way.1 way.2.1 rest) := by
    rintro ⟨t, p, v⟩ hway
    obtain ⟨ht, hp, hv⟩ := mem_variableWays_iff.1 hway
    exact (matchAt_decides htext (hts.listed t ht) hq hp hv).imp
      (fun m hm => (hsolved _).2 ⟨t, ht, p, hp, hm⟩) id
  have hlits : ∀ way ∈ literalWays vars text q, (matchLiteral text ask q way.1 way.2).Decides
      (fun m => Solved vars text q m.continuation)
      (∃ rest, SolvedAt vars text q way.1 way.2 rest) := by
    rintro ⟨t, p⟩ hway
    obtain ⟨ht, ⟨hp, hlit⟩, heq⟩ := (mem_literalWays_iff hts.ascends hq.ascends).1 hway
    exact (matchLiteral_decides htext (hts.listed t ht) hq hp hlit heq).imp
      (fun m hm => (hsolved _).2 ⟨t, ht, p, hp, hm⟩) id
  rw [answer_of_ne_nil hne hps]
  -- A solution begins with a pattern node that names a variable or with one that does not.
  refine ((Outcome.Decides.first hvars).orElse (Outcome.Decides.first hlits)).imp
    (fun _ hm => hm) ?_
  rintro ⟨rest, h⟩
  obtain ⟨t, ht, p, hp, h⟩ := (hsolved rest).1 h
  cases hv : variableAt? vars q.pattern p with
  | some v => exact .inl ⟨(t, p, v), mem_variableWays_iff.2 ⟨ht, hp, hv⟩, rest, h⟩
  | none =>
    have htext := ((solvedAt_iff_of_literal hv).1 h).1
    exact .inr ⟨(t, p), (mem_literalWays_iff hts.ascends hq.ascends).2 ⟨ht, ⟨hp, hv⟩, htext⟩, rest, h⟩

/-- An answer is right if the answers to the questions within it are. -/
theorem answer_answers (htext : text.Tidy) (hts : text.IsLevel q.textNodes)
    (hq : AsksWell vars text ask q) : Answers vars text q (answer text vars ask q) := by
  by_cases hps : q.patternNodes = []
  · rw [answer_of_patternNodes_eq_nil hps]
    split
    · next hends =>
      exact ⟨[], hps ▸ .done, rfl, fun h => hends.resolve_right (by simp [h])⟩
    · next hgoes =>
      rintro ⟨rest, ws, hspells, hafter, hrest⟩
      rw [not_or, Bool.not_eq_true] at hgoes
      obtain rfl := spells_nil_iff.1 (hps ▸ hspells)
      exact hgoes.1 (hafter.trans (hrest hgoes.2))
  by_cases hts' : q.textNodes = []
  · rw [answer_of_textNodes_eq_nil hts' hps]
    rintro ⟨rest, h⟩
    obtain ⟨t, ht, -⟩ := (solved_iff_exists_solvedAt hps fun p hp u => hq.ne_nil hp).1 h
    exact absurd (hts' ▸ ht) List.not_mem_nil
  · exact answer_answers_of_ne_nil htext hts hts' hps hq

end Step

/-- Within `n` levels from `ids` on the pattern comes to an end, siblings ascend, every node is a good
    one, and an end node has no children. -/
def TokenGraph.OrderlyWithin (g : TokenGraph) (good : NodeId → Prop) :
    (n : Nat) → (ids : List NodeId) → Prop
  | 0, ids => ids = []
  | n + 1, ids => g.Ascends ids ∧ ∀ p ∈ ids,
    good p ∧ (g.isEnd p = true → g.children p = []) ∧ g.OrderlyWithin good n (g.children p)

section Search

variable {vars : Variables} {text pattern : TokenGraph} {ts ids : List NodeId}
  {allowPrefix : Bool} {n k steps : Nat}

/-- Searches of at least `k` steps answer the phrasings of the variable that a node names. -/
def PhrasingsAnswered (vars : Variables) (text pattern : TokenGraph) (k : Nat) (p : NodeId) : Prop :=
  ∀ v, variableAt? vars pattern p = some v → ∀ g ∈ v.phrasings, ∀ steps, k ≤ steps →
    AnswersPhrasing text (search text vars steps) g

theorem search_answers (htext : text.Tidy) (hts : text.IsLevel ts)
    (hids : pattern.OrderlyWithin (PhrasingsAnswered vars text pattern k) n ids)
    (hsteps : n + k < steps) :
    Answers vars text ⟨ts, pattern, ids, allowPrefix⟩
      (search text vars steps ⟨ts, pattern, ids, allowPrefix⟩) := by
  induction n generalizing ts ids steps with
  | zero =>
    obtain ⟨steps, rfl⟩ := Nat.exists_eq_add_one_of_ne_zero (Nat.ne_zero_of_lt hsteps)
    obtain rfl : ids = [] := hids
    exact answer_answers htext hts ⟨.nil, by simp, by simp, by simp⟩
  | succ n ih =>
    obtain ⟨steps, rfl⟩ := Nat.exists_eq_add_one_of_ne_zero (Nat.ne_zero_of_lt hsteps)
    refine answer_answers htext hts ⟨hids.1, fun p hp => (hids.2 p hp).2.1, ?_, ?_⟩
    -- Each level of the pattern uses a step, and `k` steps are left for the phrasings.
    · exact fun p hp ts hts => ih hts (hids.2 p hp).2.2 (by omega)
    · exact fun p hp v hv g hg => (hids.2 p hp).1 v hv g hg steps (by omega)

theorem TokenGraph.IsRow.orderlyWithin {row : List NodeId} (h : pattern.IsRow ids row)
    {good : NodeId → Prop} (hgood : ∀ id ∈ row, good id) :
    pattern.OrderlyWithin good row.length ids := by
  induction row generalizing ids with
  | nil => exact h
  | cons id row ih =>
    obtain ⟨rfl, hend, hbelow⟩ := h
    refine ⟨List.pairwise_singleton _ _, fun p hp => ?_⟩
    obtain rfl := List.mem_singleton.1 hp
    refine ⟨hgood p List.mem_cons_self, fun hp => ?_,
      ih hbelow fun c hc => hgood c (List.mem_cons_of_mem _ hc)⟩
    obtain rfl := hend hp
    exact hbelow

theorem TokenGraph.Tidy.orderlyWithin (hg : pattern.Tidy) (hids : pattern.IsLevel ids)
    (hn : pattern.Bounded n ids) {good : NodeId → Prop} (hgood : ∀ id, good id) :
    pattern.OrderlyWithin good n ids := by
  induction n generalizing ids with
  | zero => exact hn.eq_nil
  | succ n ih =>
    exact ⟨hids.ascends, fun p hp => ⟨hgood p, (hg.end_iff p (hids.listed p hp)).1,
      ih (hg.isLevel_children p) (hn.children hp)⟩⟩

/-- A row of literal words is answered by its own words. -/
theorem answersPhrasing_of_isRow (htext : text.Tidy) {row : List NodeId} (hne : row ≠ [])
    (hrow : pattern.IsRow pattern.roots row)
    (hlit : ∀ id ∈ row, variableAt? vars pattern id = none) (hsteps : row.length < steps) :
    AnswersPhrasing text (search text vars steps) pattern := by
  refine ⟨row, hne, hrow, fun t ht => ?_⟩
  have hlevel : text.IsLevel [t] := ⟨List.pairwise_singleton _ _, by simpa using ht⟩
  -- The row names no variable, so its search does not lead to phrasings.
  have hgood : ∀ id ∈ row, PhrasingsAnswered vars text pattern 0 id := fun id hid v hv => by
    simp [hlit id hid] at hv
  have hanswers : Answers vars text ⟨[t], pattern, pattern.roots, true⟩
      (search text vars steps ⟨[t], pattern, pattern.roots, true⟩) :=
    search_answers htext hlevel (hrow.orderlyWithin hgood) hsteps
  refine hanswers.imp (fun m hm => ?_) ?_
  · obtain ⟨ws, hspells, hafter, -⟩ := hm
    exact (hrow.spells_iff hlit).1 hspells ▸ hafter
  · rintro ⟨mid, hmid⟩
    exact ⟨mid, _, (hrow.spells_iff hlit).2 rfl, hmid, fun h => absurd h Bool.noConfusion⟩

/-- The bound of the search is enough for a tidy pattern. -/
theorem findMatch_answers (htext : text.Tidy) (hpattern : pattern.Tidy) (hvars : RowPhrasings vars)
    (allowPrefix : Bool) :
    Answers vars text ⟨text.roots, pattern, pattern.roots, allowPrefix⟩
      (search text vars (searchBound text vars pattern)
        ⟨text.roots, pattern, pattern.roots, allowPrefix⟩) := by
  have hgood : ∀ p, PhrasingsAnswered vars text pattern
      (((vars.values.flatMap Variable.phrasings).map fun g => g.size + 1).foldr (· + ·) 0 + 1) p := by
    intro p v hv g hg steps hsteps
    have hv := mem_values_of_variableAt hv
    obtain ⟨row, hne, hrow, hlit⟩ := hvars v hv g hg
    refine answersPhrasing_of_isRow htext hne hrow hlit ?_
    have hsum : g.size + 1 ≤
        ((vars.values.flatMap Variable.phrasings).map fun g => g.size + 1).foldr (· + ·) 0 :=
      List.single_le_sum (by simp) _ (List.mem_map_of_mem (List.mem_flatMap.2 ⟨v, hv, hg⟩))
    have := hrow.length_le
    omega
  refine search_answers htext htext.isLevel_roots
    (hpattern.orderlyWithin hpattern.isLevel_roots (hpattern.acyclic.bounded _) hgood) ?_
  rw [searchBound]
  simp only [List.map_cons, List.foldr_cons]
  generalize ((vars.values.flatMap Variable.phrasings).map fun g => g.size + 1).foldr (· + ·) 0 = S
  calc pattern.size + 1 + (S + 1) < 1 * (1 + (pattern.size + 1 + S)) + 1 := by omega
    _ ≤ 2 * (2 * text.size + 2) * (1 + (pattern.size + 1 + S)) + 1 :=
      Nat.succ_le_succ (Nat.mul_le_mul_right _ (by omega))

end Search

/-- **A match is found exactly where there is one**: a tidy text matches a tidy pattern if and only if
    one of its whole paths has the texts of words that the pattern stands for; in prefix mode, if and
    only if one of them begins with such words. The search comes to an end in either mode. -/
theorem findMatch_isSome_iff {text pattern : TokenGraph} {vars : Variables} (htext : text.Tidy)
    (hpattern : pattern.Tidy) (hvars : RowPhrasings vars) :
    ((findMatch text pattern false vars).isSome ↔
      ∃ ws, text.Accepts ws ∧ Language vars pattern ws) ∧
    ((findMatch text pattern true vars).isSome ↔
      ∃ ws more, text.Accepts (ws ++ more) ∧ Language vars pattern ws) ∧
    ∀ allowPrefix, search text vars (searchBound text vars pattern)
      ⟨text.roots, pattern, pattern.roots, allowPrefix⟩ ≠ .unfinished := by
  have haccepts : ∀ ws, text.Accepts ws ↔ text.After text.roots ws [] := fun ws =>
    htext.acceptsFrom_iff_after fun _ => .inl
  have hlanguage : ∀ ws, Language vars pattern ws ↔ Spells vars pattern pattern.roots ws := fun ws =>
    (hpattern.spells_iff fun _ => .inl).symm
  have hanswers := findMatch_answers htext hpattern hvars
  simp only [haccepts, hlanguage]
  refine ⟨?_, ?_, fun allowPrefix h => ?_⟩
  · refine ((hanswers false).isSome_iff fun m hm => ⟨_, hm⟩).trans ⟨?_, ?_⟩
    · rintro ⟨rest, ws, hspells, hafter, hrest⟩
      exact ⟨ws, hrest rfl ▸ hafter, hspells⟩
    · rintro ⟨ws, hafter, hspells⟩
      exact ⟨[], ws, hspells, hafter, fun _ => rfl⟩
  · refine ((hanswers true).isSome_iff fun m hm => ⟨_, hm⟩).trans ⟨?_, ?_⟩
    · rintro ⟨rest, ws, hspells, hafter, -⟩
      obtain ⟨more, hmore⟩ := htext.exists_after_nil rest
      exact ⟨ws, more, hafter.append hmore, hspells⟩
    · rintro ⟨ws, more, hafter, hspells⟩
      obtain ⟨mid, hmid, -⟩ := TokenGraph.after_append_iff.1 hafter
      exact ⟨mid, ws, hspells, hmid, fun h => absurd h Bool.noConfusion⟩
  · have := hanswers allowPrefix
    rwa [Answers, h] at this

/-! ### An example

The text `at only two` and the pattern `at $Place`, where a place is called `only two`. -/

namespace Example

/-- The token of a word of a text, at its byte and its slot. -/
def wordAt (text : String) (startOffset position : Nat) : Token :=
  { text, startOffset, endOffset := startOffset + text.utf8ByteSize, position }

/-- The text. -/
def text : TokenGraph :=
  .ofTokens [wordAt "at" 0 0, wordAt "only" 3 1, wordAt "two" 8 2] "at only two"

/-- The pattern, whose second word names the variable. -/
def pattern : TokenGraph := .ofTokens [wordAt "at" 0 0, wordAt "Place" 4 1] "at $Place"

/-- The phrasing of a place. -/
def phrasing : TokenGraph := .ofTokens [wordAt "only" 0 0, wordAt "two" 5 1] "only two"

/-- The variable, with a year beside it. -/
def vars : Variables :=
  .ofVariables [.year 1996, .table "$Place" (.ofList [("Two", [phrasing])])]

theorem text_tidy : text.Tidy := TokenGraph.tidy_of_forward (by decide) (by decide)

theorem pattern_tidy : pattern.Tidy := TokenGraph.tidy_of_forward (by decide) (by decide)

theorem vars_rowPhrasings : RowPhrasings vars := by
  have hvars : vars.values = [.table "$Place" (.ofList [("Two", [phrasing])]), .year 1996] := rfl
  intro v hv g hg
  simp only [hvars, List.mem_cons, List.not_mem_nil, or_false] at hv
  rcases hv with rfl | rfl
  · obtain rfl : g = phrasing := List.mem_singleton.1 hg
    exact ⟨[0, 1], by decide, ⟨rfl, by decide, rfl, by decide, rfl⟩, by decide⟩
  · exact absurd hg List.not_mem_nil

/-- A whole path through the text has words that the pattern stands for. -/
theorem exists_common_words : text.Tidy ∧ pattern.Tidy ∧ RowPhrasings vars ∧
    ∃ ws, text.Accepts ws ∧ Language vars pattern ws :=
  ⟨text_tidy, pattern_tidy, vars_rowPhrasings,
    (findMatch_isSome_iff text_tidy pattern_tidy vars_rowPhrasings).1.1 (by decide)⟩

end Example

end PhraseGraph
