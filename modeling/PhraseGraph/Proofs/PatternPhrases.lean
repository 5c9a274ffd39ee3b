import PhraseGraph.Proofs.Expansion
import PhraseGraph.Proofs.Matching.Exactness
import PhraseGraph.Proofs.SlotGraph

/-!
# The phrases of a pattern

A pattern is listed along its origins and matched along its nodes. The two agree where every node has one
origin, which the others follow as the nodes do (`TokenGraph.SingleOrigins`), and every variable lists
some phrase. In a phrasing the nodes may have more origins, if none of them ends before its node does
(`TokenGraph.Mirrored`). Then the words of the listed phrases are those along the paths of the pattern
from a root to an end, with a listed year or the words of a phrasing in the place of each variable
(`ListedFor`); and the pattern matches each of them as a text of its own (`phrases_match_and_cover`).
Years are listed up to the current one, but read only below 2100: from then on a pattern with a year
lists more than it matches.
-/

namespace PhraseGraph

open Relation

/-! ### Origins that mirror their nodes -/

namespace TokenGraph

variable {g : TokenGraph} {ids : List NodeId} {rs path : List OriginId} {id : NodeId} {r : OriginId}

/-- The node is there and has origins. They tell the node, those that can follow them are origins of
    nodes that can follow it, and none of them is a last one if the node is not. -/
structure Mirrors (g : TokenGraph) (id : NodeId) : Prop where
  lt_size : id < g.size
  origins_ne_nil : (g.node id).origins ≠ []
  lt_size_origins : ∀ r ∈ (g.node id).origins, r < g.origins.size
  node_eq : ∀ r ∈ (g.node id).origins, (g.origin r).node = id
  children_subset : ∀ r ∈ (g.node id).origins, (g.origin r).children ⊆ g.originsOf (g.children id)
  eq_nil_of_last : ∀ r ∈ (g.node id).origins, (g.origin r).children = [] → g.children id = []

/-- Origins follow one another only as their nodes do. -/
def Mirrored (g : TokenGraph) : Prop := ∀ id, g.Listed id → g.Mirrors id

theorem mem_originsOf_iff : r ∈ g.originsOf ids ↔ ∃ id ∈ ids, r ∈ (g.node id).origins :=
  List.mem_flatMap

/-- Within `n` origins every path has come to its end if no path is longer. -/
theorem endsWithin_of_length_le {n : Nat} (h : ∀ path, g.IsOriginPath rs path → path.length ≤ n) :
    g.EndsWithin n rs := by
  induction n generalizing rs with
  | zero =>
    refine List.eq_nil_iff_forall_not_mem.2 fun r hr => ?_
    exact absurd (h [r] ⟨hr, trivial⟩) (by simp)
  | succ n ih =>
    exact fun r hr => ih fun path hpath => Nat.le_of_succ_le_succ (h (r :: path) ⟨hr, hpath⟩)

namespace Mirrored

variable (h : g.Mirrored)
include h

theorem mem_origins_of_mem_originsOf (hids : ∀ id ∈ ids, g.Listed id) (hr : r ∈ g.originsOf ids) :
    (g.origin r).node ∈ ids ∧ r ∈ (g.node (g.origin r).node).origins := by
  obtain ⟨id, hid, hr⟩ := mem_originsOf_iff.1 hr
  rw [(h id (hids id hid)).node_eq r hr]
  exact ⟨hid, hr⟩

/-- An origin that can be reached is one of the node that it tells, which is a root or a child. -/
theorem of_originReached (hr : g.OriginReached r) :
    g.Listed (g.origin r).node ∧ r ∈ (g.node (g.origin r).node).origins := by
  obtain ⟨root, hroot, hreach⟩ := hr
  induction hreach with
  | refl =>
    obtain ⟨hid, hr⟩ := h.mem_origins_of_mem_originsOf (fun _ => .inl) hroot
    exact ⟨.inl hid, hr⟩
  | @tail r r' _ hstep ih =>
    obtain ⟨hlisted, hr⟩ := ih
    have hchildren := (h _ hlisted).children_subset r hr hstep
    obtain ⟨hid, hr'⟩ := h.mem_origins_of_mem_originsOf (fun c hc => .inr ⟨_, hc⟩) hchildren
    exact ⟨.inr ⟨_, hid⟩, hr'⟩

/-- A path of origins is a path of their nodes. -/
theorem isPath_map_node (hids : ∀ id ∈ ids, g.Listed id) (hrs : ∀ r ∈ rs, r ∈ g.originsOf ids)
    (hpath : g.IsOriginPath rs path) : g.IsPath ids (path.map fun r => (g.origin r).node) := by
  induction path generalizing ids rs with
  | nil => trivial
  | cons r path ih =>
    obtain ⟨hid, hr⟩ := h.mem_origins_of_mem_originsOf hids (hrs r hpath.1)
    exact ⟨hid, ih (fun c hc => .inr ⟨_, hc⟩)
      (fun _ hr' => (h _ (hids _ hid)).children_subset r hr hr') hpath.2⟩

/-- Nothing follows an origin if and only if nothing follows its node. -/
theorem children_origin_eq_nil_iff (hr : g.OriginReached r) :
    (g.origin r).children = [] ↔ g.children (g.origin r).node = [] := by
  obtain ⟨hlisted, hr⟩ := h.of_originReached hr
  refine ⟨(h _ hlisted).eq_nil_of_last r hr, fun hnil => ?_⟩
  have hsub := (h _ hlisted).children_subset r hr
  rw [hnil] at hsub
  exact List.subset_nil.1 hsub

/-- The origins of different nodes differ, so there are enough of them for every path. -/
theorem endsWithin_originRoots (hnodup : ∀ path, g.IsPath g.roots path → path.Nodup) :
    g.EndsWithin (g.origins.size + 1) g.originRoots := by
  refine endsWithin_of_length_le fun path hpath => Nat.le_succ_of_le ?_
  have hroots : ∀ r ∈ g.originRoots, g.OriginReached r := fun r hr => ⟨r, hr, .refl⟩
  have hnodes := hnodup _ (h.isPath_map_node (fun _ => .inl) (fun _ hr => hr) hpath)
  have hsub : path ⊆ List.range g.origins.size := fun r hr => by
    obtain ⟨hlisted, hmem⟩ := h.of_originReached (hpath.reached_of_mem hroots hr)
    exact List.mem_range.2 ((h _ hlisted).lt_size_origins r hmem)
  rw [← List.length_range (n := g.origins.size)]
  exact hnodes.of_map.length_le_of_subset hsub

theorem node_lt (r : OriginId) (hr : g.OriginReached r) : (g.origin r).node < g.size :=
  (h _ (h.of_originReached hr).1).lt_size

end Mirrored

/-! ### Phrasings -/

/-- A path through a row goes along the row. -/
theorem IsRow.isPath_prefix {row path : List NodeId} (hrow : g.IsRow ids row)
    (hpath : g.IsPath ids path) : path <+: row := by
  induction path generalizing ids row with
  | nil => exact List.nil_prefix
  | cons id path ih =>
    cases row with
    | nil =>
      obtain rfl : ids = [] := hrow
      exact absurd hpath.1 List.not_mem_nil
    | cons id' row =>
      obtain ⟨rfl, -, hbelow⟩ := hrow
      obtain rfl := List.mem_singleton.1 hpath.1
      exact (List.prefix_cons_inj id).2 (ih hbelow hpath.2)

/-- A path that has come to an end of a row has gone through the whole row. -/
theorem IsRow.eq_of_isPath {row path : List NodeId} (hrow : g.IsRow ids row)
    (hpath : g.IsPath ids path)
    (hlast : ∃ last ∈ path.getLast?, g.isEnd last = true ∨ g.children last = []) : path = row := by
  induction path generalizing ids row with
  | nil =>
    obtain ⟨last, hlast, -⟩ := hlast
    exact absurd hlast (by simp)
  | cons id path ih =>
    cases row with
    | nil =>
      obtain rfl : ids = [] := hrow
      exact absurd hpath.1 List.not_mem_nil
    | cons id' row =>
      obtain ⟨rfl, hend, hbelow⟩ := hrow
      obtain rfl := List.mem_singleton.1 hpath.1
      obtain ⟨last, hlast, hstop⟩ := hlast
      cases path with
      | nil =>
        obtain rfl : id = last := by simpa using hlast
        -- Where the path stops the row does, at an end as well as where nothing follows.
        cases row with
        | nil => rfl
        | cons c row =>
          rcases hstop with hstop | hleaf
          · exact absurd (hend hstop) (List.cons_ne_nil _ _)
          · exact absurd (hleaf.symm.trans hbelow.1) (List.cons_ne_nil _ _).symm
      | cons c path =>
        rw [List.getLast?_cons_cons] at hlast
        rw [ih hbelow hpath.2 ⟨last, hlast, hstop⟩]

/-- What is listed of a row of words are these words. -/
theorem IsRow.exists_literalPhrases {row : List NodeId} (hrow : g.IsRow g.roots row) (hne : row ≠ [])
    (h : g.Mirrored) : ∃ listed, g.literalPhrases = .ofList listed ∧ listed ≠ [] ∧
      ∀ p ∈ listed, p.tokens = row.map g.text := by
  have hroots : ∀ r ∈ g.originRoots, g.OriginReached r := fun r hr => ⟨r, hr, .refl⟩
  have hends := h.endsWithin_originRoots fun path hpath =>
    hrow.nodup.sublist (hrow.isPath_prefix hpath).sublist
  refine ⟨g.literalPhrases.items, ?_, ?_, fun p hp => ?_⟩
  · rw [Enumeration.ofList, ← failure_literalPhrases h.node_lt]
  · refine fun hnil => ?_
    have hnone : g.originRoots = [] :=
      ((supplied_literal h.node_lt).items_expand_eq_nil_iff hroots hends).1 hnil
    cases row with
    | nil => exact hne rfl
    | cons id row =>
      have hid : id ∈ g.roots := hrow.1 ▸ List.mem_singleton_self id
      obtain ⟨r, hr⟩ := List.exists_mem_of_ne_nil _ (h id (.inl hid)).origins_ne_nil
      have hmem : r ∈ g.originRoots := mem_originsOf_iff.2 ⟨id, hid, hr⟩
      exact absurd (hnone ▸ hmem) List.not_mem_nil
  · obtain ⟨path, hpath, ⟨last, hlast, hstop⟩, rfl⟩ :=
      (mem_items_literalPhrases_iff h.node_lt hends).1 hp
    have hreached := hpath.reached_of_mem hroots (List.mem_of_getLast? hlast)
    rw [MayStop, h.children_origin_eq_nil_iff hreached] at hstop
    have hwhole := hrow.eq_of_isPath (h.isPath_map_node (fun _ => .inl) (fun _ hr => hr) hpath)
      ⟨_, by rw [List.getLast?_map]; exact Option.mem_map_of_mem _ hlast, hstop⟩
    rw [tokens_phraseAlong, ← hwhole, List.map_map]
    rfl

end TokenGraph

/-! ### Variables -/

/-- The words that a variable lists: a year from the first one to the current one, or the words of a
    phrasing. -/
def Variable.Lists (now : Int) : Variable → List String → Prop
  | .year start, ws => ∃ y ∈ yearsFrom start now, ws = [toString y]
  | .table name values, ws =>
    ∃ g ∈ (Variable.table name values).phrasings, ∃ row, g.IsRow g.roots row ∧ ws = row.map g.text

/-- The words that are listed for a pattern node. -/
def ListedFor (now : Int) (vars : Variables) (pattern : TokenGraph) (p : NodeId)
    (ws : List String) : Prop :=
  match variableAt? vars pattern p with
  | none => ws = [pattern.text p]
  | some v => v.Lists now ws

/-- Every variable lists some phrase, and what it lists can be read: the years begin after 1900, and
    not after the current one; a table has a phrasing, and each of them is a row of words, with their
    origins, that names no variable. -/
structure Listable (now : Int) (vars : Variables) : Prop where
  year_range : ∀ start, Variable.year start ∈ vars.values → 1901 ≤ start ∧ start ≤ now
  phrasings_ne_nil : ∀ name values, Variable.table name values ∈ vars.values →
    (Variable.table name values).phrasings ≠ []
  rowPhrasings : RowPhrasings vars
  mirrored : ∀ v ∈ vars.values, ∀ g ∈ v.phrasings, g.Mirrored

section Variables

variable {vars : Variables} {v : Variable} {start now : Int} {ws : List String}

theorem mem_yearsFrom_iff {y : Int} : y ∈ yearsFrom start now ↔ start ≤ y ∧ y ≤ now := by
  rw [yearsFrom, List.mem_map]
  constructor
  · rintro ⟨n, hn, rfl⟩
    rw [List.mem_range] at hn
    omega
  · rintro ⟨hstart, hcurrent⟩
    refine ⟨(y - start).toNat, List.mem_range.2 ?_, ?_⟩ <;> omega

/-- A year of these two centuries is read as itself. -/
theorem isSome_parseYear?_toString {y : Int} (hfirst : 1901 ≤ y) (hlast : y ≤ 2099) :
    (parseYear? (toString y)).isSome = true := by
  have hall : ∀ n < 199, (parseYear? (toString ((1901 : Int) + (n : Nat)))).isSome = true := by
    decide +kernel
  have hlt : (y - 1901).toNat < 199 := by omega
  have hy : y = 1901 + ((y - 1901).toNat : Int) := by omega
  exact hy ▸ hall _ hlt

theorem exists_phrases_year (pre suf : String) (hstart : start ≤ now) :
    ∃ phrases, (Variable.year start).phrases now pre suf = .ok phrases ∧ phrases ≠ [] ∧
      ∀ ws, (∃ p ∈ phrases, p.tokens = ws) ↔ (Variable.year start).Lists now ws := by
  refine ⟨_, rfl, ?_, fun ws => ?_⟩
  · have hmem : start ∈ yearsFrom start now := mem_yearsFrom_iff.2 ⟨Int.le_refl _, hstart⟩
    exact List.ne_nil_of_mem (List.mem_map_of_mem hmem)
  · constructor
    · rintro ⟨_, hp, rfl⟩
      obtain ⟨y, hy, rfl⟩ := List.mem_map.1 hp
      exact ⟨y, hy, rfl⟩
    · rintro ⟨y, hy, rfl⟩
      exact ⟨_, List.mem_map_of_mem hy, rfl⟩

/-- The phrases of a table are those of its phrasings, each as a single binding. -/
theorem exists_phrases_table_eq_ok {name : String} {values : Dict String (List TokenGraph)}
    (now : Int) (pre suf : String)
    (h : ∀ way ∈ Variable.valuedPhrasings values, way.2.literalPhrases.failure = none) :
    ∃ phrases, (Variable.table name values).phrases now pre suf = .ok phrases ∧
      ∀ p, p ∈ phrases ↔ ∃ way ∈ Variable.valuedPhrasings values,
        ∃ q ∈ way.2.literalPhrases.items, q.reduce name way.1 pre suf = p := by
  have hparts : ∀ way ∈ Variable.valuedPhrasings values,
      (way.2.literalPhrases.map fun p => p.reduce name way.1 pre suf).failure = none := h
  refine ⟨(Enumeration.gather (Variable.valuedPhrasings values) fun way =>
    way.2.literalPhrases.map fun p => p.reduce name way.1 pre suf).items, ?_, fun p => ?_⟩
  · rw [Variable.phrases, Enumeration.all, Enumeration.failure_gather hparts]
  · rw [Enumeration.mem_items_gather_iff hparts]
    exact exists_congr fun way => and_congr_right fun _ => List.mem_map

theorem Phrase.tokens_reduce {p : Phrase} {name value pre suf : String} :
    (p.reduce name value pre suf).tokens = p.tokens := by
  simp [reduce, tokens]

theorem exists_phrases_table {name : String} {values : Dict String (List TokenGraph)}
    (now : Int) (pre suf : String) (hsome : (Variable.table name values).phrasings ≠ [])
    (hrows : ∀ g ∈ (Variable.table name values).phrasings,
      g.Mirrored ∧ ∃ row, row ≠ [] ∧ g.IsRow g.roots row) :
    ∃ phrases, (Variable.table name values).phrases now pre suf = .ok phrases ∧ phrases ≠ [] ∧
      ∀ ws, (∃ p ∈ phrases, p.tokens = ws) ↔ (Variable.table name values).Lists now ws := by
  have hlisted : ∀ way ∈ Variable.valuedPhrasings values, ∃ row, way.2.IsRow way.2.roots row ∧
      ∃ listed, way.2.literalPhrases = .ofList listed ∧ listed ≠ [] ∧
        ∀ p ∈ listed, p.tokens = row.map way.2.text := by
    rintro ⟨value, g⟩ hway
    obtain ⟨hmirrored, row, hne, hrow⟩ := hrows g (mem_phrasings_iff.2 ⟨value, hway⟩)
    exact ⟨row, hrow, hrow.exists_literalPhrases hne hmirrored⟩
  obtain ⟨phrases, hphrases, hmem⟩ := @exists_phrases_table_eq_ok name values now pre suf
    fun way hway => by
      obtain ⟨row, -, listed, hlisted, -⟩ := hlisted way hway
      rw [hlisted]
      rfl
  refine ⟨phrases, hphrases, ?_, fun ws => ⟨?_, ?_⟩⟩
  · obtain ⟨g, hg⟩ := List.exists_mem_of_ne_nil _ hsome
    obtain ⟨value, hway⟩ := mem_phrasings_iff.1 hg
    obtain ⟨row, -, listed, hlisted, hne, -⟩ := hlisted _ hway
    obtain ⟨q, hq⟩ := List.exists_mem_of_ne_nil _ hne
    exact List.ne_nil_of_mem ((hmem _).2 ⟨_, hway, q, by rw [hlisted]; exact hq, rfl⟩)
  · rintro ⟨p, hp, rfl⟩
    obtain ⟨way, hway, q, hq, rfl⟩ := (hmem p).1 hp
    obtain ⟨row, hrow, listed, hlisted, -, hwords⟩ := hlisted way hway
    rw [hlisted] at hq
    exact ⟨way.2, mem_phrasings_iff.2 ⟨way.1, hway⟩, row, hrow,
      Phrase.tokens_reduce.trans (hwords q hq)⟩
  · rintro ⟨g, hg, row, hrow, rfl⟩
    obtain ⟨value, hway⟩ := mem_phrasings_iff.1 hg
    obtain ⟨row', hrow', listed, hlisted, hne, hwords⟩ := hlisted _ hway
    obtain ⟨q, hq⟩ := List.exists_mem_of_ne_nil _ hne
    refine ⟨_, (hmem _).2 ⟨_, hway, q, by rw [hlisted]; exact hq, rfl⟩, ?_⟩
    rw [Phrase.tokens_reduce, hwords q hq, hrow'.unique hrow]

namespace Listable

variable (h : Listable now vars)
include h

/-- A variable lists some phrases, and their words are the words that it lists. -/
theorem exists_phrases (hv : v ∈ vars.values) (pre suf : String) :
    ∃ phrases, v.phrases now pre suf = .ok phrases ∧ phrases ≠ [] ∧
      ∀ ws, (∃ p ∈ phrases, p.tokens = ws) ↔ v.Lists now ws := by
  cases v with
  | year start => exact exists_phrases_year pre suf (h.year_range start hv).2
  | table name values =>
    refine exists_phrases_table now pre suf (h.phrasings_ne_nil name values hv) fun g hg => ?_
    obtain ⟨row, hne, hrow, -⟩ := h.rowPhrasings _ hv g hg
    exact ⟨h.mirrored _ hv g hg, row, hne, hrow⟩

/-- A pattern node stands for the words that are listed for it. -/
theorem standsFor_of_listedFor (hnow : now ≤ 2099) {pattern : TokenGraph} {p : NodeId}
    (hws : ListedFor now vars pattern p ws) : StandsFor vars pattern p ws := by
  rw [ListedFor] at hws
  rw [StandsFor]
  cases hv : variableAt? vars pattern p with
  | none =>
    rw [hv] at hws
    exact hws
  | some v =>
    rw [hv] at hws
    cases v with
    | year start =>
      obtain ⟨y, hy, rfl⟩ := hws
      obtain ⟨hstart, hcurrent⟩ := mem_yearsFrom_iff.1 hy
      obtain ⟨hfirst, -⟩ := h.year_range start (mem_values_of_variableAt hv)
      exact ⟨_, isSome_parseYear?_toString (hfirst.trans hstart) (hcurrent.trans hnow), rfl⟩
    | table name values => exact hws

end Listable

end Variables

/-! ### Patterns -/

section Patterns

variable {now : Int} {vars : Variables} {pattern : TokenGraph} {r : OriginId} {ws : List String}

namespace TokenGraph

/-- Every node has one origin, and these follow one another just as the nodes do. -/
structure SingleOrigins (g : TokenGraph) : Prop where
  mirrored : g.Mirrored
  exists_eq : ∀ id, g.Listed id → ∃ r, (g.node id).origins = [r]
  mem_children : ∀ id, g.Listed id → ∀ r ∈ (g.node id).origins,
    ∀ r' ∈ g.originsOf (g.children id), r' ∈ (g.origin r).children

/-- A path of nodes is a path of their origins. -/
theorem SingleOrigins.exists_isOriginPath {g : TokenGraph} (h : g.SingleOrigins) {ids : List NodeId}
    {rs : List OriginId} {path : List NodeId} (hids : ∀ id ∈ ids, g.Listed id)
    (hrs : ∀ r ∈ g.originsOf ids, r ∈ rs) (hpath : g.IsPath ids path) :
    ∃ path', g.IsOriginPath rs path' ∧ path'.map (fun r => (g.origin r).node) = path := by
  induction path generalizing ids rs with
  | nil => exact ⟨[], trivial, rfl⟩
  | cons id path ih =>
    have hid := hids id hpath.1
    obtain ⟨r, hr⟩ := List.exists_mem_of_ne_nil _ (h.mirrored id hid).origins_ne_nil
    obtain ⟨path', hpath', rfl⟩ :=
      ih (fun c hc => .inr ⟨id, hc⟩) (h.mem_children id hid r hr) hpath.2
    exact ⟨r :: path', ⟨hrs r (mem_originsOf_iff.2 ⟨id, hpath.1, hr⟩), hpath'⟩,
      congrArg (· :: _) ((h.mirrored id hid).node_eq r hr)⟩

end TokenGraph

/-- The graph of tokens with one slot each has one origin for each node. -/
theorem OnePerSlot.singleOrigins {tokens : List Token} (h : OnePerSlot tokens) (phrase : String) :
    (TokenGraph.ofTokens tokens phrase).SingleOrigins := by
  obtain ⟨m, out, hn⟩ := exists_normalForm tokens phrase
  have hmade : ∀ id, (TokenGraph.ofTokens tokens phrase).Listed id → ∃ r,
      Provenance.MadeFor tokens phrase r id ∧
        ((TokenGraph.ofTokens tokens phrase).node id).origins = [r] := fun id hid => by
    have hk := h.lt_length_of_listed hid
    obtain ⟨r, hr, -⟩ := Provenance.existsUnique_madeFor phrase hk
    exact ⟨r, hr, h.origins_ofTokens hk hr⟩
  have hchildren : ∀ id, (TokenGraph.ofTokens tokens phrase).Listed id →
      ∀ r ∈ ((TokenGraph.ofTokens tokens phrase).node id).origins,
        Provenance.MadeFor tokens phrase r id ∧
          ((TokenGraph.ofTokens tokens phrase).origin r).children =
            (TokenGraph.ofTokens tokens phrase).originsOf
              ((TokenGraph.ofTokens tokens phrase).children id) := by
    intro id hid r hr
    obtain ⟨r', hr', horigins⟩ := hmade id hid
    obtain rfl : r = r' := List.mem_singleton.1 (horigins ▸ hr)
    exact ⟨hr', h.children_origin_ofTokens (h.lt_length_of_listed hid) hr'⟩
  refine ⟨fun id hid => ?_, fun id hid => (hmade id hid).imp fun _ => And.right,
    fun id hid r hr r' hr' => (hchildren id hid r hr).2 ▸ hr'⟩
  have hk := h.lt_length_of_listed hid
  refine ⟨h.size_ofTokens.symm ▸ hk, ?_, fun r hr => ?_, fun r hr => ?_, fun r hr => ?_,
    fun r hr hnil => ?_⟩
  · obtain ⟨r, -, horigins⟩ := hmade id hid
    exact horigins ▸ List.cons_ne_nil _ _
  · exact hn.size_origins_ofTokens.symm ▸ (hchildren id hid r hr).1.1
  · have hr := (hchildren id hid r hr).1
    rw [h.origin_ofTokens hk hr, hr.2]
  · rw [(hchildren id hid r hr).2]
    exact List.Subset.refl _
  · -- The next token would have an origin.
    refine List.eq_nil_iff_forall_not_mem.2 fun c hc => ?_
    obtain ⟨r', -, horigins⟩ := hmade c (.inr ⟨id, hc⟩)
    have hmem : r' ∈ ((TokenGraph.ofTokens tokens phrase).origin r).children :=
      (hchildren id hid r hr).2 ▸ TokenGraph.mem_originsOf_iff.2
        ⟨c, hc, horigins ▸ List.mem_singleton_self r'⟩
    exact absurd (hnil ▸ hmem) List.not_mem_nil

/-- The phrases that an origin contributes have the words that are listed for its node. -/
theorem exists_ownPhrases (hpattern : pattern.SingleOrigins) (hvars : Listable now vars)
    (hr : pattern.OriginReached r) :
    ∃ phrases, pattern.ownPhrases now vars (pattern.origin r) = .ok phrases ∧ phrases ≠ [] ∧
      ∀ ws, (∃ p ∈ phrases, p.tokens = ws) ↔
        ListedFor now vars pattern (pattern.origin r).node ws := by
  obtain ⟨hlisted, hmem⟩ := hpattern.mirrored.of_originReached hr
  obtain ⟨r', horigins⟩ := hpattern.exists_eq _ hlisted
  obtain rfl : r = r' := List.mem_singleton.1 (horigins ▸ hmem)
  have hvariable : variableAt? vars pattern (pattern.origin r).node =
      vars.get? (pattern.origin r).variableName := by
    rw [variableAt?, TokenGraph.firstOrigin?, horigins]
    rfl
  simp only [ListedFor, TokenGraph.ownPhrases, ← hvariable]
  cases hv : variableAt? vars pattern (pattern.origin r).node with
  | some v => exact hvars.exists_phrases (mem_values_of_variableAt hv) _ _
  | none =>
    simp only [TokenGraph.literalPhrase_eq_ok (hpattern.mirrored.node_lt r hr)]
    refine ⟨_, rfl, List.cons_ne_nil _ _, fun ws => ?_⟩
    simp [Phrase.text, Phrase.tokens, Binding.text, Binding.ofToken, eq_comm]

theorem supplied_ownPhrases (hpattern : pattern.SingleOrigins) (hvars : Listable now vars) :
    pattern.Supplied (pattern.ownPhrases now vars) where
  node_lt := hpattern.mirrored.node_lt
  own_ne_nil r hr := by
    obtain ⟨phrases, hown, hne, -⟩ := exists_ownPhrases hpattern hvars hr
    exact ⟨phrases, hown, hne⟩

/-- The words of the phrases of an origin are those that are listed for its node. -/
theorem exists_ownPhrase_iff (hpattern : pattern.SingleOrigins) (hvars : Listable now vars)
    (hr : pattern.OriginReached r) :
    (∃ part, pattern.OwnPhrase (pattern.ownPhrases now vars) r part ∧ part.tokens = ws) ↔
      ListedFor now vars pattern (pattern.origin r).node ws := by
  obtain ⟨phrases, hown, -, hwords⟩ := exists_ownPhrases hpattern hvars hr
  rw [← hwords]
  simp only [TokenGraph.OwnPhrase, hown]
  constructor
  · rintro ⟨part, ⟨_, ⟨⟩, hpart⟩, htokens⟩
    exact ⟨part, hpart, htokens⟩
  · rintro ⟨part, hpart, htokens⟩
    exact ⟨part, ⟨phrases, rfl, hpart⟩, htokens⟩

/-- The words along a path of origins are those that are listed along the path of their nodes. -/
theorem exists_parts_iff (hpattern : pattern.SingleOrigins) (hvars : Listable now vars)
    {path : List OriginId} (hpath : ∀ r ∈ path, pattern.OriginReached r)
    {words : List (List String)} :
    (∃ parts, List.Forall₂ (pattern.OwnPhrase (pattern.ownPhrases now vars)) path parts ∧
        parts.map Phrase.tokens = words) ↔
      List.Forall₂ (ListedFor now vars pattern) (path.map fun r => (pattern.origin r).node) words := by
  induction path generalizing words with
  | nil =>
    simp only [List.forall₂_nil_left_iff, exists_eq_left, List.map_nil]
    exact eq_comm
  | cons r path ih =>
    have ih := @ih fun r' hr' => hpath r' (List.mem_cons_of_mem _ hr')
    have hr := @exists_ownPhrase_iff now vars pattern r
    rw [List.map_cons, List.forall₂_cons_left_iff]
    constructor
    · rintro ⟨parts, hparts, rfl⟩
      obtain ⟨part, rest, hpart, hrest, rfl⟩ := List.forall₂_cons_left_iff.1 hparts
      exact ⟨part.tokens, rest.map Phrase.tokens,
        (hr hpattern hvars (hpath r List.mem_cons_self)).1 ⟨part, hpart, rfl⟩,
        ih.1 ⟨rest, hrest, rfl⟩, rfl⟩
    · rintro ⟨u, us, hu, hus, rfl⟩
      obtain ⟨part, hpart, rfl⟩ := (hr hpattern hvars (hpath r List.mem_cons_self)).2 hu
      obtain ⟨rest, hrest, rfl⟩ := ih.2 hus
      exact ⟨part :: rest, .cons hpart hrest, rfl⟩

/-- The words along a path from a root to an end, with words that are listed for each node. -/
def ListedAlong (now : Int) (vars : Variables) (pattern : TokenGraph) (ws : List String) : Prop :=
  ∃ path parts, pattern.IsPath pattern.roots path ∧
    (∃ last ∈ path.getLast?, pattern.isEnd last = true) ∧
    List.Forall₂ (ListedFor now vars pattern) path parts ∧ parts.flatten = ws

theorem exists_tokens_eq_iff_listedAlong (htidy : pattern.Tidy) (hpattern : pattern.SingleOrigins)
    (hvars : Listable now vars) :
    (∃ p ∈ (pattern.phrases now vars).items, p.tokens = ws) ↔ ListedAlong now vars pattern ws := by
  have hroots : ∀ r ∈ pattern.originRoots, pattern.OriginReached r := fun r hr => ⟨r, hr, .refl⟩
  have hends := hpattern.mirrored.endsWithin_originRoots fun _ => htidy.acyclic.nodup
  have hitems : ∀ p, p ∈ (pattern.phrases now vars).items ↔ _ := fun p =>
    (supplied_ownPhrases hpattern hvars).mem_items_expand_iff hroots hends
  -- In a tidy pattern a phrase may stop at the ends only.
  have hstop : ∀ r, pattern.OriginReached r →
      (pattern.MayStop r ↔ pattern.isEnd (pattern.origin r).node = true) := by
    intro r hr
    rw [TokenGraph.MayStop, hpattern.mirrored.children_origin_eq_nil_iff hr,
      ← htidy.end_iff _ (hpattern.mirrored.of_originReached hr).1, or_self]
  constructor
  · rintro ⟨p, hp, rfl⟩
    obtain ⟨path, parts, hpath, ⟨last, hlast, hmay⟩, hparts, rfl⟩ := (hitems p).1 hp
    have hreached : ∀ r ∈ path, pattern.OriginReached r := fun r => hpath.reached_of_mem hroots
    refine ⟨_, parts.map Phrase.tokens,
      hpattern.mirrored.isPath_map_node (fun _ => .inl) (fun _ hr => hr) hpath,
      ⟨_, ?_, (hstop last (hreached last (List.mem_of_getLast? hlast))).1 hmay⟩,
      (exists_parts_iff hpattern hvars hreached).1 ⟨parts, hparts, rfl⟩, ?_⟩
    · rw [List.getLast?_map]
      exact Option.mem_map_of_mem _ hlast
    · rw [Phrase.tokens_concat, List.flatMap_def]
  · rintro ⟨path, words, hpath, ⟨last, hlast, hend⟩, hwords, rfl⟩
    obtain ⟨path, hpath', rfl⟩ :=
      hpattern.exists_isOriginPath (fun _ => .inl) (fun _ hr => hr) hpath
    have hreached : ∀ r ∈ path, pattern.OriginReached r := fun r => hpath'.reached_of_mem hroots
    obtain ⟨parts, hparts, rfl⟩ := (exists_parts_iff hpattern hvars hreached).2 hwords
    rw [List.getLast?_map] at hlast
    obtain ⟨r, hr, rfl⟩ := Option.mem_map.1 hlast
    refine ⟨_, (hitems _).2 ⟨path, parts, hpath', ⟨r, hr, ?_⟩, hparts, rfl⟩, ?_⟩
    · exact (hstop r (hreached r (List.mem_of_getLast? hr))).2 hend
    · rw [Phrase.tokens_concat, List.flatMap_def]

/-- What is listed along a pattern is in its language. -/
theorem Listable.language_of_listedAlong (hvars : Listable now vars) (hnow : now ≤ 2099)
    (hws : ListedAlong now vars pattern ws) : Language vars pattern ws := by
  obtain ⟨path, parts, hpath, hend, hparts, rfl⟩ := hws
  exact ⟨path, parts, .inr ⟨hpath, hend⟩,
    hparts.imp fun _ _ => hvars.standsFor_of_listedFor hnow, rfl⟩

end Patterns

/-- Listing and matching are inverse, while the current year is one that can be read. A tidy pattern,
    whose nodes have one origin each, is listed to the end. It matches every phrase that is listed, as
    a text with one slot for each word; and the words of the phrases are those along the paths from a
    root to an end, with a listed year or the words of a phrasing in the place of each variable. -/
theorem phrases_match_and_cover {pattern : TokenGraph} {vars : Variables} {now : Int}
    (hnow : now ≤ 2099) (htidy : pattern.Tidy) (hpattern : pattern.SingleOrigins)
    (hvars : Listable now vars) :
    ∃ listed, pattern.phrases now vars = .ofList listed ∧
      (∀ p ∈ listed, ∀ tokens phrase, OnePerSlot tokens → tokens.map (·.text) = p.tokens →
        (findMatch (TokenGraph.ofTokens tokens phrase) pattern false vars).isSome = true) ∧
      ∀ ws, (∃ p ∈ listed, p.tokens = ws) ↔ ListedAlong now vars pattern ws := by
  refine ⟨(pattern.phrases now vars).items, ?_, fun p hp tokens phrase htokens hwords => ?_,
    fun ws => exists_tokens_eq_iff_listedAlong htidy hpattern hvars⟩
  · have hfailure : (pattern.phrases now vars).failure = none :=
      (supplied_ownPhrases hpattern hvars).failure_expand fun r hr => ⟨r, hr, .refl⟩
    rw [Enumeration.ofList, ← hfailure]
  · refine (findMatch_isSome_iff (htokens.tidy_ofTokens phrase) htidy hvars.rowPhrasings).1.2 ?_
    exact ⟨p.tokens, htokens.accepts_iff.2 hwords.symm, hvars.language_of_listedAlong hnow
      ((exists_tokens_eq_iff_listedAlong htidy hpattern hvars).1 ⟨p, hp, rfl⟩)⟩

namespace Example

theorem vars_listable : Listable 2024 vars := by
  have hvars : vars.values = [.table "$Place" (.ofList [("Two", [phrasing])]), .year 1996] := rfl
  have hphrasing : phrasing.Mirrored :=
    (OnePerSlot.singleOrigins ⟨by decide, by decide⟩ "only two").mirrored
  refine ⟨fun start h => ?_, fun name values h => ?_, vars_rowPhrasings, fun v hv g hg => ?_⟩
  · simp only [hvars, List.mem_cons, List.not_mem_nil, or_false, reduceCtorEq, false_or,
      Variable.year.injEq] at h
    subst h
    decide
  · simp only [hvars, List.mem_cons, List.not_mem_nil, or_false, reduceCtorEq,
      Variable.table.injEq] at h
    obtain ⟨-, rfl⟩ := h
    exact List.cons_ne_nil _ _
  · simp only [hvars, List.mem_cons, List.not_mem_nil, or_false] at hv
    rcases hv with rfl | rfl
    · obtain rfl : g = phrasing := List.mem_singleton.1 hg
      exact hphrasing
    · exact absurd hg List.not_mem_nil

/-- A place is listed by its phrasing, and matched by it. -/
theorem pattern_match_and_cover :
    (2024 : Int) ≤ 2099 ∧ pattern.Tidy ∧ pattern.SingleOrigins ∧ Listable 2024 vars ∧
    ∃ listed, pattern.phrases 2024 vars = .ofList listed ∧
      (∀ p ∈ listed, ∀ tokens phrase, OnePerSlot tokens → tokens.map (·.text) = p.tokens →
        (findMatch (TokenGraph.ofTokens tokens phrase) pattern false vars).isSome = true) ∧
      ∀ ws, (∃ p ∈ listed, p.tokens = ws) ↔ ListedAlong 2024 vars pattern ws := by
  have hpattern : pattern.SingleOrigins :=
    OnePerSlot.singleOrigins ⟨by decide, by decide⟩ "at $Place"
  have hnow : (2024 : Int) ≤ 2099 := by decide
  exact ⟨hnow, pattern_tidy, hpattern, vars_listable,
    phrases_match_and_cover hnow pattern_tidy hpattern vars_listable⟩

example : (pattern.phrases 2024 vars).items.map Phrase.tokens = [["at", "only", "two"]] := by
  decide +kernel

end Example

end PhraseGraph
