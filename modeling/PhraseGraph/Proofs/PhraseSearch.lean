import PhraseGraph.Proofs.Entries
import PhraseGraph.Proofs.Expansion
import PhraseGraph.Proofs.Matching.Tiling
import PhraseGraph.Search

/-!
# Phrases that a search finds, and assignments that it lists

Where the tokens of a query occur in a phrase is told by truth values at the places of its text, from the
last token to the first one. They tell where the tokens stand in order, with gaps between them that stay
within a line (`placesOf_iff`), so a phrase of a pattern is found if and only if the tokens of a phrase of
the query occur in it (`occurs_iff`).

What is found is listed under its literal text, but only the first phrase of each rendering of assignments
is (`searchPhrases_eq`). So there are two keys, and an assignment can get lost by either of them: another
one with the same rendering may come first, and another one with the same literal text may come later and
take its place, after which other phrases of the first one are not looked at any more. All assignments are
listed, each once, if and only if both keys tell them apart (`searchPattern_lists_found`). Neither key
does so always: a rendering does not tell which commas are part of a value, and two places may go by the
same name (`Example.moscow_overwritten`).
-/

namespace PhraseGraph

/-! ### Tokens that occur in a text -/

/-- The tokens stand at the beginning of the text, one after another, with gaps between them that stay
    within a line. -/
inductive InOrder : (tokens : List (List Char)) → (text : List Char) → Prop
  | nil {text : List Char} : InOrder [] text
  | cons {token gap text : List Char} {tokens : List (List Char)} (h : '\n' ∉ gap)
      (rest : InOrder tokens text) : InOrder (token :: tokens) (token ++ (gap ++ text))

/-- The tokens occur in the text in order, with anything but line feeds between them. -/
def Occur (tokens : List String) (text : String) : Prop :=
  ∃ before rest, text.toList = before ++ rest ∧ InOrder (tokens.map String.toList) rest

section Places

variable {text part : List Char} {parts : List (List Char)} {places after : List Bool} {i : Nat}

theorem length_withinLine : (withinLine text places).length = places.length := by
  induction text generalizing places with
  | nil => rfl
  | cons c text ih =>
    cases places with
    | nil => rfl
    | cons here places => rw [withinLine, List.length_cons, List.length_cons, ih]

/-- From a place a true one is reached if no line feed lies between them. -/
theorem withinLine_iff (h : places.length ≤ text.length + 1) : (withinLine text places)[i]? = some true ↔
    ∃ k, places[i + k]? = some true ∧ '\n' ∉ (text.drop i).take k := by
  induction text generalizing places i with
  | nil =>
    rw [withinLine]
    · constructor
      · exact fun hi => ⟨0, hi, by simp⟩
      · rintro ⟨k, hk, -⟩
        obtain ⟨hlt, -⟩ := List.getElem?_eq_some_iff.1 hk
        rw [List.length_nil] at h
        obtain rfl : k = 0 := by omega
        exact hk
    · simp
  | cons c text ih =>
    cases places with
    | nil => simp [withinLine]
    | cons here places =>
      have hlater := fun i => @ih places i (by simpa using h)
      cases i with
      | succ i =>
        simp only [withinLine, List.getElem?_cons_succ, hlater, List.drop_succ_cons, Nat.succ_add]
      | zero =>
        have hhead : (withinLine text places).headD false = true ↔
            ∃ k, places[k]? = some true ∧ '\n' ∉ text.take k := by
          have hfirst := hlater 0
          simp only [Nat.zero_add, List.drop_zero] at hfirst
          rw [← hfirst]
          cases withinLine text places <;> simp
        simp only [withinLine, List.getElem?_cons_zero, Option.some_inj, Bool.or_eq_true,
          Bool.and_eq_true, bne_iff_ne, hhead, Nat.zero_add, List.drop_zero]
        constructor
        · rintro (hhere | ⟨hc, k, hk, hgap⟩)
          · exact ⟨0, by simpa using hhere, by simp⟩
          · exact ⟨k + 1, hk, by simpa [hc.symm] using hgap⟩
        · rintro ⟨k, hk, hgap⟩
          cases k with
          | zero => exact .inl (by simpa using hk)
          | succ k =>
            obtain ⟨hc, hgap⟩ := List.ne_and_not_mem_of_not_mem_cons hgap
            exact .inr ⟨hc.symm, k, hk, hgap⟩

theorem getElem?_standsBefore : (standsBefore part text after)[i]? =
    after[i]?.map fun next => next && part.isPrefixOf (text.drop i) := by
  induction after generalizing text i with
  | nil => simp [standsBefore]
  | cons next after ih =>
    cases i with
    | zero => simp [standsBefore]
    | succ i => rw [standsBefore, List.getElem?_cons_succ, ih, List.getElem?_cons_succ, List.drop_tail]

theorem length_standsBefore : (standsBefore part text after).length = after.length := by
  induction after generalizing text with
  | nil => simp [standsBefore]
  | cons next after ih => rw [standsBefore, List.length_cons, List.length_cons, ih]

theorem length_placesOf_le : (placesOf text parts).length ≤ text.length + 1 := by
  induction parts with
  | nil => simp [placesOf]
  | cons part parts ih =>
    rw [placesOf, length_standsBefore, List.length_drop, length_withinLine]
    omega

theorem inOrder_cons_iff : InOrder (part :: parts) text ↔
    ∃ gap rest, text = part ++ (gap ++ rest) ∧ '\n' ∉ gap ∧ InOrder parts rest := by
  constructor
  · rintro (_ | ⟨h, hrest⟩)
    exact ⟨_, _, rfl, h, hrest⟩
  · rintro ⟨gap, rest, rfl, h, hrest⟩
    exact .cons h hrest

/-- The places that are found are those from which on the parts stand in order. -/
theorem placesOf_iff : (placesOf text parts)[i]? = some true ↔
    i ≤ text.length ∧ InOrder parts (text.drop i) := by
  induction parts generalizing i with
  | nil =>
    have hall : InOrder [] (text.drop i) := .nil
    rw [placesOf, List.getElem?_replicate, and_iff_left hall, ← Nat.lt_succ_iff]
    simp
  | cons part parts ih =>
    have hplaces : (placesOf text (part :: parts))[i]? = some true ↔
        (withinLine text (placesOf text parts))[part.length + i]? = some true ∧
          part <+: text.drop i := by
      rw [placesOf, getElem?_standsBefore, List.getElem?_drop, ← List.isPrefixOf_iff_prefix]
      cases (withinLine text (placesOf text parts))[part.length + i]? <;> simp
    rw [hplaces, withinLine_iff length_placesOf_le, inOrder_cons_iff]
    simp only [ih]
    -- What follows the part.
    have hbehind : ∀ tail, text.drop i = part ++ tail → text.drop (part.length + i) = tail :=
      fun tail htail => by rw [Nat.add_comm, ← List.drop_drop, htail, List.drop_left]
    constructor
    · rintro ⟨⟨k, ⟨hk, hrest⟩, hgap⟩, tail, htail⟩
      rw [← List.drop_drop, hbehind tail htail.symm] at hrest
      rw [hbehind tail htail.symm] at hgap
      exact ⟨by omega, _, _, by rw [List.take_append_drop, htail], hgap, hrest⟩
    · rintro ⟨hi, gap, rest, htext, hgap, hrest⟩
      have hlength := congrArg List.length htext
      simp only [List.length_drop, List.length_append] at hlength
      refine ⟨⟨gap.length, ⟨by omega, ?_⟩, ?_⟩, _, htext.symm⟩
      · rwa [← List.drop_drop, hbehind _ htext, List.drop_left]
      · rwa [hbehind _ htext, List.take_left]

end Places

/-- The search for tokens finds them where they occur. -/
theorem occurs_iff {tokens : List String} {text : String} :
    occurs tokens text = true ↔ Occur tokens text := by
  simp only [occurs, List.contains_iff_mem, List.mem_iff_getElem?, placesOf_iff, Occur]
  constructor
  · rintro ⟨i, -, h⟩
    exact ⟨_, _, (List.take_append_drop i _).symm, h⟩
  · rintro ⟨before, rest, htext, h⟩
    refine ⟨before.length, ?_, ?_⟩
    · simp [htext]
    · rwa [htext, List.drop_left]

/-! ### Phrases that are listed -/

/-- The phrase is one of the candidates, and the tokens of a wanted phrase occur in it. -/
def IsFound (wanted candidates : List Phrase) (p : Phrase) : Prop :=
  p ∈ candidates ∧ ∃ q ∈ wanted, Occur q.tokens (p.join " ")

/-- The candidates that are found, in the order of the search, each for every wanted phrase anew. -/
def foundPhrases (wanted candidates : List Phrase) : List Phrase :=
  wanted.flatMap fun q => candidates.filter fun p => occurs q.tokens (p.join " ")

/-- The phrases that have another rendering of their values than all in front of them. -/
def firstOfEach (phrases : List Phrase) : List Phrase :=
  phrases.foldl (fun kept p =>
    if p.assignment.render ∈ kept.map (·.assignment.render) then kept else kept ++ [p]) []

/-- What is found, and listed under its literal text. -/
def listing (phrases : List Phrase) : List (String × Assignment) :=
  phrases.map fun p => (p.literal, p.assignment)

section Listing

variable {wanted candidates phrases : List Phrase} {p p' : Phrase}

theorem mem_foundPhrases_iff : p ∈ foundPhrases wanted candidates ↔ IsFound wanted candidates p := by
  simp only [foundPhrases, List.mem_flatMap, List.mem_filter, occurs_iff, IsFound]
  exact ⟨fun ⟨q, hq, hp, ho⟩ => ⟨hp, q, hq, ho⟩, fun ⟨hp, q, hq, ho⟩ => ⟨q, hq, hp, ho⟩⟩

theorem firstOfEach_concat : firstOfEach (phrases ++ [p]) =
    if p.assignment.render ∈ (firstOfEach phrases).map (·.assignment.render) then firstOfEach phrases
    else firstOfEach phrases ++ [p] :=
  List.foldl_concat ..

theorem mem_of_mem_firstOfEach (h : p ∈ firstOfEach phrases) : p ∈ phrases := by
  induction phrases using List.reverseRecOn with
  | nil => exact h
  | append_singleton phrases p' ih =>
    rw [firstOfEach_concat] at h
    split at h
    · exact List.mem_append_left _ (ih h)
    · exact List.mem_append.2 ((List.mem_append.1 h).imp_left ih)

/-- Every rendering has a phrase that is kept. -/
theorem exists_mem_firstOfEach (h : p ∈ phrases) :
    ∃ p' ∈ firstOfEach phrases, p'.assignment.render = p.assignment.render := by
  induction phrases using List.reverseRecOn with
  | nil => exact absurd h List.not_mem_nil
  | append_singleton phrases last ih =>
    rw [firstOfEach_concat]
    rcases List.mem_append.1 h with h | h
    · obtain ⟨p', hp', heq⟩ := ih h
      refine ⟨p', ?_, heq⟩
      split
      · exact hp'
      · exact List.mem_append_left _ hp'
    · obtain rfl := List.mem_singleton.1 h
      split
      · next hold => exact List.mem_map.1 hold
      · exact ⟨p, by simp, rfl⟩

/-- No two phrases that are kept have one rendering. -/
theorem nodup_firstOfEach : ((firstOfEach phrases).map (·.assignment.render)).Nodup := by
  induction phrases using List.reverseRecOn with
  | nil => exact List.nodup_nil
  | append_singleton phrases p ih =>
    rw [firstOfEach_concat]
    split
    · exact ih
    · next hnew =>
      rw [List.map_append, List.map_singleton, ← List.concat_eq_append]
      exact ih.concat hnew

theorem eq_of_render_eq (hp : p ∈ firstOfEach phrases) (hp' : p' ∈ firstOfEach phrases)
    (h : p.assignment.render = p'.assignment.render) : p = p' :=
  List.inj_on_of_nodup_map nodup_firstOfEach hp hp' h

/-- A listing of phrases one after another lists the first of each rendering. -/
theorem foldl_add_eq : phrases.foldl (fun listing p => listing.add p.literal p.assignment) {} =
    ({ seen := ((firstOfEach phrases).map (·.assignment.render)).reverse
       found := .ofList (listing (firstOfEach phrases)) } : Listing) := by
  induction phrases using List.reverseRecOn with
  | nil => rfl
  | append_singleton phrases p ih =>
    rw [List.foldl_concat, ih, firstOfEach_concat]
    by_cases hold : p.assignment.render ∈ (firstOfEach phrases).map (·.assignment.render)
    · simp [Listing.add, hold]
    · simp [Listing.add, hold, listing, Dict.ofList_concat]

theorem add_of_seen {l : Listing} {literal : String} {m : Assignment} (h : l.seen.contains m.render) :
    l.add literal m = l := if_pos h

/-- A candidate that need not be looked for would not be listed again. -/
theorem add_candidate (q : Phrase) (l : Listing) (p : Phrase) :
    (if !l.seen.contains (Candidate.ofPhrase p).key && occurs q.tokens (Candidate.ofPhrase p).text then
        l.add (Candidate.ofPhrase p).literal (Candidate.ofPhrase p).assignment
      else l) =
      if occurs q.tokens (p.join " ") then l.add p.literal p.assignment else l := by
  show (if !l.seen.contains p.assignment.render && occurs q.tokens (p.join " ") then
    l.add p.literal p.assignment else l) = _
  cases hseen : l.seen.contains p.assignment.render with
  | false => simp
  | true => simp [add_of_seen hseen]

theorem searchPhrases_eq : searchPhrases wanted candidates =
    .ofList (listing (firstOfEach (foundPhrases wanted candidates))) := by
  calc searchPhrases wanted candidates
      = ((foundPhrases wanted candidates).foldl (fun l p => l.add p.literal p.assignment)
          ({} : Listing)).found := by
        simp only [searchPhrases, foundPhrases, List.foldl_flatMap, List.foldl_filter, List.foldl_map,
          add_candidate]
    _ = .ofList (listing (firstOfEach (foundPhrases wanted candidates))) := by rw [foldl_add_eq]

end Listing

/-! ### Assignments that are listed -/

/-- The assignments of the phrases that are found. -/
def foundAssignments (wanted candidates : List Phrase) : Set Assignment :=
  {m | ∃ p, IsFound wanted candidates p ∧ p.assignment = m}

/-- No two assignments that are found have one rendering. -/
def TellsApart (wanted candidates : List Phrase) : Prop :=
  (foundAssignments wanted candidates).InjOn Assignment.render

/-- No two phrases that are the first with their renderings have one literal text. -/
def ListsApart (wanted candidates : List Phrase) : Prop :=
  ((firstOfEach (foundPhrases wanted candidates)).map Phrase.literal).Nodup

/-- A rendering does not tell how many values there are, if there are commas in them. -/
example : Assignment.render (.ofList [("$Thing", ["a", "a,a"])]) =
    Assignment.render (.ofList [("$Thing", ["a,a", "a"])]) := by decide +kernel

section Assignments

variable {wanted candidates : List Phrase} {p : Phrase} {m : Assignment} {literal : String}

theorem isFound_of_mem_firstOfEach (h : p ∈ firstOfEach (foundPhrases wanted candidates)) :
    IsFound wanted candidates p :=
  mem_foundPhrases_iff.1 (mem_of_mem_firstOfEach h)

/-- An assignment that its rendering tells from the others is that of a first phrase. -/
theorem exists_first_of_render_unique (hm : m ∈ foundAssignments wanted candidates)
    (hown : ∀ m' ∈ foundAssignments wanted candidates, m'.render = m.render → m' = m) :
    ∃ p ∈ firstOfEach (foundPhrases wanted candidates), p.assignment = m := by
  obtain ⟨p, hp, rfl⟩ := hm
  obtain ⟨first, hfirst, hrender⟩ := exists_mem_firstOfEach (mem_foundPhrases_iff.2 hp)
  exact ⟨first, hfirst, hown _ ⟨first, isFound_of_mem_firstOfEach hfirst, rfl⟩ hrender⟩

/-- What is listed are phrases that are the first with their renderings. -/
theorem exists_of_get?_searchPhrases (h : (searchPhrases wanted candidates).get? literal = some m) :
    ∃ p ∈ firstOfEach (foundPhrases wanted candidates), p.literal = literal ∧ p.assignment = m := by
  rw [searchPhrases_eq] at h
  obtain ⟨p, hp, heq⟩ := List.mem_map.1 (Dict.mem_of_get?_ofList h)
  exact ⟨p, hp, Prod.mk.inj heq⟩

/-- An assignment is listed under the literal text of a first phrase, though it may be that of a later
    one. -/
theorem exists_get?_searchPhrases (hp : p ∈ firstOfEach (foundPhrases wanted candidates)) :
    ∃ m, (searchPhrases wanted candidates).get? p.literal = some m := by
  have hentry : (p.literal, p.assignment) ∈ listing (firstOfEach (foundPhrases wanted candidates)) :=
    List.mem_map.2 ⟨p, hp, rfl⟩
  have hsome := Dict.isSome_get?_ofList hentry
  rw [← searchPhrases_eq] at hsome
  exact Option.isSome_iff_exists.1 hsome

theorem mem_values_iff : m ∈ (searchPhrases wanted candidates).values ↔
    ∃ literal, (searchPhrases wanted candidates).get? literal = some m := by
  simp only [Dict.values, List.mem_map, ← Dict.mem_entries_iff, Prod.exists, exists_eq_right]

/-- No assignment is listed twice. -/
theorem nodup_values_searchPhrases : (searchPhrases wanted candidates).values.Nodup := by
  refine List.Nodup.map_on ?_ (Dict.nodup_keys.of_map _)
  rintro ⟨literal, m⟩ he ⟨literal', m'⟩ he' (rfl : m = m')
  obtain ⟨p, hp, rfl, hm⟩ := exists_of_get?_searchPhrases (Dict.mem_entries_iff.1 he)
  obtain ⟨p', hp', rfl, hm'⟩ := exists_of_get?_searchPhrases (Dict.mem_entries_iff.1 he')
  rw [eq_of_render_eq hp hp' (by rw [hm, hm'])]

/-- Where an assignment is not listed, another one has its rendering or stands under its literal text. -/
theorem mem_values_or_exists_get? (hm : m ∈ foundAssignments wanted candidates) :
    m ∈ (searchPhrases wanted candidates).values ∨
      (∃ m' ∈ foundAssignments wanted candidates, m' ≠ m ∧ m'.render = m.render) ∨
      ∃ p m', IsFound wanted candidates p ∧ p.assignment = m ∧
        m' ≠ m ∧ (searchPhrases wanted candidates).get? p.literal = some m' := by
  by_cases hown : ∃ m' ∈ foundAssignments wanted candidates, m' ≠ m ∧ m'.render = m.render
  · exact .inr (.inl hown)
  · push Not at hown
    obtain ⟨p, hp, rfl⟩ := exists_first_of_render_unique hm fun m' hm' hrender =>
      by_contra fun hne => hown m' hm' hne hrender
    obtain ⟨m', hget⟩ := exists_get?_searchPhrases hp
    by_cases hm' : m' = p.assignment
    · exact .inl (mem_values_iff.2 ⟨_, hm' ▸ hget⟩)
    · exact .inr (.inr ⟨p, m', isFound_of_mem_firstOfEach hp, rfl, hm', hget⟩)

/-- What is listed has been found. -/
theorem exists_isFound_of_get? (h : (searchPhrases wanted candidates).get? literal = some m) :
    ∃ p, IsFound wanted candidates p ∧ p.literal = literal ∧ p.assignment = m := by
  obtain ⟨p, hp, hliteral, hassignment⟩ := exists_of_get?_searchPhrases h
  exact ⟨p, isFound_of_mem_firstOfEach hp, hliteral, hassignment⟩

theorem mem_foundAssignments_of_mem_values (h : m ∈ (searchPhrases wanted candidates).values) :
    m ∈ foundAssignments wanted candidates := by
  obtain ⟨literal, hget⟩ := mem_values_iff.1 h
  obtain ⟨p, hp, -, hassignment⟩ := exists_isFound_of_get? hget
  exact ⟨p, hp, hassignment⟩

/-- All assignments are listed if and only if the renderings tell them apart, and so do the literal texts
    under which they are listed. -/
theorem foundAssignments_subset_iff :
    (∀ m ∈ foundAssignments wanted candidates, m ∈ (searchPhrases wanted candidates).values) ↔
      TellsApart wanted candidates ∧ ListsApart wanted candidates := by
  constructor
  · intro hall
    -- An assignment that is listed is the one under the literal text of a first phrase.
    have hlisted : ∀ m ∈ foundAssignments wanted candidates,
        ∃ p ∈ firstOfEach (foundPhrases wanted candidates),
          p.assignment = m ∧ (searchPhrases wanted candidates).get? p.literal = some m := fun m hm => by
      obtain ⟨literal, hget⟩ := mem_values_iff.1 (hall m hm)
      obtain ⟨p, hp, rfl, hassignment⟩ := exists_of_get?_searchPhrases hget
      exact ⟨p, hp, hassignment, hget⟩
    constructor
    · intro m hm m' hm' hrender
      obtain ⟨p, hp, rfl, -⟩ := hlisted m hm
      obtain ⟨p', hp', rfl, -⟩ := hlisted m' hm'
      rw [eq_of_render_eq hp hp' hrender]
    · have hown : ∀ p ∈ firstOfEach (foundPhrases wanted candidates),
          (searchPhrases wanted candidates).get? p.literal = some p.assignment := fun p hp => by
        obtain ⟨p', hp', hassignment, hget⟩ :=
          hlisted p.assignment ⟨p, isFound_of_mem_firstOfEach hp, rfl⟩
        rwa [eq_of_render_eq hp' hp (by rw [hassignment])] at hget
      refine nodup_firstOfEach.of_map.map_on fun p hp p' hp' hliteral => eq_of_render_eq hp hp' ?_
      rw [Option.some_inj.1 ((hown p hp).symm.trans (hliteral ▸ hown p' hp'))]
  · rintro ⟨htells, hlists⟩ m hm
    obtain ⟨p, hp, rfl⟩ := exists_first_of_render_unique hm fun m' hm' => htells hm' hm
    obtain ⟨m', hget⟩ := exists_get?_searchPhrases hp
    -- The literal text is that of no other first phrase.
    obtain ⟨p', hp', hliteral, rfl⟩ := exists_of_get?_searchPhrases hget
    rw [List.inj_on_of_nodup_map hlists hp' hp hliteral] at hget
    exact mem_values_iff.2 ⟨_, hget⟩

theorem searchPattern_eq {now : Int} {query pattern : TokenGraph} {vars : Variables}
    (hwanted : (query.phrases now vars).all = .ok wanted)
    (hcandidates : (pattern.phrases now vars).all = .ok candidates) :
    searchPattern now query pattern vars = .ok (searchPhrases wanted candidates) := by
  simp only [searchPattern, hwanted, hcandidates, bind, Except.bind, pure, Except.pure]
  split
  · next hempty =>
    rw [List.isEmpty_iff.1 hempty]
    rfl
  · rfl

/-- The search lists phrases that are found, by their literal texts, and no assignment twice. All
    assignments that are found are listed if and only if their renderings tell them apart, and so do the
    literal texts; one that gets lost has the rendering of another one, or another one stands under its
    literal text. -/
theorem searchPattern_lists_found {now : Int} {query pattern : TokenGraph} {vars : Variables}
    (hwanted : (query.phrases now vars).all = .ok wanted)
    (hcandidates : (pattern.phrases now vars).all = .ok candidates) :
    ∃ found, searchPattern now query pattern vars = .ok found ∧
      (∀ literal m, found.get? literal = some m →
        ∃ p, IsFound wanted candidates p ∧ p.literal = literal ∧ p.assignment = m) ∧
      found.values.Nodup ∧
      ((∀ m, m ∈ found.values ↔ m ∈ foundAssignments wanted candidates) ↔
        TellsApart wanted candidates ∧ ListsApart wanted candidates) ∧
      ∀ m ∈ foundAssignments wanted candidates, m ∈ found.values ∨
        (∃ m' ∈ foundAssignments wanted candidates, m' ≠ m ∧ m'.render = m.render) ∨
        ∃ p m', IsFound wanted candidates p ∧ p.assignment = m ∧
          m' ≠ m ∧ found.get? p.literal = some m' := by
  refine ⟨_, searchPattern_eq hwanted hcandidates, fun literal m => exists_isFound_of_get?,
    nodup_values_searchPhrases, ?_, fun m => mem_values_or_exists_get?⟩
  rw [← foundAssignments_subset_iff]
  exact ⟨fun h m => (h m).2, fun h m => ⟨mem_foundAssignments_of_mem_values, h m⟩⟩

end Assignments

namespace Example

/-- A town with two phrasings, and a city that has one of them too. -/
def moscowAndItsCity : Variables :=
  .ofVariables [.table "$ConventionLocation"
    (.ofList [("Moscow", [graphOf "moscow", graphOf "moskva"]), ("MoscowCity", [graphOf "moscow"])])]

/-- The phrase of a congress in a place, by the phrasing of the place. -/
def congressIn (place phrasing : String) : Phrase :=
  ⟨[.text "" "congress" "" "congress",
    { name := "$ConventionLocation", value := place, tokenized := [phrasing], origin := phrasing,
      originFull := " in " ++ phrasing }]⟩

/-- The phrases of a congress in any place. -/
def anyCongress : List Phrase := [.text "" "congress" "" "congress"]

/-- The phrases of the congresses in all places. -/
def moscowCongresses : List Phrase :=
  [congressIn "Moscow" "moscow", congressIn "Moscow" "moskva", congressIn "MoscowCity" "moscow"]

theorem all_moscowCongresses (now : Int) :
    ((graphOf "congress").phrases now moscowAndItsCity).all = .ok anyCongress ∧
      ((graphOf "congress in $ConventionLocation").phrases now moscowAndItsCity).all =
        .ok moscowCongresses := by
  have hyears : moscowAndItsCity.Yearless := yearless_table
  rw [hyears.phrases_eq now 2024, hyears.phrases_eq now 2024]
  constructor <;> decide +kernel

/-- Congresses in both places are found, and the one under each literal text is listed. -/
theorem congresses_found :
    ((graphOf "congress").phrases 2024 moscowAndItsCity).all = .ok anyCongress ∧
      ((graphOf "congress in $ConventionLocation").phrases 2024 moscowAndItsCity).all =
        .ok moscowCongresses ∧
      ∃ found, searchPattern 2024 (graphOf "congress") (graphOf "congress in $ConventionLocation")
          moscowAndItsCity = .ok found ∧
        (∀ literal m, found.get? literal = some m →
          ∃ p, IsFound anyCongress moscowCongresses p ∧ p.literal = literal ∧ p.assignment = m) ∧
        found.values.Nodup ∧
        ((∀ m, m ∈ found.values ↔ m ∈ foundAssignments anyCongress moscowCongresses) ↔
          TellsApart anyCongress moscowCongresses ∧ ListsApart anyCongress moscowCongresses) ∧
        ∀ m ∈ foundAssignments anyCongress moscowCongresses, m ∈ found.values ∨
          (∃ m' ∈ foundAssignments anyCongress moscowCongresses, m' ≠ m ∧ m'.render = m.render) ∨
          ∃ p m', IsFound anyCongress moscowCongresses p ∧ p.assignment = m ∧
            m' ≠ m ∧ found.get? p.literal = some m' := by
  obtain ⟨hwanted, hcandidates⟩ := all_moscowCongresses 2024
  exact ⟨hwanted, hcandidates, searchPattern_lists_found hwanted hcandidates⟩

/-- The city takes the place of the town under the name that they share. The town has another name, but no
    congress is listed under it, whatever year it is. -/
theorem moscow_overwritten :
    (congressIn "Moscow" "moskva").assignment ∈ foundAssignments anyCongress moscowCongresses ∧
      ∀ now, ((graphOf "congress").phrases now moscowAndItsCity).all = .ok anyCongress ∧
        ((graphOf "congress in $ConventionLocation").phrases now moscowAndItsCity).all =
          .ok moscowCongresses ∧
        ∃ found, searchPattern now (graphOf "congress") (graphOf "congress in $ConventionLocation")
            moscowAndItsCity = .ok found ∧
          (congressIn "Moscow" "moskva").assignment ∉ found.values ∧
          found.get? (congressIn "Moscow" "moskva").literal = none := by
  have hfound : IsFound anyCongress moscowCongresses (congressIn "Moscow" "moskva") :=
    ⟨by decide, _, List.mem_singleton_self _, occurs_iff.1 (by decide +kernel)⟩
  have hvalues : (searchPhrases anyCongress moscowCongresses).values.map Assignment.render =
      ["$ConventionLocation=[MoscowCity]"] := by decide +kernel
  refine ⟨⟨_, hfound, rfl⟩, fun now => ?_⟩
  obtain ⟨hwanted, hcandidates⟩ := all_moscowCongresses now
  refine ⟨hwanted, hcandidates, _, searchPattern_eq hwanted hcandidates, fun hlisted => ?_,
    by decide +kernel⟩
  have hrender := List.mem_map_of_mem (f := Assignment.render) hlisted
  rw [hvalues] at hrender
  exact absurd hrender (by decide +kernel)

end Example

end PhraseGraph
