import Mathlib.Data.List.Chain
import Mathlib.Data.List.TakeWhile
import PhraseGraph.Proofs.Signatures
import PhraseGraph.Proofs.Substitution

/-!
# Patterns with their places filled

The pieces of a text are told by three rules (`Pattern.IsReading`): put together they are the text again;
a place is a dollar sign with letters behind it; and a place takes all the letters there are, as does a
dollar sign. There is one such list of pieces, which is what the scan of the text gives
(`Pattern.isReading_iff`).

A place takes the first phrasing that is bound to its name and not yet taken. So of the places of one name
the first one takes the first phrasing that goes with the name, the second one the second, and so on,
whatever stands between them (`Pattern.exists_isFilledFrom`). If there are other names than places, the
first place without a phrasing is reported, or, if there is none, that something is left over
(`Pattern.substitute_in_order`).
-/

namespace PhraseGraph.Pattern

variable {name phrasing pattern : String} {bindings left : List (String × String)} {ps : List Piece}
  {names phrasings texts : List String} {letters cs : List Char} {c : Char}

/-! ### The pieces of a text -/

/-- The text of a piece. -/
def Piece.text : Piece → List Char
  | char c => [c]
  | place name => name.toList

/-- The second piece, which follows the first one, is no letter that the first one takes: this is for
    dollar signs and places to do. -/
def TakesAll (p q : Piece) : Prop :=
  ∀ c, q = .char c → c.isAlpha = true → ∃ d, d ≠ '$' ∧ p = .char d

/-- The pieces are those of the text. -/
structure IsReading (cs : List Char) (ps : List Piece) : Prop where
  /-- They make up the text. -/
  text_eq : ps.flatMap Piece.text = cs
  /-- A place is a dollar sign with letters behind it. -/
  isVariableName : ∀ name, .place name ∈ ps → IsVariableName name
  /-- No letters are left behind a dollar sign. -/
  takesAll : ps.IsChain TakesAll

/-- A dollar sign takes the letters behind it. -/
theorem scanName_eq : scanName letters cs =
    placeOf ((cs.takeWhile Char.isAlpha).reverse ++ letters) :: scan (cs.dropWhile Char.isAlpha) := by
  induction cs generalizing letters with
  | nil => rfl
  | cons c cs ih =>
    rw [scanName]
    split
    · next hc => rw [ih, List.takeWhile_cons_of_pos hc, List.dropWhile_cons_of_pos hc]; simp
    · next hc =>
      rw [List.takeWhile_cons_of_neg hc, List.dropWhile_cons_of_neg hc, scan]
      split <;> rfl

theorem scan_dollar : scan ('$' :: cs) =
    placeOf (cs.takeWhile Char.isAlpha).reverse :: scan (cs.dropWhile Char.isAlpha) := by
  rw [scan, if_pos (beq_self_eq_true _), scanName_eq, List.append_nil]

theorem scan_cons_of_ne (hc : c ≠ '$') : scan (c :: cs) = .char c :: scan cs := by
  rw [scan, if_neg (by simpa using hc)]

theorem text_placeOf : (placeOf letters).text = '$' :: letters.reverse := by
  cases letters with
  | nil => rfl
  | cons c letters => exact String.toList_ofList

/-- The text of pieces begins with a letter only if the first piece does. -/
theorem isAlpha_head_text (hnames : ∀ name, .place name ∈ ps → IsVariableName name)
    (hps : ∀ c, ps.head? = some (.char c) → c.isAlpha = false) :
    ∀ c ∈ (ps.flatMap Piece.text).head?, c.isAlpha = false := by
  cases ps with
  | nil => simp
  | cons p ps =>
    cases p with
    | char c => simpa [Piece.text] using hps c rfl
    | place name =>
      obtain ⟨letters, -, -, rfl⟩ := hnames name List.mem_cons_self
      simp [Piece.text]

/-- Where no letter follows, the letters that a dollar sign takes are these. -/
theorem scan_dollar_append (letters : List Char) (hletters : ∀ c ∈ letters, c.isAlpha = true)
    (hcs : ∀ c ∈ cs.head?, c.isAlpha = false) :
    scan ('$' :: (letters ++ cs)) = placeOf letters.reverse :: scan cs := by
  have htake : cs.takeWhile Char.isAlpha = [] ∧ cs.dropWhile Char.isAlpha = cs := by
    cases cs with
    | nil => exact ⟨rfl, rfl⟩
    | cons c cs =>
      have hc : ¬ c.isAlpha = true := by simpa using hcs c rfl
      exact ⟨List.takeWhile_cons_of_neg hc, List.dropWhile_cons_of_neg hc⟩
  rw [scan_dollar, List.takeWhile_append_of_pos hletters, List.dropWhile_append_of_pos hletters,
    htake.1, htake.2, List.append_nil]

theorem IsReading.eq_scan (h : IsReading cs ps) : ps = scan cs := by
  induction ps generalizing cs with
  | nil => rw [← h.text_eq]; rfl
  | cons p ps ih =>
    obtain ⟨hfirst, hrest⟩ := List.isChain_cons.1 h.takesAll
    have hnames : ∀ name, .place name ∈ ps → IsVariableName name :=
      fun name hname => h.isVariableName name (List.mem_cons_of_mem _ hname)
    have hps : ps = scan (ps.flatMap Piece.text) := ih ⟨rfl, hnames, hrest⟩
    -- Behind a dollar sign or a place the rest does not begin with a letter.
    have hhead (hp : ∀ d, d ≠ '$' → p ≠ .char d) :
        ∀ c ∈ (ps.flatMap Piece.text).head?, c.isAlpha = false := by
      refine isAlpha_head_text hnames fun c hc => ?_
      by_contra halpha
      obtain ⟨d, hd, hpd⟩ := hfirst _ hc c rfl (by simpa using halpha)
      exact hp d hd hpd
    rw [← h.text_eq, List.flatMap_cons]
    cases p with
    | char c =>
      by_cases hc : c = '$'
      · subst hc
        have hscan := scan_dollar_append [] (by simp)
          (hhead fun d hd heq => hd (Piece.char.inj heq).symm)
        exact (congrArg _ hps).trans hscan.symm
      · exact (congrArg _ hps).trans (scan_cons_of_ne hc).symm
    | place name =>
      obtain ⟨letters, hne, hletters, rfl⟩ := h.isVariableName name List.mem_cons_self
      have hplace : placeOf letters.reverse = .place (String.ofList ('$' :: letters)) := by
        rw [placeOf, if_neg (by simpa using hne), List.reverse_reverse]
      rw [Piece.text, String.toList_ofList, List.cons_append,
        scan_dollar_append letters hletters (hhead fun d _ => Piece.noConfusion), ← hps, hplace]

/-- A character that is no dollar sign is a piece of its own. -/
theorem IsReading.cons_char (h : IsReading cs ps) (hc : c ≠ '$') : IsReading (c :: cs) (.char c :: ps) where
  text_eq := by rw [List.flatMap_cons, h.text_eq]; rfl
  isVariableName name hname :=
    h.isVariableName name ((List.mem_cons.1 hname).resolve_left Piece.noConfusion)
  takesAll := List.isChain_cons.2 ⟨fun _ _ _ _ _ => ⟨c, hc, rfl⟩, h.takesAll⟩

/-- A dollar sign is a piece with all the letters behind it. -/
theorem IsReading.cons_placeOf (h : IsReading cs ps) (letters : List Char)
    (hletters : ∀ c ∈ letters, c.isAlpha = true) (hcs : ∀ c ∈ cs.head?, c.isAlpha = false) :
    IsReading ('$' :: (letters ++ cs)) (placeOf letters.reverse :: ps) where
  text_eq := by
    rw [List.flatMap_cons, text_placeOf, List.reverse_reverse, h.text_eq, List.cons_append]
  isVariableName name hname := by
    rcases List.mem_cons.1 hname with hname | hname
    · rw [placeOf] at hname
      split at hname
      · exact Piece.noConfusion hname
      · next hne =>
        rw [Piece.place.inj hname, List.reverse_reverse]
        exact ⟨letters, by simpa using hne, hletters, rfl⟩
    · exact h.isVariableName name hname
  takesAll := by
    refine List.isChain_cons.2 ⟨fun q hq d hqd hd => ?_, h.takesAll⟩
    -- The text does not go on with a letter, so the pieces do not.
    subst hqd
    obtain ⟨ps', rfl⟩ := List.head?_eq_some_iff.1 hq
    rw [hcs d (by rw [← h.text_eq]; rfl)] at hd
    exact absurd hd Bool.false_ne_true

theorem isReading_scan (cs : List Char) : IsReading cs (scan cs) := by
  -- A dollar sign takes several characters at once, so the induction is on the length.
  induction hn : cs.length using Nat.strong_induction_on generalizing cs with
  | _ n ih =>
    subst hn
    cases cs with
    | nil => exact ⟨rfl, fun _ h => absurd h List.not_mem_nil, .nil⟩
    | cons c cs =>
      by_cases hc : c = '$'
      · subst hc
        have hrest := ih _ (Nat.lt_succ_of_le (List.length_dropWhile_le Char.isAlpha cs)) _ rfl
        have hhead : ∀ c ∈ (cs.dropWhile Char.isAlpha).head?, c.isAlpha = false := fun c hc => by
          have hnot := List.head?_dropWhile_not Char.isAlpha cs
          rwa [Option.mem_def.1 hc] at hnot
        have hread := hrest.cons_placeOf (cs.takeWhile Char.isAlpha)
          (fun c hc => List.mem_takeWhile_imp hc) hhead
        rwa [List.takeWhile_append_dropWhile, ← scan_dollar] at hread
      · rw [scan_cons_of_ne hc]
        exact (ih _ (Nat.lt_succ_self cs.length) cs rfl).cons_char hc

/-- There is one way to read a text, which is the way it is scanned. -/
theorem isReading_iff : IsReading cs ps ↔ ps = scan cs :=
  ⟨IsReading.eq_scan, fun h => h ▸ isReading_scan cs⟩

/-! ### Phrasings for names -/

/-- The phrasings that are bound to a name, in order. -/
def phrasingsFor (bindings : List (String × String)) (name : String) : List String :=
  (bindings.filter fun b => b.1 == name).map Prod.snd

theorem phrasingsFor_cons (binding : String × String) (bindings : List (String × String))
    (name : String) : phrasingsFor (binding :: bindings) name =
      if binding.1 = name then binding.2 :: phrasingsFor bindings name
      else phrasingsFor bindings name := by
  by_cases h : binding.1 = name <;> simp [phrasingsFor, h]

/-- The phrasing that is taken is the first one of the name; those of other names stay. -/
theorem phrasingsFor_of_takePhrasing? (h : takePhrasing? name bindings = some (phrasing, left))
    (other : String) : phrasingsFor bindings other =
      if other = name then phrasing :: phrasingsFor left other else phrasingsFor left other := by
  induction bindings generalizing left with
  | nil => exact absurd h (by simp [takePhrasing?])
  | cons binding rest ih =>
    rw [takePhrasing?] at h
    split at h
    · next hname =>
      obtain ⟨rfl, rfl⟩ := Prod.mk.inj (Option.some_inj.1 h)
      rw [phrasingsFor_cons, beq_iff_eq.1 hname]
      exact if_congr eq_comm rfl rfl
    · next hname =>
      obtain ⟨⟨found, left'⟩, htaken, heq⟩ := Option.map_eq_some_iff.1 h
      obtain ⟨rfl, rfl⟩ := Prod.mk.inj heq
      rw [phrasingsFor_cons, phrasingsFor_cons, ih htaken]
      by_cases hother : other = name
      · subst hother
        have hne : ¬ binding.1 = other := by simpa using hname
        simp [hne]
      · simp [hother]

/-- The phrasings for a name are those at its positions, in order. -/
theorem exists_of_getElem?_phrasingsFor {k : Nat} (hlength : names.length = phrasings.length)
    (h : (phrasingsFor (names.zip phrasings) name)[k]? = some phrasing) :
    ∃ n : Nat, names[n]? = some name ∧ (names.take n).count name = k ∧
      phrasings[n]? = some phrasing := by
  induction names generalizing phrasings k with
  | nil => exact absurd h (by simp [phrasingsFor])
  | cons first names ih =>
    cases phrasings with
    | nil => exact absurd hlength (by simp)
    | cons firstPhrasing phrasings =>
      have hlength : names.length = phrasings.length := by simpa using hlength
      rw [List.zip_cons_cons, phrasingsFor_cons] at h
      split at h
      · next hfirst =>
        subst hfirst
        cases k with
        | zero => exact ⟨0, rfl, rfl, h⟩
        | succ k =>
          obtain ⟨n, hname, hcount, hphrasing⟩ := ih hlength h
          refine ⟨n + 1, hname, ?_, hphrasing⟩
          rw [List.take_succ_cons, List.count_cons_self, hcount]
      · next hfirst =>
        obtain ⟨n, hname, hcount, hphrasing⟩ := ih hlength h
        refine ⟨n + 1, hname, ?_, hphrasing⟩
        rw [List.take_succ_cons, List.count_cons_of_ne hfirst, hcount]

/-! ### Filling the places -/

/-- The texts stand for the pieces one by one: characters for themselves, and for the places of a name
    the phrasings that are bound to it, in order. -/
structure IsFilledFrom (bindings : List (String × String)) (ps : List Piece) (texts : List String) :
    Prop where
  length_eq : texts.length = ps.length
  char_eq : ∀ (i : Nat) c, ps[i]? = some (.char c) → texts[i]? = some (String.ofList [c])
  place_eq : ∀ (i : Nat) name, ps[i]? = some (.place name) →
    texts[i]? = (phrasingsFor bindings name)[(ps.take i).count (.place name)]?

theorem IsFilledFrom.cons_char (h : IsFilledFrom bindings ps texts) :
    IsFilledFrom bindings (.char c :: ps) (String.ofList [c] :: texts) where
  length_eq := congrArg Nat.succ h.length_eq
  char_eq
    | 0, d, hd => by rw [← Piece.char.inj (Option.some_inj.1 hd)]; rfl
    | i + 1, d, hd => h.char_eq i d hd
  place_eq
    | 0, name, hname => Piece.noConfusion (Option.some_inj.1 hname)
    | i + 1, name, hname => by
      rw [List.take_succ_cons, List.count_cons_of_ne (by simp)]
      exact h.place_eq i name hname

theorem IsFilledFrom.cons_place (h : IsFilledFrom left ps texts)
    (htaken : takePhrasing? name bindings = some (phrasing, left)) :
    IsFilledFrom bindings (.place name :: ps) (phrasing :: texts) where
  length_eq := congrArg Nat.succ h.length_eq
  char_eq
    | 0, d, hd => Piece.noConfusion (Option.some_inj.1 hd)
    | i + 1, d, hd => h.char_eq i d hd
  place_eq
    | 0, other, hother => by
      obtain rfl := Piece.place.inj (Option.some_inj.1 hother)
      rw [phrasingsFor_of_takePhrasing? htaken, if_pos rfl]
      rfl
    | i + 1, other, hother => by
      rw [List.take_succ_cons, phrasingsFor_of_takePhrasing? htaken]
      split
      · next heq =>
        -- One more place of the name goes before, and one more phrasing.
        subst heq
        rw [List.count_cons_self]
        exact h.place_eq i other hother
      · next hne =>
        rw [List.count_cons_of_ne (by simpa using Ne.symm hne)]
        exact h.place_eq i other hother

/-- Filling puts in what is bound to the names, in order. -/
theorem exists_isFilledFrom (h : fill bindings ps = .ok (cs, left)) :
    ∃ texts, IsFilledFrom bindings ps texts ∧ String.ofList cs = String.join texts := by
  induction ps generalizing bindings cs with
  | nil =>
    obtain ⟨rfl, -⟩ := Prod.mk.inj (Except.ok.inj h)
    exact ⟨[], ⟨rfl, by simp, by simp⟩, rfl⟩
  | cons p ps ih =>
    cases p with
    | char c =>
      rw [fill] at h
      obtain ⟨⟨cs', left'⟩, hrest, heq⟩ := map_eq_ok_iff.1 h
      obtain ⟨rfl, rfl⟩ := Prod.mk.inj heq
      obtain ⟨texts, htexts, hcs⟩ := ih hrest
      refine ⟨_, htexts.cons_char, ?_⟩
      rw [String.join_cons, ← hcs, ← String.ofList_append]
      rfl
    | place name =>
      rw [fill] at h
      split at h
      · exact absurd h (by simp)
      · next phrasing bindings' htaken =>
        obtain ⟨⟨cs', left'⟩, hrest, heq⟩ := map_eq_ok_iff.1 h
        obtain ⟨rfl, rfl⟩ := Prod.mk.inj heq
        obtain ⟨texts, htexts, hcs⟩ := ih hrest
        refine ⟨_, htexts.cons_place htaken, ?_⟩
        rw [String.join_cons, ← hcs, String.ofList_append, String.ofList_toList]

/-- A name of which a place finds no binding has more places than bindings. -/
theorem count_lt_of_fill_eq_error (h : fill bindings ps = .error name) :
    (bindings.map Prod.fst).count name < (ps.filterMap Piece.name?).count name := by
  induction ps generalizing bindings with
  | nil => exact absurd h (by simp [fill])
  | cons p ps ih =>
    cases p with
    | char c =>
      rw [fill] at h
      exact ih (map_eq_error_iff.1 h)
    | place bound =>
      have hnames : (Piece.place bound :: ps).filterMap Piece.name? =
          bound :: ps.filterMap Piece.name? := rfl
      rw [fill] at h
      rw [hnames]
      split at h
      · next hnone =>
        obtain rfl := Except.error.inj h
        have hunbound : bound ∉ bindings.map Prod.fst := fun hmem => by
          obtain ⟨phrasing, left, htaken⟩ := exists_takePhrasing? hmem
          exact absurd (hnone.symm.trans htaken) (by simp)
        rw [List.count_eq_zero_of_not_mem hunbound]
        exact List.count_pos_iff.2 List.mem_cons_self
      · next phrasing bindings' htaken =>
        rw [(perm_of_takePhrasing? htaken).count_eq, List.count_cons, List.count_cons]
        exact Nat.add_lt_add_right (ih (map_eq_error_iff.1 h)) _

/-! ### Substitution -/

/-- The texts are those of the pieces with the phrasings in the places: the `k`-th place of a name has the
    phrasing that goes with the `k`-th mention of the name. -/
structure IsFilling (names phrasings : List String) (ps : List Piece) (texts : List String) : Prop where
  /-- There is a text for each piece. -/
  length_eq : texts.length = ps.length
  /-- What is no place stays. -/
  char_eq : ∀ (i : Nat) c, ps[i]? = some (.char c) → texts[i]? = some (String.ofList [c])
  /-- A place has, as it is, the phrasing at a position of its name before which the name is mentioned as
      often as there are places of it before the place. -/
  place_eq : ∀ (i : Nat) name, ps[i]? = some (.place name) → ∃ n : Nat, names[n]? = some name ∧
    (names.take n).count name = (ps.take i).count (.place name) ∧ texts[i]? = phrasings[n]?

theorem IsFilledFrom.isFilling (h : IsFilledFrom (names.zip phrasings) ps texts)
    (hlength : names.length = phrasings.length) : IsFilling names phrasings ps texts where
  length_eq := h.length_eq
  char_eq := h.char_eq
  place_eq i name hname := by
    obtain ⟨hi, -⟩ := List.getElem?_eq_some_iff.1 hname
    obtain ⟨text, htext⟩ : ∃ text, texts[i]? = some text :=
      ⟨_, List.getElem?_eq_getElem (h.length_eq ▸ hi)⟩
    obtain ⟨n, hn, hcount, hphrasing⟩ := exists_of_getElem?_phrasingsFor hlength
      ((h.place_eq i name hname).symm.trans htext)
    exact ⟨n, hn, hcount, htext.trans hphrasing.symm⟩

/-- The pieces are those of the pattern, and tell what comes of it. -/
structure IsSubstitution (pattern : String) (names phrasings : List String) (ps : List Piece) : Prop where
  /-- The pattern can be read in this way only. -/
  reading : ∀ ps', IsReading pattern.toList ps' ↔ ps' = ps
  /-- If the names are those of the places, each as often as it has places, all places are filled. -/
  filled : names.Perm (ps.filterMap Piece.name?) → ∃ texts, IsFilling names phrasings ps texts ∧
    substitute pattern names phrasings = .ok (String.join texts)
  /-- Otherwise a name is reported that has more places than phrasings, or, if there is none, that there
      are more phrasings than places. -/
  refused : ¬ names.Perm (ps.filterMap Piece.name?) →
    (∃ name, names.count name < (ps.filterMap Piece.name?).count name ∧
        substitute pattern names phrasings = .error (.unbound name pattern names)) ∨
      (∀ name, (ps.filterMap Piece.name?).count name ≤ names.count name) ∧
        substitute pattern names phrasings = .error (.variableCount pattern names)

theorem substitute_eq (hlength : names.length = phrasings.length) :
    substitute pattern names phrasings =
      match fill (names.zip phrasings) (pieces pattern) with
      | .error name => .error (.unbound name pattern names)
      | .ok (cs, []) => .ok (String.ofList cs)
      | .ok (_, _ :: _) => .error (.variableCount pattern names) :=
  if_neg (by simpa using hlength)

/-- Phrasings are put into a pattern in the order of their names, and nothing else is changed. -/
theorem substitute_in_order (pattern : String) (hlength : names.length = phrasings.length) :
    ∃ ps, IsSubstitution pattern names phrasings ps := by
  have hok : (∃ phrase, substitute pattern names phrasings = .ok phrase) ↔
      names.length = phrasings.length ∧ names.Perm (variableNames pattern) := substitute_isOk_iff
  have hnames : (names.zip phrasings).map Prod.fst = names :=
    List.map_fst_zip (Nat.le_of_eq hlength)
  refine ⟨pieces pattern, fun ps' => isReading_iff, fun hperm => ?_, fun hperm => ?_⟩
  · obtain ⟨phrase, hphrase⟩ := hok.2 ⟨hlength, hperm⟩
    rw [substitute_eq hlength] at hphrase ⊢
    split at hphrase
    · exact absurd hphrase (by simp)
    · next cs hfill =>
      obtain ⟨texts, htexts, hcs⟩ := exists_isFilledFrom hfill
      exact ⟨texts, htexts.isFilling hlength, congrArg Except.ok hcs⟩
    · exact absurd hphrase (by simp)
  · have hfailed : ∀ phrase, substitute pattern names phrasings ≠ .ok phrase :=
      fun phrase hphrase => hperm (hok.1 ⟨phrase, hphrase⟩).2
    rw [substitute_eq hlength] at hfailed ⊢
    split at hfailed
    · next name hfill =>
      have hcount := count_lt_of_fill_eq_error hfill
      rw [hnames] at hcount
      exact .inl ⟨name, hcount, rfl⟩
    · exact absurd rfl (hfailed _)
    · next cs binding left hfill =>
      refine .inr ⟨fun name => ?_, rfl⟩
      have hcount := (perm_of_fill hfill).count_eq name
      rw [hnames, List.count_append] at hcount
      exact hcount ▸ Nat.le_add_right _ _

end PhraseGraph.Pattern

namespace PhraseGraph.Example

open Pattern

/-- The names go with the places in another order, one name begins with another one, places touch, and a
    phrasing looks like a place. -/
theorem roads_substituted :
    ["$Way", "$To", "$Way", "$Ways"].length = ["a", "$Way", "b", "c"].length ∧
      substitute "$Ways$Way to $To by $Way: $5" ["$Way", "$To", "$Way", "$Ways"] ["a", "$Way", "b", "c"] =
        .ok "ca to $Way by b: $5" ∧
      ∃ ps, IsSubstitution "$Ways$Way to $To by $Way: $5" ["$Way", "$To", "$Way", "$Ways"]
        ["a", "$Way", "b", "c"] ps :=
  ⟨rfl, by decide +kernel, substitute_in_order _ rfl⟩

end PhraseGraph.Example
