import PhraseGraph.Pattern
import PhraseGraph.Proofs.Recutting

/-!
# Variables in the words of a pattern

The text of a pattern has a place for a variable wherever letters follow a dollar sign
(`Pattern.places_map_name`). In the words of the text a variable is a word of letters that a dollar sign
stands before. There is always a word boundary before and behind the dollar sign, and none between two
letters. So the words show the places whose letters end a word, and no others
(`Pattern.wordNames_wordPieces`): in `$Year2019` the word is `Year2019`.

The induction goes through the text character by character. What has been read may still become a place
or not: either the last characters are a dollar sign and letters (`Pending`), or no name can come of the
piece that is being read any more (`Quiet`).
-/

namespace PhraseGraph

open Text WordBreakClass

/-! ### Dollar signs and letters -/

section Boundaries

variable {before earlier later : List Char} {a b : Char}

/-- ASCII letters join with their neighbours. -/
theorem isJoiningLetter_of_isAlpha (h : a.isAlpha = true) : isJoiningLetter a = true := by
  have hascii : a.toNat < 0x80 := by
    have hle : a.val ≤ 'Z'.val ∨ a.val ≤ 'z'.val :=
      (Bool.or_eq_true_iff.1 h).imp (fun hupper => (of_decide_eq_true hupper).2)
        fun hlower => of_decide_eq_true (Bool.and_eq_true_iff.1 hlower).2
    rcases hle with hle | hle
    · exact lt_of_le_of_lt (UInt32.le_iff_toNat_le.1 hle) (by decide)
    · exact lt_of_le_of_lt (UInt32.le_iff_toNat_le.1 hle) (by decide)
  have hall : ∀ n < 0x80, (Char.ofNat n).isAlpha = true → isJoiningLetter (Char.ofNat n) = true := by
    decide +kernel
  have ha := hall a.toNat hascii
  rw [Char.ofNat_toNat] at ha
  exact ha h

theorem isAlphanumeric_of_isAlpha (h : a.isAlpha = true) : isAlphanumeric a = true := by
  rw [isAlphanumeric, (of_isJoiningLetter (isJoiningLetter_of_isAlpha h)).1, Bool.true_or]

theorem classBefore_of_isAlpha (h : a.isAlpha = true) : classBefore a before = .letter := by
  obtain ⟨-, hclass, hpictograph⟩ := of_isJoiningLetter (isJoiningLetter_of_isAlpha h)
  rw [classBefore, hpictograph, hclass]
  rfl

theorem class_dollar : wordBreakClass '$' = .other := by decide +kernel

/-- No sign keeps to a dollar sign behind it. -/
theorem keepsTogether_other {k : WordBreakClass} : keepsTogether k .other earlier later = false := by
  simp [keepsTogether, isLetter, joinsLetters, joinsDigits]

/-- A dollar sign begins a piece. -/
theorem isWordBoundary_before_dollar : isWordBoundary before ('$' :: later) = true := by
  have hpictograph : pictographs.contains '$'.toNat = false := by decide +kernel
  cases before with
  | nil => rfl
  | cons b earlier =>
    have hapart : comesApart (b :: earlier) .other later = true := by
      rw [comesApart]
      split
      · rfl
      · simp [keepsTogether_other]
    rw [isWordBoundary_cons_cons, class_dollar, hpictograph, hapart]
    simp [isAttached]

/-- Letters behind a dollar sign begin a piece. -/
theorem isWordBoundary_behind_dollar (ha : a.isAlpha = true) :
    isWordBoundary ('$' :: earlier) (a :: later) = true := by
  have hskip : skipAttached ('$' :: earlier) = '$' :: earlier :=
    skipAttached_cons (by rw [class_dollar]; rfl)
  have hclass : classBefore '$' earlier = .other := by
    rw [classBefore, class_dollar, ite_self]
  obtain ⟨-, hletter, hpictograph⟩ := of_isJoiningLetter (isJoiningLetter_of_isAlpha ha)
  rw [isWordBoundary_cons_cons, class_dollar, hletter, hpictograph, comesApart, hskip]
  simp [hclass, keepsTogether_before_letter, isLetter, joinsLetters, isAttached, endsLine]

theorem isWordBoundary_between_letters (hb : b.isAlpha = true) (ha : a.isAlpha = true) :
    isWordBoundary (b :: earlier) (a :: later) = false :=
  isWordBoundary_letters (classBefore_of_isAlpha hb)
    (of_isJoiningLetter (isJoiningLetter_of_isAlpha ha)).2.1

end Boundaries

namespace Pattern

/-! ### Places -/

/-- A place for a variable in a text. -/
structure Place where
  /-- The name of the variable. -/
  name : String
  /-- Whether there is a word boundary behind the place. -/
  endsWord : Bool
deriving DecidableEq, Repr

/-- The place that a dollar sign begins, if letters follow it. The letters up to here are given, last one
    first, and what stands before is read backwards. -/
def placeAfter (before letters cs : List Char) : List Place :=
  let name := letters.reverse ++ cs.takeWhile Char.isAlpha
  if name = [] then []
  else [⟨String.ofList ('$' :: name),
    isWordBoundary ((cs.takeWhile Char.isAlpha).reverse ++ before) (cs.dropWhile Char.isAlpha)⟩]

/-- The places of a text that follows `before`, which is read backwards. -/
def placesFrom (before : List Char) : List Char → List Place
  | [] => []
  | c :: rest =>
    (if c = '$' then placeAfter (c :: before) [] rest else []) ++ placesFrom (c :: before) rest

/-- The places of a pattern. -/
def places (pattern : String) : List Place := placesFrom [] pattern.toList

section Places

variable {before letters cs rest : List Char} {c : Char}

theorem placeAfter_cons_of_isAlpha (hc : c.isAlpha = true) :
    placeAfter before letters (c :: rest) = placeAfter (c :: before) (c :: letters) rest := by
  simp [placeAfter, hc]

/-- Where no letter follows, the place ends. -/
theorem placeAfter_of_not_isAlpha (hcs : ∀ c ∈ cs.head?, c.isAlpha = false) :
    placeAfter before letters cs = if letters = [] then []
      else [⟨String.ofList ('$' :: letters.reverse), isWordBoundary before cs⟩] := by
  cases cs with
  | nil => simp [placeAfter]
  | cons c cs => simp [placeAfter, hcs c rfl]

theorem placesFrom_cons_of_ne (hc : c ≠ '$') :
    placesFrom before (c :: rest) = placesFrom (c :: before) rest := by
  rw [placesFrom, if_neg hc, List.nil_append]

theorem placesFrom_dollar : placesFrom before ('$' :: rest) =
    placeAfter ('$' :: before) [] rest ++ placesFrom ('$' :: before) rest := by
  rw [placesFrom, if_pos rfl]

theorem name?_placeOf : [placeOf letters].filterMap Piece.name? =
    if letters = [] then [] else [String.ofList ('$' :: letters.reverse)] := by
  cases letters <;> rfl

theorem name_placeAfter_of_not_isAlpha (hcs : ∀ c ∈ cs.head?, c.isAlpha = false) :
    (placeAfter before letters cs).map Place.name = [placeOf letters].filterMap Piece.name? := by
  rw [placeAfter_of_not_isAlpha hcs, name?_placeOf]
  split <;> rfl

/-- The names of the pieces of a text are those of its places. -/
theorem names_scan : (∀ before,
      (scan cs).filterMap Piece.name? = (placesFrom before cs).map Place.name) ∧
    ∀ before letters, (scanName letters cs).filterMap Piece.name? =
      (placeAfter before letters cs ++ placesFrom before cs).map Place.name := by
  induction cs with
  | nil =>
    refine ⟨fun before => by rfl, fun before letters => ?_⟩
    rw [scanName, List.map_append, name_placeAfter_of_not_isAlpha (by simp)]
    exact (List.append_nil _).symm
  | cons c rest ih =>
    obtain ⟨hscan, hname⟩ := ih
    refine ⟨fun before => ?_, fun before letters => ?_⟩
    · rw [scan]
      split
      · next hc =>
        rw [beq_iff_eq.1 hc, hname ('$' :: before), placesFrom_dollar]
      · next hc =>
        rw [placesFrom_cons_of_ne (by simpa using hc), ← hscan]
        rfl
    · rw [scanName]
      split
      · next hc =>
        have hne : c ≠ '$' := by rintro rfl; exact absurd hc (by decide)
        rw [hname (c :: before), placeAfter_cons_of_isAlpha hc, placesFrom_cons_of_ne hne]
      · next halpha =>
        have hfirst : (placeAfter before letters (c :: rest)).map Place.name =
            [placeOf letters].filterMap Piece.name? :=
          name_placeAfter_of_not_isAlpha (by simpa using halpha)
        rw [List.map_append, hfirst]
        split
        · next hc =>
          rw [beq_iff_eq.1 hc, placesFrom_dollar, ← hname, ← List.filterMap_append]
          rfl
        · next hc =>
          rw [placesFrom_cons_of_ne (by simpa using hc), ← hscan, ← List.filterMap_append]
          rfl

/-- The names of the places are the names of the variables. -/
theorem places_map_name (pattern : String) :
    (places pattern).map Place.name = variableNames pattern :=
  (names_scan.1 []).symm

end Places

/-! ### Words -/

/-- What a word is read as that stands behind a gap: the last character of the gap, and the word. -/
def readName (gap word : List Char) : List Char := gap.getLast?.toList ++ word

/-- What the words among the pieces of a text are read as, where `gap` has been passed over before. -/
def wordNames (gap : List Char) : List (List Char) → List String
  | [] => []
  | piece :: rest =>
    if piece.any isAlphanumeric then String.ofList (readName gap piece) :: wordNames [] rest
    else wordNames (gap ++ piece) rest

/-- The name is a dollar sign with letters behind it. -/
def IsVariableName (name : String) : Prop :=
  ∃ letters, letters ≠ [] ∧ (∀ c ∈ letters, c.isAlpha = true) ∧ name = String.ofList ('$' :: letters)

/-- The names in `V` of the places behind which a word ends. -/
def shown (V : String → Bool) (places : List Place) : List String :=
  ((places.filter Place.endsWord).map Place.name).filter V

/-- Whatever follows, the piece that is being read has no name in `V`. -/
def Quiet (V : String → Bool) (gap piece : List Char) : Prop :=
  ∀ more, V (String.ofList (readName gap (piece.reverse ++ more))) = false

/-- A dollar sign and the letters have been read last. The sign is a piece of its own. -/
structure Pending (gap letters piece : List Char) : Prop where
  isAlpha : ∀ c ∈ letters, c.isAlpha = true
  piece_eq : letters = [] ∧ piece = ['$'] ∨ letters ≠ [] ∧ piece = letters ∧ gap.getLast? = some '$'

section Words

variable {V : String → Bool} {gap piece letters before cs : List Char} {ps : List (List Char)}
  {c x : Char} {p q : List Place}

theorem shown_append : shown V (p ++ q) = shown V p ++ shown V q := by
  simp [shown]

theorem shown_sublist : (shown V p).Sublist ((p.map Place.name).filter V) :=
  (List.filter_sublist.map _).filter _

/-- All names are shown if and only if behind each of their places a word ends. -/
theorem shown_eq_iff : shown V p = (p.map Place.name).filter V ↔
    ∀ place ∈ p, V place.name = true → place.endsWord = true := by
  induction p with
  | nil => exact iff_of_true rfl fun _ h => absurd h List.not_mem_nil
  | cons place p ih =>
    rw [List.forall_mem_cons, ← ih]
    cases hname : V place.name with
    | false => cases hends : place.endsWord <;> simp [shown, hname, hends]
    | true =>
      cases hends : place.endsWord with
      | true => simp [shown, hname, hends]
      | false =>
        -- The name of the first place is missing, and nothing makes up for it.
        have hshown : shown V (place :: p) = shown V p := by simp [shown, hends]
        have hle := (shown_sublist (V := V) (p := p)).length_le
        rw [hshown, List.map_cons, List.filter_cons_of_pos hname]
        refine iff_of_false (fun heq => ?_) (by simp)
        rw [heq, List.length_cons] at hle
        exact absurd hle (Nat.not_succ_le_self _)

theorem shown_placeAfter (hcs : ∀ c ∈ cs.head?, c.isAlpha = false) :
    shown V (placeAfter before letters cs) = if isWordBoundary before cs = true then
      (if letters = [] then [] else [String.ofList ('$' :: letters.reverse)]).filter V else [] := by
  rw [placeAfter_of_not_isAlpha hcs]
  by_cases hletters : letters = [] <;> cases hboundary : isWordBoundary before cs <;>
    simp [shown, hletters]

section Quiet

variable (hV : ∀ name, V name = true → IsVariableName name)
include hV

theorem eq_false_of_not_isVariableName {tail : List Char}
    (h : x ≠ '$' ∨ ∃ c ∈ tail, c.isAlpha = false) : V (String.ofList (x :: tail)) = false := by
  by_contra hname
  obtain ⟨letters, -, hletters, heq⟩ := hV _ (Bool.not_eq_false _ ▸ hname)
  obtain ⟨rfl, rfl⟩ := List.cons.inj (String.ofList_injective heq)
  rcases h with h | ⟨c, hc, halpha⟩
  · exact h rfl
  · rw [hletters c hc] at halpha
    exact Bool.noConfusion halpha

theorem quiet_of_ne (hgap : gap.getLast? ≠ some '$') (hc : c ≠ '$') : Quiet V gap [c] := by
  intro more
  rw [readName]
  cases hlast : gap.getLast? with
  | none => exact eq_false_of_not_isVariableName hV (.inl hc)
  | some d => exact eq_false_of_not_isVariableName hV (.inl fun hd => hgap (hd ▸ hlast))

theorem quiet_of_not_isAlpha (hgap : gap.getLast? = some '$') (hc : c.isAlpha = false) :
    Quiet V gap (c :: piece) := by
  intro more
  rw [readName, hgap]
  exact eq_false_of_not_isVariableName hV (.inr ⟨c, by simp, hc⟩)

theorem quiet_dollar (hc : c.isAlpha = false) : Quiet V gap [c, '$'] := by
  intro more
  rw [readName]
  cases gap.getLast? with
  | none => exact eq_false_of_not_isVariableName hV (.inr ⟨c, by simp, hc⟩)
  | some d => exact eq_false_of_not_isVariableName hV (.inr ⟨c, by simp, hc⟩)

end Quiet

theorem Quiet.cons (h : Quiet V gap piece) : Quiet V gap (c :: piece) := fun more => by
  have hmore := h (c :: more)
  rwa [List.append_cons, ← List.reverse_cons] at hmore

/-- When a quiet piece ends no name is shown. -/
theorem Quiet.exists_gap (h : Quiet V gap piece) (hne : piece ≠ []) (hlast : piece.head? ≠ some '$')
    (ps : List (List Char)) : ∃ gap', gap'.getLast? ≠ some '$' ∧
      (wordNames gap (piece.reverse :: ps)).filter V = (wordNames gap' ps).filter V := by
  rw [wordNames]
  split
  · have hname := h []
    rw [List.append_nil] at hname
    exact ⟨[], by simp, by rw [List.filter_cons_of_neg (by simp [hname])]⟩
  · refine ⟨gap ++ piece.reverse, ?_, rfl⟩
    rwa [List.getLast?_append_of_ne_nil _ (by simpa using hne), List.getLast?_reverse]

/-- When a pending piece ends its name is shown, if it has letters. -/
theorem Pending.wordNames_eq (h : Pending gap letters piece) :
    wordNames gap (piece.reverse :: ps) =
      (if letters = [] then [] else [String.ofList ('$' :: letters.reverse)]) ++
        wordNames (if letters = [] then gap ++ ['$'] else []) ps := by
  have hdollar : (['$'] : List Char).any isAlphanumeric = false := by decide +kernel
  rcases h.piece_eq with ⟨rfl, rfl⟩ | ⟨hne, rfl, hgap⟩
  · rw [wordNames]
    simp [hdollar]
  · have hword : piece.reverse.any isAlphanumeric = true := by
      obtain ⟨c, hc⟩ := List.exists_mem_of_ne_nil _ hne
      exact List.any_eq_true.2 ⟨c, by simpa using hc, isAlphanumeric_of_isAlpha (h.isAlpha c hc)⟩
    rw [wordNames, if_pos hword, if_neg hne, if_neg hne, readName, hgap]
    rfl

theorem Pending.ne_nil (h : Pending gap letters piece) : piece ≠ [] := by
  rcases h.piece_eq with ⟨-, rfl⟩ | ⟨hne, rfl, -⟩
  · exact List.cons_ne_nil _ _
  · exact hne

theorem wordPiecesFrom_of_boundary (hne : piece ≠ [])
    (h : isWordBoundary before (c :: cs) = true) : wordPiecesFrom before piece (c :: cs) =
      piece.reverse :: wordPiecesFrom (c :: before) [c] cs := by
  rw [wordPiecesFrom, h, if_pos]
  simpa using hne

theorem wordPiecesFrom_of_not_boundary (h : isWordBoundary before (c :: cs) = false) :
    wordPiecesFrom before piece (c :: cs) = wordPiecesFrom (c :: before) (c :: piece) cs := by
  rw [wordPiecesFrom, h, Bool.and_false, if_neg Bool.false_ne_true]

/-- Behind every quiet piece, the words of the text show its places. -/
def ShowsQuiet (V : String → Bool) (cs : List Char) : Prop :=
  ∀ before gap piece, piece ≠ [] → piece.head? ≠ some '$' → Quiet V gap piece →
    (wordNames gap (wordPiecesFrom before piece cs)).filter V = shown V (placesFrom before cs)

/-- Behind every pending piece, the words of the text show the place that is pending and the others. -/
def ShowsPending (V : String → Bool) (cs : List Char) : Prop :=
  ∀ before gap letters piece, Pending gap letters piece → piece <+: before →
    (wordNames gap (wordPiecesFrom before piece cs)).filter V =
      shown V (placeAfter before letters cs ++ placesFrom before cs)

theorem showsQuiet_nil : ShowsQuiet V [] := by
  intro before gap piece hne hlast hquiet
  obtain ⟨gap', -, hnames⟩ := hquiet.exists_gap hne hlast []
  rw [wordPiecesFrom, if_neg (by simpa using hne), hnames]
  rfl

theorem showsPending_nil : ShowsPending V [] := by
  intro before gap letters piece hp _
  rw [wordPiecesFrom, if_neg (by simpa using hp.ne_nil), hp.wordNames_eq, shown_append,
    shown_placeAfter (by simp), isWordBoundary_nil_right, if_pos rfl, List.filter_append]
  rfl

/-- A dollar sign begins a piece, whatever has been passed over. -/
theorem ShowsPending.dollar (h : ShowsPending V cs) :
    (wordNames gap (wordPiecesFrom ('$' :: before) ['$'] cs)).filter V =
      shown V (placesFrom before ('$' :: cs)) := by
  rw [placesFrom_dollar]
  exact h _ gap [] ['$'] ⟨by simp, .inl ⟨rfl, rfl⟩⟩ (by simp)

/-- A letter goes on with the place that is pending. -/
theorem ShowsPending.letter (hpending : ShowsPending V cs) (halpha : c.isAlpha = true) :
    ShowsPending V (c :: cs) := by
  rintro _ gap letters piece hp ⟨earlier, rfl⟩
  have hc : c ≠ '$' := by rintro rfl; exact absurd halpha (by decide)
  rw [placeAfter_cons_of_isAlpha halpha, placesFrom_cons_of_ne hc]
  rcases hp.piece_eq with ⟨rfl, rfl⟩ | ⟨hne, rfl, hgap⟩
  · have hboundary : isWordBoundary (['$'] ++ earlier) (c :: cs) = true :=
      isWordBoundary_behind_dollar halpha
    rw [wordPiecesFrom_of_boundary hp.ne_nil hboundary, hp.wordNames_eq]
    exact hpending _ (gap ++ ['$']) [c] [c]
      ⟨by simpa using halpha, .inr ⟨by simp, rfl, by simp⟩⟩ (by simp)
  · obtain ⟨b, letters, rfl⟩ := List.exists_cons_of_ne_nil hne
    have hboundary : isWordBoundary (b :: letters ++ earlier) (c :: cs) = false :=
      isWordBoundary_between_letters (hp.isAlpha b List.mem_cons_self) halpha
    rw [wordPiecesFrom_of_not_boundary hboundary]
    exact hpending _ gap _ (c :: b :: letters)
      ⟨List.forall_mem_cons.2 ⟨halpha, hp.isAlpha⟩, .inr ⟨by simp, rfl, hgap⟩⟩ (by simp)

theorem ne_dollar_of_not_boundary (h : isWordBoundary before (c :: cs) = false) : c ≠ '$' := by
  rintro rfl
  exact Bool.noConfusion (h.symm.trans isWordBoundary_before_dollar)

section Step

variable (hV : ∀ name, V name = true → IsVariableName name) (hquiet : ShowsQuiet V cs)
  (hpending : ShowsPending V cs)
include hV hquiet hpending

theorem showsQuiet_cons : ShowsQuiet V (c :: cs) := by
  intro before gap piece hne hlast hq
  cases hboundary : isWordBoundary before (c :: cs) with
  | true =>
    obtain ⟨gap', hgap', hnames⟩ :=
      hq.exists_gap hne hlast (wordPiecesFrom (c :: before) [c] cs)
    rw [wordPiecesFrom_of_boundary hne hboundary, hnames]
    by_cases hc : c = '$'
    · subst hc
      exact hpending.dollar
    · rw [placesFrom_cons_of_ne hc]
      exact hquiet _ gap' [c] (by simp) (by simpa using hc) (quiet_of_ne hV hgap' hc)
  | false =>
    have hc := ne_dollar_of_not_boundary hboundary
    rw [wordPiecesFrom_of_not_boundary hboundary, placesFrom_cons_of_ne hc]
    exact hquiet _ gap (c :: piece) (by simp) (by simpa using hc) hq.cons

/-- Any other character ends the place that is pending, and its word or not. -/
theorem showsPending_other (halpha : c.isAlpha = false) : ShowsPending V (c :: cs) := by
  rintro before gap letters piece hp -
  rw [shown_append, shown_placeAfter (by simpa using halpha)]
  cases hboundary : isWordBoundary before (c :: cs) with
  | true =>
    rw [wordPiecesFrom_of_boundary hp.ne_nil hboundary, hp.wordNames_eq, List.filter_append, if_pos rfl]
    congr 1
    by_cases hc : c = '$'
    · subst hc
      exact hpending.dollar
    · rw [placesFrom_cons_of_ne hc]
      refine hquiet _ _ [c] (by simp) (by simpa using hc) ?_
      split
      · exact quiet_of_not_isAlpha hV (by simp) halpha
      · exact quiet_of_ne hV (by simp) hc
  | false =>
    have hc := ne_dollar_of_not_boundary hboundary
    rw [wordPiecesFrom_of_not_boundary hboundary, if_neg Bool.false_ne_true, List.nil_append,
      placesFrom_cons_of_ne hc]
    refine hquiet _ gap (c :: piece) (by simp) (by simpa using hc) ?_
    rcases hp.piece_eq with ⟨rfl, rfl⟩ | ⟨-, rfl, hgap⟩
    · exact quiet_dollar hV halpha
    · exact quiet_of_not_isAlpha hV hgap halpha

end Step

variable (hV : ∀ name, V name = true → IsVariableName name)
include hV

theorem showsQuiet_and_showsPending (cs : List Char) : ShowsQuiet V cs ∧ ShowsPending V cs := by
  induction cs with
  | nil => exact ⟨showsQuiet_nil, showsPending_nil⟩
  | cons c cs ih =>
    obtain ⟨hquiet, hpending⟩ := ih
    refine ⟨showsQuiet_cons hV hquiet hpending, ?_⟩
    cases halpha : c.isAlpha with
    | true => exact hpending.letter halpha
    | false => exact showsPending_other hV hquiet hpending halpha

/-- The words of a text show the places behind which a word ends. -/
theorem wordNames_wordPieces (cs : List Char) :
    (wordNames [] (wordPieces cs)).filter V = shown V (placesFrom [] cs) := by
  cases cs with
  | nil => rfl
  | cons c cs =>
    obtain ⟨hquiet, hpending⟩ := showsQuiet_and_showsPending hV cs
    have hfirst : wordPieces (c :: cs) = wordPiecesFrom [c] [c] cs := rfl
    rw [hfirst]
    by_cases hc : c = '$'
    · subst hc
      exact hpending.dollar
    · rw [placesFrom_cons_of_ne hc]
      exact hquiet [c] [] [c] (by simp) (by simpa using hc) (quiet_of_ne hV (by simp) hc)

end Words

end Pattern

end PhraseGraph
