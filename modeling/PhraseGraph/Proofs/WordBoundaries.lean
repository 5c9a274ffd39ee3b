import Mathlib.Data.List.TakeWhile
import PhraseGraph.Proofs.Blanks

/-!
# Word boundaries

Whether there is a word boundary may depend on characters far away: marks are looked through on both
sides, a sign between letters asks for the letter behind it, and regional indicators are counted. But
nothing looks across another boundary. So a text that is put together at a boundary is cut as its two
parts are (`wordPieces_append`), and pieces that are cut again as they are (`Recuts`) can be taken apart
anywhere, and put together at a boundary (`recuts_append_iff`).

In particular words of letters can take each other's place: if a stretch of pieces begins and ends with
such words, another stretch that does so too can be put there (`Recuts.replace`).
-/

namespace PhraseGraph.Text

open WordBreakClass

variable {before earlier later rest cs e l m r : List Char} {a b c x base : Char}
  {k : WordBreakClass} {p : WordBreakClass → Bool}

/-! ### Pictographs -/

/-- The classes that have no pictographs: those of line ends, of the signs that may stand inside a word,
    and of regional indicators. -/
def WordBreakClass.isPictureless : WordBreakClass → Bool
  | carriageReturn | lineFeed | newline | singleQuote | doubleQuote | midNumLet | midLetter | midNum
  | regionalIndicator => true
  | _ => false

theorem contains_pictographs_eq_false (h : (wordBreakClass c).isPictureless = true) :
    pictographs.contains c.toNat = false := by
  by_cases hascii : c.toNat < 0x80
  · have hall : ∀ n < 0x80, pictographs.contains n = false := by decide +kernel
    exact hall _ hascii
  · rw [wordBreakClass, if_neg hascii] at h
    split at h
    · next table cls hfind =>
      have hall : ∀ entry ∈ wordBreakTables, entry.2.isPictureless = true →
          ∀ r ∈ entry.1.ranges, ∀ i ≤ r.2 - r.1, pictographs.contains (r.1 + i) = false := by
        decide +kernel
      have hcontains := List.find?_some hfind
      rw [CodePoints.contains, Option.isSome_iff_exists] at hcontains
      obtain ⟨range, hrange⟩ := hcontains
      obtain ⟨hmem, hlow, hhigh⟩ := of_findRange?_eq_some hrange
      rw [id] at hlow hhigh
      have := hall _ (List.mem_of_find?_eq_some hfind) h range hmem (c.toNat - range.1) (by omega)
      rwa [Nat.add_sub_cancel' hlow] at this
    · exact absurd h (by decide)

theorem classBefore_of_isPictureless (h : (wordBreakClass c).isPictureless = true) :
    classBefore c before = wordBreakClass c := by
  rw [classBefore, contains_pictographs_eq_false h]
  rfl

theorem isPictureless_of_joinsLetters (h : k.joinsLetters = true) : k.isPictureless = true := by
  cases k <;> simp_all [joinsLetters, isPictureless]

theorem isPictureless_of_joinsDigits (h : k.joinsDigits = true) : k.isPictureless = true := by
  cases k <;> simp_all [joinsDigits, isPictureless]

theorem isPictureless_of_endsLine (h : k.endsLine = true) : k.isPictureless = true := by
  cases k <;> simp_all [endsLine, isPictureless]

theorem endsLine_of_isLetter (h : k.isLetter = true) : k.endsLine = false := by
  cases k <;> simp_all [isLetter, endsLine]

theorem classBefore_eq_of_isPictureless (h : (classBefore c before).isPictureless = true) :
    classBefore c before = wordBreakClass c := by
  rw [classBefore] at h ⊢
  split at h
  · exact absurd h (by decide)
  · next hc => rw [if_neg hc]

theorem endsLine_of_pictograph (h : pictographs.contains c.toNat = true) :
    (wordBreakClass c).endsLine = false := by
  by_contra hend
  rw [Bool.not_eq_false] at hend
  exact Bool.noConfusion
    (h.symm.trans (contains_pictographs_eq_false (isPictureless_of_endsLine hend)))

theorem endsLine_of_joinsLetters (h : k.joinsLetters = true) : k.endsLine = false := by
  cases k <;> simp_all [joinsLetters, endsLine]

theorem endsLine_of_joinsDigits (h : k.joinsDigits = true) : k.endsLine = false := by
  cases k <;> simp_all [joinsDigits, endsLine]

theorem endsLine_classBefore : (classBefore c before).endsLine = (wordBreakClass c).endsLine := by
  rw [classBefore]
  split
  · next h =>
    rw [Bool.and_eq_true] at h
    exact (endsLine_of_pictograph h.1).symm
  · rfl

/-! ### Marks -/

theorem skipAttached_append_of_all (hl : ∀ c ∈ l, (wordBreakClass c).isAttached = true) :
    skipAttached (l ++ r) = skipAttached r :=
  List.dropWhile_append_of_pos hl

theorem skipAttached_cons (hc : (wordBreakClass c).isAttached = false) :
    skipAttached (c :: r) = c :: r :=
  List.dropWhile_cons_of_neg (by simp [hc])

theorem skipAttached_append (hl : skipAttached l = base :: rest) :
    skipAttached (l ++ r) = base :: (rest ++ r) := by
  rw [skipAttached] at hl ⊢
  rw [List.dropWhile_append, hl]
  rfl

theorem isAttached_of_skipAttached_eq_nil (h : skipAttached l = []) :
    ∀ c ∈ l, (wordBreakClass c).isAttached = true :=
  List.dropWhile_eq_nil_iff.1 h

/-- What is left when marks are skipped begins with none, and only marks stand before it. -/
theorem of_skipAttached_eq_cons (h : skipAttached l = base :: rest) :
    (wordBreakClass base).isAttached = false ∧
      ∃ marks, (∀ c ∈ marks, (wordBreakClass c).isAttached = true) ∧ marks ++ base :: rest = l := by
  refine ⟨?_, l.takeWhile fun c => (wordBreakClass c).isAttached, fun c hc => ?_, ?_⟩
  · have hbase := List.head?_dropWhile_not (fun c => (wordBreakClass c).isAttached) l
    rw [← skipAttached, h] at hbase
    exact hbase
  · exact @List.mem_takeWhile_imp _ (fun c => (wordBreakClass c).isAttached) _ _ hc
  · rw [← h]
    exact List.takeWhile_append_dropWhile

theorem endsLine_of_isAttached (h : (wordBreakClass c).isAttached = true) :
    (wordBreakClass c).endsLine = false := by
  cases hk : wordBreakClass c <;> simp_all [endsLine, isAttached]

/-! ### What a boundary tells -/

/-- Whether what stands on both sides comes apart, marks on the left side and line ends apart. -/
def comesApart (before : List Char) (right : WordBreakClass) (later : List Char) : Bool :=
  match skipAttached before with
  | [] => true
  | base :: beforeBase =>
    let left := classBefore base beforeBase
    if left.endsLine then true
    else if left == .regionalIndicator && right == .regionalIndicator then
      regionalIndicators (base :: beforeBase) % 2 == 0
    else !keepsTogether left right beforeBase later

theorem isWordBoundary_cons_cons : isWordBoundary (b :: earlier) (a :: later) =
    (if wordBreakClass b == .carriageReturn && wordBreakClass a == .lineFeed then false
    else if (wordBreakClass b).endsLine || (wordBreakClass a).endsLine then true
    else if wordBreakClass b == .joiner && pictographs.contains a.toNat then false
    else if wordBreakClass b == .space && wordBreakClass a == .space then false
    else if (wordBreakClass a).isAttached then false
    else comesApart (b :: earlier) (wordBreakClass a) later) := rfl

@[simp] theorem isWordBoundary_nil_left : isWordBoundary [] r = true := by
  cases r <;> rfl

@[simp] theorem isWordBoundary_nil_right : isWordBoundary before [] = true := by
  cases before <;> rfl

/-- The text, read backwards, does not begin with the end of a line. -/
def EndsInLine (before : List Char) : Prop :=
  ∃ b ∈ before.head?, (wordBreakClass b).endsLine = false

theorem EndsInLine.append (h : EndsInLine before)
    (hm : ∀ c ∈ m, (wordBreakClass c).isAttached = true) : EndsInLine (m ++ before) := by
  cases m with
  | nil => exact h
  | cons c m => exact ⟨c, rfl, endsLine_of_isAttached (hm c List.mem_cons_self)⟩

/-- Only behind the end of a line a mark begins a piece. -/
theorem isAttached_of_boundary (h : isWordBoundary before (a :: later) = true)
    (hbefore : EndsInLine before) : (wordBreakClass a).isAttached = false := by
  obtain ⟨b, hb, hend⟩ := hbefore
  obtain ⟨earlier, rfl⟩ := List.head?_eq_some_iff.1 (Option.mem_def.1 hb)
  by_contra ha
  rw [Bool.not_eq_false] at ha
  rw [isWordBoundary_cons_cons, hend, endsLine_of_isAttached ha, ha] at h
  simp at h

/-- No pictograph is cut off from a joiner. -/
theorem not_joined_of_boundary (h : isWordBoundary (b :: earlier) (a :: later) = true) :
    (wordBreakClass b == .joiner && pictographs.contains a.toNat) = false := by
  by_contra hjoined
  rw [Bool.not_eq_false, Bool.and_eq_true, beq_iff_eq] at hjoined
  rw [isWordBoundary_cons_cons, endsLine_of_pictograph hjoined.2, hjoined.1, hjoined.2] at h
  simp [endsLine] at h

theorem comesApart_of_boundary (h : isWordBoundary before (a :: later) = true)
    (hbefore : EndsInLine before) (ha : (wordBreakClass a).endsLine = false) :
    comesApart before (wordBreakClass a) later = true := by
  obtain ⟨b, hb, hend⟩ := hbefore
  obtain ⟨earlier, rfl⟩ := List.head?_eq_some_iff.1 (Option.mem_def.1 hb)
  rw [isWordBoundary_cons_cons, hend, ha] at h
  simp_all

theorem keepsTogether_eq_false (h : comesApart before k later = true)
    (hbase : skipAttached before = base :: rest) (hend : (classBefore base rest).endsLine = false)
    (hk : k ≠ .regionalIndicator) : keepsTogether (classBefore base rest) k rest later = false := by
  have hk : (k == .regionalIndicator) = false := beq_eq_false_iff_ne.2 hk
  rw [comesApart, hbase] at h
  simpa [hend, hk] using h

/-! ### What follows a boundary -/

theorem continuesJoined_cons_of_not (hc : (wordBreakClass c).isAttached = false) :
    continuesJoined (c :: rest) = false := by
  rw [continuesJoined.eq_def]
  simp only [hc, Bool.false_and]

theorem continuesJoined_singleton : continuesJoined [c] = false := by
  rw [continuesJoined.eq_def]
  exact Bool.and_false _

theorem continuesJoined_cons_cons : continuesJoined (c :: a :: rest) =
    ((wordBreakClass c).isAttached &&
      ((wordBreakClass c == .joiner && pictographs.contains a.toNat) ||
        continuesJoined (a :: rest))) := by
  rw [continuesJoined.eq_def]

theorem continuesJoined_append (h : isWordBoundary (m.reverse ++ before) r = true)
    (hbefore : EndsInLine before) : continuesJoined (m ++ r) = continuesJoined m := by
  induction m generalizing before with
  | nil =>
    cases r with
    | nil => rfl
    | cons a r => exact continuesJoined_cons_of_not (isAttached_of_boundary h hbefore)
  | cons c m ih =>
    rw [List.reverse_cons, List.append_assoc, List.singleton_append] at h
    cases hc : (wordBreakClass c).isAttached with
    | false => rw [List.cons_append, continuesJoined_cons_of_not hc, continuesJoined_cons_of_not hc]
    | true =>
      have hrest := ih h ⟨c, rfl, endsLine_of_isAttached hc⟩
      cases m with
      | cons d m =>
        rw [List.cons_append] at hrest
        rw [List.cons_append, List.cons_append, continuesJoined_cons_cons,
          continuesJoined_cons_cons, hrest]
      | nil =>
        cases r with
        | nil => rfl
        | cons a r =>
          rw [List.nil_append] at hrest
          rw [List.cons_append, List.nil_append, continuesJoined_cons_cons, hrest,
            not_joined_of_boundary h, hc, continuesJoined_singleton]
          rfl

theorem continuesWith_append
    (h : (∀ c ∈ m, (wordBreakClass c).isAttached = true) → continuesWith p r = false) :
    continuesWith p (m ++ r) = continuesWith p m := by
  cases hm : skipAttached m with
  | nil =>
    have hall := isAttached_of_skipAttached_eq_nil hm
    have hr := h hall
    rw [continuesWith] at hr
    rw [continuesWith, continuesWith, skipAttached_append_of_all hall, hr, hm]
    rfl
  | cons base rest =>
    rw [continuesWith, continuesWith, skipAttached_append hm, hm]
    rfl

/-- What a sign asks for is not behind a boundary: there it would keep to the sign. -/
theorem continuesWith_append_of_boundary (h : isWordBoundary (m.reverse ++ c :: before) r = true)
    (hc : (wordBreakClass c).isPictureless = true) (hend : (wordBreakClass c).endsLine = false)
    (hp : ∀ k, p k = true → k.endsLine = false ∧ k ≠ .regionalIndicator ∧
      ∀ later, keepsTogether (wordBreakClass c) k before later = true) :
    continuesWith p (m ++ r) = continuesWith p m := by
  refine continuesWith_append fun hm => ?_
  cases r with
  | nil => rfl
  | cons a r =>
    have hmarks : ∀ d ∈ m.reverse, (wordBreakClass d).isAttached = true :=
      fun d hd => hm d (List.mem_reverse.1 hd)
    have hline : EndsInLine (m.reverse ++ c :: before) :=
      EndsInLine.append ⟨c, rfl, hend⟩ hmarks
    have ha := isAttached_of_boundary h hline
    have hattached : (wordBreakClass c).isAttached = false := by
      cases hk : wordBreakClass c <;> simp_all [isPictureless, isAttached]
    have hbase : skipAttached (m.reverse ++ c :: before) = c :: before := by
      rw [skipAttached_append_of_all hmarks, skipAttached_cons hattached]
    rw [continuesWith, skipAttached_cons ha]
    by_contra hpa
    rw [Bool.not_eq_false] at hpa
    obtain ⟨hend', hregional, hkeeps⟩ := hp (wordBreakClass a) hpa
    have hclass : classBefore c before = wordBreakClass c := classBefore_of_isPictureless hc
    have hfalse := keepsTogether_eq_false (comesApart_of_boundary h hline hend') hbase
      (by rw [hclass, hend]) hregional
    rw [hclass, hkeeps] at hfalse
    exact Bool.noConfusion hfalse

theorem endsWith_of_skipAttached (h : skipAttached before = base :: rest) :
    endsWith p before = p (classBefore base rest) := by
  rw [endsWith, h]

theorem and_eq_and {g y z : Bool} (h : g = true → y = z) : (g && y) = (g && z) := by
  cases g with
  | false => rfl
  | true => exact h rfl

/-- Whether a character keeps to what stands before it does not depend on what is behind the next
    boundary. -/
theorem keepsTogether_append_right (h : isWordBoundary (m.reverse ++ c :: before) r = true)
    (hend : (wordBreakClass c).endsLine = false) (hbase : skipAttached before = base :: rest) :
    keepsTogether (classBefore base rest) (wordBreakClass c) rest (m ++ r) =
      keepsTogether (classBefore base rest) (wordBreakClass c) rest m := by
  have hjoined := continuesJoined_append h ⟨c, rfl, hend⟩
  have hends : ∀ p, endsWith p before = p (classBefore base rest) := fun p =>
    endsWith_of_skipAttached hbase
  generalize classBefore base rest = left at hends ⊢
  have hletter : (left.isLetter && (wordBreakClass c).joinsLetters) = true →
      continuesWith isLetter (m ++ r) = continuesWith isLetter m := fun hg => by
    rw [Bool.and_eq_true] at hg
    refine continuesWith_append_of_boundary h (isPictureless_of_joinsLetters hg.2) hend fun k hk => ?_
    refine ⟨endsLine_of_isLetter hk, by rintro rfl; exact Bool.noConfusion hk, fun later => ?_⟩
    simp [keepsTogether, hg.2, hk, hends, hg.1]
  have hhebrew : (left == .hebrewLetter && wordBreakClass c == .doubleQuote) = true →
      continuesWith (· == .hebrewLetter) (m ++ r) = continuesWith (· == .hebrewLetter) m := fun hg => by
    simp only [Bool.and_eq_true, beq_iff_eq] at hg
    refine continuesWith_append_of_boundary h (by rw [hg.2]; rfl) hend fun k hk => ?_
    rw [beq_iff_eq] at hk
    refine ⟨by rw [hk]; rfl, by rw [hk]; decide, fun later => ?_⟩
    simp [keepsTogether, hg.2, hk, hends, hg.1]
  have hdigit : (left == .numeric && (wordBreakClass c).joinsDigits) = true →
      continuesWith (· == .numeric) (m ++ r) = continuesWith (· == .numeric) m := fun hg => by
    simp only [Bool.and_eq_true, beq_iff_eq] at hg
    refine continuesWith_append_of_boundary h (isPictureless_of_joinsDigits hg.2) hend fun k hk => ?_
    rw [beq_iff_eq] at hk
    refine ⟨by rw [hk]; rfl, by rw [hk]; decide, fun later => ?_⟩
    simp [keepsTogether, hg.2, hk, hends, hg.1]
  have hletters := and_eq_and fun hg => congrArg (· || continuesJoined m) (hletter hg)
  have hhebrews := and_eq_and fun hg => congrArg (· || continuesJoined m) (hhebrew hg)
  have hdigits := and_eq_and fun hg => congrArg (· || continuesJoined m) (hdigit hg)
  simp only [keepsTogether, hjoined]
  rw [hletters, hhebrews, hdigits]

/-- Whether there is a boundary does not depend on what is behind the next one. -/
theorem isWordBoundary_append_right (h : isWordBoundary (m.reverse ++ c :: before) r = true) :
    isWordBoundary before (c :: (m ++ r)) = isWordBoundary before (c :: m) := by
  cases before with
  | nil => rfl
  | cons b earlier =>
    rw [isWordBoundary_cons_cons, isWordBoundary_cons_cons]
    cases hend : (wordBreakClass c).endsLine with
    | true => simp only [Bool.or_true, if_true]
    | false =>
      have hsame : comesApart (b :: earlier) (wordBreakClass c) (m ++ r) =
          comesApart (b :: earlier) (wordBreakClass c) m := by
        cases hbase : skipAttached (b :: earlier) with
        | nil => rw [comesApart, comesApart, hbase]
        | cons base rest =>
          rw [comesApart, comesApart, hbase]
          simp only [keepsTogether_append_right h hend hbase]
      rw [hsame]

/-! ### What stands before a boundary -/

/-- If a piece begins with a mark, a line ends before it. -/
theorem exists_endsLine_of_boundary (h : isWordBoundary (b :: earlier) (x :: later) = true)
    (hx : (wordBreakClass x).isAttached = true) : (wordBreakClass b).endsLine = true := by
  by_contra hend
  rw [Bool.not_eq_true] at hend
  exact Bool.noConfusion (hx.symm.trans (isAttached_of_boundary h ⟨b, rfl, hend⟩))

theorem isAttached_of_endsLine (h : (wordBreakClass c).endsLine = true) :
    (wordBreakClass c).isAttached = false := by
  cases hk : wordBreakClass c <;> simp_all [endsLine, isAttached]

theorem endsWith_of_endsLine (hb : (wordBreakClass b).endsLine = true)
    (hp : ∀ k, p k = true → k.endsLine = false) : endsWith p (b :: earlier) = false := by
  rw [endsWith_of_skipAttached (skipAttached_cons (isAttached_of_endsLine hb))]
  by_contra hpk
  rw [Bool.not_eq_false] at hpk
  have hend := hp _ hpk
  rw [endsLine_classBefore, hb] at hend
  exact Bool.noConfusion hend

theorem classBefore_append (h : isWordBoundary (b :: earlier) (x :: later) = true)
    (hx : rest = [] → base = x) :
    classBefore base (rest ++ b :: earlier) = classBefore base rest := by
  cases rest with
  | cons c rest => rfl
  | nil =>
    obtain rfl := hx rfl
    have hjoined := not_joined_of_boundary h
    have hfirst : (some (wordBreakClass b) == some WordBreakClass.joiner) =
        (wordBreakClass b == .joiner) := rfl
    rw [Bool.and_comm] at hjoined
    simp only [List.nil_append, classBefore, firstClass?, List.head?_cons, Option.map_some, hfirst,
      hjoined, List.head?_nil, Option.map_none]
    simp

theorem endsWith_append (h : isWordBoundary (b :: earlier) (x :: later) = true)
    (hx : ∀ c rest, skipAttached l = c :: rest → rest = [] → c = x)
    (hl : (∀ c ∈ l, (wordBreakClass c).isAttached = true) → endsWith p (b :: earlier) = false) :
    endsWith p (l ++ b :: earlier) = endsWith p l := by
  cases hskip : skipAttached l with
  | nil =>
    have hall := isAttached_of_skipAttached_eq_nil hskip
    have hfalse := hl hall
    rw [endsWith] at hfalse
    rw [endsWith, endsWith, skipAttached_append_of_all hall, hfalse, hskip]
  | cons base rest =>
    rw [endsWith_of_skipAttached (skipAttached_append hskip), endsWith_of_skipAttached hskip,
      classBefore_append h (hx base rest hskip)]

/-- What a sign asks for does not stand before a boundary: there it would keep to the sign. -/
theorem endsWith_eq_false_of_boundary (h : isWordBoundary before (x :: later) = true)
    (hx : (wordBreakClass x).endsLine = false) (hregional : wordBreakClass x ≠ .regionalIndicator)
    (hp : ∀ k, p k = true → k.endsLine = false ∧
      ∀ earlier, keepsTogether k (wordBreakClass x) earlier later = true) :
    endsWith p before = false := by
  cases before with
  | nil => rfl
  | cons b earlier =>
    cases hend : (wordBreakClass b).endsLine with
    | true => exact endsWith_of_endsLine hend fun k hk => (hp k hk).1
    | false =>
      cases hbase : skipAttached (b :: earlier) with
      | nil => rw [endsWith, hbase]
      | cons base rest =>
        rw [endsWith_of_skipAttached hbase]
        by_contra hpk
        rw [Bool.not_eq_false] at hpk
        obtain ⟨hend', hkeeps⟩ := hp _ hpk
        have hfalse := keepsTogether_eq_false (comesApart_of_boundary h ⟨b, rfl, hend⟩ hx) hbase hend'
          hregional
        rw [hkeeps] at hfalse
        exact Bool.noConfusion hfalse

/-- A sign that begins a piece, marks apart, is next to the character that asks for it. -/
theorem continuesWith_of_all (he : ∀ d ∈ e, (wordBreakClass d).isAttached = true)
    (hc : (wordBreakClass c).isAttached = false) :
    continuesWith p (e.reverse ++ c :: rest) = p (wordBreakClass c) := by
  have hmarks : ∀ d ∈ e.reverse, (wordBreakClass d).isAttached = true :=
    fun d hd => he d (List.mem_reverse.1 hd)
  rw [continuesWith, skipAttached_append_of_all hmarks, skipAttached_cons hc]
  rfl

theorem regionalIndicators_append_of_all (hl : ∀ c ∈ l, (wordBreakClass c).isAttached = true) :
    regionalIndicators (l ++ r) = regionalIndicators r := by
  have hnil : l.filter (fun c => !(wordBreakClass c).isAttached) = [] :=
    List.filter_eq_nil_iff.2 fun c hc => by simp [hl c hc]
  rw [regionalIndicators, regionalIndicators, List.filter_append, hnil, List.nil_append]

theorem regionalIndicators_cons_of_ne (hc : (wordBreakClass c).isAttached = false)
    (hne : wordBreakClass c ≠ .regionalIndicator) : regionalIndicators (c :: rest) = 0 := by
  simp [regionalIndicators, hc, hne]

/-- Regional indicators before a boundary come in pairs, if one follows. -/
theorem regionalIndicators_mod_of_boundary (h : isWordBoundary (b :: earlier) (x :: later) = true)
    (hx : (wordBreakClass x).isAttached = false → wordBreakClass x = .regionalIndicator) :
    regionalIndicators (b :: earlier) % 2 = 0 := by
  cases hend : (wordBreakClass b).endsLine with
  | true =>
    have hne : wordBreakClass b ≠ .regionalIndicator := fun hb => by
      rw [hb] at hend
      exact Bool.noConfusion hend
    rw [regionalIndicators_cons_of_ne (isAttached_of_endsLine hend) hne]
  | false =>
    have hline : EndsInLine (b :: earlier) := ⟨b, rfl, hend⟩
    have hx := hx (isAttached_of_boundary h hline)
    have hapart := comesApart_of_boundary h hline (by rw [hx]; rfl)
    cases hskip : skipAttached (b :: earlier) with
    | nil =>
      rw [← List.append_nil (b :: earlier),
        regionalIndicators_append_of_all (isAttached_of_skipAttached_eq_nil hskip)]
      rfl
    | cons base rest =>
      obtain ⟨hbase, marks, hmarks, heq⟩ := of_skipAttached_eq_cons hskip
      rw [← heq, regionalIndicators_append_of_all hmarks]
      by_cases hregional : wordBreakClass base = .regionalIndicator
      · have hclass : classBefore base rest = .regionalIndicator := by
          rw [classBefore_of_isPictureless (by rw [hregional]; rfl), hregional]
        rw [comesApart, hskip, hx] at hapart
        simpa [hclass, endsLine] using hapart
      · rw [regionalIndicators_cons_of_ne hbase hregional]

theorem regionalIndicators_append_mod (h : isWordBoundary (b :: earlier) (x :: later) = true) :
    regionalIndicators (e ++ [x] ++ b :: earlier) % 2 = regionalIndicators (e ++ [x]) % 2 := by
  rw [regionalIndicators, regionalIndicators, List.filter_append, List.takeWhile_append]
  split
  · next hall =>
    -- All of the piece are regional indicators, so those before it come in pairs.
    have hx : (wordBreakClass x).isAttached = false → wordBreakClass x = .regionalIndicator :=
      fun hx => by
        have hmem : x ∈ (e ++ [x]).filter fun c => !(wordBreakClass c).isAttached :=
          List.mem_filter.2 ⟨by simp, by simp [hx]⟩
        have hself := List.takeWhile_eq_self_iff.1 ((List.takeWhile_prefix _).eq_of_length hall)
        simpa using hself x hmem
    have heven := regionalIndicators_mod_of_boundary h hx
    rw [regionalIndicators] at heven
    rw [List.length_append, hall]
    omega
  · rfl

/-- What a sign asks for on its left is in its own piece, if the character that it asks for on its right
    follows. -/
theorem endsWith_append_of_boundary {q : WordBreakClass → Bool}
    (h : isWordBoundary (b :: earlier) (x :: (e.reverse ++ c :: later)) = true)
    (hskip : skipAttached (e ++ [x]) = base :: rest)
    (hend : (wordBreakClass base).endsLine = false)
    (hregional : wordBreakClass base ≠ .regionalIndicator)
    (hc : (wordBreakClass c).isAttached = false) (hq : q (wordBreakClass c) = true)
    (hp : ∀ k, p k = true → k.endsLine = false ∧ ∀ earlier later, continuesWith q later = true →
      keepsTogether k (wordBreakClass base) earlier later = true) :
    endsWith p (rest ++ b :: earlier) = endsWith p rest := by
  obtain ⟨-, marks, hmarks, heq⟩ := of_skipAttached_eq_cons hskip
  refine endsWith_append h (fun d rest' hd hnil => ?_) fun hall => ?_
  · subst hnil
    obtain ⟨-, marks', -, rfl⟩ := of_skipAttached_eq_cons hd
    rw [← List.cons_append, ← List.append_assoc] at heq
    simpa using (List.append_inj' heq rfl).2
  · rcases List.eq_nil_or_concat rest with rfl | ⟨rest, y, rfl⟩
    · obtain ⟨rfl, hx⟩ := List.append_inj' heq rfl
      obtain rfl : base = x := by simpa using hx
      refine endsWith_eq_false_of_boundary h hend hregional fun k hk => ⟨(hp k hk).1, fun earlier => ?_⟩
      refine (hp k hk).2 earlier _ ?_
      rw [continuesWith_of_all hmarks hc, hq]
    · rw [List.concat_eq_append, ← List.cons_append, ← List.append_assoc] at heq
      obtain rfl : y = x := by simpa using (List.append_inj' heq rfl).2
      exact endsWith_of_endsLine (exists_endsLine_of_boundary h (hall y (by simp)))
        fun k hk => (hp k hk).1

/-- Whether a character keeps to what stands before it does not depend on what is before the last
    boundary. -/
theorem keepsTogether_append_left
    (h : isWordBoundary (b :: earlier) (x :: (e.reverse ++ c :: later)) = true)
    (hskip : skipAttached (e ++ [x]) = base :: rest) (hc : (wordBreakClass c).isAttached = false) :
    keepsTogether (classBefore base rest) (wordBreakClass c) (rest ++ b :: earlier) later =
      keepsTogether (classBefore base rest) (wordBreakClass c) rest later := by
  have hletter : ((classBefore base rest).joinsLetters && (wordBreakClass c).isLetter) = true →
      endsWith isLetter (rest ++ b :: earlier) = endsWith isLetter rest := fun hg => by
    rw [Bool.and_eq_true] at hg
    have hclass := classBefore_eq_of_isPictureless (isPictureless_of_joinsLetters hg.1)
    rw [hclass] at hg
    refine endsWith_append_of_boundary h hskip (endsLine_of_joinsLetters hg.1) ?_ hc hg.2
      fun k hk => ⟨endsLine_of_isLetter hk, ?_⟩
    · intro hregional
      rw [hregional] at hg
      exact Bool.noConfusion hg.1
    · intro earlier later hlater
      simp [keepsTogether, hk, hg.1, hlater]
  have hhebrew : (classBefore base rest == .doubleQuote && wordBreakClass c == .hebrewLetter) = true →
      endsWith (· == .hebrewLetter) (rest ++ b :: earlier) = endsWith (· == .hebrewLetter) rest :=
    fun hg => by
      simp only [Bool.and_eq_true, beq_iff_eq] at hg
      have hclass := classBefore_eq_of_isPictureless (by rw [hg.1]; rfl : isPictureless _ = true)
      rw [hclass] at hg
      refine endsWith_append_of_boundary (q := (· == .hebrewLetter)) h hskip (by rw [hg.1]; rfl)
        (by rw [hg.1]; decide) hc (beq_iff_eq.2 hg.2) fun k hk => ?_
      rw [beq_iff_eq] at hk
      refine ⟨by rw [hk]; rfl, fun earlier later hlater => ?_⟩
      simp [keepsTogether, hk, hg.1, hlater]
  have hdigit : ((classBefore base rest).joinsDigits && wordBreakClass c == .numeric) = true →
      endsWith (· == .numeric) (rest ++ b :: earlier) = endsWith (· == .numeric) rest := fun hg => by
    simp only [Bool.and_eq_true, beq_iff_eq] at hg
    have hclass := classBefore_eq_of_isPictureless (isPictureless_of_joinsDigits hg.1)
    rw [hclass] at hg
    refine endsWith_append_of_boundary (q := (· == .numeric)) h hskip
      (endsLine_of_joinsDigits hg.1) ?_ hc (beq_iff_eq.2 hg.2) fun k hk => ?_
    · intro hregional
      rw [hregional] at hg
      exact Bool.noConfusion hg.1
    · rw [beq_iff_eq] at hk
      refine ⟨by rw [hk]; rfl, fun earlier later hlater => ?_⟩
      simp [keepsTogether, hk, hg.1, hlater]
  have hletters := and_eq_and hletter
  have hhebrews := and_eq_and hhebrew
  have hdigits := and_eq_and hdigit
  simp only [keepsTogether]
  rw [hletters, hhebrews, hdigits]

/-- Whether there is a boundary does not depend on what is before the last one. -/
theorem isWordBoundary_append_left
    (h : isWordBoundary before (x :: (e.reverse ++ c :: later)) = true) :
    isWordBoundary (e ++ [x] ++ before) (c :: later) = isWordBoundary (e ++ [x]) (c :: later) := by
  cases before with
  | nil => rw [List.append_nil]
  | cons b earlier =>
    obtain ⟨d, front, hfront⟩ : ∃ d front, e ++ [x] = d :: front := by
      cases e <;> exact ⟨_, _, rfl⟩
    have hsame : (wordBreakClass c).isAttached = false →
        comesApart (e ++ [x] ++ b :: earlier) (wordBreakClass c) later =
          comesApart (e ++ [x]) (wordBreakClass c) later := fun hc => by
      cases hskip : skipAttached (e ++ [x]) with
      | nil =>
        have hall := isAttached_of_skipAttached_eq_nil hskip
        have hb := exists_endsLine_of_boundary h (hall x (by simp))
        have hfull : skipAttached (e ++ [x] ++ b :: earlier) = b :: earlier := by
          rw [skipAttached_append_of_all hall, skipAttached_cons (isAttached_of_endsLine hb)]
        rw [comesApart, comesApart, hfull, hskip]
        simp only [endsLine_classBefore, hb, if_true]
      | cons base rest =>
        obtain ⟨-, marks, hmarks, heq⟩ := of_skipAttached_eq_cons hskip
        have hclass : classBefore base (rest ++ b :: earlier) = classBefore base rest := by
          refine classBefore_append h fun hrest => ?_
          subst hrest
          simpa using (List.append_inj' heq rfl).2
        have hparity : regionalIndicators (base :: (rest ++ b :: earlier)) % 2 =
            regionalIndicators (base :: rest) % 2 := by
          have hmod := @regionalIndicators_append_mod _ _ e _ _ h
          rwa [← heq, List.append_assoc, regionalIndicators_append_of_all hmarks,
            regionalIndicators_append_of_all hmarks] at hmod
        rw [comesApart, comesApart, skipAttached_append hskip, hskip]
        simp only [hclass, hparity, keepsTogether_append_left h hskip hc]
    rw [hfront, List.cons_append, isWordBoundary_cons_cons, isWordBoundary_cons_cons]
    rw [hfront, List.cons_append] at hsame
    cases hc : (wordBreakClass c).isAttached with
    | true => rfl
    | false => rw [hsame hc]

end PhraseGraph.Text
