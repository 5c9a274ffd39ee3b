import Mathlib.Data.List.DropRight
import PhraseGraph.Grammar.RuleLine

/-!
# Rule files that are read back

A rule is cut at the last arrow, and at the last comma that has an arrow after it. Both are the last place
of a line from which on it has a certain form (`lastPlace?`). The last arrow is the one that has no arrow
after it, not even one that begins within it; so what is read as the value has no arrow, and does
not complete one to which the last blank of the arrow belongs (`RuleLine.splitArrow?_eq_some_iff`). The last
comma with an arrow after it stands right in front of the key, if the key has no comma
(`RuleLine.split?_eq_some_iff`).

So three parts that meet these conditions are read back from the line that they are written to
(`RuleLine.parse?_text`), and a file of such lines, with blank lines and comments between them, gives
back the rules that are written in it, each with the number of its line (`RuleLine.ofContent_written`).
-/

namespace PhraseGraph

open Text

/-! ### The last place of a form -/

section LastPlace

variable {β : Type} {f : List Char → Option β} {s t before : List Char} {b : β}

/-- What stands in front of the last place from which on the text has the form that `f` reads, and what
    `f` reads there. -/
def lastPlace? (f : List Char → Option β) : List Char → Option (List Char × β)
  | [] => none
  | c :: rest =>
    match lastPlace? f rest with
    | some (before, b) => some (c :: before, b)
    | none => (f (c :: rest)).map fun b => ([], b)

theorem lastPlace?_eq_none_iff (hnil : f [] = none) :
    lastPlace? f s = none ↔ ∀ t, t <:+ s → f t = none := by
  induction s with
  | nil =>
    refine iff_of_true rfl fun t ht => ?_
    rw [List.suffix_nil.1 ht, hnil]
  | cons c rest ih =>
    simp only [List.suffix_cons_iff, forall_eq_or_imp, ← ih]
    rw [lastPlace?]
    cases lastPlace? f rest <;> simp

/-- The last place is one from which on the text has the form, and no later one is. -/
theorem lastPlace?_eq_some_iff (hnil : f [] = none) : lastPlace? f s = some (before, b) ↔
    ∃ t, s = before ++ t ∧ f t = some b ∧ ∀ t', t' <:+ t.tail → f t' = none := by
  induction s generalizing before with
  | nil =>
    refine iff_of_false (by simp [lastPlace?]) fun ⟨t, hs, ht, _⟩ => ?_
    rw [(List.append_eq_nil_iff.1 hs.symm).2, hnil] at ht
    exact absurd ht (by simp)
  | cons c rest ih =>
    rw [lastPlace?]
    cases hrest : lastPlace? f rest with
    | some found =>
      obtain ⟨before', b'⟩ := found
      simp only [Option.some.injEq, Prod.mk.injEq]
      constructor
      · rintro ⟨rfl, rfl⟩
        obtain ⟨t, rfl, ht, hlater⟩ := ih.1 hrest
        exact ⟨t, rfl, ht, hlater⟩
      · rintro ⟨t, hs, ht, hlater⟩
        cases before with
        | nil =>
          -- The form is found again later on.
          subst hs
          have hnone := (lastPlace?_eq_none_iff hnil).2 hlater
          exact absurd (hrest.symm.trans hnone) (by simp)
        | cons c' before =>
          obtain ⟨rfl, hrest'⟩ := List.cons.inj hs
          have hsome := hrest.symm.trans (ih.2 ⟨t, hrest', ht, hlater⟩)
          obtain ⟨rfl, rfl⟩ := Prod.mk.inj (Option.some_inj.1 hsome)
          exact ⟨rfl, rfl⟩
    | none =>
      have hlater := (lastPlace?_eq_none_iff hnil).1 hrest
      simp only [Option.map_eq_some_iff, Prod.mk.injEq, exists_eq_right_right]
      constructor
      · rintro ⟨hb, rfl⟩
        exact ⟨_, rfl, hb, hlater⟩
      · rintro ⟨t, hs, ht, -⟩
        cases before with
        | nil => exact ⟨hs ▸ ht, rfl⟩
        | cons c' before =>
          have hsuffix : t <:+ rest := ⟨before, (List.cons.inj hs).2.symm⟩
          exact absurd (ht.symm.trans (hlater t hsuffix)) (by simp)

end LastPlace

namespace RuleLine

variable {s language key value before after : List Char}

/-! ### Where a rule is cut -/

/-- What follows an arrow at the beginning. -/
def behindArrow? (s : List Char) : Option (List Char) :=
  if arrow.isPrefixOf s then some (s.drop arrow.length) else none

/-- The key and the value behind a comma at the beginning. -/
def behindComma? : List Char → Option (List Char × List Char)
  | [] => none
  | c :: rest => if c == ',' then splitArrow? rest else none

theorem behindArrow?_eq_some_iff : behindArrow? s = some after ↔ s = arrow ++ after := by
  rw [behindArrow?]
  split
  · next h =>
    obtain ⟨rest, rfl⟩ := List.isPrefixOf_iff_prefix.1 h
    rw [List.drop_left, Option.some_inj, List.append_cancel_left_eq]
  · next h =>
    refine iff_of_false (by simp) ?_
    rintro rfl
    exact h (List.isPrefixOf_iff_prefix.2 (List.prefix_append _ _))

theorem behindArrow?_eq_none_iff : behindArrow? s = none ↔ ¬arrow <+: s := by
  rw [behindArrow?, ← List.isPrefixOf_iff_prefix]
  split <;> simp_all

theorem splitArrow?_eq : splitArrow? s = lastPlace? behindArrow? s := by
  induction s with
  | nil => rfl
  | cons c rest ih =>
    rw [splitArrow?, lastPlace?, ih, behindArrow?]
    cases lastPlace? behindArrow? rest with
    | some found => rfl
    | none => by_cases h : arrow.isPrefixOf (c :: rest) <;> simp [h]

theorem split?_eq : split? s = lastPlace? behindComma? s := by
  induction s with
  | nil => rfl
  | cons c rest ih =>
    rw [split?, lastPlace?, ih, behindComma?]
    cases lastPlace? behindComma? rest with
    | some found => rfl
    | none => by_cases hc : c = ',' <;> simp [hc]

theorem splitArrow?_eq_none_iff : splitArrow? s = none ↔ ¬arrow <:+: s := by
  rw [splitArrow?_eq, lastPlace?_eq_none_iff rfl, List.infix_iff_prefix_suffix]
  simp only [behindArrow?_eq_none_iff, not_exists, not_and']

/-- An arrow that begins within another one begins with its last blank. -/
theorem arrow_infix_tail_append_iff :
    arrow <:+: arrow.tail ++ value ↔ arrow <:+: value ∨ arrow.tail <+: value := by
  simp [arrow, List.infix_cons_iff, List.cons_prefix_cons, or_comm]

/-- A text is cut at the last arrow. -/
theorem splitArrow?_eq_some_iff : splitArrow? s = some (before, after) ↔
    s = before ++ (arrow ++ after) ∧ ¬arrow <:+: after ∧ ¬arrow.tail <+: after := by
  have hlast : (∀ t, t <:+ arrow.tail ++ after → behindArrow? t = none) ↔
      ¬arrow <:+: after ∧ ¬arrow.tail <+: after := by
    rw [← not_or, ← arrow_infix_tail_append_iff, List.infix_iff_prefix_suffix]
    simp only [behindArrow?_eq_none_iff, not_exists, not_and']
  rw [splitArrow?_eq, lastPlace?_eq_some_iff rfl, ← hlast]
  constructor
  · rintro ⟨t, rfl, ht, hlater⟩
    obtain rfl := behindArrow?_eq_some_iff.1 ht
    exact ⟨rfl, hlater⟩
  · rintro ⟨rfl, hlater⟩
    exact ⟨_, rfl, behindArrow?_eq_some_iff.2 rfl, hlater⟩

theorem behindComma?_eq_some_iff : behindComma? s = some (key, value) ↔
    ∃ rest, s = ',' :: rest ∧ splitArrow? rest = some (key, value) := by
  cases s with
  | nil => simp [behindComma?]
  | cons c rest =>
    rw [behindComma?]
    by_cases hc : c = ','
    · simp [hc]
    · simp [hc]

theorem behindComma?_eq_none_iff : behindComma? s = none ↔
    ∀ rest, s = ',' :: rest → ¬arrow <:+: rest := by
  cases s with
  | nil => simp [behindComma?]
  | cons c rest =>
    rw [behindComma?]
    by_cases hc : c = ','
    · simp [hc, splitArrow?_eq_none_iff]
    · simp [hc]

/-- Commas that are followed by the last arrow are those in front of it. -/
theorem no_comma_iff (hvalue : ¬arrow <:+: value) :
    (∀ t, t <:+ key ++ (arrow ++ value) → behindComma? t = none) ↔ ',' ∉ key := by
  simp only [behindComma?_eq_none_iff]
  constructor
  · intro h hmem
    obtain ⟨front, back, rfl⟩ := List.append_of_mem hmem
    refine h (',' :: (back ++ (arrow ++ value))) ⟨front, by simp⟩ _ rfl ?_
    exact ⟨back, value, by simp⟩
  · rintro hcomma t ⟨front, hfront⟩ rest rfl hrest
    rw [← List.append_assoc, List.append_eq_append_iff] at hfront
    have hnot : ',' ∉ key ++ arrow := by simp [hcomma, arrow]
    rcases hfront with ⟨mid, hmid, hrest'⟩ | ⟨mid, -, hvalue'⟩
    · cases mid with
      | nil =>
        -- The comma is the first character of the value.
        exact hvalue (hrest.trans ⟨[','], [], by simpa using hrest'⟩)
      | cons c mid =>
        obtain ⟨rfl, -⟩ := List.cons.inj hrest'
        exact hnot (by simp [hmid])
    · exact hvalue (hrest.trans ⟨mid ++ [','], [], by simp [hvalue']⟩)

/-- **Where a rule is cut.** A line is read as a language, a key and a value if and only if it consists of
    them with a comma and an arrow between them, the key has no comma, and the value neither has an arrow
    nor completes one with the blank in front of it. -/
theorem split?_eq_some_iff : split? s = some (language, key, value) ↔
    s = language ++ ',' :: (key ++ (arrow ++ value)) ∧ ',' ∉ key ∧ ¬arrow <:+: value ∧
      ¬arrow.tail <+: value := by
  rw [split?_eq, lastPlace?_eq_some_iff rfl]
  constructor
  · rintro ⟨t, rfl, ht, hlater⟩
    obtain ⟨rest, rfl, hrest⟩ := behindComma?_eq_some_iff.1 ht
    obtain ⟨rfl, hvalue, hstart⟩ := splitArrow?_eq_some_iff.1 hrest
    exact ⟨rfl, (no_comma_iff hvalue).1 hlater, hvalue, hstart⟩
  · rintro ⟨rfl, hcomma, hvalue, hstart⟩
    refine ⟨_, rfl, behindComma?_eq_some_iff.2 ⟨_, rfl, ?_⟩, (no_comma_iff hvalue).2 hcomma⟩
    exact splitArrow?_eq_some_iff.2 ⟨rfl, hvalue, hstart⟩

/-! ### Lines -/

variable {cs rest current : List Char} {file text : String} {number : Nat}

theorem lines_of_no_feed (h : '\n' ∉ cs) :
    lines current cs = [String.ofList (current.reverse ++ cs)] := by
  induction cs generalizing current with
  | nil => simp [lines]
  | cons c cs ih =>
    obtain ⟨hc, hcs⟩ := List.ne_and_not_mem_of_not_mem_cons h
    simp [lines, hc.symm, ih hcs]

theorem lines_append_feed (h : '\n' ∉ cs) : lines current (cs ++ '\n' :: rest) =
    String.ofList (current.reverse ++ cs) :: lines [] rest := by
  induction cs generalizing current with
  | nil => simp [lines]
  | cons c cs ih =>
    obtain ⟨hc, hcs⟩ := List.ne_and_not_mem_of_not_mem_cons h
    simp [lines, hc.symm, ih hcs]

/-- Lines that are put together are taken apart again. -/
theorem lines_intercalate (texts : List String) (hne : texts ≠ [])
    (h : ∀ text ∈ texts, '\n' ∉ text.toList) : lines [] ("\n".intercalate texts).toList = texts := by
  induction texts with
  | nil => exact absurd rfl hne
  | cons text texts ih =>
    obtain ⟨htext, htexts⟩ := List.forall_mem_cons.1 h
    by_cases hlast : texts = []
    · simp [hlast, lines_of_no_feed htext]
    · have hcontent : ("\n".intercalate (text :: texts)).toList =
          text.toList ++ '\n' :: ("\n".intercalate texts).toList := by
        rw [String.intercalate_cons_of_ne_nil hlast, String.toList_append, String.toList_append]
        simp
      rw [hcontent, lines_append_feed htext, ih hlast htexts]
      simp

/-! ### White space around a line -/

theorem toList_trimBlank (text : String) :
    (trimBlank text).toList = (text.toList.dropWhile isBlank).rdropWhile isBlank := by
  simp [trimBlank, List.rdropWhile]

theorem trimBlank_eq_self (hfirst : ∀ c ∈ text.toList.head?, isBlank c = false)
    (hlast : ∀ c ∈ text.toList.getLast?, isBlank c = false) : trimBlank text = text := by
  have hleft : text.toList.dropWhile isBlank = text.toList := by
    cases htext : text.toList with
    | nil => rfl
    | cons c cs => simp [hfirst c (by simp [htext])]
  rw [← String.toList_inj, toList_trimBlank, hleft, List.rdropWhile_eq_self_iff]
  intro hne
  simp [hlast _ (List.getLast_mem_getLast? hne)]

/-- A line says nothing if and only if its first character that is not white space, if there is one,
    begins a comment. -/
theorem isIdle_trimBlank_iff : isIdle (trimBlank text) = true ↔
    ∀ c ∈ (text.toList.dropWhile isBlank).head?, c = '#' := by
  have htrim := toList_trimBlank text
  generalize hleft : text.toList.dropWhile isBlank = left at htrim ⊢
  rw [isIdle, Bool.or_eq_true, String.isEmpty_iff, ← String.toList_eq_nil_iff, htrim, beq_iff_eq]
  cases left with
  | nil => simp
  | cons c cs =>
    -- The first character is no white space, so trimming the end does not reach it.
    have hc : isBlank c = false := by
      have := List.head?_dropWhile_not isBlank text.toList
      rwa [hleft] at this
    have hne : (c :: cs).rdropWhile isBlank ≠ [] := fun hnil => by
      simpa [hc] using (List.rdropWhile_eq_nil_iff.1 hnil) c List.mem_cons_self
    have hprefix : (c :: cs).rdropWhile isBlank <+: c :: cs := List.rdropWhile_prefix _ _
    obtain ⟨rest, hrest, -⟩ := (List.prefix_cons_iff.1 hprefix).resolve_left hne
    rw [hrest]
    simp

end RuleLine

/-! ### Files as they are written -/

/-- A line of a rule file as it is written. -/
inductive WrittenLine where
  /-- A rule for a language. -/
  | rule (language key value : String)
  /-- A line that says nothing. -/
  | idle (text : String)

/-- The parts of a rule that can be told apart when it is written to a line. -/
structure Separable (language key value : String) : Prop where
  language_ne : language ≠ ""
  key_ne : key ≠ ""
  value_ne : value ≠ ""
  no_feed : '\n' ∉ language.toList ∧ '\n' ∉ key.toList ∧ '\n' ∉ value.toList
  /-- The language does not begin with white space, and not as a comment does. -/
  language_head : ∀ c ∈ language.toList.head?, isBlank c = false ∧ c ≠ '#'
  key_no_comma : ',' ∉ key.toList
  /-- The value does not end with white space. -/
  value_last : ∀ c ∈ value.toList.getLast?, isBlank c = false
  value_no_arrow : ¬RuleLine.arrow <:+: value.toList
  /-- The value does not complete an arrow with the blank in front of it. -/
  value_start : ¬RuleLine.arrow.tail <+: value.toList

namespace WrittenLine

/-- The text of the line. -/
def text : WrittenLine → String
  | rule language key value => language ++ "," ++ key ++ " => " ++ value
  | idle text => text

/-- The rule in the line, which has the given number. -/
def rule? (number : Nat) : WrittenLine → Option RuleLine
  | rule language key value => some { line := number, language, key, value }
  | idle _ => none

/-- The line is a single one and can be told from others: the parts of a rule can be told apart, and what
    says nothing is blank or, after white space at most, a comment. -/
def Readable : WrittenLine → Prop
  | rule language key value => Separable language key value
  | idle text => '\n' ∉ text.toList ∧ ∀ c ∈ (text.toList.dropWhile isBlank).head?, c = '#'

end WrittenLine

namespace RuleLine

variable {language key value file : String} {number : Nat} {w : WrittenLine}

theorem toList_text_rule : (WrittenLine.rule language key value).text.toList =
    language.toList ++ ',' :: (key.toList ++ (arrow ++ value.toList)) := by
  simp [WrittenLine.text, arrow]

theorem parse?_text (h : Separable language key value) :
    parse? number (WrittenLine.rule language key value).text =
      some { line := number, language, key, value } := by
  have hsplit : split? (WrittenLine.rule language key value).text.toList =
      some (language.toList, key.toList, value.toList) :=
    split?_eq_some_iff.2 ⟨toList_text_rule, h.key_no_comma, h.value_no_arrow, h.value_start⟩
  rw [parse?, hsplit]
  simp [h.language_ne, h.key_ne, h.value_ne]

/-- The text of a rule has no white space at its ends. -/
theorem trimBlank_text (h : Separable language key value) :
    trimBlank (WrittenLine.rule language key value).text =
      (WrittenLine.rule language key value).text := by
  refine trimBlank_eq_self (fun c hc => ?_) fun c hc => ?_
  · rw [toList_text_rule, List.head?_append_of_ne_nil _ (by simpa using h.language_ne)] at hc
    exact (h.language_head c hc).1
  · have hne : value.toList ≠ [] := by simpa using h.value_ne
    rw [toList_text_rule, ← List.append_assoc key.toList, ← List.cons_append, ← List.append_assoc,
      List.getLast?_append_of_ne_nil _ hne] at hc
    exact h.value_last c hc

theorem isIdle_text (h : Separable language key value) :
    isIdle (WrittenLine.rule language key value).text = false := by
  have hne : language.toList ≠ [] := by simpa using h.language_ne
  obtain ⟨c, cs, hlanguage⟩ := List.exists_cons_of_ne_nil hne
  obtain ⟨hblank, hc⟩ := h.language_head c (by simp [hlanguage])
  rw [← trimBlank_text h, Bool.eq_false_iff, ne_eq, isIdle_trimBlank_iff, toList_text_rule, hlanguage]
  simp [hblank, hc]

theorem no_feed_text (h : w.Readable) : '\n' ∉ w.text.toList := by
  cases w with
  | rule language key value =>
    obtain ⟨hlanguage, hkey, hvalue⟩ := h.no_feed
    simp [toList_text_rule, arrow, hlanguage, hkey, hvalue]
  | idle text => exact h.1

/-- A readable line gives its rule, if it has one, and is passed over otherwise. -/
theorem ofLines_cons (h : w.Readable) (rest : List String) : ofLines file number (w.text :: rest) =
    (ofLines file (number + 1) rest).map ((w.rule? number).toList ++ ·) := by
  cases w with
  | rule language key value =>
    rw [ofLines, trimBlank_text h, isIdle_text h, parse?_text h]
    rfl
  | idle text =>
    rw [ofLines, WrittenLine.text, isIdle_trimBlank_iff.2 h.2, if_pos rfl]
    cases ofLines file (number + 1) rest <;> rfl

theorem ofLines_written {written : List WrittenLine} (h : ∀ w ∈ written, w.Readable) :
    ofLines file number (written.map WrittenLine.text) =
      .ok ((written.zipIdx number).filterMap fun (w, number) => w.rule? number) := by
  induction written generalizing number with
  | nil => rfl
  | cons w written ih =>
    obtain ⟨hw, hwritten⟩ := List.forall_mem_cons.1 h
    rw [List.map_cons, ofLines_cons hw, ih hwritten, List.zipIdx_cons, List.filterMap_cons]
    cases w <;> rfl

/-- **Rule files are read back.** A file of readable lines, with line feeds between them, gives back the
    rules that are written in it, in order, each with the number of its line. A line feed at the end of the
    file is one in front of an empty line. -/
theorem ofContent_written {written : List WrittenLine} (file : String)
    (h : ∀ w ∈ written, w.Readable) :
    ofContent file ("\n".intercalate (written.map WrittenLine.text)) =
      .ok ((written.zipIdx 1).filterMap fun (w, number) => w.rule? number) := by
  by_cases hne : written = []
  · rw [hne]
    rfl
  · have hlines := lines_intercalate (written.map WrittenLine.text) (by simpa using hne) <|
      List.forall_mem_map.2 fun w hw => no_feed_text (h w hw)
    rw [ofContent, hlines, ofLines_written h]

end RuleLine

namespace Example

/-- A file with commas and arrows inside the parts of its first rule. -/
def mixedLines : List WrittenLine :=
  [.idle "# rules, as => they come", .rule "en,us => uk" "visits => past" "to, from =>", .idle " \t",
    .rule "fr" "visits" "vers $Year"]

/-- The content of the file. -/
def mixedContent : String :=
  "# rules, as => they come\nen,us => uk,visits => past => to, from =>\n \t\nfr,visits => vers $Year"

theorem mixedLines_readable : ∀ w ∈ mixedLines, w.Readable := by
  have hcommas : Separable "en,us => uk" "visits => past" "to, from =>" :=
    { language_ne := by decide
      key_ne := by decide
      value_ne := by decide
      no_feed := by decide +kernel
      language_head := by rintro c ⟨rfl⟩; decide +kernel
      key_no_comma := by decide +kernel
      value_last := by rintro c ⟨rfl⟩; decide +kernel
      value_no_arrow := by decide +kernel
      value_start := by decide +kernel }
  have hplain : Separable "fr" "visits" "vers $Year" :=
    { language_ne := by decide
      key_ne := by decide
      value_ne := by decide
      no_feed := by decide +kernel
      language_head := by rintro c ⟨rfl⟩; decide +kernel
      key_no_comma := by decide +kernel
      value_last := by rintro c ⟨rfl⟩; decide +kernel
      value_no_arrow := by decide +kernel
      value_start := by decide +kernel }
  have hcomment : (WrittenLine.idle "# rules, as => they come").Readable :=
    ⟨by decide +kernel, by rintro c ⟨rfl⟩; rfl⟩
  have hblank : (WrittenLine.idle " \t").Readable := ⟨by decide +kernel, by rintro c ⟨⟩⟩
  simpa [mixedLines] using ⟨hcomment, hcommas, hblank, hplain⟩

/-- The two rules of the file are read back, with the numbers of their lines. -/
theorem mixedLines_read_back : (∀ w ∈ mixedLines, w.Readable) ∧
    RuleLine.ofContent "mixed.grammar" mixedContent =
      .ok [{ line := 2, language := "en,us => uk", key := "visits => past", value := "to, from =>" },
        { line := 4, language := "fr", key := "visits", value := "vers $Year" }] := by
  have hcontent : "\n".intercalate (mixedLines.map WrittenLine.text) = mixedContent := by decide +kernel
  have hread := RuleLine.ofContent_written "mixed.grammar" mixedLines_readable
  rw [hcontent] at hread
  exact ⟨mixedLines_readable, hread⟩

end Example

end PhraseGraph
