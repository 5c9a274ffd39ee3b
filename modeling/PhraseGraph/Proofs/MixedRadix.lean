import Mathlib.Algebra.BigOperators.Group.List.Lemmas
import Mathlib.Algebra.BigOperators.Ring.List
import Mathlib.Algebra.Order.BigOperators.GroupWithZero.List
import Mathlib.Algebra.Order.Ring.Nat
import Mathlib.Data.List.TakeWhile
import PhraseGraph.Proofs.Sections

/-!
# Combinations by number

The digits of a number, where each dimension has its length as the base, are places in the dimensions.
Below the product of the bases, numbers and digits determine each other (`ofDigits_digitsOf`,
`digitsOf_ofDigits`); so every choice of places is that of one combination, and the combination with
a number has the items at its digits (`exists_combinationAt?_eq_some`).

A list of combinations in progress moves on by one number with each call for the next combination,
until all are listed; from then on the calls give nothing and change nothing (`Combinations.calls_eq`).
The main statement on lists of combinations is `Combinations.lists_each_once`.

The number of combinations is multiplied up from left to right. The product only grows until it comes
to an empty dimension, and is zero from there on. So what has to stay below the bound is the product of the
lengths in front of the first empty dimension (`Combinations.ofDimensions_fits_iff`): an empty
dimension makes the number of combinations zero, wherever it stands, but too many combinations of
the dimensions in front of it are refused.
-/

namespace PhraseGraph

variable {α : Type}

/-! ### Digits -/

/-- The digits of a number in the given bases. The first digit changes fastest. -/
def digitsOf : (bases : List Nat) → (number : Nat) → List Nat
  | [], _ => []
  | base :: bases, number => number % base :: digitsOf bases (number / base)

/-- The number with the given digits. -/
def ofDigits : (bases digits : List Nat) → Nat
  | base :: bases, digit :: digits => digit + base * ofDigits bases digits
  | _, _ => 0

/-- There is a digit for each base, below it. -/
abbrev AreDigits (bases digits : List Nat) : Prop := List.Forall₂ (· < ·) digits bases

section Digits

variable {bases digits : List Nat} {number : Nat}

theorem areDigits_digitsOf (h : number < bases.prod) : AreDigits bases (digitsOf bases number) := by
  induction bases generalizing number with
  | nil => exact .nil
  | cons base bases ih =>
    rw [List.prod_cons] at h
    have hpos : 0 < base := Nat.pos_of_mul_pos_right (Nat.zero_lt_of_lt h)
    exact .cons (Nat.mod_lt _ hpos) (ih (Nat.div_lt_of_lt_mul h))

theorem ofDigits_digitsOf (h : number < bases.prod) : ofDigits bases (digitsOf bases number) = number := by
  induction bases generalizing number with
  | nil => exact (Nat.lt_one_iff.1 h).symm
  | cons base bases ih =>
    rw [List.prod_cons] at h
    rw [digitsOf, ofDigits, ih (Nat.div_lt_of_lt_mul h), Nat.mod_add_div]

theorem ofDigits_lt (h : AreDigits bases digits) : ofDigits bases digits < bases.prod := by
  induction h with
  | nil => exact Nat.one_pos
  | @cons digit base digits bases hdigit _ ih =>
    rw [ofDigits, List.prod_cons]
    calc digit + base * ofDigits bases digits
        < base + base * ofDigits bases digits := Nat.add_lt_add_right hdigit _
      _ = base * (ofDigits bases digits + 1) := by rw [Nat.mul_add, Nat.mul_one, Nat.add_comm]
      _ ≤ base * bases.prod := Nat.mul_le_mul_left _ ih

theorem digitsOf_ofDigits (h : AreDigits bases digits) :
    digitsOf bases (ofDigits bases digits) = digits := by
  induction h with
  | nil => rfl
  | cons hdigit _ ih =>
    rw [ofDigits, digitsOf, Nat.add_mul_mod_self_left, Nat.mod_eq_of_lt hdigit,
      Nat.add_mul_div_left _ _ (Nat.zero_lt_of_lt hdigit), Nat.div_eq_of_lt hdigit, Nat.zero_add, ih]

/-- Digits are those of one number. -/
theorem existsUnique_digitsOf_eq (h : AreDigits bases digits) :
    ∃! number, number < bases.prod ∧ digitsOf bases number = digits := by
  refine ⟨ofDigits bases digits, ⟨ofDigits_lt h, digitsOf_ofDigits h⟩, ?_⟩
  rintro number ⟨hlt, rfl⟩
  exact (ofDigits_digitsOf hlt).symm

end Digits

/-! ### Items -/

/-- The items of the dimensions at the given places, all of which are places in their dimensions. -/
inductive Picks : (dimensions : List (List α)) → (places : List Nat) → (items : List α) → Prop
  | nil : Picks [] [] []
  | cons {dimension : List α} {dimensions : List (List α)} {place : Nat} {places : List Nat}
      {item : α} {items : List α} (h : dimension[place]? = some item)
      (rest : Picks dimensions places items) :
      Picks (dimension :: dimensions) (place :: places) (item :: items)

section Items

variable {dimensions : List (List α)} {number : Nat}

/-- A combination has the items at the digits of its number. -/
theorem exists_combinationAt?_eq_some (h : number < (dimensions.map List.length).prod) :
    ∃ items, combinationAt? dimensions number = some items ∧
      Picks dimensions (digitsOf (dimensions.map List.length) number) items := by
  induction dimensions generalizing number with
  | nil => exact ⟨[], rfl, .nil⟩
  | cons dimension rest ih =>
    rw [List.map_cons, List.prod_cons] at h
    have hpos : 0 < dimension.length := Nat.pos_of_mul_pos_right (Nat.zero_lt_of_lt h)
    have hitem := List.getElem?_eq_getElem (Nat.mod_lt number hpos)
    obtain ⟨items, hitems, hpicks⟩ := ih (Nat.div_lt_of_lt_mul h)
    exact ⟨_ :: items, by rw [combinationAt?, hitem, hitems]; rfl, .cons hitem hpicks⟩

end Items

namespace Combinations

variable {dimensions : List (List α)} {c : Combinations α} {number n : Nat}

/-! ### Calls for the next combination -/

/-- What a call for the next combination gives, and what it leaves. -/
def call (c : Combinations α) : Option (List α) × Combinations α :=
  match c.advance? with
  | some (items, later) => (some items, later)
  | none => (none, c)

/-- What `n` calls for the next combination give, and what they leave. -/
def calls : (n : Nat) → Combinations α → List (Option (List α)) × Combinations α
  | 0, c => ([], c)
  | n + 1, c => (c.call.1 :: (calls n c.call.2).1, (calls n c.call.2).2)

theorem exists_at?_eq_some (h : ofDimensions dimensions = .ok c) (hlt : number < c.size) :
    ∃ items, c.at? number = some items ∧
      Picks dimensions (digitsOf (dimensions.map List.length) number) items := by
  obtain rfl := ofDimensions_eq_ok h
  rw [at?, if_pos hlt]
  exact exists_combinationAt?_eq_some (length_sections dimensions ▸ hlt)

theorem at?_eq_none (hle : c.size ≤ number) : c.at? number = none := if_neg (Nat.not_lt.2 hle)

/-- A call gives the combination with the next number, and moves on if there is one. -/
theorem call_eq (h : ofDimensions dimensions = .ok c) (hle : number ≤ c.size) :
    ({ c with next := number } : Combinations α).call
      = (c.at? number, { c with next := min (number + 1) c.size }) := by
  have hat : ({ c with next := number } : Combinations α).at? number = c.at? number := rfl
  rw [call, advance?, hat]
  rcases Nat.lt_or_eq_of_le hle with hlt | rfl
  · obtain ⟨items, hitems, -⟩ := exists_at?_eq_some h hlt
    rw [hitems, Nat.min_eq_left hlt]
    rfl
  · rw [at?_eq_none (Nat.le_refl _), Nat.min_eq_right (Nat.le_succ _)]
    rfl

/-- Calls go through the numbers one by one, up to the number of combinations. -/
theorem calls_eq (h : ofDimensions dimensions = .ok c) (hle : number ≤ c.size) :
    calls n { c with next := number }
      = ((List.range' number n).map c.at?, { c with next := min (number + n) c.size }) := by
  induction n generalizing number with
  | zero => rw [calls, Nat.add_zero, Nat.min_eq_left hle]; rfl
  | succ n ih =>
    rw [calls, call_eq h hle, ih (Nat.min_le_right _ _), List.range'_succ, List.map_cons]
    rcases Nat.lt_or_eq_of_le hle with hlt | rfl
    · rw [Nat.min_eq_left hlt, Nat.succ_add_eq_add_succ]
    · -- All combinations are listed, and numbers from the end on have none.
      have hnone : ∀ start, c.size ≤ start →
          (List.range' start n).map c.at? = List.replicate n none := fun start hstart => by
        refine List.eq_replicate_iff.2 ⟨by simp, fun answer hanswer => ?_⟩
        obtain ⟨number, hnumber, rfl⟩ := List.mem_map.1 hanswer
        exact at?_eq_none (hstart.trans (List.mem_range'_1.1 hnumber).1)
      rw [Nat.min_eq_right (Nat.le_succ _), hnone _ (Nat.le_refl _), hnone _ (Nat.le_succ _),
        Nat.min_eq_right (Nat.le_add_right _ _), Nat.min_eq_right (Nat.le_add_right _ _)]

/-- **Every combination is listed once.** Each number below the product of the lengths has a
    combination, whose items stand at the digits of the number, and every choice of places is that of
    one of these numbers. Calls for the next combination give the combinations by ascending number and
    then nothing; at any time, what is left and what has been given are all combinations, and a list
    that is restarted is the one at the start. -/
theorem lists_each_once (h : ofDimensions dimensions = .ok c) :
    (c.size = (dimensions.map List.length).prod ∧ c.toList.length = c.size) ∧
    (∀ number < c.size, AreDigits (dimensions.map List.length)
        (digitsOf (dimensions.map List.length) number) ∧
      ∃ items, c.at? number = some items ∧
        Picks dimensions (digitsOf (dimensions.map List.length) number) items) ∧
    (∀ number, c.size ≤ number → c.at? number = none) ∧
    (∀ places, AreDigits (dimensions.map List.length) places →
      ∃! number, number < c.size ∧ digitsOf (dimensions.map List.length) number = places) ∧
    ∀ n, (calls n c).1 = (List.range n).map c.at? ∧
      (calls n c).1.reduceOption = c.toList.take n ∧
      (calls n c).2.next = (calls n c).1.reduceOption.length ∧
      (calls n c).2.remaining + (calls n c).1.reduceOption.length = c.size ∧
      (calls n c).2.restart = c := by
  have hsize : c.size = (dimensions.map List.length).prod := by
    rw [ofDimensions_eq_ok h, length_sections]
  have hlength : c.toList.length = c.size := by rw [toList_eq h, length_sections, hsize]
  have hstart : ({ c with next := 0 } : Combinations α) = c := by rw [ofDimensions_eq_ok h]
  refine ⟨⟨hsize, hlength⟩,
    fun number hlt => ⟨areDigits_digitsOf (hsize ▸ hlt), exists_at?_eq_some h hlt⟩,
    fun number => at?_eq_none,
    fun places hplaces => hsize ▸ existsUnique_digitsOf_eq hplaces, fun n => ?_⟩
  have hcalls : calls n c = ((List.range n).map c.at?, { c with next := min n c.size }) := by
    have := calls_eq (n := n) h (Nat.zero_le _)
    rwa [hstart, Nat.zero_add, ← List.range_eq_range'] at this
  have hgiven : ((List.range n).map c.at?).reduceOption = c.toList.take n := by
    rw [toList_eq h, ← filterMap_getElem?_range, at?_eq h]
    exact List.filterMap_map
  have hcount : ((List.range n).map c.at?).reduceOption.length = min n c.size := by
    rw [hgiven, List.length_take, hlength]
  rw [hcalls]
  refine ⟨rfl, hgiven, hcount.symm, ?_, hstart⟩
  rw [hcount, remaining]
  exact Nat.sub_add_cancel (Nat.min_le_right _ _)

end Combinations

namespace Example

/-- Years and cities to be combined. -/
def tourDimensions : List (List String) := [["2018", "2019"], ["moscow", "tel aviv", "vienna"]]

/-- The tours through the cities. -/
def tours : Combinations String := { dimensions := tourDimensions, size := 6, next := 0 }

/-- The second year and the last city make up one of the six tours, and no other one; eight calls give
    all tours. -/
theorem tours_listed : Combinations.ofDimensions tourDimensions = .ok tours ∧
    (∃! number, number < 6 ∧ digitsOf [2, 3] number = [1, 2]) ∧
    (Combinations.calls 8 tours).1.reduceOption = tours.toList := by
  have htours : Combinations.ofDimensions tourDimensions = .ok tours := rfl
  obtain ⟨-, -, -, hunique, hcalls⟩ := Combinations.lists_each_once htours
  refine ⟨htours, hunique [1, 2] (by decide), ?_⟩
  rw [(hcalls 8).2.1]
  decide +kernel

end Example

/-! ### How many combinations there can be -/

/-- The numbers in front of the first zero. -/
def beforeZero (l : List Nat) : List Nat := l.takeWhile (0 < ·)

section BeforeZero

variable {l l' : List Nat} {count : Nat}

theorem prod_beforeZero_pos : 0 < (beforeZero l).prod :=
  List.prod_pos fun n hn => by simpa using List.mem_takeWhile_imp hn

theorem isSome_productFrom?_iff (h : count < 2 ^ 64) :
    (productFrom? count l).isSome ↔ count * (beforeZero l).prod < 2 ^ 64 := by
  induction l generalizing count with
  | nil =>
    change true = true ↔ count * 1 < 2 ^ 64
    rw [Nat.mul_one]
    exact iff_of_true rfl h
  | cons n l ih =>
    have hstep : productFrom? count (n :: l) =
      if count * n < 2 ^ 64 then productFrom? (count * n) l else none := rfl
    rw [hstep]
    rcases Nat.eq_zero_or_pos n with rfl | hpos
    · -- From an empty dimension on the product is zero.
      rw [Nat.mul_zero, if_pos (by decide), ih (by decide)]
      simpa [beforeZero] using h
    · have hcons : beforeZero (n :: l) = n :: beforeZero l := by simp [beforeZero, hpos]
      rw [hcons, List.prod_cons, ← Nat.mul_assoc]
      split
      · next hlt => exact ih hlt
      · next hge =>
        refine iff_of_false (by simp) fun hlt => hge ?_
        exact (Nat.le_mul_of_pos_right _ prod_beforeZero_pos).trans_lt hlt

theorem beforeZero_eq_self (h : 0 ∉ l) : beforeZero l = l :=
  List.takeWhile_eq_self_iff.2 fun n hn => by
    simpa using Nat.pos_of_ne_zero fun hzero => h (hzero ▸ hn)

/-- All numbers but the zeros. -/
def nonZero (l : List Nat) : List Nat := l.filter (0 < ·)

theorem pos_of_mem_nonZero {n : Nat} (h : n ∈ nonZero l) : 0 < n := by
  simpa using List.of_mem_filter h

/-- In the worst order, all other numbers stand in front of the first zero. -/
theorem prod_beforeZero_le : (beforeZero l).prod ≤ (nonZero l).prod := by
  have hsublist : (beforeZero l).Sublist (nonZero l) := by
    have hall : (beforeZero l).filter (0 < ·) = beforeZero l :=
      List.filter_eq_self.2 fun n hn => List.mem_takeWhile_imp (p := fun n => decide (0 < n)) hn
    exact hall ▸ (List.takeWhile_sublist _).filter _
  exact Nat.le_of_dvd (List.prod_pos fun n => pos_of_mem_nonZero) hsublist.prod_dvd_prod

/-- There is such an order. -/
theorem exists_perm_prod_le_beforeZero (dimensions : List (List α)) :
    ∃ dimensions' : List (List α), dimensions'.Perm dimensions ∧
      (nonZero (dimensions.map List.length)).prod ≤ (beforeZero (dimensions'.map List.length)).prod := by
  let others := dimensions.filter fun dimension => 0 < dimension.length
  let empties := dimensions.filter fun dimension => !(0 < dimension.length)
  refine ⟨others ++ empties, List.filter_append_perm _ _, ?_⟩
  have hothers : nonZero (dimensions.map List.length) = others.map List.length := List.filter_map
  have hpos : ∀ n ∈ others.map List.length, decide (0 < n) = true := fun n hn =>
    decide_eq_true (pos_of_mem_nonZero (hothers ▸ hn))
  have hfront : beforeZero ((others ++ empties).map List.length)
      = others.map List.length ++ beforeZero (empties.map List.length) := by
    rw [beforeZero, List.map_append, List.takeWhile_append_of_pos hpos, beforeZero]
  rw [hothers, hfront, List.prod_append]
  exact Nat.le_mul_of_pos_right _ prod_beforeZero_pos

end BeforeZero

namespace Combinations

variable {dimensions : List (List α)}

theorem exists_ofDimensions_eq_ok_iff : (∃ c, ofDimensions dimensions = .ok c) ↔
    (beforeZero (dimensions.map List.length)).prod < 2 ^ 64 := by
  rw [← Nat.one_mul (beforeZero _).prod, ← isSome_productFrom?_iff (by decide), ofDimensions]
  cases productFrom? 1 (dimensions.map List.length) <;> simp

/-- **Too many combinations.** There is a list of the combinations of some dimensions if and only if
    the lengths in front of the first empty dimension have a product below `2 ^ 64`. This is so if and
    only if the number of combinations is below it, unless there is an empty dimension: then the number
    is zero, and whether there is a list may depend on where the empty dimension stands. It depends on
    the order of the dimensions if and only if there is an empty one and the lengths of the others have
    too large a product. -/
theorem ofDimensions_fits_iff (dimensions : List (List α)) :
    ((∃ c, ofDimensions dimensions = .ok c) ↔
      (beforeZero (dimensions.map List.length)).prod < 2 ^ 64) ∧
    (((∃ c, ofDimensions dimensions = .ok c) ↔ (dimensions.map List.length).prod < 2 ^ 64) ↔
      ([] ∈ dimensions → (beforeZero (dimensions.map List.length)).prod < 2 ^ 64)) ∧
    ((∀ dimensions', dimensions'.Perm dimensions →
        ((∃ c, ofDimensions dimensions' = .ok c) ↔ ∃ c, ofDimensions dimensions = .ok c)) ↔
      ([] ∈ dimensions → (nonZero (dimensions.map List.length)).prod < 2 ^ 64)) := by
  simp only [exists_ofDimensions_eq_ok_iff]
  have hzero : 0 ∈ dimensions.map List.length ↔ [] ∈ dimensions := by simp
  refine ⟨trivial, ⟨fun h hmem => ?_, fun h => ?_⟩, fun h hmem => ?_, fun h dimensions' hperm => ?_⟩
  · -- The number of combinations is zero.
    rw [h, List.prod_eq_zero (hzero.2 hmem)]
    decide
  · by_cases hmem : [] ∈ dimensions
    · refine iff_of_true (h hmem) ?_
      rw [List.prod_eq_zero (hzero.2 hmem)]
      decide
    · rw [beforeZero_eq_self (mt hzero.1 hmem)]
  · obtain ⟨worst, hworst, hle⟩ := exists_perm_prod_le_beforeZero dimensions
    obtain ⟨front, rest, rfl⟩ := List.append_of_mem hmem
    -- With the empty dimension in front there is a list, so there is one in the worst order.
    have hbest := (h ([] :: (front ++ rest)) List.perm_middle.symm).1 (by simp [beforeZero])
    exact hle.trans_lt ((h worst hworst).2 hbest)
  · have hlengths := hperm.map List.length
    by_cases hmem : [] ∈ dimensions
    · have hothers : (nonZero (dimensions'.map List.length)).prod < 2 ^ 64 :=
        (hlengths.filter _).prod_eq ▸ h hmem
      exact iff_of_true (prod_beforeZero_le.trans_lt hothers) (prod_beforeZero_le.trans_lt (h hmem))
    · have hmem' : 0 ∉ dimensions'.map List.length := mt (hlengths.mem_iff.trans hzero).1 hmem
      rw [beforeZero_eq_self hmem', beforeZero_eq_self (mt hzero.1 hmem), hlengths.prod_eq]

end Combinations

namespace Example

/-- Sixty-four yes-or-no questions. -/
def questions : List (List Bool) := List.replicate 64 [false, true]

/-- With a question that has no answer, the others have no combination of answers. There is a list of
    none if that question comes first, but if it comes last there are too many. -/
theorem questions_refused : ((questions ++ [[]]).map List.length).prod = 0 ∧
    Combinations.ofDimensions ([] :: questions)
      = .ok { dimensions := [] :: questions, size := 0, next := 0 } ∧
    Combinations.ofDimensions (questions ++ [[]]) = .error (.tooManyCombinations 65) := by
  refine ⟨?_, rfl, rfl⟩
  decide +kernel

end Example

end PhraseGraph
