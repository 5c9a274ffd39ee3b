import PhraseGraph.Failure

/-!
# Enumerations

What is listed one after another can fail on the way. An enumeration has the items that come up, and
then it ends, or breaks off with a failure. Whoever takes only the first items does not meet a
failure that comes after them (`Enumeration.take`); whoever takes all items does
(`Enumeration.all`).

An enumeration that breaks off never gets to what is appended to it. Taking the first items of two
enumerations in a row is therefore taking what the first one has, and the others from the second one
(`Enumeration.take_append`); so a listing of many parts looks at no more parts than the wanted items
need (`Enumeration.gatherFirst_eq_take`).
-/

namespace PhraseGraph

/-- Items that come up one after another, and how they end. -/
structure Enumeration (α : Type) where
  /-- The items that come up, in order. -/
  items : List α
  /-- The failure with which the enumeration breaks off after the items. -/
  failure : Option Failure := none
deriving DecidableEq, Repr

namespace Enumeration

variable {α β : Type}

/-- The enumeration of no items. -/
def empty : Enumeration α := ⟨[], none⟩

instance : EmptyCollection (Enumeration α) := ⟨empty⟩
instance : Inhabited (Enumeration α) := ⟨empty⟩

/-- The items of a list. -/
def ofList (l : List α) : Enumeration α := ⟨l, none⟩

/-- The enumeration that breaks off before the first item. -/
def failed (failure : Failure) : Enumeration α := ⟨[], some failure⟩

/-- Whether no item comes up. -/
def isEmpty (e : Enumeration α) : Bool := e.items.isEmpty

/-- One enumeration followed by another, if it does not break off. -/
def append (e e' : Enumeration α) : Enumeration α :=
  if e.failure.isSome then e else ⟨e.items ++ e'.items, e'.failure⟩

/-- The enumerations that `f` makes of the elements of a list, one after another. What comes after
    one that breaks off is not made at all. -/
def gather : (l : List α) → (f : α → Enumeration β) → Enumeration β
  | [], _ => ∅
  | a :: rest, f =>
    let e := f a
    if e.failure.isSome then e else e.append (gather rest f)

theorem gather_cons (a : α) (rest : List α) (f : α → Enumeration β) :
    gather (a :: rest) f = (f a).append (gather rest f) := by
  simp only [gather, append]
  split <;> rfl

/-- The enumeration with `f a` in the place of every item `a`. -/
def map (f : α → β) (e : Enumeration α) : Enumeration β := ⟨e.items.map f, e.failure⟩

/-- The enumeration with the items of `f a` in the place of every item `a`. -/
def flatMap (e : Enumeration α) (f : α → List β) : Enumeration β := ⟨e.items.flatMap f, e.failure⟩

/-- The first `count` items. A failure comes up if there are fewer. -/
def take (e : Enumeration α) (count : Nat) : Enumeration α :=
  ⟨e.items.take count, if count ≤ e.items.length then none else e.failure⟩

/-- What comes after the first `count` items. -/
def drop (e : Enumeration α) (count : Nat) : Enumeration α := ⟨e.items.drop count, e.failure⟩

/-- All items, or the failure with which the enumeration breaks off. -/
def all (e : Enumeration α) : Except Failure (List α) :=
  match e.failure with
  | none => .ok e.items
  | some failure => .error failure

/-! ### The first items -/

theorem take_of_le {e : Enumeration α} {count : Nat} (h : count ≤ e.items.length) :
    e.take count = ofList (e.items.take count) := by
  simp [take, ofList, h]

theorem take_of_lt {e : Enumeration α} {count : Nat} (h : e.items.length < count) :
    e.take count = e := by
  simp [take, Nat.not_le.2 h, List.take_of_length_le (Nat.le_of_lt h)]

@[simp] theorem take_empty (count : Nat) : (∅ : Enumeration α).take count = ∅ := by
  simp [take, EmptyCollection.emptyCollection, empty]

@[simp] theorem take_zero (e : Enumeration α) : e.take 0 = ∅ := by
  simp [take, EmptyCollection.emptyCollection, empty]

@[simp] theorem append_empty (e : Enumeration α) : e.append ∅ = e := by
  obtain ⟨items, _ | failure⟩ := e <;>
    simp [append, EmptyCollection.emptyCollection, empty]

theorem take_append (e e' : Enumeration α) (count : Nat) :
    (e.append e').take count = (e.take count).append (e'.take (count - e.items.length)) := by
  obtain ⟨items, _ | failure⟩ := e
  · simp only [append, take, Option.isSome_none, Bool.false_eq_true, if_false, ite_self,
      List.take_append, List.length_append, mk.injEq, true_and]
    congr 1
    simp only [eq_iff_iff]
    omega
  · by_cases h : count ≤ items.length
    · simp [append, take, h, Nat.sub_eq_zero_of_le h]
    · simp [append, take, h]

/-- Where the first part has enough items, the others do not matter. -/
theorem take_append_of_le {e : Enumeration α} {count : Nat} (h : count ≤ e.items.length)
    (e' : Enumeration α) : (e.append e').take count = e.take count := by
  rw [take_append, Nat.sub_eq_zero_of_le h, take_zero, append_empty]

/-- The first `count` items of the enumerations that `first` begins for each element, where
    `first n a` is asked for at least one item and gives `n` at most. -/
def gatherFirst (first : Nat → α → Enumeration β) : (count : Nat) → List α → Enumeration β
  | 0, _ => ∅
  | _ + 1, [] => ∅
  | count + 1, a :: rest =>
    let found := first (count + 1) a
    if found.failure.isSome then found
    else found.append (gatherFirst first (count + 1 - found.items.length) rest)

theorem gatherFirst_cons (first : Nat → α → Enumeration β) (count : Nat) (a : α) (rest : List α) :
    gatherFirst first (count + 1) (a :: rest)
      = (first (count + 1) a).append
        (gatherFirst first (count + 1 - (first (count + 1) a).items.length) rest) := by
  simp only [gatherFirst, append]
  split <;> rfl

theorem gatherFirst_eq_take {first : Nat → α → Enumeration β} {f : α → Enumeration β}
    (h : ∀ n a, first (n + 1) a = (f a).take (n + 1)) (count : Nat) (l : List α) :
    gatherFirst first count l = (gather l f).take count := by
  induction l generalizing count with
  | nil => cases count <;> simp [gatherFirst, gather]
  | cons a rest ih =>
    cases count with
    | zero => simp [gatherFirst]
    | succ n =>
      have hsub : n + 1 - min (n + 1) (f a).items.length = n + 1 - (f a).items.length := by omega
      rw [gatherFirst_cons, gather_cons, take_append, h, ih]
      simp only [take, List.length_take, hsub]

theorem length_le_length_flatMap {f : α → List β} (h : ∀ a, f a ≠ []) (l : List α) :
    l.length ≤ (l.flatMap f).length := by
  induction l with
  | nil => simp
  | cons a l ih =>
    have := List.length_pos_iff.2 (h a)
    simp only [List.length_cons, List.flatMap_cons, List.length_append]
    omega

/-- If every item gives something, `count` of them give the first `count` items of all. -/
theorem take_append_flatMap_take {f : α → List β} (h : ∀ a, f a ≠ []) (e : Enumeration α)
    (e' : Enumeration β) (count : Nat) :
    (((e.take count).flatMap f).append e').take count
      = ((e.flatMap f).append e').take count := by
  by_cases hlen : e.items.length < count
  · rw [take_of_lt hlen]
  · have hle : count ≤ e.items.length := Nat.not_lt.1 hlen
    have hfew : count ≤ ((e.items.take count).flatMap f).length := by
      have := length_le_length_flatMap h (e.items.take count)
      rwa [List.length_take, Nat.min_eq_left hle] at this
    have hall : e.items.flatMap f
        = (e.items.take count).flatMap f ++ (e.items.drop count).flatMap f := by
      rw [← List.flatMap_append, List.take_append_drop]
    have hmany : count ≤ (e.flatMap f).items.length := by
      simp only [flatMap, hall, List.length_append]
      omega
    rw [take_append_of_le (e := (e.take count).flatMap f) hfew, take_append_of_le hmany,
      take_of_le (e := (e.take count).flatMap f) hfew, take_of_le hmany]
    simp only [flatMap, take]
    rw [hall, List.take_append_of_le_length hfew]

end Enumeration

end PhraseGraph
