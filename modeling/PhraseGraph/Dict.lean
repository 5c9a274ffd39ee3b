/-!
# Ordered dictionaries

A `Dict` maps keys to values and lists its entries by ascending key. The order is part of the type,
so equal contents are equal values: two dictionaries built in different ways, which answer every
look-up alike, are the same dictionary.

All changes go through `Dict.alter`, which gives the value of one key as a function of what the key
had before.
-/

namespace PhraseGraph

/-- Entries in ascending order of their keys, with no key twice. -/
abbrev Ascending {κ α : Type} [Ord κ] (entries : List (κ × α)) : Prop :=
  entries.Pairwise fun a b => compare a.1 b.1 = .lt

/-- A finite map whose entries are listed by ascending key. -/
structure Dict (κ α : Type) [Ord κ] where
  /-- The entries. -/
  entries : List (κ × α)
  /-- The keys ascend. -/
  ascending : Ascending entries

/-- The entries with the value of `k` replaced by `f` of what it was. -/
def alterEntries {κ α : Type} [Ord κ] (k : κ) (f : Option α → α) : List (κ × α) → List (κ × α)
  | [] => [(k, f none)]
  | entry :: rest =>
    match compare k entry.1 with
    | .lt => (k, f none) :: entry :: rest
    | .eq => (entry.1, f (some entry.2)) :: rest
    | .gt => entry :: alterEntries k f rest

section Order

variable {κ α : Type} [Ord κ]

/-- A key of the altered entries is the altered key or was there before. -/
theorem key_mem_alterEntries {k : κ} {f : Option α → α} {entries : List (κ × α)} {e : κ × α}
    (h : e ∈ alterEntries k f entries) : e.1 = k ∨ ∃ e' ∈ entries, e'.1 = e.1 := by
  induction entries with
  | nil =>
    simp only [alterEntries, List.mem_singleton] at h
    exact .inl (by rw [h])
  | cons entry rest ih =>
    simp only [alterEntries] at h
    split at h
    · rcases List.mem_cons.1 h with rfl | h
      · exact .inl rfl
      · exact .inr ⟨e, h, rfl⟩
    · rcases List.mem_cons.1 h with rfl | h
      · exact .inr ⟨entry, List.mem_cons_self, rfl⟩
      · exact .inr ⟨e, List.mem_cons_of_mem _ h, rfl⟩
    · rcases List.mem_cons.1 h with rfl | h
      · exact .inr ⟨e, List.mem_cons_self, rfl⟩
      · rcases ih h with h | ⟨e', he', h⟩
        · exact .inl h
        · exact .inr ⟨e', List.mem_cons_of_mem _ he', h⟩

theorem ascending_alterEntries [Std.TransOrd κ] {k : κ} {f : Option α → α} {entries : List (κ × α)}
    (h : Ascending entries) : Ascending (alterEntries k f entries) := by
  induction entries with
  | nil => simp [alterEntries, Ascending]
  | cons entry rest ih =>
    obtain ⟨head, tail⟩ := List.pairwise_cons.1 h
    simp only [alterEntries]
    split
    · rename_i hk
      refine List.pairwise_cons.2 ⟨fun e he => ?_, h⟩
      rcases List.mem_cons.1 he with rfl | he
      · exact hk
      · exact Std.TransCmp.lt_trans hk (head e he)
    · exact List.pairwise_cons.2 ⟨head, tail⟩
    · rename_i hk
      refine List.pairwise_cons.2 ⟨fun e he => ?_, ih tail⟩
      rcases key_mem_alterEntries he with hek | ⟨e', he', hek⟩
      · rw [hek, Std.OrientedOrd.eq_swap, hk]
        rfl
      · rw [← hek]
        exact head e' he'

end Order

namespace Dict

variable {κ α β : Type} [Ord κ]

/-- The dictionary without entries. -/
def empty : Dict κ α := ⟨[], List.Pairwise.nil⟩

instance : EmptyCollection (Dict κ α) := ⟨empty⟩

instance : Inhabited (Dict κ α) := ⟨empty⟩

/-- The value of a key, if it has one. -/
def get? (d : Dict κ α) (k : κ) : Option α :=
  (d.entries.find? fun e => compare k e.1 == .eq).map (·.2)

/-- Whether the key has a value. -/
def contains (d : Dict κ α) (k : κ) : Bool := (d.get? k).isSome

/-- The keys in ascending order. -/
def keys (d : Dict κ α) : List κ := d.entries.map (·.1)

/-- The values in the order of their keys. -/
def values (d : Dict κ α) : List α := d.entries.map (·.2)

/-- The number of keys. -/
def size (d : Dict κ α) : Nat := d.entries.length

/-- Whether there are no keys. -/
def isEmpty (d : Dict κ α) : Bool := d.entries.isEmpty

/-- Applies a function to every value, with its key. -/
def map (f : κ → α → β) (d : Dict κ α) : Dict κ β where
  entries := d.entries.map fun e => (e.1, f e.1 e.2)
  ascending := List.pairwise_map.2 d.ascending

/-- The entries that satisfy the condition. -/
def filter (p : κ → α → Bool) (d : Dict κ α) : Dict κ α where
  entries := d.entries.filter fun e => p e.1 e.2
  ascending := d.ascending.sublist List.filter_sublist

variable [Std.TransOrd κ]

/-- The dictionary in which the value of `k` is `f` of what it was. -/
def alter (d : Dict κ α) (k : κ) (f : Option α → α) : Dict κ α :=
  ⟨alterEntries k f d.entries, ascending_alterEntries d.ascending⟩

/-- The dictionary in which the value of `k` is `v`. -/
def insert (d : Dict κ α) (k : κ) (v : α) : Dict κ α := d.alter k fun _ => v

/-- The dictionary of a list of entries; of two entries with one key the later one counts. -/
def ofList (l : List (κ × α)) : Dict κ α :=
  l.foldl (fun d e => d.insert e.1 e.2) ∅

/-- The dictionary whose entries a partial function makes of those of another one. The first
    failure, in the order of the keys, is the failure of the whole. -/
def mapM {ε : Type} (f : κ → α → Except ε β) (d : Dict κ α) : Except ε (Dict κ β) :=
  (d.entries.mapM fun e => (f e.1 e.2).map fun v => (e.1, v)).map ofList

end Dict

/-- A finite set of texts. -/
abbrev Names := Dict String Unit

/-- The set of the given texts. -/
def Names.ofList (l : List String) : Names := Dict.ofList (l.map fun name => (name, ()))

end PhraseGraph
