import Mathlib.Data.List.Induction
import Mathlib.Data.List.Perm.Basic
import Mathlib.Data.List.Sort
import PhraseGraph.Dict

/-!
# Look-ups in dictionaries

A dictionary is told by its look-ups: two dictionaries that answer every look-up alike are equal
(`Dict.ext_get?`). What its operations do is said by a look-up after them (`Dict.get?_alter`,
`Dict.get?_map`), also where the entries of one dictionary change another one one after another
(`Dict.get?_foldl_alter`): each key is changed once at most. The values of a dictionary that is made of
a list are some of those that the list has for their keys (`Dict.mem_of_get?_ofList`).
-/

namespace PhraseGraph

variable {κ α β : Type} [Ord κ] {k k' : κ} {v : α}

/-! ### Entries -/

/-- The value that the entries have for a key. -/
def lookUp (entries : List (κ × α)) (k : κ) : Option α :=
  (entries.find? fun e => compare k e.1 == .eq).map (·.2)

section Entries

variable {entries : List (κ × α)} {e : κ × α}

@[simp] theorem lookUp_nil : lookUp ([] : List (κ × α)) k = none := rfl

variable [Std.LawfulEqOrd κ]

theorem ne_of_compare_eq_lt (h : compare k k' = .lt) : k ≠ k' := by
  rintro rfl
  exact absurd h (by simp)

theorem lookUp_cons [Decidable (k = e.1)] :
    lookUp (e :: entries) k = if k = e.1 then some e.2 else lookUp entries k := by
  rw [lookUp, List.find?_cons]
  by_cases h : k = e.1
  · simp [h]
  · have hne : (compare k e.1 == .eq) = false := by simpa using h
    rw [hne, if_neg h]
    rfl

theorem lookUp_eq_none_iff : lookUp entries k = none ↔ ∀ e ∈ entries, k ≠ e.1 := by
  simp [lookUp]

theorem mem_entries_iff (h : Ascending entries) : (k, v) ∈ entries ↔ lookUp entries k = some v := by
  classical
  induction entries with
  | nil => simp
  | cons e entries ih =>
    obtain ⟨hhead, htail⟩ := List.pairwise_cons.1 h
    rw [List.mem_cons, lookUp_cons, ih htail]
    split
    · next hk =>
      subst hk
      have hnone : lookUp entries e.1 = none :=
        lookUp_eq_none_iff.2 fun e' he' => ne_of_compare_eq_lt (hhead e' he')
      simp [hnone, Prod.ext_iff, eq_comm]
    · next hk =>
      exact or_iff_right fun heq => hk (congrArg Prod.fst heq)

variable [Std.TransOrd κ]

/-- No entry has a key before the first one. -/
theorem lookUp_eq_none_of_lt (h : Ascending (e :: entries)) (hk : compare k e.1 = .lt) :
    lookUp (e :: entries) k = none := by
  refine lookUp_eq_none_iff.2 fun e' he' => ne_of_compare_eq_lt ?_
  rcases List.mem_cons.1 he' with rfl | he'
  · exact hk
  · exact Std.TransCmp.lt_trans hk ((List.pairwise_cons.1 h).1 e' he')

theorem lookUp_alterEntries {f : Option α → α} [Decidable (k' = k)] (h : Ascending entries) :
    lookUp (alterEntries k f entries) k' =
      if k' = k then some (f (lookUp entries k)) else lookUp entries k' := by
  classical
  induction entries with
  | nil => rw [alterEntries, lookUp_cons]; rfl
  | cons e entries ih =>
    rw [alterEntries]
    split
    · next hlt => rw [lookUp_cons, lookUp_eq_none_of_lt h hlt]
    · next heq =>
      obtain rfl : k = e.1 := Std.LawfulEqOrd.eq_of_compare heq
      rw [lookUp_cons, lookUp_cons, lookUp_cons]
      split <;> simp [*]
    · next hgt =>
      have hne : k ≠ e.1 := fun heq => by simp [heq] at hgt
      rw [lookUp_cons, lookUp_cons, lookUp_cons, ih (List.pairwise_cons.1 h).2, if_neg hne]
      by_cases hk : k' = k
      · simp [hk, hne]
      · simp [hk]

end Entries

/-! ### Dictionaries -/

namespace Dict

@[simp] theorem get?_empty : (∅ : Dict κ α).get? k = none := rfl

variable [Std.LawfulEqOrd κ] {d d' : Dict κ α}

theorem mem_entries_iff : (k, v) ∈ d.entries ↔ d.get? k = some v :=
  PhraseGraph.mem_entries_iff d.ascending

theorem mem_keys_iff : k ∈ d.keys ↔ ∃ v, d.get? k = some v := by
  simp [keys, ← mem_entries_iff]

/-- No key comes twice. -/
theorem nodup_keys : d.keys.Nodup :=
  List.pairwise_map.2 (d.ascending.imp ne_of_compare_eq_lt)

theorem get?_map {f : κ → α → β} : (d.map f).get? k = (d.get? k).map (f k) := by
  classical
  obtain ⟨entries, hascending⟩ := d
  show lookUp (entries.map fun e => (e.1, f e.1 e.2)) k = (lookUp entries k).map (f k)
  clear hascending
  induction entries with
  | nil => rfl
  | cons e entries ih =>
    rw [List.map_cons, lookUp_cons, lookUp_cons, ih]
    split
    · next hk => rw [hk]; rfl
    · rfl

variable [Std.TransOrd κ]

/-- Dictionaries that answer every look-up alike are equal. -/
theorem ext_get? (h : ∀ k, d.get? k = d'.get? k) : d = d' := by
  have hmem : ∀ e, e ∈ d.entries ↔ e ∈ d'.entries := fun ⟨k, v⟩ => by
    rw [mem_entries_iff, mem_entries_iff, h]
  have hnodup : ∀ d : Dict κ α, d.entries.Nodup := fun d => d.nodup_keys.of_map
  have hperm := (List.perm_ext_iff_of_nodup (hnodup d) (hnodup d')).2 hmem
  obtain ⟨entries, hascending⟩ := d
  obtain ⟨entries', hascending'⟩ := d'
  congr 1
  refine hperm.eq_of_pairwise (fun a b _ _ hab hba => ?_) hascending hascending'
  exact absurd rfl (ne_of_compare_eq_lt (Std.TransCmp.lt_trans hab hba))

theorem get?_alter {f : Option α → α} [Decidable (k' = k)] :
    (d.alter k f).get? k' = if k' = k then some (f (d.get? k)) else d.get? k' :=
  lookUp_alterEntries d.ascending

theorem get?_insert [Decidable (k' = k)] :
    (d.insert k v).get? k' = if k' = k then some v else d.get? k' :=
  get?_alter

theorem get?_foldl_alterEntries {f : κ → β → Option α → α} {entries : List (κ × β)}
    (h : Ascending entries) : (entries.foldl (fun d e => d.alter e.1 (f e.1 e.2)) d).get? k =
      (lookUp entries k).elim (d.get? k) fun v => some (f k v (d.get? k)) := by
  classical
  induction entries generalizing d with
  | nil => rfl
  | cons e entries ih =>
    obtain ⟨hhead, htail⟩ := List.pairwise_cons.1 h
    rw [List.foldl_cons, ih htail, get?_alter, lookUp_cons]
    by_cases hk : k = e.1
    · -- The key is changed now, and not again.
      have hnone : lookUp entries e.1 = none :=
        lookUp_eq_none_iff.2 fun e' he' => ne_of_compare_eq_lt (hhead e' he')
      simp [hk, hnone]
    · simp only [if_neg hk]

/-- What the entries of one dictionary change in another one. -/
theorem get?_foldl_alter (d : Dict κ α) (more : Dict κ β) (f : κ → β → Option α → α) (k : κ) :
    (more.entries.foldl (fun d e => d.alter e.1 (f e.1 e.2)) d).get? k =
      (more.get? k).elim (d.get? k) fun v => some (f k v (d.get? k)) :=
  get?_foldl_alterEntries more.ascending

/-- Altering a value and then applying a function to all values. -/
theorem map_alter {f : Option α → α} {g : Option β → β} {h : κ → α → β}
    (hfg : ∀ v?, h k (f v?) = g (v?.map (h k))) : (d.alter k f).map h = (d.map h).alter k g := by
  classical
  refine ext_get? fun k' => ?_
  rw [get?_map, get?_alter, get?_alter, get?_map, get?_map]
  split
  · next hk => rw [hk, Option.map_some, hfg]
  · rfl

/-! ### The dictionary of a list -/

variable {l : List (κ × α)} {e : κ × α}

omit [Std.LawfulEqOrd κ] in
theorem ofList_concat : ofList (l ++ [e]) = (ofList l).insert e.1 e.2 := List.foldl_concat ..

theorem mem_of_get?_ofList (h : (ofList l).get? k = some v) : (k, v) ∈ l := by
  classical
  induction l using List.reverseRecOn with
  | nil => exact absurd h (by simp [ofList])
  | append_singleton l e ih =>
    rw [ofList_concat, get?_insert] at h
    split at h
    · next hk => simp [hk, ← Option.some_inj.1 h]
    · exact List.mem_append_left _ (ih h)

/-- A key of the list has a value, though not the one of each entry. -/
theorem isSome_get?_ofList (h : e ∈ l) : ((ofList l).get? e.1).isSome := by
  classical
  induction l using List.reverseRecOn with
  | nil => exact absurd h List.not_mem_nil
  | append_singleton l e' ih =>
    rw [ofList_concat, get?_insert]
    split
    · rfl
    · next hk =>
      refine ih ((List.mem_append.1 h).resolve_right fun hmem => hk ?_)
      rw [List.mem_singleton.1 hmem]

end Dict

end PhraseGraph
