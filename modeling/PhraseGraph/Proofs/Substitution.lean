import Mathlib.Data.List.Perm.Basic
import PhraseGraph.Pattern
import PhraseGraph.Proofs.Results

/-!
# Phrasings in the places of a pattern

Each place takes the phrasing of one binding of its name out of the bindings (`perm_of_takePhrasing?`). So
filling the places uses up bindings with the names of the places, however they are ordered
(`perm_of_fill`), and it fails only if a name is bound too seldom. A pattern takes phrasings if and only if
the names that they go with are those of its places (`substitute_isOk_iff`).
-/

namespace PhraseGraph.Pattern

variable {name phrasing pattern : String} {bindings left : List (String × String)} {ps : List Piece}
  {names phrasings : List String} {cs : List Char}

/-- The binding that is taken is missing afterwards, and no other one is. -/
theorem perm_of_takePhrasing? (h : takePhrasing? name bindings = some (phrasing, left)) :
    (bindings.map Prod.fst).Perm (name :: left.map Prod.fst) := by
  induction bindings generalizing left with
  | nil => exact absurd h (by simp [takePhrasing?])
  | cons binding rest ih =>
    rw [takePhrasing?] at h
    split at h
    · next hname =>
      obtain ⟨rfl, rfl⟩ := Prod.mk.inj (Option.some_inj.1 h)
      rw [List.map_cons, beq_iff_eq.1 hname]
    · obtain ⟨⟨found, left'⟩, htaken, heq⟩ := Option.map_eq_some_iff.1 h
      obtain ⟨rfl, rfl⟩ := Prod.mk.inj heq
      exact ((ih htaken).cons _).trans (.swap _ _ _)

theorem exists_takePhrasing? (h : name ∈ bindings.map Prod.fst) :
    ∃ phrasing left, takePhrasing? name bindings = some (phrasing, left) := by
  induction bindings with
  | nil => exact absurd h List.not_mem_nil
  | cons binding rest ih =>
    rw [takePhrasing?]
    split
    · exact ⟨_, _, rfl⟩
    · next hname =>
      obtain ⟨phrasing, left, htaken⟩ := ih <|
        (List.mem_cons.1 h).resolve_left fun heq => hname (beq_iff_eq.2 heq.symm)
      exact ⟨_, _, by rw [htaken]; rfl⟩

/-- The bindings are those that the places take and those that are left. -/
theorem perm_of_fill (h : fill bindings ps = .ok (cs, left)) :
    (bindings.map Prod.fst).Perm (ps.filterMap Piece.name? ++ left.map Prod.fst) := by
  induction ps generalizing bindings cs with
  | nil =>
    obtain ⟨-, rfl⟩ := Prod.mk.inj (Except.ok.inj h)
    exact .refl _
  | cons p ps ih =>
    cases p with
    | char c =>
      rw [fill] at h
      obtain ⟨filled, hrest, heq⟩ := map_eq_ok_iff.1 h
      obtain ⟨-, rfl⟩ := Prod.mk.inj heq
      exact ih hrest
    | place name =>
      rw [fill] at h
      split at h
      · exact absurd h (by simp)
      · next phrasing bindings' htaken =>
        obtain ⟨filled, hrest, heq⟩ := map_eq_ok_iff.1 h
        obtain ⟨-, rfl⟩ := Prod.mk.inj heq
        exact (perm_of_takePhrasing? htaken).trans ((ih hrest).cons name)

/-- Where each place finds a binding of its name, all places are filled. -/
theorem exists_fill {more : List String}
    (h : (bindings.map Prod.fst).Perm (ps.filterMap Piece.name? ++ more)) :
    ∃ cs left, fill bindings ps = .ok (cs, left) := by
  induction ps generalizing bindings with
  | nil => exact ⟨_, _, rfl⟩
  | cons p ps ih =>
    cases p with
    | char c =>
      obtain ⟨cs, left, hrest⟩ := ih h
      exact ⟨_, _, by rw [fill, hrest]; rfl⟩
    | place name =>
      obtain ⟨phrasing, bindings', htaken⟩ :=
        exists_takePhrasing? (h.mem_iff.2 (List.mem_cons_self))
      have hperm := (perm_of_takePhrasing? htaken).symm.trans h
      obtain ⟨cs, left, hrest⟩ := ih hperm.cons_inv
      exact ⟨_, _, by rw [fill, htaken]; simp only [hrest]; rfl⟩

/-- A pattern takes phrasings if and only if they go with the names of its places. -/
theorem substitute_isOk_iff : (∃ phrase, substitute pattern names phrasings = .ok phrase) ↔
    names.length = phrasings.length ∧ names.Perm (variableNames pattern) := by
  rw [substitute]
  split
  · next hlength => exact iff_of_false (by simp) fun h => absurd h.1 (by simpa using hlength)
  · next hlength =>
    have hlength : names.length = phrasings.length := by simpa using hlength
    have hnames : (names.zip phrasings).map Prod.fst = names :=
      List.map_fst_zip (Nat.le_of_eq hlength)
    rw [and_iff_right hlength, variableNames]
    constructor
    · rintro ⟨phrase, h⟩
      split at h
      · exact absurd h (by simp)
      · next cs hfill => simpa [hnames] using perm_of_fill hfill
      · exact absurd h (by simp)
    · intro hperm
      obtain ⟨cs, left, hfill⟩ : ∃ cs left,
          fill (names.zip phrasings) (pieces pattern) = .ok (cs, left) :=
        exists_fill (by rwa [hnames, List.append_nil])
      -- The places take as many bindings as there are.
      have hleft : left = [] := by
        have hlengths := (perm_of_fill hfill).length_eq
        rw [hnames, hperm.length_eq] at hlengths
        simpa using hlengths
      exact ⟨_, by rw [hfill, hleft]⟩

end PhraseGraph.Pattern
