import Mathlib.Data.List.Forall2

/-!
# Computations that can fail

A result of several computations in a row says that each of them has had one. A list is gone through
element by element: there is a result if and only if every element has one (`mapM_eq_ok_iff`), and a
failure is one of some element (`exists_of_mapM_eq_error`). So where all steps fail in certain ways only,
so does the whole (`FailsOnly`).
-/

namespace PhraseGraph

variable {ε α β : Type}

theorem exists_of_forall₂ {R : α → β → Prop} {l : List α} {m : List β} {a : α}
    (h : List.Forall₂ R l m) (ha : a ∈ l) : ∃ b ∈ m, R a b := by
  induction h with
  | nil => exact absurd ha List.not_mem_nil
  | cons hab _ ih =>
    rcases List.mem_cons.1 ha with rfl | ha
    · exact ⟨_, List.mem_cons_self, hab⟩
    · obtain ⟨b, hb, hab⟩ := ih ha
      exact ⟨b, List.mem_cons_of_mem _ hb, hab⟩

theorem exists_of_forall₂_right {R : α → β → Prop} {l : List α} {m : List β} {b : β}
    (h : List.Forall₂ R l m) (hb : b ∈ m) : ∃ a ∈ l, R a b :=
  exists_of_forall₂ (R := flip R) h.flip hb

theorem bind_eq_ok_iff {x : Except ε α} {f : α → Except ε β} {b : β} :
    (x >>= f) = .ok b ↔ ∃ a, x = .ok a ∧ f a = .ok b := by
  cases x <;> simp [bind, Except.bind]

theorem map_eq_ok_iff {x : Except ε α} {f : α → β} {b : β} :
    x.map f = .ok b ↔ ∃ a, x = .ok a ∧ f a = b := by
  cases x <;> simp [Except.map]

theorem bind_eq_error_iff {x : Except ε α} {f : α → Except ε β} {e : ε} :
    (x >>= f) = .error e ↔ x = .error e ∨ ∃ a, x = .ok a ∧ f a = .error e := by
  cases x <;> simp [bind, Except.bind]

theorem map_eq_error_iff {x : Except ε α} {f : α → β} {e : ε} :
    x.map f = .error e ↔ x = .error e := by
  cases x <;> simp [Except.map]

theorem toOption_map_eq_some_iff {x : Except ε α} {f : α → β} {b : β} :
    x.toOption.map f = some b ↔ ∃ a, x = .ok a ∧ f a = b := by
  cases x <;> simp [Except.toOption]

theorem mapM_eq_ok_iff {f : α → Except ε β} {l : List α} {bs : List β} :
    l.mapM f = .ok bs ↔ List.Forall₂ (fun a b => f a = .ok b) l bs := by
  induction l generalizing bs with
  | nil => simp [pure, Except.pure, eq_comm]
  | cons a l ih =>
    simp only [List.mapM_cons, bind_eq_ok_iff, ih, List.forall₂_cons_left_iff]
    simp [pure, Except.pure, eq_comm]

/-- The results are those of the elements one after another. -/
theorem map_ok_eq_map_iff {f : α → Except ε β} {l : List α} {bs : List β} :
    bs.map Except.ok = l.map f ↔ List.Forall₂ (fun a b => f a = .ok b) l bs := by
  rw [eq_comm, ← List.forall₂_eq_eq_eq, List.forall₂_map_left_iff, List.forall₂_map_right_iff]

theorem map_ok_flatten {f : α → List (Except ε β)} {l : List α} {lists : List (List β)}
    (h : List.Forall₂ (fun a bs => bs.map Except.ok = f a) l lists) :
    lists.flatten.map Except.ok = l.flatMap f := by
  induction h with
  | nil => rfl
  | cons hbs _ ih => rw [List.flatten_cons, List.map_append, List.flatMap_cons, ih, hbs]

theorem exists_of_mapM_eq_error {f : α → Except ε β} {l : List α} {e : ε}
    (h : l.mapM f = .error e) : ∃ a ∈ l, f a = .error e := by
  induction l with
  | nil => exact absurd h (by simp [pure, Except.pure])
  | cons a l ih =>
    rw [List.mapM_cons] at h
    rcases bind_eq_error_iff.1 h with ha | ⟨b, -, h⟩
    · exact ⟨a, List.mem_cons_self, ha⟩
    · rcases bind_eq_error_iff.1 h with hl | ⟨bs, -, h⟩
      · obtain ⟨a', ha', hfailed⟩ := ih hl
        exact ⟨a', List.mem_cons_of_mem _ ha', hfailed⟩
      · exact absurd h (by simp [pure, Except.pure])

/-- All failures of the computation satisfy the condition. -/
def FailsOnly (P : ε → Prop) (x : Except ε α) : Prop := ∀ e, x = .error e → P e

section FailsOnly

variable {P : ε → Prop} {x : Except ε α}

theorem failsOnly_ok {a : α} : FailsOnly P (.ok a) := fun _ h => absurd h (by simp)

theorem failsOnly_error {e : ε} (he : P e) : FailsOnly P (.error e : Except ε α) :=
  fun _ h => Except.error.inj h ▸ he

theorem FailsOnly.bind {f : α → Except ε β} (hx : FailsOnly P x)
    (hf : ∀ a, x = .ok a → FailsOnly P (f a)) : FailsOnly P (x >>= f) := by
  intro e h
  rcases bind_eq_error_iff.1 h with h | ⟨a, ha, h⟩
  · exact hx e h
  · exact hf a ha e h

theorem FailsOnly.map {f : α → β} (hx : FailsOnly P x) : FailsOnly P (x.map f) :=
  fun e h => hx e (map_eq_error_iff.1 h)

theorem failsOnly_mapM {f : α → Except ε β} {l : List α} (hf : ∀ a ∈ l, FailsOnly P (f a)) :
    FailsOnly P (l.mapM f) := by
  intro e h
  obtain ⟨a, ha, h⟩ := exists_of_mapM_eq_error h
  exact hf a ha e h

/-- A computation has a result or fails in one of the ways. -/
theorem FailsOnly.cases (hx : FailsOnly P x) : (∃ a, x = .ok a) ∨ ∃ e, P e ∧ x = .error e := by
  cases x with
  | ok a => exact .inl ⟨a, rfl⟩
  | error e => exact .inr ⟨e, hx e rfl, rfl⟩

end FailsOnly

end PhraseGraph
