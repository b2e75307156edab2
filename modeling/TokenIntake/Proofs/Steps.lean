import Mathlib.Data.List.Forall2

/-!
# Steps that may be refused

What steps in a row answer, told by what each of them answers. They stop at the first that is
refused.
-/

namespace TokenIntake

variable {α β ε : Type}

theorem error_iff_not_ok {x : Except ε α} : (∃ fault, x = .error fault) ↔ ∀ a, x ≠ .ok a := by
  cases x <;> simp

section

variable {x : Except ε α} {fault : ε}

theorem bind_eq_ok_iff {f : α → Except ε β} {b : β} :
    x >>= f = .ok b ↔ ∃ a, x = .ok a ∧ f a = .ok b := by
  cases x with
  | error fault => simp [bind, Except.bind]
  | ok a => simp [bind, Except.bind]

theorem bind_eq_error_iff_exists {f : α → Except ε β} :
    x >>= f = .error fault ↔ x = .error fault ∨ ∃ a, x = .ok a ∧ f a = .error fault := by
  cases x with
  | error other => simp [bind, Except.bind]
  | ok a => simp [bind, Except.bind]

theorem bind_pure_eq_error_iff (f : α → β) :
    (x >>= fun a => pure (f a)) = .error fault ↔ x = .error fault := by
  simp [bind_eq_error_iff_exists, pure, Except.pure]

theorem map_eq_ok_iff {f : α → β} {b : β} : x.map f = .ok b ↔ ∃ a, x = .ok a ∧ f a = b := by
  cases x <;> simp [Except.map]

theorem map_eq_error_iff {f : α → β} : x.map f = .error fault ↔ x = .error fault := by
  cases x <;> simp [Except.map]

end

/-! ## Lists -/

variable {f : α → Except ε β} {as : List α}

theorem mapM_eq_ok_iff {bs : List β} :
    as.mapM f = .ok bs ↔ List.Forall₂ (fun a b => f a = .ok b) as bs := by
  induction as generalizing bs with
  | nil =>
    rw [List.mapM_nil, List.forall₂_nil_left_iff]
    exact ⟨fun h => (Except.ok.inj h).symm, fun h => congrArg _ h.symm⟩
  | cons a as ih =>
    rw [List.mapM_cons, List.forall₂_cons_left_iff, bind_eq_ok_iff]
    constructor
    · rintro ⟨b, first, ok⟩
      obtain ⟨rest, others, done⟩ := bind_eq_ok_iff.mp ok
      exact ⟨b, rest, first, ih.mp others, (Except.ok.inj done).symm⟩
    · rintro ⟨b, rest, first, others, rfl⟩
      exact ⟨b, first, bind_eq_ok_iff.mpr ⟨rest, ih.mpr others, rfl⟩⟩

/-- A list stops at the first item that is refused. -/
theorem mapM_eq_error_iff {fault : ε} :
    as.mapM f = .error fault ↔ ∃ before a after, as = before ++ a :: after ∧
      (∀ b ∈ before, ∃ value, f b = .ok value) ∧ f a = .error fault := by
  induction as with
  | nil => simp [pure, Except.pure]
  | cons a as ih =>
    rw [List.mapM_cons, bind_eq_error_iff_exists]
    simp only [bind_pure_eq_error_iff, ih]
    constructor
    · rintro (refused | ⟨value, first, before, c, after, rfl, accepted, refused⟩)
      · exact ⟨[], a, as, rfl, List.forall_mem_nil _, refused⟩
      · exact ⟨a :: before, c, after, rfl, List.forall_mem_cons.mpr ⟨⟨value, first⟩, accepted⟩,
          refused⟩
    · rintro ⟨_ | ⟨b, before⟩, c, after, split, accepted, refused⟩
      · cases split
        exact .inl refused
      · cases split
        obtain ⟨⟨value, first⟩, accepted⟩ := List.forall_mem_cons.mp accepted
        exact .inr ⟨value, first, before, c, after, rfl, accepted, refused⟩

end TokenIntake
