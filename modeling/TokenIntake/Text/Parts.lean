/-!
# Parts between marks

A text is split at every occurrence of a mark, and parts are joined with a mark between
each two of them. A text without the mark is one part, also when it is empty.
-/

namespace TokenIntake.Parts

def split (mark : Char) : List Char → List (List Char)
  | [] => [[]]
  | c :: rest =>
    if c = mark then [] :: split mark rest
    else
      match split mark rest with
      | [] => [[c]]
      | part :: parts => (c :: part) :: parts

/-- The parts with a mark between each two of them. -/
def join (mark : Char) (parts : List (List Char)) : List Char :=
  (parts.intersperse [mark]).flatten

theorem split_ne_nil (mark : Char) (text : List Char) : split mark text ≠ [] := by
  cases text with
  | nil => simp [split]
  | cons c rest => simp only [split]; split <;> (try split) <;> simp

theorem split_of_notMem {mark : Char} {text : List Char} (absent : mark ∉ text) :
    split mark text = [text] := by
  induction text with
  | nil => rfl
  | cons c rest ih =>
    have differs : c ≠ mark := fun same => absent (by simp [same])
    have later := ih fun member => absent (by simp [member])
    simp [split, differs, later]

/-- Joining undoes splitting. -/
theorem join_split (mark : Char) (text : List Char) : join mark (split mark text) = text := by
  induction text with
  | nil => rfl
  | cons c rest ih =>
    have nonempty := split_ne_nil mark rest
    simp only [split, join] at ih ⊢
    cases h : split mark rest with
    | nil => exact absurd h nonempty
    | cons part parts =>
      rw [h] at ih
      split
      · cases parts <;> simp_all [List.intersperse]
      · cases parts <;> simp_all [List.intersperse]

/-- Splitting is that of the core library. -/
theorem split_eq_splitOn (mark : Char) (text : List Char) :
    split mark text = text.splitOn mark := by
  induction text with
  | nil => rfl
  | cons c rest ih =>
    obtain ⟨part, parts, later⟩ := List.exists_cons_of_ne_nil (split_ne_nil mark rest)
    rw [split, List.splitOn_cons_eq_if_modifyHead, ← ih, later]
    by_cases same : c = mark <;> simp [same]

/-- Splitting undoes joining if there are parts and none of them has the mark. -/
theorem split_join {mark : Char} {parts : List (List Char)} (present : parts ≠ [])
    (bare : ∀ part ∈ parts, mark ∉ part) : split mark (join mark parts) = parts := by
  rw [split_eq_splitOn]
  exact List.splitOn_intercalate mark bare present

theorem notMem_of_mem_split {mark : Char} {text part : List Char}
    (found : part ∈ split mark text) : mark ∉ part := by
  induction text generalizing part with
  | nil =>
    obtain rfl := List.mem_singleton.mp found
    exact List.not_mem_nil
  | cons c rest ih =>
    obtain ⟨first, parts, later⟩ := List.exists_cons_of_ne_nil (split_ne_nil mark rest)
    rw [later] at ih
    rw [split, later] at found
    split at found
    next =>
      obtain rfl | found := List.mem_cons.mp found
      · exact List.not_mem_nil
      · exact ih found
    next differs =>
      obtain rfl | found := List.mem_cons.mp found
      · exact List.not_mem_cons_of_ne_of_not_mem (Ne.symm differs) (ih List.mem_cons_self)
      · exact ih (List.mem_cons_of_mem _ found)

end TokenIntake.Parts
