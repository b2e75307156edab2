import TokenIntake.Proofs.FieldRules

/-!
# Lists of tags

A list that is not too long is refused for its first bad tag, and the rejection tells its place,
counted from one, and the first reason that applies to it. What stands behind that tag does not
matter.
-/

namespace TokenIntake.Tags

/-! ## One tag -/

/-- Why the tag at a position is bad: the first reason that applies. -/
inductive Fault (position : Nat) (tag : String) : Rejection → Prop
  | empty (nothing : tag = "") : Fault position tag (.emptyTag position)
  | long (more : 50 < tag.toList.length) : Fault position tag (.tooLong s!"tag {position}" 50)
  | character {c : Char} (short : tag.toList.length ≤ 50) (found : c ∈ tag.toList)
    (notSafe : ¬ SafeChar c) : Fault position tag (.unsafeCharacters s!"tag {position}")

namespace Fault

variable {position : Nat} {tag : String} {rejection other : Rejection}

theorem not_safeText (fault : Fault position tag rejection) : ¬ SafeText 50 tag := by
  rintro ⟨present, short, safe⟩
  cases fault with
  | empty nothing => simp [nothing] at present
  | long more => omega
  | character _ found notSafe => exact notSafe (safe _ found)

/-- The reasons exclude each other. -/
theorem unique (fault : Fault position tag rejection) (fault' : Fault position tag other) :
    rejection = other := by
  cases fault with
  | empty nothing =>
    cases fault' with
    | empty => rfl
    | long more => simp [nothing] at more
    | character _ found => simp [nothing] at found
  | long more =>
    cases fault' with
    | empty nothing => simp [nothing] at more
    | long => rfl
    | character short => omega
  | character short found =>
    cases fault' with
    | empty nothing => simp [nothing] at found
    | long more => omega
    | character => rfl

end Fault

theorem checkAt_eq_ok_iff {position : Nat} {tag : String} :
    checkAt position tag = .ok () ↔ SafeText 50 tag :=
  safeText_eq_ok_iff

private theorem fault_of_checkAt {position : Nat} {tag : String} {rejection : Rejection}
    (refused : checkAt position tag = .error rejection) : Fault position tag rejection := by
  unfold checkAt at refused
  split at refused
  next nothing =>
    cases refused
    exact .empty (String.isEmpty_iff.mp nothing)
  next present =>
    -- The length is looked at first, so a tag that fails both tests is too long.
    obtain long | ⟨fits, hidden⟩ := bind_eq_error_iff.mp refused
    · obtain ⟨more, rfl⟩ := checkLength_eq_error_iff.mp long
      exact .long more
    · have short : tag.toList.length ≤ 50 := checkLength_eq_ok_iff.mp fits
      obtain ⟨notSafe, rfl⟩ := Verdict.ensure_eq_error_iff.mp hidden
      rw [← Bool.not_eq_true, isSafeText_iff] at notSafe
      have nonempty : tag.toList ≠ [] := by simpa using present
      obtain ⟨c, found, other⟩ : ∃ c ∈ tag.toList, ¬ SafeChar c := by
        simpa [nonempty] using notSafe
      exact .character short found other

theorem checkAt_eq_error_iff {position : Nat} {tag : String} {rejection : Rejection} :
    checkAt position tag = .error rejection ↔ Fault position tag rejection :=
  eq_error_iff_of_unique (fun _ => fault_of_checkAt)
    (fun _ accepted _ fault => fault.not_safeText (checkAt_eq_ok_iff.mp accepted))
    (fun _ _ => Fault.unique)

/-! ## All tags -/

/-- The tags behind others are looked at only if these are accepted, and keep their places. -/
theorem checkFrom_append (position : Nat) (front back : List String) :
    checkFrom position (front ++ back) =
      (checkFrom position front >>= fun _ => checkFrom (position + front.length) back) := by
  induction front generalizing position with
  | nil => rfl
  | cons tag front ih =>
    rw [List.cons_append, checkFrom, checkFrom, ih, bind_assoc, List.length_cons,
      Nat.add_right_comm, Nat.add_assoc]

/-- A run over the tags stops at the first one that is bad, with the reason for it. -/
theorem checkFrom_eq_error_iff {position : Nat} {tags : List String} {rejection : Rejection} :
    checkFrom position tags = .error rejection ↔ ∃ before tag after,
      tags = before ++ tag :: after ∧ (∀ good ∈ before, SafeText 50 good) ∧
        Fault (position + before.length) tag rejection := by
  constructor
  · intro refused
    induction tags generalizing position with
    | nil => cases refused
    | cons tag rest ih =>
      obtain here | ⟨accepted, later⟩ := bind_eq_error_iff.mp refused
      · exact ⟨[], tag, rest, rfl, by simp, checkAt_eq_error_iff.mp here⟩
      · obtain ⟨before, bad, after, rfl, good, fault⟩ := ih later
        refine ⟨tag :: before, bad, after, rfl, ?_, ?_⟩
        · exact List.forall_mem_cons.mpr ⟨checkAt_eq_ok_iff.mp accepted, good⟩
        · rwa [List.length_cons, Nat.add_comm before.length, ← Nat.add_assoc]
  · rintro ⟨before, tag, after, rfl, good, fault⟩
    have accepted : checkFrom position before = .ok () := checkFrom_eq_ok_iff.mpr good
    have refused : checkFrom (position + before.length) (tag :: after) = .error rejection :=
      bind_eq_error_iff.mpr (.inl (checkAt_eq_error_iff.mpr fault))
    rw [checkFrom_append]
    exact bind_eq_error_iff.mpr (.inr ⟨accepted, refused⟩)

/-- Behind a bad tag, anything may stand. -/
private theorem checkFrom_of_bad {tag : String} (bad : ¬ SafeText 50 tag) (position : Nat)
    (before after after' : List String) :
    checkFrom position (before ++ tag :: after) = checkFrom position (before ++ tag :: after') := by
  rw [checkFrom_append, checkFrom_append]
  have stops (rest : List String) : checkFrom (position + before.length) (tag :: rest) =
      checkAt (position + before.length) tag := by
    rw [checkFrom]
    cases verdict : checkAt (position + before.length) tag with
    | ok => exact absurd (checkAt_eq_ok_iff.mp verdict) bad
    | error rejection => rfl
  rw [stops, stops]

/-- The tag at a position, counted from one, is bad, and no tag in front of it is. -/
def FirstBad (tags : List String) (position : Nat) (tag : String) : Prop :=
  ∃ before after, tags = before ++ tag :: after ∧ position = before.length + 1 ∧
    (∀ good ∈ before, SafeText 50 good) ∧ ¬ SafeText 50 tag

/-- How a list of tags is judged. -/
structure Judged (tags : List String) (verdict : Verdict) : Prop where
  tooMany : 20 < tags.length → verdict = .error (.tooManyTags 20)
  accepted_iff : tags.length ≤ 20 → (verdict = .ok () ↔ ∀ tag ∈ tags, SafeText 50 tag)
  refused_iff : tags.length ≤ 20 → ∀ rejection, verdict = .error rejection ↔
    ∃ position tag, FirstBad tags position tag ∧ Fault position tag rejection

/-- A list is refused if it is too long, whatever it holds, and else for its first bad tag,
whatever stands behind that. -/
theorem check_reports_first_bad :
    (∀ tags, Judged tags (check tags)) ∧
      ∀ before tag after after', ¬ SafeText 50 tag → (before ++ tag :: after).length ≤ 20 →
        (before ++ tag :: after').length ≤ 20 →
          check (before ++ tag :: after) = check (before ++ tag :: after') := by
  have few {tags : List String} (short : tags.length ≤ 20) : check tags = checkFrom 1 tags :=
    if_neg (Nat.not_lt.mpr short)
  refine ⟨fun tags => ⟨fun many => if_pos many, fun short => ?_, fun short rejection => ?_⟩, ?_⟩
  · rw [few short, checkFrom_eq_ok_iff]
  · rw [few short, checkFrom_eq_error_iff]
    constructor
    · rintro ⟨before, tag, after, split, good, fault⟩
      rw [Nat.add_comm] at fault
      exact ⟨_, tag, ⟨before, after, split, rfl, good, fault.not_safeText⟩, fault⟩
    · rintro ⟨_, tag, ⟨before, after, split, rfl, good, -⟩, fault⟩
      rw [Nat.add_comm] at fault
      exact ⟨before, tag, after, split, good, fault⟩
  · intro before tag after after' bad short short'
    rw [few short, few short', checkFrom_of_bad bad]

end TokenIntake.Tags
