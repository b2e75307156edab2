import TokenIntake.Proofs.Digests
import TokenIntake.Proofs.Listings
import TokenIntake.Proofs.Truncation

/-!
# Raw values past the cap

A filter, a flag and a path segment are what the whole raw value says. The cut never makes
something else of them: a value that it changes is longer than anything that is accepted.
-/

namespace TokenIntake

open QueryValue (clean RefusesLong IsCleaned)

private theorem Hash.exists_decode_of_rule {hash : String} (rule : Hash.Rule hash) :
    ∃ bytes, Hash.decode hash = .ok bytes := by
  obtain ⟨bytes, decoded, -⟩ := Hex.exists_decodeToSlice 32 rule
  refine ⟨bytes, ?_⟩
  rw [Hash.decode, Hash.check_eq_ok_iff.mpr rule, decoded]

namespace Filter

/-- A path segment is what the raw value says, if that is a hash. -/
theorem hashSegment_eq (raw : String) : hashSegment raw = match Hash.check (clean raw) with
    | .ok () => .silent (.ok (clean raw))
    | .error rejection => rejected "hash" rejection := by
  have same := QueryValue.refusesLong_hash.check_sanitize raw
  unfold hashSegment
  dsimp only
  rw [same]
  cases verdict : Hash.check (clean raw) with
  | error rejection => rfl
  | ok => rw [QueryValue.refusesLong_hash.sanitize_eq (same.trans verdict)]

theorem hashSegment_answer_iff {raw hash : String} :
    (hashSegment raw).answer = .ok hash ↔ hash = clean raw ∧ Hash.Rule hash := by
  rw [hashSegment_eq]
  cases verdict : Hash.check (clean raw) with
  | ok =>
    have rule := Hash.check_eq_ok_iff.mp verdict
    constructor
    · rintro ⟨rfl⟩
      exact ⟨rfl, rule⟩
    · rintro ⟨rfl, -⟩
      rfl
  | error rejection =>
    constructor
    · rintro ⟨⟩
    · rintro ⟨rfl, rule⟩
      rw [Hash.check_eq_ok_iff.mpr rule] at verdict
      cases verdict

private theorem refusesLong_of_mem {check : String → Verdict}
    (known : check ∈ [Hash.check, Address.check, PublicKey.check]) : RefusesLong check := by
  simp only [List.mem_cons, List.not_mem_nil, or_false] at known
  rcases known with rfl | rfl | rfl
  · exact QueryValue.refusesLong_hash
  · exact QueryValue.refusesLong_address
  · exact QueryValue.refusesLong_publicKey

section

variable {check : String → Verdict} (long : RefusesLong check) (field raw : String)

include long

theorem optional_answer_iff {value : String} :
    (optional field (some raw) check).answer = .ok (some value) ↔
      value = clean raw ∧ value ≠ "" ∧ check value = .ok () := by
  rw [optional_eq long]
  by_cases empty : clean raw = ""
  · rw [if_pos empty]
    constructor
    · rintro ⟨⟩
    · rintro ⟨rfl, present, -⟩
      exact absurd empty present
  · rw [if_neg empty]
    cases verdict : check (clean raw) with
    | ok =>
      constructor
      · rintro ⟨rfl⟩
        exact ⟨rfl, empty, verdict⟩
      · rintro ⟨rfl, -, -⟩
        rfl
    | error rejection =>
      constructor
      · rintro ⟨⟩
      · rintro ⟨rfl, -, accepted⟩
        cases accepted.symm.trans verdict

/-- A value that says more than the cap allows is refused, and not taken for no filter. -/
private theorem exists_error_of_long (tooLong : 96 < (clean raw).utf8ByteSize) :
    ∃ error, (optional field (some raw) check).answer = .error error := by
  obtain ⟨rejection, refuses⟩ := long
  have present : clean raw ≠ "" := by
    intro empty
    rw [empty] at tooLong
    cases tooLong
  rw [optional_eq ⟨rejection, refuses⟩, if_neg present, refuses _ tooLong]
  exact ⟨_, rfl⟩

end

/-- Flags, path segments and filters are what the whole raw value says, however long it is. -/
theorem filters_take_whole_values (raw : String) :
    (∀ text, IsCleaned raw.toList text ↔ text = (clean raw).toList) ∧
    (flag (some raw) = true ↔ clean raw = "true") ∧
    (∀ hash, (hashSegment raw).answer = .ok hash ↔ hash = clean raw ∧ Hash.Rule hash) ∧
    (∀ hash, (hashSegment raw).answer = .ok hash →
      (∃ bytes, Hash.decode hash = .ok bytes) ∧ (hashSegment hash).answer = .ok hash) ∧
    (∀ check ∈ [Hash.check, Address.check, PublicKey.check], ∀ field value,
      (optional field (some raw) check).answer = .ok (some value) ↔
        value = clean raw ∧ value ≠ "" ∧ check value = .ok ()) ∧
    (100 < (clean raw).utf8ByteSize →
      flag (some raw) = false ∧ (∃ error, (hashSegment raw).answer = .error error) ∧
        ∀ check ∈ [Hash.check, Address.check, PublicKey.check], ∀ field,
          ∃ error, (optional field (some raw) check).answer = .error error) := by
  have set : flag (some raw) = true ↔ clean raw = "true" := by
    simp [flag_iff]
  refine ⟨fun _ => QueryValue.isCleaned_iff, set, fun _ => hashSegment_answer_iff, ?_, ?_, ?_⟩
  · intro hash accepted
    obtain ⟨rfl, rule⟩ := hashSegment_answer_iff.mp accepted
    exact ⟨Hash.exists_decode_of_rule rule,
      hashSegment_answer_iff.mpr ⟨(QueryValue.clean_clean raw).symm, rule⟩⟩
  · intro check known field value
    exact optional_answer_iff (refusesLong_of_mem known) field raw
  · intro tooLong
    have past : 96 < (clean raw).utf8ByteSize := Nat.lt_trans (by decide) tooLong
    refine ⟨?_, ?_, ?_⟩
    · rw [Bool.eq_false_iff, Ne, set]
      intro said
      rw [said] at tooLong
      exact absurd tooLong (by decide)
    · obtain ⟨rejection, refuses⟩ := QueryValue.refusesLong_hash
      rw [hashSegment_eq, refuses _ past]
      exact ⟨_, rfl⟩
    · intro check known field
      exact exists_error_of_long (refusesLong_of_mem known) field raw past

end Filter

end TokenIntake
