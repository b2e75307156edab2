import TokenIntake.Proofs.FieldRules

/-!
# Addresses and their networks

A text is an address of one of the networks, or it is refused for the first of three reasons
that applies: it is empty, it has a length in bytes that no address has, or it has another form.
The limits of length are wider than the form, so they are no part of what an address is; they
only decide which of the two reasons is given. The check of an address, which does not tell the
network, accepts and refuses the same texts with the same reasons.
-/

namespace TokenIntake.Address

/-- Why a text is not an address: the first reason that applies. -/
inductive Fault (text : String) : Rejection → Prop
  | missing (empty : text = "") : Fault text (.required "address")
  | size (present : text ≠ "") (outside : text.utf8ByteSize < 26 ∨ 62 < text.utf8ByteSize) :
    Fault text .addressLength
  | form (present : text ≠ "") (long : 26 ≤ text.utf8ByteSize) (short : text.utf8ByteSize ≤ 62)
    (none : ∀ network, ¬ OfNetwork network text) : Fault text .addressFormat

/-! ## Reasons exclude each other and all addresses -/

namespace Fault

variable {text : String} {rejection other : Rejection}

theorem not_ofNetwork (fault : Fault text rejection) {network : Network} :
    ¬ OfNetwork network text := by
  intro form
  -- An address has 26 to 35 bytes, so the limits of length never refuse one.
  have sized := form.size
  cases fault with
  | missing empty => exact form.ne_empty empty
  | size present outside => omega
  | form present long short none => exact none network form

theorem unique (fault : Fault text rejection) (fault' : Fault text other) :
    rejection = other := by
  cases fault with
  | missing empty =>
    cases fault' with
    | missing => rfl
    | size present => exact absurd empty present
    | form present => exact absurd empty present
  | size present outside =>
    cases fault' with
    | missing empty => exact absurd empty present
    | size => rfl
    | form present long short => omega
  | form present long short none =>
    cases fault' with
    | missing empty => exact absurd empty present
    | size present outside => omega
    | form => rfl

theorem missing_iff : Fault text (.required "address") ↔ text = "" := by
  constructor
  · intro fault
    cases fault with
    | missing empty => exact empty
  · exact .missing

theorem size_iff : Fault text .addressLength ↔
    text ≠ "" ∧ (text.utf8ByteSize < 26 ∨ 62 < text.utf8ByteSize) := by
  constructor
  · intro fault
    cases fault with
    | size present outside => exact ⟨present, outside⟩
  · rintro ⟨present, outside⟩
    exact .size present outside

theorem form_iff : Fault text .addressFormat ↔
    text ≠ "" ∧ 26 ≤ text.utf8ByteSize ∧ text.utf8ByteSize ≤ 62 ∧
      ∀ network, ¬ OfNetwork network text := by
  constructor
  · intro fault
    cases fault with
    | form present long short none => exact ⟨present, long, short, none⟩
  · rintro ⟨present, long, short, none⟩
    exact .form present long short none

end Fault

/-! ## The answer to a text -/

/-- The tests in front of the form stand in the order of the reasons. -/
private theorem fault_of_network {text : String} {rejection : Rejection}
    (refused : network text = .error rejection) : Fault text rejection := by
  have none (net : Network) : ¬ OfNetwork net text := by
    rw [← network_eq_ok_iff, refused]
    exact nofun
  unfold network at refused
  split at refused
  next empty =>
    cases refused
    exact .missing (String.isEmpty_iff.mp empty)
  next notEmpty =>
    have present := mt String.isEmpty_iff.mpr notEmpty
    split at refused
    next outside =>
      cases refused
      exact .size present outside
    next inside =>
      rw [minAddressLength, maxAddressLength] at inside
      split at refused
      · cases refused
      · cases refused
        exact .form present (by omega) (by omega) none

theorem network_eq_error_iff {text : String} {rejection : Rejection} :
    network text = .error rejection ↔ Fault text rejection :=
  eq_error_iff_of_unique (fun _ => fault_of_network)
    (fun _ accepted _ fault => fault.not_ofNetwork (network_eq_ok_iff.mp accepted))
    (fun _ _ => Fault.unique)

theorem check_eq_error_iff {text : String} {rejection : Rejection} :
    check text = .error rejection ↔ network text = .error rejection := by
  rw [check]
  cases network text <;> simp [Except.map]

/-- What is answered to a text given as an address, by the reading of its network and by its
check. -/
structure Classified (text : String) (answer : Except Rejection Network) (verdict : Verdict) :
    Prop where
  accepted_iff : ∀ network, answer = .ok network ↔ OfNetwork network text
  missing_iff : answer = .error (.required "address") ↔ text = ""
  size_iff : answer = .error .addressLength ↔
    text ≠ "" ∧ (text.utf8ByteSize < 26 ∨ 62 < text.utf8ByteSize)
  form_iff : answer = .error .addressFormat ↔
    text ≠ "" ∧ 26 ≤ text.utf8ByteSize ∧ text.utf8ByteSize ≤ 62 ∧
      ∀ network, ¬ OfNetwork network text
  noOther : ∀ rejection, answer = .error rejection →
    rejection ∈ [.required "address", .addressLength, .addressFormat]
  checked_iff : verdict = .ok () ↔ ∃ network, answer = .ok network
  refused_iff : ∀ rejection, verdict = .error rejection ↔ answer = .error rejection
  ascii : ∀ network, answer = .ok network →
    (∀ c ∈ text.toList, c.toNat < 128) ∧ 26 ≤ text.utf8ByteSize ∧ text.utf8ByteSize ≤ 35

/-- Every text is classified by the forms of the two networks and by three reasons to refuse it,
which are told apart in one way only. -/
theorem network_classifies (text : String) : Classified text (network text) (check text) where
  accepted_iff _ := network_eq_ok_iff
  missing_iff := network_eq_error_iff.trans Fault.missing_iff
  size_iff := network_eq_error_iff.trans Fault.size_iff
  form_iff := network_eq_error_iff.trans Fault.form_iff
  noOther rejection refused := by
    cases network_eq_error_iff.mp refused <;> simp
  checked_iff := by
    rw [check_eq_ok_iff, rule_iff_exists_network]
    exact exists_congr fun _ => network_eq_ok_iff.symm
  refused_iff _ := check_eq_error_iff
  ascii _ accepted :=
    have form := network_eq_ok_iff.mp accepted
    ⟨form.ascii, form.size⟩

/-- A line feed behind an address belongs to the text, and to no alphabet. -/
example : network? "D7P2jVEK6JGiGepUGTAHqELKK8QJ8GCahZ\n".toList = none := by decide +kernel

end TokenIntake.Address
