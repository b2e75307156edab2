import TokenIntake.Proofs.FieldRules

/-!
# Hashes and public keys as bytes

Pairs of hexadecimal digits stand for bytes, and nothing but the case of the letters is lost when
they are read. The check of a hash or a public key and the reading of its bytes refuse the same
texts in the same words, so behind the check the reader of the pairs never fails.
-/

namespace TokenIntake

namespace Hex

/-! ## Digits -/

private theorem lt_of_digit? {c : Char} {d : Nat} (read : digit? c = some d) : d < 16 := by
  unfold digit? at read
  dsimp only at read
  split at read
  next => cases read; omega
  split at read
  next => cases read; omega
  split at read
  next => cases read; omega
  next => cases read

private theorem toNat_lt_of_toLower {c : Char} (low : c.toLower.toNat < 128) : c.toNat < 128 := by
  unfold Char.toLower at low
  split at low
  next upper => exact toNat_lt_of_le upper.2 (by decide)
  next => exact low

/-- The digits of a number are those whose lower case is the one that is written. -/
theorem digit?_eq_some_iff {c : Char} {d : Nat} (small : d < 16) :
    digit? c = some d ↔ c.toLower = Nat.digitChar d := by
  apply ascii_iff (p := (digit? · = some d)) (q := (·.toLower = Nat.digitChar d))
  · -- Below 128 the two are compared character by character.
    have all : ∀ n < 128, ∀ d < 16,
        (digit? (Char.ofNat n) = some d ↔ (Char.ofNat n).toLower = Nat.digitChar d) := by
      decide +kernel
    exact fun n low => all n low d small
  · intro read
    exact hex_lt c (hexIsDigit_iff.mp (Option.isSome_iff_exists.mpr ⟨d, read⟩))
  · intro lower
    have low : ∀ d < 16, (Nat.digitChar d).toNat < 128 := by decide
    apply toNat_lt_of_toLower
    rw [lower]
    exact low d small

/-! ## Pairs -/

/-- The halves of a byte are the numbers of its two digits. -/
theorem ofNat_halves_iff {high low : Nat} {byte : UInt8} (small : high < 16) (small' : low < 16) :
    UInt8.ofNat (16 * high + low) = byte ↔ high = byte.toNat / 16 ∧ low = byte.toNat % 16 := by
  have fits : 16 * high + low < 2 ^ 8 := by omega
  rw [← UInt8.toNat_inj, UInt8.toNat_ofNat_of_lt' fits]
  omega

private theorem encode_cons (byte : UInt8) (bytes : List UInt8) :
    encode (byte :: bytes) =
      Nat.digitChar (byte.toNat / 16) :: Nat.digitChar (byte.toNat % 16) :: encode bytes := rfl

theorem length_encode (bytes : List UInt8) : (encode bytes).length = 2 * bytes.length := by
  induction bytes with
  | nil => rfl
  | cons byte bytes ih =>
    rw [encode_cons, List.length_cons, List.length_cons, List.length_cons, ih]
    omega

private theorem exists_of_mem_encode {bytes : List UInt8} {c : Char} (found : c ∈ encode bytes) :
    ∃ d < 16, c = Nat.digitChar d := by
  obtain ⟨byte, -, found⟩ := List.mem_flatMap.mp found
  have bound := byte.toNat_lt
  rcases List.mem_pair.mp found with rfl | rfl
  · exact ⟨_, by omega, rfl⟩
  · exact ⟨_, by omega, rfl⟩

theorem digitAt_eq_ok_iff (place : Nat) {d : Nat} {c : Char} :
    digitAt place c = .ok d ↔ digit? c = some d := by
  unfold digitAt
  cases digit? c <;> simp

/-- What is read is the text in lower case. -/
private theorem encode_of_pairs : {place : Nat} → {text : List Char} → {bytes : List UInt8} →
    text.length % 2 = 0 → pairs place text = .ok bytes → encode bytes = text.map Char.toLower
  | _, [], _, _, read => by
    cases read
    rfl
  | _, [_], _, odd, _ => by simp at odd
  | place, high :: low :: text, bytes, even, read => by
    have evenRest : text.length % 2 = 0 := by
      rw [List.length_cons, List.length_cons] at even
      omega
    rw [pairs] at read
    obtain ⟨h, first, read⟩ := bind_eq_ok_iff.mp read
    obtain ⟨l, second, read⟩ := bind_eq_ok_iff.mp read
    obtain ⟨rest, third, read⟩ := bind_eq_ok_iff.mp read
    cases read
    have digit := (digitAt_eq_ok_iff _).mp first
    have digit' := (digitAt_eq_ok_iff _).mp second
    have small := lt_of_digit? digit
    have small' := lt_of_digit? digit'
    -- The byte that was put together falls into the two numbers it was made of.
    obtain ⟨halfHigh, halfLow⟩ := (ofNat_halves_iff small small').mp rfl
    rw [encode_cons, ← halfHigh, ← halfLow, encode_of_pairs evenRest third,
      ← (digit?_eq_some_iff small).mp digit, ← (digit?_eq_some_iff small').mp digit',
      List.map_cons, List.map_cons]

/-- The text of the bytes is read as these, whatever the case of its letters. -/
private theorem pairs_of_toLower {place : Nat} {text : List Char} {bytes : List UInt8}
    (lower : text.map Char.toLower = encode bytes) : pairs place text = .ok bytes := by
  induction bytes generalizing place text with
  | nil =>
    obtain rfl := List.map_eq_nil_iff.mp lower
    rfl
  | cons byte bytes ih =>
    have bound := byte.toNat_lt
    rw [encode_cons] at lower
    obtain ⟨high, text, rfl, first, lower⟩ := List.map_eq_cons_iff.mp lower
    obtain ⟨low, text, rfl, second, lower⟩ := List.map_eq_cons_iff.mp lower
    have whole : UInt8.ofNat (16 * (byte.toNat / 16) + byte.toNat % 16) = byte :=
      (ofNat_halves_iff (by omega) (by omega)).mpr ⟨rfl, rfl⟩
    have digit := (digitAt_eq_ok_iff place).mpr
      ((digit?_eq_some_iff (by omega)).mpr first)
    have digit' := (digitAt_eq_ok_iff (place + 1)).mpr
      ((digit?_eq_some_iff (by omega)).mpr second)
    rw [pairs, digit, digit', ih lower]
    exact congrArg (fun byte => Except.ok (byte :: bytes)) whole

theorem decode_eq_some_iff {text : List Char} {bytes : List UInt8} :
    decode text = some bytes ↔ text.map Char.toLower = encode bytes := by
  unfold decode
  constructor
  · intro read
    split at read
    next => cases read
    next even =>
      cases found : pairs 0 text with
      | error => rw [found] at read; cases read
      | ok =>
        rw [found] at read
        cases read
        exact (encode_of_pairs (Decidable.not_not.mp even) found).symm
  · intro lower
    have even : ¬ text.length % 2 ≠ 0 := by
      rw [← List.length_map Char.toLower, lower, length_encode]
      omega
    rw [if_neg even, pairs_of_toLower lower]
    rfl

private theorem hexText_of_toLower {text : String} {bytes : List UInt8}
    (lower : text.toList.map Char.toLower = encode bytes) : HexText (2 * bytes.length) text := by
  constructor
  · rw [← length_encode, ← lower, List.length_map]
  · intro c found
    have written : c.toLower ∈ encode bytes := lower ▸ List.mem_map_of_mem found
    obtain ⟨d, small, digit⟩ := exists_of_mem_encode written
    have read := (digit?_eq_some_iff small).mpr digit
    exact hexIsDigit_iff.mp (Option.isSome_iff_exists.mpr ⟨d, read⟩)

/-! ## Letters of either case -/

/-- The text with each of its letters in lower case or as a capital. -/
def AnyCase (lower text : List Char) : Prop :=
  List.Forall₂ (fun c d => d = c ∨ d = c.toUpper) lower text

theorem AnyCase.map_toLower {lower text : List Char} (h : AnyCase lower text)
    (digit : ∀ c ∈ lower, ∃ d < 16, c = Nat.digitChar d) : text.map Char.toLower = lower := by
  have same : ∀ d < 16, (Nat.digitChar d).toLower = Nat.digitChar d ∧
      (Nat.digitChar d).toUpper.toLower = Nat.digitChar d := by decide
  induction h with
  | nil => rfl
  | cons either rest ih =>
    obtain ⟨⟨d, small, rfl⟩, others⟩ := List.forall_mem_cons.mp digit
    rw [List.map_cons, ih others]
    rcases either with rfl | rfl
    · rw [(same d small).1]
    · rw [(same d small).2]

end Hex

/-! ## Reasons to refuse a text -/

namespace HexFault

variable {count : Nat} {field text : String} {wrongSize : Rejection}

/-- The reasons exclude each other. -/
theorem unique {rejection other : Rejection} (fault : HexFault count field wrongSize text rejection)
    (fault' : HexFault count field wrongSize text other) : rejection = other := by
  cases fault with
  | missing empty =>
    cases fault' with
    | missing => rfl
    | size present => exact absurd empty present
    | digit sized found =>
      rw [empty] at found
      cases found
  | size present wrong =>
    cases fault' with
    | missing empty => exact absurd empty present
    | size => rfl
    | digit sized => exact absurd sized wrong
  | digit sized found =>
    cases fault' with
    | missing empty =>
      rw [empty] at found
      cases found
    | size present wrong => exact absurd sized wrong
    | digit => rfl

theorem required_iff (noRequired : wrongSize ≠ .required field) :
    HexFault count field wrongSize text (.required field) ↔ text = "" := by
  constructor
  · intro fault
    cases fault with
    | missing empty => exact empty
    | size => exact absurd rfl noRequired
  · exact .missing

theorem wrongSize_iff (noRequired : wrongSize ≠ .required field)
    (noNotHex : wrongSize ≠ .notHex field) :
    HexFault count field wrongSize text wrongSize ↔ text ≠ "" ∧ text.utf8ByteSize ≠ count := by
  constructor
  · intro fault
    cases fault with
    | missing => exact absurd rfl noRequired
    | size present wrong => exact ⟨present, wrong⟩
    | digit => exact absurd rfl noNotHex
  · rintro ⟨present, wrong⟩
    exact .size present wrong

theorem notHex_iff (noNotHex : wrongSize ≠ .notHex field) :
    HexFault count field wrongSize text (.notHex field) ↔
      text.utf8ByteSize = count ∧ ∃ c ∈ text.toList, c ∉ hexAlphabet := by
  constructor
  · intro fault
    cases fault with
    | size => exact absurd rfl noNotHex
    | digit sized found noDigit => exact ⟨sized, _, found, noDigit⟩
  · rintro ⟨sized, c, found, noDigit⟩
    exact .digit sized found noDigit

end HexFault

/-! ## Checks and readers -/

/-- What the check of a text of digits and the reader of its bytes answer. -/
inductive HexJudged (count : Nat) (field : String) (wrongSize : Rejection) (text : String) :
    Verdict → Except Rejection (List UInt8) → Prop
  | accepted {bytes : List UInt8} (hex : HexText count text)
    (read : Hex.decode text.toList = some bytes) :
    HexJudged count field wrongSize text (.ok ()) (.ok bytes)
  | refused {rejection : Rejection} (fault : HexFault count field wrongSize text rejection) :
    HexJudged count field wrongSize text (.error rejection) (.error rejection)

theorem Hash.judged (hash : String) :
    HexJudged 64 "hash" .hashLength hash (Hash.check hash) (Hash.decode hash) := by
  unfold Hash.decode
  rw [Hash.check_eq]
  obtain ⟨hex, checked⟩ | ⟨rejection, fault, checked⟩ :=
    hexChecked_cases 64 "hash" .hashLength hash (.ok ())
  · -- The tests leave nothing that the reader of the pairs could refuse.
    obtain ⟨bytes, filled, read, -⟩ := Hex.exists_decodeToSlice 32 hex
    rw [checked, filled]
    exact .accepted hex read
  · rw [checked]
    exact .refused fault

theorem PublicKey.judged (key : String) :
    HexJudged 66 "public key" .publicKeyLength key (PublicKey.check key) (PublicKey.decode key) := by
  unfold PublicKey.check
  rw [PublicKey.decode_eq]
  obtain ⟨hex, checked⟩ | ⟨rejection, fault, checked⟩ :=
    hexChecked_cases 66 "public key" .publicKeyLength key _
  · obtain ⟨bytes, filled, read, -⟩ := Hex.exists_decodeToSlice 33 hex
    rw [checked, filled]
    exact .accepted hex read
  · rw [checked]
    exact .refused fault

namespace HexJudged

variable {count : Nat} {field text : String} {wrongSize : Rejection} {verdict : Verdict}
  {answer : Except Rejection (List UInt8)}

theorem answer_eq_ok_iff (judged : HexJudged count field wrongSize text verdict answer)
    (positive : 0 < count) {bytes : List UInt8} :
    answer = .ok bytes ↔ HexText count text ∧ Hex.decode text.toList = some bytes := by
  cases judged with
  | accepted hex read => simp [hex, read]
  | refused fault => simp [fault.not_hexText positive]

theorem verdict_eq_error_iff (judged : HexJudged count field wrongSize text verdict answer)
    (positive : 0 < count) {rejection : Rejection} :
    verdict = .error rejection ↔ HexFault count field wrongSize text rejection := by
  cases judged with
  | accepted hex read =>
    exact iff_of_false nofun fun fault => fault.not_hexText positive hex
  | refused fault =>
    constructor
    · rintro ⟨⟩
      exact fault
    · intro fault'
      rw [fault.unique fault']

end HexJudged

/-! ## Bytes of hashes and public keys -/

/-- The reader takes the text of that many bytes with its letters in either case, and loses nothing
of a text but the case of its letters. -/
structure ReadsText (size : Nat) (decode : String → Except Rejection (List UInt8)) : Prop where
  reads : ∀ bytes text, bytes.length = size → Hex.AnyCase (Hex.encode bytes) text.toList →
    text.toList.length = 2 * size ∧ decode text = .ok bytes
  keeps : ∀ text bytes, decode text = .ok bytes →
    bytes.length = size ∧ Hex.encode bytes = text.toList.map Char.toLower
  same_iff : ∀ text text' bytes bytes', decode text = .ok bytes → decode text' = .ok bytes' →
    (bytes = bytes' ↔ text.toList.map Char.toLower = text'.toList.map Char.toLower)

theorem HexJudged.readsText {size : Nat} {field : String} {wrongSize : Rejection}
    {check : String → Verdict} {decode : String → Except Rejection (List UInt8)}
    (judged : ∀ text, HexJudged (2 * size) field wrongSize text (check text) (decode text))
    (positive : 0 < size) : ReadsText size decode := by
  have answers {text : String} {bytes : List UInt8} : decode text = .ok bytes ↔
      HexText (2 * size) text ∧ text.toList.map Char.toLower = Hex.encode bytes := by
    rw [(judged text).answer_eq_ok_iff (Nat.mul_pos (by decide) positive), Hex.decode_eq_some_iff]
  refine ⟨fun bytes text sized either => ?_, fun text bytes read => ?_, ?_⟩
  · have lower := either.map_toLower fun c => Hex.exists_of_mem_encode
    have hex := Hex.hexText_of_toLower lower
    rw [sized] at hex
    exact ⟨hex.1, answers.mpr ⟨hex, lower⟩⟩
  · obtain ⟨hex, lower⟩ := answers.mp read
    have paired : 2 * bytes.length = 2 * size := by
      rw [← Hex.length_encode, ← lower, List.length_map, hex.1]
    exact ⟨by omega, lower.symm⟩
  · intro text text' bytes bytes' read read'
    obtain ⟨-, lower⟩ := answers.mp read
    obtain ⟨-, lower'⟩ := answers.mp read'
    constructor
    · rintro rfl
      exact lower.trans lower'.symm
    · -- The first text is one of the second bytes as well, and is read as one list only.
      intro same
      have again := Hex.decode_eq_some_iff.mpr (same.trans lower')
      exact Option.some.inj ((Hex.decode_eq_some_iff.mpr lower).symm.trans again)

/-- Hashes and public keys are read as the bytes whose text they are. -/
theorem digests_read_their_text : ReadsText 32 Hash.decode ∧ ReadsText 33 PublicKey.decode :=
  ⟨HexJudged.readsText Hash.judged (by decide), HexJudged.readsText PublicKey.judged (by decide)⟩

/-! ## Agreement of checks and readers -/

/-- The check and the reader accept the same texts and refuse the others with the same rejection,
which tells what is wrong with the text. -/
structure JudgedAlike (count : Nat) (field : String) (wrongSize : Rejection) (text : String)
    (verdict : Verdict) (answer : Except Rejection (List UInt8)) : Prop where
  accepted_iff : verdict = .ok () ↔ ∃ bytes, answer = .ok bytes
  refused_iff : ∀ rejection, verdict = .error rejection ↔ answer = .error rejection
  required_iff : verdict = .error (.required field) ↔ text = ""
  wrongSize_iff : verdict = .error wrongSize ↔ text ≠ "" ∧ text.utf8ByteSize ≠ count
  notHex_iff : verdict = .error (.notHex field) ↔
    text.utf8ByteSize = count ∧ ∃ c ∈ text.toList, c ∉ hexAlphabet
  noOther : ∀ rejection, verdict = .error rejection →
    rejection ∈ [.required field, wrongSize, .notHex field]

theorem HexJudged.judgedAlike {count : Nat} {field text : String} {wrongSize : Rejection}
    {verdict : Verdict} {answer : Except Rejection (List UInt8)}
    (judged : HexJudged count field wrongSize text verdict answer) (positive : 0 < count)
    (noRequired : wrongSize ≠ .required field) (noNotHex : wrongSize ≠ .notHex field) :
    JudgedAlike count field wrongSize text verdict answer := by
  have refused {rejection : Rejection} : verdict = .error rejection ↔
      HexFault count field wrongSize text rejection := judged.verdict_eq_error_iff positive
  refine ⟨?_, ?_, refused.trans (HexFault.required_iff noRequired),
    refused.trans (HexFault.wrongSize_iff noRequired noNotHex),
    refused.trans (HexFault.notHex_iff noNotHex), fun rejection error => ?_⟩
  · cases judged <;> simp
  · cases judged <;> simp
  · cases refused.mp error <;> simp

/-- A hash or a public key is checked and read with one verdict. The reader of the pairs, which
comes last, never fails and fills its slice, so a public key is never refused by it. -/
theorem digests_judged_alike (text : String) :
    JudgedAlike 64 "hash" .hashLength text (Hash.check text) (Hash.decode text) ∧
    JudgedAlike 66 "public key" .publicKeyLength text (PublicKey.check text)
      (PublicKey.decode text) ∧
    (∀ detail, PublicKey.check text ≠ .error (.undecodableKey detail) ∧
      PublicKey.decode text ≠ .error (.undecodableKey detail)) ∧
    (Hash.check text = .ok () → ∃ bytes, Hex.decodeToSlice 32 (Utf8.ofString text) = .ok bytes ∧
      Hex.decode text.toList = some bytes ∧ bytes.length = 32) ∧
    (PublicKey.check text = .ok () →
      ∃ bytes, Hex.decodeToSlice 33 (Utf8.ofString text) = .ok bytes ∧
        Hex.decode text.toList = some bytes ∧ bytes.length = 33) := by
  have hash := (Hash.judged text).judgedAlike (by decide) (by decide) (by decide)
  have key := (PublicKey.judged text).judgedAlike (by decide) (by decide) (by decide)
  refine ⟨hash, key, fun detail => ?_, fun accepted => ?_, fun accepted => ?_⟩
  · have refused : PublicKey.check text ≠ .error (.undecodableKey detail) := by
      intro error
      have known := key.noOther _ error
      simp at known
    exact ⟨refused, mt (key.refused_iff _).mpr refused⟩
  · exact Hex.exists_decodeToSlice 32 (Hash.check_eq_ok_iff.mp accepted)
  · exact Hex.exists_decodeToSlice 33 (PublicKey.check_eq_ok_iff.mp accepted)

end TokenIntake
