import TokenIntake.Text.Utf8

/-!
# Decoding undoes encoding

The decoder of UTF-8 accepts exactly the encodings, and each of them as the text that
it encodes. Both directions go through the bytes of one character, which are described
by their values, one shape for every length.
-/

namespace TokenIntake.Utf8

theorem scalar?_eq_some_iff {least value : Nat} {c : Char} :
    scalar? least value = some c ↔ c.toNat = value ∧ least ≤ value := by
  unfold scalar?
  constructor
  · intro h
    by_cases valid : value.isValidChar
    · rw [dif_pos valid] at h
      by_cases enough : least ≤ value
      · rw [if_pos enough] at h
        cases h
        exact ⟨rfl, enough⟩
      · rw [if_neg enough] at h
        cases h
    · rw [dif_neg valid] at h
      cases h
  · rintro ⟨rfl, enough⟩
    have valid : c.toNat.isValidChar := c.valid
    rw [dif_pos valid, if_pos enough]
    rfl

/-- A continuation byte. -/
def IsTail (byte : UInt8) : Prop := 0x80 ≤ byte.toNat ∧ byte.toNat < 0xC0

theorem continuation?_eq_some_iff {byte : UInt8} {n : Nat} :
    continuation? byte = some n ↔ byte.toNat = n + 0x80 ∧ n < 0x40 := by
  unfold continuation?
  split
  next inside =>
    rw [Option.some.injEq]
    omega
  next outside =>
    simp only [reduceCtorEq, false_iff]
    omega

private theorem toNat_lt (c : Char) : c.toNat < 0x110000 := by
  have valid : c.toNat.isValidChar := c.valid
  simp only [Nat.isValidChar] at valid
  omega

/-- The bytes of a character by their values, one case for every length. -/
inductive Encodes (c : Char) : List UInt8 → Prop
  | one {a : UInt8} (first : a.toNat = c.toNat) (small : c.toNat < 0x80) : Encodes c [a]
  | two {a b : UInt8} (first : a.toNat = c.toNat / 0x40 + 0xC0)
      (second : b.toNat = c.toNat % 0x40 + 0x80)
      (low : 0x80 ≤ c.toNat) (high : c.toNat < 0x800) : Encodes c [a, b]
  | three {a b d : UInt8} (first : a.toNat = c.toNat / 0x1000 + 0xE0)
      (second : b.toNat = c.toNat / 0x40 % 0x40 + 0x80) (third : d.toNat = c.toNat % 0x40 + 0x80)
      (low : 0x800 ≤ c.toNat) (high : c.toNat < 0x10000) : Encodes c [a, b, d]
  | four {a b d e : UInt8} (first : a.toNat = c.toNat / 0x40000 + 0xF0)
      (second : b.toNat = c.toNat / 0x1000 % 0x40 + 0x80)
      (third : d.toNat = c.toNat / 0x40 % 0x40 + 0x80) (fourth : e.toNat = c.toNat % 0x40 + 0x80)
      (low : 0x10000 ≤ c.toNat) : Encodes c [a, b, d, e]

theorem encodes_encodeChar (c : Char) : Encodes c (String.utf8EncodeChar c) := by
  have bound := toNat_lt c
  unfold String.utf8EncodeChar
  simp only [show c.val.toNat = c.toNat from rfl]
  -- The encoder tests the bounds of the four cases in the same order.
  split
  next => exact .one (by simp; omega) (by omega)
  next =>
    split
    next => exact .two (by simp; omega) (by simp; omega) (by omega) (by omega)
    next =>
      split
      next => exact .three (by simp; omega) (by simp; omega) (by simp; omega) (by omega) (by omega)
      next =>
        exact .four (by simp; omega) (by simp; omega) (by simp; omega) (by simp; omega) (by omega)

/-- A character has only one encoding. -/
theorem Encodes.eq {c : Char} {bytes more : List UInt8} (h : Encodes c bytes)
    (h' : Encodes c more) : bytes = more := by
  -- The ranges of the four cases are disjoint, so both encodings are of the same case.
  cases h <;> cases h' <;> first | omega | skip
  all_goals simp only [List.cons.injEq, and_true, ← UInt8.toNat_inj]; omega

/-- The first byte starts a character, and those behind it continue one. -/
theorem Encodes.shape {c : Char} {bytes : List UInt8} (h : Encodes c bytes) :
    ∃ first rest, bytes = first :: rest ∧ ¬ IsTail first ∧ (∀ byte ∈ rest, IsTail byte) ∧
      (rest = [] ∧ first.toNat = c.toNat ∨ 0x80 ≤ c.toNat ∧ 0x80 ≤ first.toNat) := by
  have bound := toNat_lt c
  cases h with
  | @one a => exact ⟨a, [], rfl, by unfold IsTail; omega, by simp, .inl ⟨rfl, by omega⟩⟩
  | @two a b => exact ⟨a, [b], rfl, by unfold IsTail; omega, by simp [IsTail]; omega, by omega⟩
  | @three a b d =>
    exact ⟨a, [b, d], rfl, by unfold IsTail; omega, by simp [IsTail]; omega, by omega⟩
  | @four a b d e =>
    exact ⟨a, [b, d, e], rfl, by unfold IsTail; omega, by simp [IsTail]; omega, by omega⟩

/-- What stands in front of a text is decoded without a look at the text. -/
theorem decode_append {c : Char} {bytes : List UInt8} (h : Encodes c bytes) (rest : List UInt8) :
    decode (bytes ++ rest) = (decode rest).map (c :: ·) := by
  have bound := toNat_lt c
  have self {least value : Nat} (enough : least ≤ value) (same : c.toNat = value) :
      scalar? least value = some c := scalar?_eq_some_iff.mpr ⟨same, enough⟩
  have tail {byte : UInt8} {n : Nat} (h : byte.toNat = n % 0x40 + 0x80) :
      continuation? byte = some (n % 0x40) :=
    continuation?_eq_some_iff.mpr ⟨h, Nat.mod_lt n (by decide)⟩
  -- In every case the first byte fails the tests for the shorter encodings and passes its own.
  cases h with
  | @one a first small =>
    have lead : a.toNat < 0x80 := by omega
    rw [List.cons_append, List.nil_append, decode.eq_def]
    simp only [lead, if_true, self (Nat.zero_le _) first.symm]
    cases decode rest <;> rfl
  | @two a b first second low high =>
    have notOne : ¬ a.toNat < 0x80 := by omega
    have notTail : ¬ a.toNat < 0xC0 := by omega
    have lead : a.toNat < 0xE0 := by omega
    simp only [List.cons_append, List.nil_append, decode, notOne, notTail, lead, if_true, if_false,
      tail second, Option.bind_eq_bind, Option.bind_some]
    rw [self (by omega) (by omega)]
    cases decode rest <;> rfl
  | @three a b d first second third low high =>
    have notOne : ¬ a.toNat < 0x80 := by omega
    have notTail : ¬ a.toNat < 0xC0 := by omega
    have notTwo : ¬ a.toNat < 0xE0 := by omega
    have lead : a.toNat < 0xF0 := by omega
    simp only [List.cons_append, List.nil_append, decode, notOne, notTail, notTwo, lead, if_true,
      if_false, tail second, tail third, Option.bind_eq_bind, Option.bind_some]
    rw [self (by omega) (by omega)]
    cases decode rest <;> rfl
  | @four a b d e first second third fourth low =>
    have notOne : ¬ a.toNat < 0x80 := by omega
    have notTail : ¬ a.toNat < 0xC0 := by omega
    have notTwo : ¬ a.toNat < 0xE0 := by omega
    have notThree : ¬ a.toNat < 0xF0 := by omega
    have lead : a.toNat < 0xF8 := by omega
    simp only [List.cons_append, List.nil_append, decode, notOne, notTail, notTwo, notThree, lead,
      if_true, if_false, tail second, tail third, tail fourth, Option.bind_eq_bind,
      Option.bind_some]
    rw [self (by omega) (by omega)]
    cases decode rest <;> rfl

/-- What is decoded starts with the bytes of a character. -/
theorem exists_of_decode_cons {first : UInt8} {bytes : List UInt8} {text : List Char}
    (h : decode (first :: bytes) = some text) :
    ∃ c front rest, first :: bytes = front ++ rest ∧ Encodes c front := by
  rw [decode.eq_def] at h
  simp only at h
  -- The first byte decides how many bytes belong to the character.
  split at h
  next small =>
    obtain ⟨c, hc, -⟩ := Option.bind_eq_some_iff.mp h
    obtain ⟨same, -⟩ := scalar?_eq_some_iff.mp hc
    exact ⟨c, [first], bytes, rfl, .one same.symm (by omega)⟩
  split at h
  next => cases h
  split at h
  next =>
    split at h
    next b rest =>
      obtain ⟨m, hm, h⟩ := Option.bind_eq_some_iff.mp h
      obtain ⟨c, hc, -⟩ := Option.bind_eq_some_iff.mp h
      obtain ⟨same, low⟩ := scalar?_eq_some_iff.mp hc
      obtain ⟨second, small⟩ := continuation?_eq_some_iff.mp hm
      exact ⟨c, [first, b], rest, rfl, .two (by omega) (by omega) (by omega) (by omega)⟩
    next => cases h
  split at h
  next =>
    split at h
    next b d rest =>
      obtain ⟨m, hm, h⟩ := Option.bind_eq_some_iff.mp h
      obtain ⟨n, hn, h⟩ := Option.bind_eq_some_iff.mp h
      obtain ⟨c, hc, -⟩ := Option.bind_eq_some_iff.mp h
      obtain ⟨same, low⟩ := scalar?_eq_some_iff.mp hc
      obtain ⟨second, small⟩ := continuation?_eq_some_iff.mp hm
      obtain ⟨third, small'⟩ := continuation?_eq_some_iff.mp hn
      exact ⟨c, [first, b, d], rest, rfl,
        .three (by omega) (by omega) (by omega) (by omega) (by omega)⟩
    next => cases h
  split at h
  next =>
    split at h
    next b d e rest =>
      obtain ⟨m, hm, h⟩ := Option.bind_eq_some_iff.mp h
      obtain ⟨n, hn, h⟩ := Option.bind_eq_some_iff.mp h
      obtain ⟨k, hk, h⟩ := Option.bind_eq_some_iff.mp h
      obtain ⟨c, hc, -⟩ := Option.bind_eq_some_iff.mp h
      obtain ⟨same, low⟩ := scalar?_eq_some_iff.mp hc
      obtain ⟨second, small⟩ := continuation?_eq_some_iff.mp hm
      obtain ⟨third, small'⟩ := continuation?_eq_some_iff.mp hn
      obtain ⟨fourth, small''⟩ := continuation?_eq_some_iff.mp hk
      exact ⟨c, [first, b, d, e], rest, rfl,
        .four (by omega) (by omega) (by omega) (by omega) (by omega)⟩
    next => cases h
  next => cases h

@[simp] theorem decode_encode (text : List Char) : decode (encode text) = some text := by
  induction text with
  | nil => rfl
  | cons c text ih =>
    rw [encode, List.flatMap_cons, decode_append (encodes_encodeChar c)]
    change Option.map _ (decode (encode text)) = _
    rw [ih]
    rfl

/-- The decoder reads a text only from its encoding. -/
theorem encode_of_decode {bytes : List UInt8} {text : List Char} (h : decode bytes = some text) :
    encode text = bytes := by
  -- A character takes up to four bytes, so the induction is on the number of bytes.
  induction length : bytes.length using Nat.strongRecOn generalizing bytes text with
  | ind size ih =>
    cases bytes with
    | nil => cases h; rfl
    | cons first bytes =>
      obtain ⟨c, front, rest, split, encodes⟩ := exists_of_decode_cons h
      rw [split, decode_append encodes] at h
      obtain ⟨text, decoded, rfl⟩ := Option.map_eq_some_iff.mp h
      have shorter : rest.length < size := by
        obtain ⟨_, _, rfl, -⟩ := encodes.shape
        rw [← length, split, List.length_append, List.length_cons]
        omega
      rw [split, encode, List.flatMap_cons, encodes.eq (encodes_encodeChar c)]
      exact congrArg _ (ih _ shorter decoded rfl)

theorem decode_eq_some_iff {bytes : List UInt8} {text : List Char} :
    decode bytes = some text ↔ encode text = bytes :=
  ⟨encode_of_decode, fun h => h ▸ decode_encode text⟩

theorem decodeString_eq_some_iff {bytes : List UInt8} {text : String} :
    decodeString bytes = some text ↔ ofString text = bytes := by
  rw [decodeString, ofString, Option.map_eq_some_iff, ← decode_eq_some_iff]
  constructor
  · rintro ⟨characters, decoded, rfl⟩
    simpa using decoded
  · exact fun decoded => ⟨text.toList, decoded, String.ofList_toList⟩

theorem encode_append (front back : List Char) :
    encode (front ++ back) = encode front ++ encode back :=
  List.flatMap_append

theorem encode_cons (c : Char) (text : List Char) :
    encode (c :: text) = String.utf8EncodeChar c ++ encode text :=
  List.flatMap_cons

/-- A character of seven bits is its own byte. -/
theorem encodeChar_of_lt {c : Char} (small : c.toNat < 0x80) :
    String.utf8EncodeChar c = [UInt8.ofNat c.toNat] :=
  (encodes_encodeChar c).eq (.one (by simp; omega) small)

/-- A text of seven-bit characters has a byte for each. -/
theorem length_encode_of_lt {text : List Char} (small : ∀ c ∈ text, c.toNat < 0x80) :
    (encode text).length = text.length := by
  induction text with
  | nil => rfl
  | cons c text ih =>
    obtain ⟨first, rest⟩ := List.forall_mem_cons.mp small
    rw [encode_cons, encodeChar_of_lt first, List.singleton_append, List.length_cons, ih rest,
      List.length_cons]

/-- The bytes of seven-bit characters are these characters. -/
theorem map_encode_of_lt {text : List Char} (small : ∀ c ∈ text, c.toNat < 0x80) :
    (encode text).map (fun byte => Char.ofNat byte.toNat) = text := by
  induction text with
  | nil => rfl
  | cons c text ih =>
    obtain ⟨first, rest⟩ := List.forall_mem_cons.mp small
    have byte : (UInt8.ofNat c.toNat).toNat = c.toNat :=
      UInt8.toNat_ofNat_of_lt' (Nat.lt_trans first (by decide))
    rw [encode_cons, encodeChar_of_lt first, List.singleton_append, List.map_cons, byte,
      Char.ofNat_toNat, ih rest]

/-! ## Order -/

/-- A lesser character has lesser bytes, whatever stands behind both. -/
theorem Encodes.append_lt {c d : Char} {bytes bytes' : List UInt8} (h : Encodes c bytes)
    (h' : Encodes d bytes') (less : c.toNat < d.toNat) (rest rest' : List UInt8) :
    bytes ++ rest < bytes' ++ rest' := by
  have bound := toNat_lt d
  -- A longer encoding has a greater first byte; equal lengths differ where the characters do.
  cases h <;> cases h' <;>
    simp only [List.cons_append, List.nil_append, List.cons_lt_cons_iff, UInt8.lt_iff_toNat_lt,
      ← UInt8.toNat_inj] <;> omega

private theorem encode_lt_encode {text other : List Char} (less : text < other) :
    encode text < encode other := by
  induction text generalizing other with
  | nil =>
    cases other with
    | nil => exact absurd less (List.lt_irrefl _)
    | cons d other =>
      obtain ⟨first, rest, bytes, -⟩ := (encodes_encodeChar d).shape
      rw [encode_cons, bytes]
      exact List.nil_lt_cons ..
  | cons c text ih =>
    cases other with
    | nil => exact absurd less (List.not_lt_nil _)
    | cons d other =>
      rw [encode_cons, encode_cons]
      obtain before | ⟨rfl, behind⟩ := List.cons_lt_cons_iff.mp less
      · exact (encodes_encodeChar c).append_lt (encodes_encodeChar d) before _ _
      · exact List.append_left_lt (ih behind)

/-- Texts stand in the order of their bytes. -/
theorem ofString_le_iff {text other : String} :
    ofString text ≤ ofString other ↔ text ≤ other := by
  constructor
  · intro before
    refine String.not_lt.mp fun less => ?_
    exact List.not_lt.mpr before (encode_lt_encode less)
  · intro before
    by_cases same : text = other
    · subst same
      exact List.le_refl _
    · have less : text < other :=
        String.not_le.mp fun after => same (String.le_antisymm before after)
      exact List.le_of_lt (encode_lt_encode less)

end TokenIntake.Utf8
