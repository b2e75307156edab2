import Mathlib.Data.List.Forall2
import TokenIntake.Proofs.FieldRules

/-!
# Lengths of texts given as bytes

The bytes of a character fall into one of nine rows of ranges: the first byte tells how many
others follow, and the ranges of the second one leave out longer forms than needed, surrogates
and values above `10FFFF`. A sequence is the encoding of a text exactly if it falls apart into
such rows, and then into as many as the text has characters. Its length is judged by their
number, and no other sequence is taken for a text.
-/

namespace TokenIntake

namespace Utf8

/-! ## The bytes of a character -/

/-- The least and the greatest value of every byte of a character. -/
def rows : List (List (Nat × Nat)) :=
  [[(0x00, 0x7F)],
   [(0xC2, 0xDF), (0x80, 0xBF)],
   [(0xE0, 0xE0), (0xA0, 0xBF), (0x80, 0xBF)],
   [(0xE1, 0xEC), (0x80, 0xBF), (0x80, 0xBF)],
   [(0xED, 0xED), (0x80, 0x9F), (0x80, 0xBF)],
   [(0xEE, 0xEF), (0x80, 0xBF), (0x80, 0xBF)],
   [(0xF0, 0xF0), (0x90, 0xBF), (0x80, 0xBF), (0x80, 0xBF)],
   [(0xF1, 0xF3), (0x80, 0xBF), (0x80, 0xBF), (0x80, 0xBF)],
   [(0xF4, 0xF4), (0x80, 0x8F), (0x80, 0xBF), (0x80, 0xBF)]]

/-- The bytes are within the ranges of one of the rows. -/
def InRow (bytes : List UInt8) : Prop :=
  ∃ row ∈ rows, List.Forall₂ (fun byte range => range.1 ≤ byte.toNat ∧ byte.toNat ≤ range.2)
    bytes row

theorem inRow_one_iff {a : UInt8} : InRow [a] ↔ a.toNat < 0x80 := by
  simp [InRow, rows]
  omega

theorem inRow_two_iff {a b : UInt8} :
    InRow [a, b] ↔ 0xC2 ≤ a.toNat ∧ a.toNat < 0xE0 ∧ IsTail b := by
  simp [InRow, rows, IsTail]
  omega

/-- Behind `E0` a lesser second byte would make the form too long, and behind `ED` a greater one
would make a surrogate. -/
theorem inRow_three_iff {a b d : UInt8} :
    InRow [a, b, d] ↔ 0xE0 ≤ a.toNat ∧ a.toNat < 0xF0 ∧ IsTail b ∧ IsTail d ∧
      (a.toNat = 0xE0 → 0xA0 ≤ b.toNat) ∧ (a.toNat = 0xED → b.toNat < 0xA0) := by
  simp [InRow, rows, IsTail]
  omega

/-- Behind `F0` a lesser second byte would make the form too long, and behind `F4` a greater one
would go past the last character. -/
theorem inRow_four_iff {a b d e : UInt8} :
    InRow [a, b, d, e] ↔ 0xF0 ≤ a.toNat ∧ a.toNat < 0xF5 ∧ IsTail b ∧ IsTail d ∧ IsTail e ∧
      (a.toNat = 0xF0 → 0x90 ≤ b.toNat) ∧ (a.toNat = 0xF4 → b.toNat < 0x90) := by
  simp [InRow, rows, IsTail]
  omega

theorem Encodes.inRow {c : Char} {bytes : List UInt8} (h : Encodes c bytes) : InRow bytes := by
  have valid : c.toNat < 0xD800 ∨ 0xDFFF < c.toNat ∧ c.toNat < 0x110000 := c.valid
  cases h with
  | one first small => exact inRow_one_iff.mpr (by omega)
  | two first second low high =>
    exact inRow_two_iff.mpr ⟨by omega, by omega, by unfold IsTail; omega⟩
  | three first second third low high =>
    refine inRow_three_iff.mpr ⟨by omega, by omega, ?_, ?_, by omega, by omega⟩
    · unfold IsTail; omega
    · unfold IsTail; omega
  | four first second third fourth low =>
    refine inRow_four_iff.mpr ⟨by omega, by omega, ?_, ?_, ?_, by omega, by omega⟩
    · unfold IsTail; omega
    · unfold IsTail; omega
    · unfold IsTail; omega

private theorem exists_toNat_eq {n : Nat} (valid : n < 0xD800 ∨ 0xDFFF < n ∧ n < 0x110000) :
    ∃ c : Char, c.toNat = n :=
  ⟨Char.ofNatAux n valid, rfl⟩

/-- Within the ranges of a row, the bits of the bytes make up a character. -/
private theorem exists_encodes_of_inRow {bytes : List UInt8} (h : InRow bytes) :
    ∃ c, Encodes c bytes := by
  -- The number of the bytes tells which bits of the character each of them carries.
  match bytes, h with
  | [a], h =>
    have small := inRow_one_iff.mp h
    obtain ⟨c, value⟩ := exists_toNat_eq (n := a.toNat) (by omega)
    exact ⟨c, .one (by omega) (by omega)⟩
  | [a, b], h =>
    obtain ⟨low, high, second, second'⟩ := inRow_two_iff.mp h
    obtain ⟨c, value⟩ := exists_toNat_eq (n := (a.toNat - 0xC0) * 0x40 + (b.toNat - 0x80))
      (by omega)
    exact ⟨c, .two (by omega) (by omega) (by omega) (by omega)⟩
  | [a, b, d], h =>
    obtain ⟨low, high, ⟨second, second'⟩, ⟨third, third'⟩, shortest, noSurrogate⟩ :=
      inRow_three_iff.mp h
    obtain ⟨c, value⟩ := exists_toNat_eq
      (n := ((a.toNat - 0xE0) * 0x40 + (b.toNat - 0x80)) * 0x40 + (d.toNat - 0x80)) (by omega)
    exact ⟨c, .three (by omega) (by omega) (by omega) (by omega) (by omega)⟩
  | [a, b, d, e], h =>
    obtain ⟨low, high, ⟨second, second'⟩, ⟨third, third'⟩, ⟨fourth, fourth'⟩, shortest, inRange⟩ :=
      inRow_four_iff.mp h
    obtain ⟨c, value⟩ := exists_toNat_eq
      (n := (((a.toNat - 0xF0) * 0x40 + (b.toNat - 0x80)) * 0x40 + (d.toNat - 0x80)) * 0x40 +
        (e.toNat - 0x80)) (by omega)
    exact ⟨c, .four (by omega) (by omega) (by omega) (by omega) (by omega)⟩
  | [], h => simp [InRow, rows] at h
  | _ :: _ :: _ :: _ :: _ :: _, h => simp [InRow, rows] at h

/-! ## Well-formed sequences -/

/-- The bytes of so many characters, one behind the other, and nothing else. -/
inductive WellFormed : Nat → List UInt8 → Prop
  | nil : WellFormed 0 []
  | cons {bytes rest : List UInt8} {count : Nat} (first : InRow bytes)
    (more : WellFormed count rest) : WellFormed (count + 1) (bytes ++ rest)

theorem wellFormed_encode (text : List Char) : WellFormed text.length (encode text) := by
  induction text with
  | nil => exact .nil
  | cons c text ih =>
    rw [encode_cons, List.length_cons]
    exact .cons (encodes_encodeChar c).inRow ih

/-- The well-formed sequences are the encodings, with the number of characters they count. -/
theorem wellFormed_iff {count : Nat} {bytes : List UInt8} :
    WellFormed count bytes ↔ ∃ text, encode text = bytes ∧ text.length = count := by
  constructor
  · intro formed
    induction formed with
    | nil => exact ⟨[], rfl, rfl⟩
    | cons first more ih =>
      obtain ⟨c, encodes⟩ := exists_encodes_of_inRow first
      obtain ⟨text, rfl, rfl⟩ := ih
      refine ⟨c :: text, ?_, rfl⟩
      rw [encode_cons, encodes.eq (encodes_encodeChar c)]
  · rintro ⟨text, rfl, rfl⟩
    exact wellFormed_encode text

end Utf8

/-! ## The judgement of lengths -/

theorem checkByteLength_eq_notUtf8_iff {field : String} {bytes : List UInt8} {max : Nat} :
    checkByteLength field bytes max = .error (.notUtf8 field) ↔
      ∀ text, Utf8.encode text ≠ bytes := by
  constructor
  · rintro refused text rfl
    rw [checkByteLength_encode, Verdict.ensure_eq_error_iff] at refused
    cases refused.2
  · intro noText
    have undecoded : Utf8.decode bytes = none := by
      rw [Option.eq_none_iff_forall_ne_some]
      intro text decoded
      exact noText text (Utf8.encode_of_decode decoded)
    rw [checkByteLength, undecoded]

/-- What is answered to bytes whose characters are counted. -/
structure CountsCharacters (field : String) (max : Nat) (bytes : List UInt8) (verdict : Verdict) :
    Prop where
  text : ∀ text, Utf8.encode text = bytes →
    verdict = if text.length ≤ max then .ok () else .error (.tooLong field max)
  noText : (∀ text, Utf8.encode text ≠ bytes) ↔ verdict = .error (.notUtf8 field)
  wellFormed : ∀ count, Utf8.WellFormed count bytes →
    verdict = if count ≤ max then .ok () else .error (.tooLong field max)
  malformed : (∀ count, ¬ Utf8.WellFormed count bytes) ↔ verdict = .error (.notUtf8 field)

/-- Every sequence of bytes is judged by the characters of the one text that it encodes, or refused
because it encodes none, whatever the limit. A text is never refused for its bytes. -/
theorem checkByteLength_counts_characters (field : String) (max : Nat) :
    (∀ bytes, CountsCharacters field max bytes (checkByteLength field bytes max)) ∧
      ∀ text other, checkLength field text max ≠ .error (.notUtf8 other) := by
  refine ⟨fun bytes => ?_, fun text other refused => ?_⟩
  · have counted (text : List Char) (encodes : Utf8.encode text = bytes) :
        checkByteLength field bytes max =
          if text.length ≤ max then .ok () else .error (.tooLong field max) := by
      rw [← encodes, checkByteLength_encode, Verdict.ensure]
      simp
    refine ⟨counted, checkByteLength_eq_notUtf8_iff.symm, fun count formed => ?_, ?_⟩
    · obtain ⟨text, encodes, rfl⟩ := Utf8.wellFormed_iff.mp formed
      exact counted text encodes
    · rw [checkByteLength_eq_notUtf8_iff]
      simp [Utf8.wellFormed_iff]
  · rw [checkLength_eq, Verdict.ensure_eq_error_iff] at refused
    cases refused.2

/-- A form longer than needed, a surrogate, a value above `10FFFF`, a byte that continues nothing
and a character that is cut off are no texts, though the limit is not reached. -/
example : ∀ bytes ∈
      [[0xC0, 0x80], [0xED, 0xA0, 0x80], [0xF4, 0x90, 0x80, 0x80], [0x80], [0xE2, 0x82]],
    checkByteLength "name" bytes 10 = .error (.notUtf8 "name") := by decide

end TokenIntake
