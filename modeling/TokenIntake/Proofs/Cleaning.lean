import TokenIntake.Proofs.FieldRules
import TokenIntake.Query.Sanitize

/-!
# What a raw value says

A raw value says what is left of it without stripped characters and without the blanks at both
ends. The search for the place of the cut ends behind the longest beginning that fits into a hundred
bytes. So the cut changes only longer texts, and leaves of those more than any check accepts.
-/

namespace TokenIntake.QueryValue

/-- What a raw value says, whatever its length. -/
def clean (raw : String) : String := String.ofList (stripAndTrim raw.toList)

/-- The text is the raw one without line feeds, carriage returns, tabs and zero characters and,
of what is left, without the blanks at both ends. -/
def IsCleaned (raw text : List Char) : Prop :=
  ∃ front back, raw.filter (· ∉ ['\n', '\r', '\t', '\x00']) = front ++ text ++ back ∧
    (∀ c ∈ front, isBlank c = true) ∧ (∀ c ∈ back, isBlank c = true) ∧
    (∀ c ∈ text.head?, isBlank c = false) ∧ ∀ c ∈ text.getLast?, isBlank c = false

/-! ## Trimming -/

theorem head?_dropWhile_isBlank {text : List Char} {c : Char}
    (first : c ∈ (text.dropWhile isBlank).head?) : isBlank c = false := by
  have stops := List.head?_dropWhile_not isBlank text
  rw [Option.mem_def.mp first] at stops
  simpa using stops

theorem exists_trimStart (text : List Char) :
    ∃ front, text = front ++ trimStart text ∧ ∀ c ∈ front, isBlank c = true :=
  ⟨text.takeWhile isBlank, List.takeWhile_append_dropWhile.symm, fun c found =>
    List.all_eq_true.mp List.all_takeWhile c found⟩

theorem exists_trimEnd (text : List Char) :
    ∃ back, text = trimEnd text ++ back ∧ ∀ c ∈ back, isBlank c = true := by
  obtain ⟨back, split, blank⟩ := exists_trimStart text.reverse
  refine ⟨back.reverse, ?_, fun c found => blank c (List.mem_reverse.mp found)⟩
  have mirrored := congrArg List.reverse split
  rwa [List.reverse_reverse, List.reverse_append] at mirrored

theorem isCleaned_clean (raw : String) : IsCleaned raw.toList (clean raw).toList := by
  have same : (raw.toList.filter fun c => !isStripped c) =
      raw.toList.filter (· ∉ ['\n', '\r', '\t', '\x00']) := by
    refine List.filter_congr fun c _ => Bool.eq_iff_iff.mpr ?_
    simp [isStripped, and_assoc]
  rw [IsCleaned, clean, String.toList_ofList, stripAndTrim, same, trim]
  generalize raw.toList.filter (· ∉ ['\n', '\r', '\t', '\x00']) = kept
  obtain ⟨front, split, blank⟩ := exists_trimStart kept
  obtain ⟨back, split', blank'⟩ := exists_trimEnd (trimStart kept)
  refine ⟨front, back, ?_, blank, blank', fun c first => ?_, fun c last => ?_⟩
  · rw [List.append_assoc, ← split', ← split]
  · -- The first character is also the first of the text before its end was trimmed.
    have first' : c ∈ (trimStart kept).head? := by
      rw [split', List.head?_append, Option.mem_def.mp first]
      rfl
    exact head?_dropWhile_isBlank first'
  · rw [trimEnd, List.getLast?_reverse] at last
    exact head?_dropWhile_isBlank last

/-! ## The beginning that fits -/

/-- The longest beginning of a text, in whole characters, that fits into `budget` bytes. -/
def takeBytes : Nat → List Char → List Char
  | _, [] => []
  | budget, c :: rest =>
    if c.utf8Size ≤ budget then c :: takeBytes (budget - c.utf8Size) rest else []

theorem length_encode_cons (c : Char) (text : List Char) :
    (Utf8.encode (c :: text)).length = c.utf8Size + (Utf8.encode text).length := by
  rw [Utf8.encode_cons, List.length_append, String.length_utf8EncodeChar]

/-- A text that fits is not cut. -/
theorem takeBytes_of_le {budget : Nat} {text : List Char}
    (fits : (Utf8.encode text).length ≤ budget) : takeBytes budget text = text := by
  induction text generalizing budget with
  | nil => rfl
  | cons c text ih =>
    rw [length_encode_cons] at fits
    rw [takeBytes, if_pos (by omega), ih (by omega)]

/-- The cut leaves all but at most three of the bytes it may leave. -/
theorem lt_length_takeBytes {budget : Nat} {text : List Char}
    (long : budget < (Utf8.encode text).length) :
    budget < (Utf8.encode (takeBytes budget text)).length + 4 := by
  induction text generalizing budget with
  | nil => cases long
  | cons c text ih =>
    rw [length_encode_cons] at long
    unfold takeBytes
    split
    next fits =>
      have rest : budget - c.utf8Size <
          (Utf8.encode (takeBytes (budget - c.utf8Size) text)).length + 4 := ih (by omega)
      rw [length_encode_cons]
      omega
    next tooLarge =>
      have small := c.utf8Size_le_four
      omega

/-- What is cut off starts with a character for which there is no room. -/
theorem exists_append_takeBytes (budget : Nat) (text : List Char) :
    ∃ back, text = takeBytes budget text ++ back ∧
      (Utf8.encode (takeBytes budget text)).length ≤ budget ∧
      ∀ c ∈ back.head?, budget < (Utf8.encode (takeBytes budget text)).length + c.utf8Size := by
  induction text generalizing budget with
  | nil => exact ⟨[], rfl, Nat.zero_le _, by simp⟩
  | cons c text ih =>
    unfold takeBytes
    split
    next fits =>
      obtain ⟨back, split, small, full⟩ := ih (budget - c.utf8Size)
      refine ⟨back, by rw [List.cons_append, ← split], ?_, fun d first => ?_⟩
      · rw [length_encode_cons]
        omega
      · have tight := full d first
        rw [length_encode_cons]
        omega
    next tooLarge =>
      refine ⟨c :: text, rfl, Nat.zero_le _, ?_⟩
      rintro _ ⟨rfl⟩
      simpa [Utf8.encode] using tooLarge

/-! ## The search for the place of the cut -/

private theorem cutBack_eq {bytes : List UInt8} {place start : Nat} (order : place ≤ start)
    (boundary : isBoundary bytes place = true)
    (between : ∀ n, place < n → n ≤ start → isBoundary bytes n = false) :
    cutBack bytes start = some place := by
  induction order with
  | refl => cases place <;> rw [cutBack, if_pos boundary]
  | @step start order ih =>
    have passed := between (start + 1) (Nat.lt_succ_of_le order) (Nat.le_refl _)
    rw [cutBack, passed, if_neg Bool.false_ne_true]
    exact ih fun n above below => between n above (Nat.le_succ_of_le below)

theorem isSome_continuation?_iff {byte : UInt8} :
    (Utf8.continuation? byte).isSome = true ↔ Utf8.IsTail byte := by
  unfold Utf8.continuation? Utf8.IsTail
  split
  next tail => simp [tail]
  next noTail => simp [noTail]

/-- Between two characters there is a boundary. -/
private theorem isBoundary_append (front back : List Char) :
    isBoundary (Utf8.encode (front ++ back)) (Utf8.encode front).length = true := by
  unfold isBoundary
  rw [Utf8.encode_append]
  cases back with
  | nil => simp [Utf8.encode]
  | cons c back =>
    obtain ⟨first, tails, bytes, noTail, -⟩ := (Utf8.encodes_encodeChar c).shape
    have start : Utf8.continuation? first = none :=
      Option.not_isSome_iff_eq_none.mp (mt isSome_continuation?_iff.mp noTail)
    rw [Utf8.encode_cons, bytes]
    simp [start]

/-- Inside a character there is none. -/
private theorem isBoundary_inside {front back : List Char} {c : Char} {n : Nat}
    (above : (Utf8.encode front).length < n)
    (below : n < (Utf8.encode front).length + c.utf8Size) :
    isBoundary (Utf8.encode (front ++ c :: back)) n = false := by
  obtain ⟨first, tails, bytes, -, allTails, -⟩ := (Utf8.encodes_encodeChar c).shape
  obtain ⟨i, rfl⟩ := Nat.exists_eq_add_of_lt above
  have size : tails.length + 1 = c.utf8Size := by
    rw [← String.length_utf8EncodeChar, bytes, List.length_cons]
  have inside : i < tails.length := by omega
  unfold isBoundary
  rw [Utf8.encode_append, Utf8.encode_cons, bytes, Nat.add_assoc,
    List.getElem?_append_right (Nat.le_add_right ..), Nat.add_sub_cancel_left, List.cons_append,
    List.getElem?_cons_succ, List.getElem?_append_left inside, List.getElem?_eq_getElem inside]
  simpa [isSome_continuation?_iff] using allTails _ (List.getElem_mem inside)

/-- The search from the cap, or from the end of a shorter text, ends where the text is cut. -/
theorem cutBack_encode (max : Nat) (text : List Char) :
    cutBack (Utf8.encode text) (min (Utf8.encode text).length max) =
      some (Utf8.encode (takeBytes max text)).length := by
  obtain ⟨back, split, fits, full⟩ := exists_append_takeBytes max text
  generalize takeBytes max text = cut at *
  subst split
  have whole := Utf8.encode_append cut back
  apply cutBack_eq
  · rw [whole, List.length_append]
    omega
  · exact isBoundary_append cut back
  · intro n above below
    cases back with
    | nil =>
      rw [List.append_nil] at below
      omega
    | cons c back =>
      have tight := full c rfl
      exact isBoundary_inside above (by omega)

/-- There always is a place for the cut, and in front of it there is the beginning that fits. -/
theorem cut?_eq (max : Nat) (text : List Char) :
    cut? max text = some (String.ofList (takeBytes max text)) := by
  obtain ⟨back, split, -⟩ := exists_append_takeBytes max text
  have place := cutBack_encode max text
  generalize takeBytes max text = cut at *
  have front : (Utf8.encode text).take (Utf8.encode cut).length =
      Utf8.ofString (String.ofList cut) := by
    rw [split, Utf8.encode_append, List.take_left, Utf8.ofString, String.toList_ofList]
  simp only [cut?, place, Option.bind_eq_bind, Option.bind_some, front]
  exact Utf8.decodeString_eq_some_iff.mpr rfl

theorem sanitize_eq_takeBytes (raw : String) :
    sanitize raw = String.ofList (takeBytes maxSize (clean raw).toList) := by
  rw [sanitize, cut?_eq, clean, String.toList_ofList, Option.getD_some]

/-! ## The cut -/

/-- A value is not cut, or both it and what the cut leaves of it have more than 96 bytes. -/
private theorem sanitize_eq_or_long (raw : String) :
    sanitize raw = clean raw ∨
      96 < (sanitize raw).utf8ByteSize ∧ 96 < (clean raw).utf8ByteSize := by
  have size : (clean raw).utf8ByteSize = (Utf8.encode (clean raw).toList).length :=
    size_eq_length (clean raw)
  by_cases fits : (Utf8.encode (clean raw).toList).length ≤ maxSize
  · left
    rw [sanitize_eq_takeBytes, takeBytes_of_le fits, String.ofList_toList]
  · right
    have left := lt_length_takeBytes (Nat.not_le.mp fits)
    rw [size, size_eq_length (sanitize raw), Utf8.ofString, sanitize_eq_takeBytes,
      String.toList_ofList]
    unfold maxSize at *
    omega

theorem sanitize_eq_iff_of_short {raw text : String} (short : text.utf8ByteSize ≤ 96) :
    sanitize raw = text ↔ clean raw = text := by
  obtain same | ⟨long, long'⟩ := sanitize_eq_or_long raw
  · rw [same]
  · constructor <;> rintro rfl <;> omega

/-! ## Checks of cleaned values -/

/-- The check refuses all texts of more than 96 bytes, and all in the same words. -/
def RefusesLong (check : String → Verdict) : Prop :=
  ∃ rejection, ∀ text, 96 < text.utf8ByteSize → check text = .error rejection

theorem RefusesLong.check_sanitize {check : String → Verdict} (long : RefusesLong check)
    (raw : String) : check (sanitize raw) = check (clean raw) := by
  obtain ⟨rejection, refuses⟩ := long
  obtain same | ⟨tooLong, tooLong'⟩ := sanitize_eq_or_long raw
  · rw [same]
  · rw [refuses _ tooLong, refuses _ tooLong']

/-- What is accepted was not cut. -/
theorem RefusesLong.sanitize_eq {check : String → Verdict} (long : RefusesLong check)
    {raw : String} (accepted : check (sanitize raw) = .ok ()) : sanitize raw = clean raw := by
  obtain ⟨rejection, refuses⟩ := long
  obtain same | ⟨tooLong, -⟩ := sanitize_eq_or_long raw
  · exact same
  · cases accepted.symm.trans (refuses _ tooLong)

private theorem isEmpty_of_long {text : String} (long : 96 < text.utf8ByteSize) :
    ¬ text.isEmpty = true := by
  intro empty
  rw [String.isEmpty_iff.mp empty] at long
  cases long

theorem refusesLong_address : RefusesLong Address.check := by
  refine ⟨.addressLength, fun text long => ?_⟩
  have tooLong : text.utf8ByteSize < minAddressLength ∨ maxAddressLength < text.utf8ByteSize :=
    .inr (Nat.lt_trans (by decide) long)
  rw [Address.check, Address.network, if_neg (isEmpty_of_long long), if_pos tooLong]
  rfl

theorem refusesLong_hash : RefusesLong Hash.check := by
  refine ⟨.hashLength, fun text long => ?_⟩
  have wrongSize : text.utf8ByteSize ≠ hashLength := Nat.ne_of_gt (Nat.lt_trans (by decide) long)
  rw [Hash.check, if_neg (isEmpty_of_long long), if_pos wrongSize]

theorem refusesLong_publicKey : RefusesLong PublicKey.check := by
  refine ⟨.publicKeyLength, fun text long => ?_⟩
  have wrongSize : text.utf8ByteSize ≠ publicKeyLength :=
    Nat.ne_of_gt (Nat.lt_trans (by decide) long)
  rw [PublicKey.check, PublicKey.decode, if_neg (isEmpty_of_long long), if_pos wrongSize]
  rfl

end TokenIntake.QueryValue
