import TokenIntake.Proofs.Scanning
import TokenIntake.Proofs.Utf8

/-!
# Strings

The scanner of strings reads exactly the spellings of a string. It collects bytes and
decodes them once the closing quote is found; that this accepts no more than character
by character holds because an escape yields whole characters: raw bytes that begin or
continue a character are never completed by one.
-/

namespace TokenIntake.Json

theorem HexUnit.lt {n : Nat} {digits : List UInt8} (h : HexUnit n digits) : n < 0x10000 := by
  obtain ⟨⟨first, -⟩, ⟨second, -⟩, ⟨third, -⟩, ⟨fourth, -⟩⟩ := h
  omega

/-- A number that is no surrogate and not too large is that of a character. -/
private theorem toNat_ofNat {n : Nat} (h : n < 0xD800 ∨ 0xDFFF < n ∧ n < 0x110000) :
    (Char.ofNat n).toNat = n := by
  have valid : n.isValidChar := h
  have found : Char.ofNat n = Char.ofNatAux n valid := dif_pos valid
  rw [found]
  rfl

private theorem not_surrogate (c : Char) :
    c.toNat < 0xD800 ∨ 0xDFFF < c.toNat ∧ c.toNat < 0x110000 :=
  c.valid

theorem Escape.cases_head {c : Char} {text : List UInt8} (h : Escape c (0x5C :: text)) :
    (∃ letter, text = [letter] ∧ (letter, c) ∈ shortEscapes) ∨
      ∃ more, text = 0x75 :: more ∧ Escape c (0x5C :: 0x75 :: more) := by
  generalize whole : 0x5C :: text = spelled at h
  cases h with
  | short known =>
    obtain ⟨-, rfl⟩ := List.cons.inj whole
    exact .inl ⟨_, rfl, known⟩
  | unit number =>
    obtain ⟨-, rfl⟩ := List.cons.inj whole
    exact .inr ⟨_, rfl, .unit number⟩
  | pair first second highHalf lowHalf number =>
    obtain ⟨-, rfl⟩ := List.cons.inj whole
    exact .inr ⟨_, rfl, .pair first second highHalf lowHalf number⟩

namespace Scan

/-! ## Escapes -/

private theorem digitChar_toNat : ∀ value < 16, (Nat.digitChar value).toNat =
    (if value < 10 then 0x30 + value else 0x57 + value) ∧ (Nat.digitChar value).toUpper.toNat =
    (if value < 10 then 0x30 + value else 0x37 + value) := by
  decide

theorem hexDigit?_eq_some_iff {byte : UInt8} {value : Nat} :
    hexDigit? byte = some value ↔ HexDigit byte value := by
  have digit := digitChar_toNat value
  unfold hexDigit? HexDigit
  constructor
  · intro h
    -- Digits, small letters and capitals each bound the value in their own way.
    have small : value < 16 := by
      dsimp only at h
      split at h
      next => cases h; omega
      next =>
        split at h
        next => cases h; omega
        next => split at h <;> cases h; omega
    refine ⟨small, ?_⟩
    rw [(digit small).1, (digit small).2]
    dsimp only at h
    split at h
    next => cases h; split <;> omega
    next =>
      split at h
      next => cases h; split <;> omega
      next => split at h <;> cases h; split <;> omega
  · rintro ⟨small, same⟩
    rw [(digit small).1, (digit small).2] at same
    dsimp only
    split at same
    next => rw [if_pos (by omega)]; congr 1; omega
    next =>
      rw [if_neg (by omega)]
      rcases same with same | same
      · rw [if_pos (by omega)]; congr 1; omega
      · rw [if_neg (by omega), if_pos (by omega)]; congr 1; omega

theorem hexDigits_succ_ok_iff {count value n : Nat} {input rest : List UInt8} :
    hexDigits (count + 1) value input = .ok (n, rest) ↔ ∃ byte digit mid, input = byte :: mid ∧
      HexDigit byte digit ∧ hexDigits count (16 * value + digit) mid = .ok (n, rest) := by
  cases input with
  | nil => simp [hexDigits, bind_ok_iff, next, and_assoc]
  | cons byte mid =>
    rw [hexDigits, bind_of_ok (next_ok_iff.mpr rfl)]
    simp only [← hexDigit?_eq_some_iff, List.cons.injEq, and_assoc, exists_and_left,
      exists_eq_left']
    cases hexDigit? byte <;> simp

theorem hexUnit_ok_iff {n : Nat} {input rest : List UInt8} :
    hexUnit input = .ok (n, rest) ↔ ∃ digits, HexUnit n digits ∧ input = digits ++ rest := by
  constructor
  · intro ok
    unfold hexUnit at ok
    split at ok
    next => cases ok
    next =>
      obtain ⟨a, w, _, rfl, first, ok⟩ := hexDigits_succ_ok_iff.mp ok
      rw [Nat.mul_zero, Nat.zero_add] at ok
      obtain ⟨b, x, _, rfl, second, ok⟩ := hexDigits_succ_ok_iff.mp ok
      obtain ⟨c, y, _, rfl, third, ok⟩ := hexDigits_succ_ok_iff.mp ok
      obtain ⟨d, z, _, rfl, fourth, ok⟩ := hexDigits_succ_ok_iff.mp ok
      obtain ⟨rfl, rfl⟩ := pure_ok_iff.mp ok
      exact ⟨[a, b, c, d], .mk first second third fourth, rfl⟩
  · rintro ⟨digits, ⟨first, second, third, fourth⟩, rfl⟩
    rw [hexUnit, if_neg (by simp)]
    refine hexDigits_succ_ok_iff.mpr ⟨_, _, _, rfl, first, ?_⟩
    refine hexDigits_succ_ok_iff.mpr ⟨_, _, _, rfl, second, ?_⟩
    refine hexDigits_succ_ok_iff.mpr ⟨_, _, _, rfl, third, ?_⟩
    refine hexDigits_succ_ok_iff.mpr ⟨_, _, _, rfl, fourth, ?_⟩
    rw [Nat.mul_zero, Nat.zero_add]
    rfl

theorem pairByte_ok_iff {expected : UInt8} {input rest : List UInt8} :
    pairByte expected input = .ok ((), rest) ↔ input = expected :: rest := by
  cases input with
  | nil => simp [pairByte, bind_ok_iff, peek, and_assoc]
  | cons byte mid =>
    have step : pairByte expected (byte :: mid) =
        (if byte = expected then advance else failAtNext .endOfHexEscape) (byte :: mid) := rfl
    rw [step]
    by_cases same : byte = expected
    · simp [same, advance_ok_iff]
    · simp [same]

theorem unicodeEscape_ok_iff {c : Char} {input rest : List UInt8} :
    unicodeEscape input = .ok (c, rest) ↔
      ∃ text, Escape c (0x5C :: 0x75 :: text) ∧ input = text ++ rest := by
  constructor
  · intro ok
    rw [unicodeEscape, bind_ok_iff] at ok
    obtain ⟨unit, mid, read, ok⟩ := ok
    obtain ⟨digits, number, rfl⟩ := hexUnit_ok_iff.mp read
    -- A low half may not come first, and a high half calls for a low one.
    split at ok
    next => simp at ok
    next noLow =>
      split at ok
      next high =>
        simp only [bind_ok_iff] at ok
        obtain ⟨_, _, backslash, _, _, letter, low, _, read', ok⟩ := ok
        obtain rfl := pairByte_ok_iff.mp backslash
        obtain rfl := pairByte_ok_iff.mp letter
        obtain ⟨digits', number', rfl⟩ := hexUnit_ok_iff.mp read'
        split at ok
        next isLow =>
          obtain ⟨rfl, rfl⟩ := pure_ok_iff.mp ok
          exact ⟨digits ++ 0x5C :: 0x75 :: digits', .pair number number' (by omega) (by omega)
            (toNat_ofNat (by omega)), by simp⟩
        next => simp at ok
      next noHigh =>
        obtain ⟨rfl, rfl⟩ := pure_ok_iff.mp ok
        have small := number.lt
        refine ⟨digits, .unit ?_, rfl⟩
        rwa [toNat_ofNat (by omega)]
  · rintro ⟨text, escape, rfl⟩
    generalize spelled : 0x5C :: 0x75 :: text = whole at escape
    cases escape with
    | short known =>
      simp only [List.cons.injEq] at spelled
      obtain ⟨-, rfl, -⟩ := spelled
      simp [shortEscapes] at known
    | unit number =>
      obtain ⟨-, -, rfl⟩ := by simpa using spelled
      -- The number of a character is never that of a surrogate.
      have scalar := not_surrogate c
      rw [unicodeEscape, bind_of_ok (hexUnit_ok_iff.mpr ⟨_, number, rfl⟩), if_neg (by omega),
        if_neg (by omega), Char.ofNat_toNat]
      rfl
    | @pair _ _ _ digits digits' first second highHalf lowHalf number =>
      have front : text = digits ++ 0x5C :: 0x75 :: digits' := by simpa using spelled
      subst front
      rw [unicodeEscape, List.append_assoc, bind_of_ok (hexUnit_ok_iff.mpr ⟨_, first, rfl⟩),
        if_neg (by omega), if_pos (by omega), List.cons_append, List.cons_append,
        bind_of_ok (pairByte_ok_iff.mpr rfl), bind_of_ok (pairByte_ok_iff.mpr rfl),
        bind_of_ok (hexUnit_ok_iff.mpr ⟨_, second, rfl⟩), if_pos (by omega), ← number,
        Char.ofNat_toNat]
      rfl

theorem shortEscape?_eq_some_iff {letter plain : UInt8} :
    shortEscape? letter = some plain ↔
      ∃ c, (letter, c) ∈ shortEscapes ∧ String.utf8EncodeChar c = [plain] := by
  constructor
  · intro h
    unfold shortEscape? at h
    have known (n : Nat) (small : n < 256) (same : letter.toNat = n) : letter = UInt8.ofNat n := by
      rw [← same, UInt8.ofNat_toNat]
    -- Every branch fixes the letter; the table has a character for each.
    split at h
    all_goals cases h
    all_goals rename_i same; obtain rfl := known _ (by decide) same
    · exact ⟨'"', by decide, rfl⟩
    · exact ⟨'\\', by decide, rfl⟩
    · exact ⟨'/', by decide, rfl⟩
    · exact ⟨'\x08', by decide, rfl⟩
    · exact ⟨'\x0c', by decide, rfl⟩
    · exact ⟨'\n', by decide, rfl⟩
    · exact ⟨'\r', by decide, rfl⟩
    · exact ⟨'\t', by decide, rfl⟩
  · rintro ⟨c, known, encoded⟩
    simp only [shortEscapes, List.mem_cons, Prod.mk.injEq, List.not_mem_nil, or_false] at known
    rcases known with ⟨rfl, rfl⟩ | ⟨rfl, rfl⟩ | ⟨rfl, rfl⟩ | ⟨rfl, rfl⟩ | ⟨rfl, rfl⟩ | ⟨rfl, rfl⟩ |
      ⟨rfl, rfl⟩ | ⟨rfl, rfl⟩ <;> cases encoded <;> rfl

theorem escape_ok_iff {bytes input rest : List UInt8} :
    escape input = .ok (bytes, rest) ↔ ∃ c text, Escape c (0x5C :: text) ∧
      bytes = String.utf8EncodeChar c ∧ input = text ++ rest := by
  constructor
  · intro ok
    cases input with
    | nil => simp [escape, bind_ok_iff, next, and_assoc] at ok
    | cons letter input =>
      rw [escape, bind_of_ok (next_ok_iff.mpr rfl)] at ok
      dsimp only at ok
      cases short : shortEscape? letter with
      | some plain =>
        rw [short] at ok
        obtain ⟨rfl, rfl⟩ := pure_ok_iff.mp ok
        obtain ⟨c, known, encoded⟩ := shortEscape?_eq_some_iff.mp short
        exact ⟨c, [letter], .short known, encoded.symm, rfl⟩
      | none =>
        rw [short] at ok
        dsimp only at ok
        split at ok
        next isU =>
          subst isU
          rw [bind_ok_iff] at ok
          obtain ⟨c, mid, read, ok⟩ := ok
          obtain ⟨text, spelled, rfl⟩ := unicodeEscape_ok_iff.mp read
          obtain ⟨rfl, rfl⟩ := pure_ok_iff.mp ok
          exact ⟨c, 0x75 :: text, spelled, rfl, rfl⟩
        next => simp at ok
  · rintro ⟨c, text, spelled, rfl, rfl⟩
    rcases spelled.cases_head with ⟨letter, rfl, known⟩ | ⟨more, rfl, spelled⟩
    · obtain ⟨plain, encoded⟩ : ∃ plain, String.utf8EncodeChar c = [plain] := by
        simp only [shortEscapes, List.mem_cons, Prod.mk.injEq, List.not_mem_nil, or_false] at known
        rcases known with ⟨-, rfl⟩ | ⟨-, rfl⟩ | ⟨-, rfl⟩ | ⟨-, rfl⟩ | ⟨-, rfl⟩ | ⟨-, rfl⟩ |
          ⟨-, rfl⟩ | ⟨-, rfl⟩ <;> exact ⟨_, rfl⟩
      rw [List.singleton_append, escape, bind_of_ok (next_ok_iff.mpr rfl)]
      dsimp only
      rw [shortEscape?_eq_some_iff.mpr ⟨c, known, encoded⟩, encoded]
      rfl
    · rw [List.cons_append, escape, bind_of_ok (next_ok_iff.mpr rfl)]
      change (unicodeEscape >>= fun _ => _) _ = _
      rw [bind_of_ok (unicodeEscape_ok_iff.mpr ⟨more, spelled, rfl⟩)]
      rfl

/-! ## Whole strings -/

/-- The text of a string and the bytes that are collected from it. A raw byte need not be
a character yet: its neighbours are looked at once the string has ended. -/
inductive Pieces : List UInt8 → List UInt8 → Prop
  | nil : Pieces [] []
  | raw {byte : UInt8} {text bytes : List UInt8} (noControl : 0x20 ≤ byte.toNat)
      (noQuote : byte ≠ 0x22) (noBackslash : byte ≠ 0x5C) (rest : Pieces text bytes) :
      Pieces (byte :: text) (byte :: bytes)
  | escaped {c : Char} {spelled text bytes : List UInt8} (escape : Escape c (0x5C :: spelled))
      (rest : Pieces text bytes) :
      Pieces (0x5C :: (spelled ++ text)) (String.utf8EncodeChar c ++ bytes)

private theorem stringBytes_sound {fuel : Nat} {done bytes input rest : List UInt8}
    (ok : stringBytes fuel done input = .ok (bytes, rest)) :
    ∃ text collected, Pieces text collected ∧ bytes = done.reverse ++ collected ∧
      input = text ++ 0x22 :: rest := by
  -- What is collected later goes behind what is done, so the bytes done vary.
  induction fuel generalizing done input with
  | zero => simp [stringBytes] at ok
  | succ fuel ih =>
    cases input with
    | nil => simp [stringBytes, bind_ok_iff, next, and_assoc] at ok
    | cons byte input =>
      change (if byte = 0x22 then pure done.reverse
        else if byte = 0x5C then escape >>= fun bytes => stringBytes fuel (bytes.reverse ++ done)
        else if byte < 0x20 then fail .controlCharacter
        else stringBytes fuel (byte :: done)) input = _ at ok
      split at ok
      next quote =>
        obtain ⟨rfl, rfl⟩ := pure_ok_iff.mp ok
        exact ⟨[], [], .nil, by simp, by simp [quote]⟩
      next noQuote =>
        split at ok
        next backslash =>
          rw [bind_ok_iff] at ok
          obtain ⟨_, mid, read, ok⟩ := ok
          obtain ⟨c, spelled, escape, rfl, rfl⟩ := escape_ok_iff.mp read
          obtain ⟨text, collected, pieces, rfl, rfl⟩ := ih ok
          exact ⟨_, _, .escaped escape pieces, by simp, by simp [backslash]⟩
        next noBackslash =>
          split at ok
          next => simp at ok
          next noControl =>
            obtain ⟨text, collected, pieces, rfl, rfl⟩ := ih ok
            refine ⟨_, _, .raw ?_ noQuote noBackslash pieces, by simp, by simp⟩
            simpa [UInt8.lt_iff_toNat_lt] using noControl

private theorem stringBytes_complete {fuel : Nat} {done text collected rest : List UInt8}
    (pieces : Pieces text collected) (enough : text.length < fuel) :
    stringBytes fuel done (text ++ 0x22 :: rest) = .ok (done.reverse ++ collected, rest) := by
  induction pieces generalizing fuel done with
  | nil =>
    obtain ⟨fuel, rfl⟩ := Nat.exists_eq_add_one.mpr enough
    simp only [List.append_nil]
    rfl
  | @raw byte text bytes noControl noQuote noBackslash pieces ih =>
    obtain ⟨fuel, rfl⟩ : ∃ n, fuel = n + 1 := Nat.exists_eq_add_one.mpr (by omega)
    have printable : ¬ byte < 0x20 := by simpa [UInt8.lt_iff_toNat_lt] using noControl
    have regrouped : done.reverse ++ byte :: bytes = (byte :: done).reverse ++ bytes := by simp
    rw [regrouped, ← ih (by simpa using enough)]
    change (if byte = 0x22 then _ else if byte = 0x5C then _ else if byte < 0x20 then _
      else stringBytes fuel (byte :: done)) (text ++ 0x22 :: rest) = _
    rw [if_neg noQuote, if_neg noBackslash, if_neg printable]
  | @escaped c spelled text bytes isEscape pieces ih =>
    obtain ⟨fuel, rfl⟩ : ∃ n, fuel = n + 1 := Nat.exists_eq_add_one.mpr (by omega)
    have length : text.length < fuel := by
      simp only [List.length_cons, List.length_append] at enough
      omega
    have read : escape (spelled ++ (text ++ 0x22 :: rest)) =
        .ok (String.utf8EncodeChar c, text ++ 0x22 :: rest) :=
      escape_ok_iff.mpr ⟨c, spelled, isEscape, rfl, rfl⟩
    have regrouped : done.reverse ++ (String.utf8EncodeChar c ++ bytes) =
        ((String.utf8EncodeChar c).reverse ++ done).reverse ++ bytes := by simp
    rw [regrouped, ← ih length, List.cons_append, List.append_assoc]
    change (escape >>= fun bytes => stringBytes fuel (bytes.reverse ++ done))
      (spelled ++ (text ++ 0x22 :: rest)) = _
    rw [bind_of_ok read]

/-- Continuation bytes in front are raw bytes, since no escape starts with one. -/
private theorem pieces_of_tails {tails rest text : List UInt8} (h : Pieces text (tails ++ rest))
    (allTails : ∀ byte ∈ tails, Utf8.IsTail byte) :
    ∃ more, text = tails ++ more ∧ Pieces more rest := by
  induction tails generalizing text with
  | nil => exact ⟨text, rfl, h⟩
  | cons byte tails ih =>
    generalize whole : byte :: tails ++ rest = collected at h
    cases h with
    | nil => simp at whole
    | raw _ _ _ pieces =>
      obtain ⟨rfl, rfl⟩ := List.cons.inj whole
      obtain ⟨more, rfl, pieces'⟩ := ih pieces fun b member => allTails b (by simp [member])
      exact ⟨more, rfl, pieces'⟩
    | @escaped c spelled text bytes _ _ =>
      -- An escape yields a whole character, whose first byte continues none.
      obtain ⟨first, others, same, noTail, -⟩ := (Utf8.encodes_encodeChar c).shape
      rw [same] at whole
      obtain ⟨rfl, -⟩ := List.cons.inj whole
      exact absurd (allTails byte (by simp)) noTail

/-- Collected bytes that are UTF-8 come from spelled characters. -/
private theorem textSpelling_of_pieces {cs : List Char} {text bytes : List UInt8}
    (h : Pieces text bytes)
    (decoded : Utf8.decode bytes = some cs) : TextSpelling cs text := by
  induction cs generalizing text bytes with
  | nil =>
    obtain rfl := Utf8.encode_of_decode decoded
    generalize whole : Utf8.encode [] = bytes at h
    cases h with
    | nil => exact .nil
    | raw => cases whole
    | @escaped c =>
      obtain ⟨_, _, same, -⟩ := (Utf8.encodes_encodeChar c).shape
      rw [same] at whole
      cases whole
  | cons c cs ih =>
    cases h with
    | nil => cases decoded
    | @raw byte text bytes noControl noQuote noBackslash pieces =>
      -- A raw byte starts a character, and the bytes that continue it are raw as well.
      obtain ⟨d, front, rest, split, encodes⟩ := Utf8.exists_of_decode_cons decoded
      rw [split, Utf8.decode_append encodes] at decoded
      obtain ⟨others, decodedRest, same⟩ := Option.map_eq_some_iff.mp decoded
      obtain ⟨rfl, rfl⟩ := List.cons.inj same
      obtain ⟨first, tails, rfl, -, allTails, value⟩ := encodes.shape
      obtain ⟨rfl, rfl⟩ := List.cons.inj split
      obtain ⟨more, rfl, pieces'⟩ := pieces_of_tails pieces allTails
      have differs {c : Char} (small : c.toNat < 0x80) (other : byte.toNat ≠ c.toNat) : d ≠ c := by
        rintro rfl
        omega
      have plain : CharSpelling d (String.utf8EncodeChar d) :=
        .plain (by omega) (differs (by decide) fun h => noQuote (UInt8.toNat_inj.mp h))
          (differs (by decide) fun h => noBackslash (UInt8.toNat_inj.mp h))
      rw [← List.cons_append, encodes.eq (Utf8.encodes_encodeChar d)]
      exact .cons plain (ih pieces' decodedRest)
    | @escaped d spelled text bytes escape pieces =>
      rw [Utf8.decode_append (Utf8.encodes_encodeChar d)] at decoded
      obtain ⟨others, decodedRest, same⟩ := Option.map_eq_some_iff.mp decoded
      obtain ⟨rfl, rfl⟩ := List.cons.inj same
      exact .cons (.escaped escape) (ih pieces decodedRest)

private theorem pieces_append {front text bytes : List UInt8} (h : Pieces text bytes)
    (raw : ∀ byte ∈ front, 0x20 ≤ byte.toNat ∧ byte ≠ 0x22 ∧ byte ≠ 0x5C) :
    Pieces (front ++ text) (front ++ bytes) := by
  induction front with
  | nil => exact h
  | cons byte front ih =>
    obtain ⟨noControl, noQuote, noBackslash⟩ := raw byte (by simp)
    exact .raw noControl noQuote noBackslash (ih fun b member => raw b (by simp [member]))

theorem pieces_of_textSpelling {cs : List Char} {text : List UInt8} (h : TextSpelling cs text) :
    Pieces text (Utf8.encode cs) := by
  induction h with
  | nil => exact .nil
  | @cons c cs text more head tail ih =>
    change Pieces _ (String.utf8EncodeChar c ++ Utf8.encode cs)
    cases head with
    | plain noControl noQuote noBackslash =>
      apply pieces_append ih
      obtain ⟨first, tails, same, -, allTails, value⟩ := (Utf8.encodes_encodeChar c).shape
      rw [same]
      intro byte member
      -- Every byte is the character itself or at least 0x80.
      have differs {d : Char} (small : d.toNat < 0x80) (other : c ≠ d) : byte.toNat ≠ d.toNat := by
        have unequal : c.toNat ≠ d.toNat := fun h => other (Char.toNat_inj.mp h)
        rcases List.mem_cons.mp member with rfl | member
        · omega
        · have tail := allTails byte member
          unfold Utf8.IsTail at tail
          omega
      refine ⟨?_, fun h => differs (by decide) noQuote (congrArg _ h),
        fun h => differs (by decide) noBackslash (congrArg _ h)⟩
      rcases List.mem_cons.mp member with rfl | member
      · omega
      · have tail := allTails byte member
        unfold Utf8.IsTail at tail
        omega
    | escaped escape =>
      obtain ⟨spelled, rfl⟩ : ∃ spelled, text = 0x5C :: spelled := by
        cases escape <;> exact ⟨_, rfl⟩
      exact .escaped escape ih

theorem string_ok_iff {content : String} {input rest : List UInt8} :
    string input = .ok (content, rest) ↔
      ∃ text, TextSpelling content.toList text ∧ input = text ++ 0x22 :: rest := by
  constructor
  · intro ok
    rw [string, bind_ok_iff] at ok
    obtain ⟨bytes, mid, read, ok⟩ := ok
    obtain ⟨text, collected, pieces, same, rfl⟩ := stringBytes_sound read
    obtain rfl : bytes = collected := same
    cases decoded : Utf8.decodeString bytes with
    | none => simp [decoded] at ok
    | some content' =>
      rw [decoded] at ok
      obtain ⟨rfl, rfl⟩ := pure_ok_iff.mp ok
      rw [Utf8.decodeString_eq_some_iff] at decoded
      exact ⟨text, textSpelling_of_pieces pieces (Utf8.decode_eq_some_iff.mpr decoded), rfl⟩
  · rintro ⟨text, spelled, rfl⟩
    have read : bounded (fun fuel => stringBytes fuel []) (text ++ 0x22 :: rest) =
        .ok (Utf8.ofString content, rest) :=
      stringBytes_complete (pieces_of_textSpelling spelled)
        (by simp only [List.length_append, List.length_cons]; omega)
    rw [string, bind_of_ok read, Utf8.decodeString_eq_some_iff.mpr rfl]
    rfl

end Scan

end TokenIntake.Json
