import TokenIntake.Proofs.Doubles
import TokenIntake.Proofs.Scanning

/-!
# Numbers

The scanner of numbers reads exactly the literals of the grammar and yields what a
literal stands for. It decides from one byte whether a fraction or an exponent follows,
so a literal is read to its end only if the text behind does not go on with one.
-/

namespace TokenIntake.Json

namespace Scan

/-! ## Digits -/

theorem digit?_eq_some_iff {byte : UInt8} {d : Nat} :
    digit? byte = some d ↔ byte.toNat = d + 0x30 ∧ d < 10 := by
  unfold digit?
  split
  next => rw [Option.some.injEq]; omega
  next => simp only [reduceCtorEq, false_iff]; omega

theorem isDigit_iff {byte : UInt8} :
    isDigit byte = true ↔ 0x30 ≤ byte.toNat ∧ byte.toNat ≤ 0x39 := by
  rw [isDigit, Option.isSome_iff_exists]
  constructor
  · rintro ⟨d, h⟩
    have := digit?_eq_some_iff.mp h
    omega
  · exact fun h => ⟨byte.toNat - 0x30, digit?_eq_some_iff.mpr (by omega)⟩

/-- No digit stands in front. -/
def NoDigit (text : List UInt8) : Prop := ∀ byte ∈ text.head?, isDigit byte = false

private theorem filterMap_digit? {text : List UInt8} (h : Digits text) :
    text.filterMap digit? = digitValues text := by
  induction text with
  | nil => rfl
  | cons byte text ih =>
    obtain ⟨low, high⟩ := h byte (by simp)
    have value : digit? byte = some (byte.toNat - 0x30) := digit?_eq_some_iff.mpr (by omega)
    rw [List.filterMap_cons_some value, ih fun b member => h b (by simp [member])]
    rfl

theorem digits_ok_iff {input rest : List UInt8} {values : List Nat} :
    digits input = .ok (values, rest) ↔
      ∃ text, Digits text ∧ input = text ++ rest ∧ values = digitValues text ∧ NoDigit rest := by
  constructor
  · intro ok
    cases ok
    have all : Digits (input.takeWhile isDigit) := by
      intro byte member
      exact isDigit_iff.mp (List.all_eq_true.mp List.all_takeWhile byte member)
    exact ⟨_, all, List.takeWhile_append_dropWhile.symm, filterMap_digit? all,
      dropWhile_stops isDigit input⟩
  · rintro ⟨text, all, rfl, rfl, stops⟩
    have run : ∀ byte ∈ text, isDigit byte = true := by
      intro byte member
      exact isDigit_iff.mpr (all byte member)
    obtain ⟨taken, dropped⟩ := span_append run stops
    change Except.ok (_, _) = _
    rw [taken, dropped, filterMap_digit? all]

/-- Digits read onto a value. -/
def readOnto (value : Nat) (digits : List Nat) : Nat := digits.foldl (fun n d => n * 10 + d) value

private theorem natural_eq_readOnto (text : List UInt8) :
    natural text = readOnto 0 (digitValues text) := by
  rw [natural, readOnto, digitValues, List.foldl_map]

private theorem le_readOnto (value : Nat) (digits : List Nat) : value ≤ readOnto value digits := by
  induction digits generalizing value with
  | nil => exact Nat.le_refl _
  | cons d digits ih => exact Nat.le_trans (by omega) (ih (value * 10 + d))

/-- The digits absorbed stand in front of those left over. -/
private theorem absorb_append (value : Nat) (digits : List Nat) :
    ∃ front, digits = front ++ (absorb value digits).2 ∧
      (absorb value digits).1 = readOnto value front := by
  induction digits generalizing value with
  | nil => exact ⟨[], rfl, rfl⟩
  | cons d digits ih =>
    unfold absorb
    split
    next =>
      obtain ⟨front, split, read⟩ := ih (value * 10 + d)
      exact ⟨d :: front, congrArg _ split, read⟩
    next => exact ⟨[], rfl, rfl⟩

private theorem absorb_of_lt {value : Nat} {digits : List Nat}
    (h : readOnto value digits < Word.limit) :
    absorb value digits = (readOnto value digits, []) := by
  induction digits generalizing value with
  | nil => rfl
  | cons d digits ih =>
    -- What is read later only grows, so a result that fits has fitted at every digit.
    have small := Nat.lt_of_le_of_lt (le_readOnto (value * 10 + d) digits) h
    rw [absorb, if_pos small]
    exact ih h

private theorem absorb_of_le {value : Nat} {digits : List Nat} (start : value < Word.limit)
    (h : Word.limit ≤ readOnto value digits) :
    (absorb value digits).2 ≠ [] := by
  induction digits generalizing value with
  | nil => exact absurd start (Nat.not_lt.mpr h)
  | cons d digits ih =>
    unfold absorb
    split
    next small => exact ih small h
    next => simp

/-! ## Exponents -/

theorem double_ok_iff {negative : Bool} {parts : Nat × Int} {n : JsonNumber}
    {input rest : List UInt8} : double negative parts input = .ok (n, rest) ↔
      (Binary64.ofDecimal? parts.1 parts.2).map (fun x => .double (x.withSign negative)) = some n ∧
        input = rest := by
  unfold double
  cases Binary64.ofDecimal? parts.1 parts.2 with
  | none => simp
  | some x => simp [pure_ok_iff]

private theorem exists_digits (input : List UInt8) :
    ∃ text rest, Digits text ∧ NoDigit rest ∧ input = text ++ rest := by
  obtain ⟨text, all, split, -, stops⟩ := digits_ok_iff.mp (rfl : digits input = .ok (_, _))
  exact ⟨text, _, all, stops, split⟩

theorem digit?_of_digits {byte : UInt8} {text : List UInt8} (h : Digits (byte :: text)) :
    digit? byte = some (byte.toNat - 0x30) := by
  have range := h byte (by simp)
  exact digit?_eq_some_iff.mpr (by omega)

/-- The digits of an exponent are read to their end, unless their value passes 31 bits. -/
private theorem exponentValue_append {value : Nat} {text rest : List UInt8} (all : Digits text)
    (stops : NoDigit rest) (small : value < Word.shortSignedLimit) :
    ∃ unread, Digits unread ∧ exponentValue value (text ++ rest) =
      if readOnto value (digitValues text) < Word.shortSignedLimit then
        (some (readOnto value (digitValues text)), rest)
      else (none, unread ++ rest) := by
  induction text generalizing value with
  | nil =>
    refine ⟨[], .nil, ?_⟩
    change exponentValue value rest = if value < _ then (some value, rest) else _
    rw [if_pos small]
    cases rest with
    | nil => rfl
    | cons byte rest =>
      have noDigit : digit? byte = none := Option.isNone_iff_eq_none.mp (by
        simpa [isDigit] using stops byte rfl)
      simp [exponentValue, noDigit]
  | cons byte text ih =>
    rw [List.cons_append, exponentValue, digit?_of_digits all]
    dsimp only
    split
    next fits => exact ih all.tail fits
    -- From the digit that passes the limit on nothing is read any more.
    next tooLarge =>
      have more := le_readOnto (value * 10 + (byte.toNat - 0x30)) (digitValues text)
      refine ⟨text, all.tail, (if_neg ?_).symm⟩
      exact Nat.not_lt.mpr (Nat.le_trans (Nat.not_lt.mp tooLarge) more)

/-- An exponent behind its sign. -/
private def exponentDigits (negative : Bool) (parts : Nat × Int) (sign : Option UInt8) :
    Scan JsonNumber := do
  match ← next with
  | none => fail .endInValue
  | some byte =>
    match digit? byte with
    | none => fail .invalidNumber
    | some d =>
      match ← (fun unread => .ok (exponentValue d unread) : Scan (Option Nat)) with
      | some value =>
        let shift : Int := if sign = some 0x2D then -(value : Int) else value
        double negative (parts.1, parts.2 + shift)
      | none =>
        if parts.1 ≠ 0 ∧ sign ≠ some 0x2D then fail .numberOutOfRange
        else do
          let _ ← digits
          pure (.double (Binary64.zero negative))

private theorem exponent_signed {negative : Bool} {parts : Nat × Int} {letter sign : UInt8}
    {input : List UInt8} (isSign : sign = 0x2B ∨ sign = 0x2D) :
    exponent negative parts (letter :: sign :: input) =
      exponentDigits negative parts (some sign) input := by
  have found : (sign :: input).head? = some 0x2B ∨ (sign :: input).head? = some 0x2D := by
    simpa using isSign
  rw [exponent, bind_of_ok (advance_ok_iff.mpr rfl),
    bind_of_ok (peek_eq (sign :: input)),
    if_pos found]
  rfl

private theorem exponent_unsigned {negative : Bool} {parts : Nat × Int} {letter : UInt8}
    {input : List UInt8} (noSign : ¬ (input.head? = some 0x2B ∨ input.head? = some 0x2D)) :
    exponent negative parts (letter :: input) =
      exponentDigits negative parts input.head? input := by
  rw [exponent, bind_of_ok (advance_ok_iff.mpr rfl),
    bind_of_ok (peek_eq input), if_neg noSign]
  rfl

private theorem exponentDigits_ok_iff {negative : Bool} {parts : Nat × Int} {e : ExponentLiteral}
    {sign : Option UInt8} {n : JsonNumber} {rest unread : List UInt8}
    (isNegative : sign = some 0x2D ↔ e.negative = true) (stops : NoDigit rest) :
    exponentDigits negative parts sign (e.digits ++ rest) = .ok (n, unread) ↔
      (e.scale? parts).map (fun x => .double (x.withSign negative)) = some n ∧ rest = unread := by
  obtain ⟨first, more, cons⟩ := List.exists_cons_of_ne_nil e.someDigit
  have all : Digits (first :: more) := cons ▸ e.isDigits
  have range := all first (by simp)
  have small : first.toNat - 0x30 < Word.shortSignedLimit := by
    unfold Word.shortSignedLimit
    omega
  obtain ⟨skipped, allSkipped, read⟩ := exponentValue_append all.tail stops small
  have value : readOnto (first.toNat - 0x30) (digitValues more) = natural e.digits := by
    rw [cons, natural_eq_readOnto]
    simp [digitValues, readOnto]
  rw [value] at read
  have step : exponentDigits negative parts sign (e.digits ++ rest) =
      (match (exponentValue (first.toNat - 0x30) (more ++ rest)).1 with
      | some value =>
        let shift : Int := if sign = some 0x2D then -(value : Int) else value
        double negative (parts.1, parts.2 + shift)
      | none =>
        if parts.1 ≠ 0 ∧ sign ≠ some 0x2D then fail .numberOutOfRange
        else do
          let _ ← digits
          pure (.double (Binary64.zero negative)))
        (exponentValue (first.toNat - 0x30) (more ++ rest)).2 := by
    rw [cons, List.cons_append, exponentDigits, bind_of_ok (next_ok_iff.mpr rfl)]
    dsimp only
    rw [digit?_of_digits all]
    rfl
  rw [step, read, ExponentLiteral.scale?, ExponentLiteral.value]
  simp only [isNegative]
  split
  next fits => exact double_ok_iff
  -- Past the limit the double is not computed: it is zero, or the number is too large.
  next past =>
    by_cases zero : parts.1 = 0 ∨ e.negative = true
    · have skip : digits (skipped ++ rest) = .ok (digitValues skipped, rest) :=
        digits_ok_iff.mpr ⟨skipped, allSkipped, rfl, rfl, stops⟩
      have kept : ¬ (parts.1 ≠ 0 ∧ sign ≠ some 0x2D) := fun ⟨nonzero, positive⟩ =>
        zero.elim nonzero fun minus => positive (isNegative.mpr minus)
      dsimp only
      rw [if_pos zero, if_neg kept, bind_of_ok skip, pure_ok_iff]
      simp [Binary64.withSign, Binary64.zero]
    · have refused : parts.1 ≠ 0 ∧ sign ≠ some 0x2D :=
        ⟨fun h => zero (.inl h), fun h => zero (.inr (isNegative.mp h))⟩
      dsimp only
      rw [if_neg zero, if_pos refused]
      simp

theorem exponent_text_ok_iff {negative : Bool} {parts : Nat × Int} {e : ExponentLiteral}
    {n : JsonNumber} {rest unread : List UInt8} (stops : NoDigit rest) :
    exponent negative parts (e.text ++ rest) = .ok (n, unread) ↔
      (e.scale? parts).map (fun x => .double (x.withSign negative)) = some n ∧ rest = unread := by
  have text : e.text ++ rest = e.letter :: (e.sign ++ (e.digits ++ rest)) := by
    simp [ExponentLiteral.text]
  rw [text]
  -- No sign, a plus sign, a minus sign.
  rcases e.isSign with sign | sign | sign
  · obtain ⟨first, more, cons⟩ := List.exists_cons_of_ne_nil e.someDigit
    have range := e.isDigits first (by simp [cons])
    have noSign : ¬ ((e.digits ++ rest).head? = some 0x2B ∨
        (e.digits ++ rest).head? = some 0x2D) := by
      rw [cons, List.cons_append, List.head?_cons]
      rintro (h | h) <;> cases h <;> simp at range
    rw [sign, List.nil_append, exponent_unsigned noSign]
    apply exponentDigits_ok_iff _ stops
    simp only [ExponentLiteral.negative, sign]
    exact ⟨fun h => absurd (.inr h) noSign, by simp⟩
  · rw [sign, List.singleton_append, exponent_signed (.inl rfl)]
    exact exponentDigits_ok_iff (by simp [ExponentLiteral.negative, sign]) stops
  · rw [sign, List.singleton_append, exponent_signed (.inr rfl)]
    exact exponentDigits_ok_iff (by simp [ExponentLiteral.negative, sign]) stops

/-- An exponent that was read is written as one. -/
private theorem exists_exponent_of_ok {negative : Bool} {parts : Nat × Int} {n : JsonNumber}
    {letter : UInt8} {input unread : List UInt8} (isLetter : letter = 0x65 ∨ letter = 0x45)
    (ok : exponent negative parts (letter :: input) = .ok (n, unread)) :
    ∃ (e : ExponentLiteral) (rest : List UInt8),
      letter :: input = e.text ++ rest ∧ NoDigit rest := by
  have digitsBehind {sign : Option UInt8} {behind : List UInt8}
      (ok : exponentDigits negative parts sign behind = .ok (n, unread)) :
      ∃ digits rest, Digits digits ∧ digits ≠ [] ∧ NoDigit rest ∧ behind = digits ++ rest := by
    obtain ⟨digits, rest, all, stops, split⟩ := exists_digits behind
    refine ⟨digits, rest, all, ?_, stops, split⟩
    -- Without a digit the scanner would have failed at the byte behind the sign.
    rintro rfl
    rw [exponentDigits, bind_ok_iff] at ok
    obtain ⟨head, mid, taken, ok⟩ := ok
    cases head with
    | none => simp at ok
    | some byte =>
      obtain rfl := next_ok_iff.mp taken
      have noDigit : digit? byte = none := by
        have stop := stops byte (by rw [List.nil_append] at split; rw [← split]; rfl)
        simpa [isDigit] using stop
      simp [noDigit] at ok
  by_cases signed : input.head? = some 0x2B ∨ input.head? = some 0x2D
  · obtain ⟨sign, isSign, behind, rfl⟩ : ∃ sign, (sign = 0x2B ∨ sign = 0x2D) ∧
        ∃ behind, input = sign :: behind := by
      rcases signed with h | h
      · exact ⟨0x2B, .inl rfl, List.head?_eq_some_iff.mp h⟩
      · exact ⟨0x2D, .inr rfl, List.head?_eq_some_iff.mp h⟩
    rw [exponent_signed isSign] at ok
    obtain ⟨digits, rest, all, present, stops, rfl⟩ := digitsBehind ok
    exact ⟨⟨letter, [sign], digits, isLetter, .inr (by simpa using isSign), all, present⟩, rest,
      by simp [ExponentLiteral.text], stops⟩
  · rw [exponent_unsigned signed] at ok
    obtain ⟨digits, rest, all, present, stops, rfl⟩ := digitsBehind ok
    exact ⟨⟨letter, [], digits, isLetter, .inl rfl, all, present⟩, rest,
      by simp [ExponentLiteral.text], stops⟩

/-! ## Whole numbers -/

private theorem significand_nil (whole : List Nat) :
    significand whole [] = ((absorb 0 whole).1, ((absorb 0 whole).2.length : Int)) := by
  simp [significand, absorb]

private theorem magnitude?_of_isWhole {literal : NumberLiteral} (isWhole : literal.IsWhole) :
    literal.magnitude? = Binary64.ofDecimal? (absorb 0 (digitValues literal.whole)).1
      (absorb 0 (digitValues literal.whole)).2.length := by
  unfold NumberLiteral.magnitude?
  rw [isWhole.1, isWhole.2]
  change Binary64.ofDecimal? (significand _ []).1 (significand _ []).2 = _
  rw [significand_nil]

theorem whole_ok_iff {literal : NumberLiteral} (isWhole : literal.IsWhole) {n : JsonNumber}
    {input rest : List UInt8} :
    whole literal.negative (digitValues literal.whole) input = .ok (n, rest) ↔
      literal.value? = some n ∧ input = rest := by
  unfold whole NumberLiteral.value? NumberLiteral.integer?
  rw [magnitude?_of_isWhole isWhole]
  dsimp only
  rw [if_pos isWhole, natural_eq_readOnto]
  -- A number of 64 bits leaves no digit over; any other is out of both ranges of integers.
  by_cases fits : readOnto 0 (digitValues literal.whole) < Word.limit
  · rw [absorb_of_lt fits]
    have fits' := fits
    unfold Word.limit at fits'
    cases sign : literal.negative with
    | false => simp [fits', pure_ok_iff]
    | true =>
      by_cases range : 0 < readOnto 0 (digitValues literal.whole) ∧
          readOnto 0 (digitValues literal.whole) ≤ 0x8000000000000000
      · simp [range, Word.signedLimit, pure_ok_iff]
      · simp only [List.isEmpty_nil, Bool.not_true, Bool.and_false, if_true, if_neg range]
        have outside : ¬ ((true && decide (0 < readOnto 0 (digitValues literal.whole)) &&
            decide (readOnto 0 (digitValues literal.whole) ≤ Word.signedLimit)) = true) := by
          rw [Bool.true_and, Bool.and_eq_true, decide_eq_true_eq, decide_eq_true_eq]
          exact range
        rw [if_neg (by decide), if_neg outside]
        exact double_ok_iff
  · have left := absorb_of_le (by decide) (Nat.not_lt.mp fits)
    have nonempty : (absorb 0 (digitValues literal.whole)).2.isEmpty = false := by
      simpa using left
    unfold Word.limit at fits
    have outside : ¬ (0 < readOnto 0 (digitValues literal.whole) ∧
        readOnto 0 (digitValues literal.whole) ≤ 0x8000000000000000) := by omega
    simp only [nonempty, Bool.false_and, Bool.false_eq_true, if_false, if_neg fits,
      if_neg outside, ite_self]
    exact double_ok_iff

/-! ## The parts of a number -/

/-- The text does not go on with more of the literal. -/
def Ends (literal : NumberLiteral) (rest : List UInt8) : Prop :=
  NoDigit rest ∧ (literal.exponent = none → isExponentLetter rest.head? = false) ∧
    (literal.IsWhole → rest.head? ≠ some 0x2E)

theorem ends_of_breaks {literal : NumberLiteral} {rest : List UInt8} (h : Breaks rest) :
    Ends literal rest := by
  refine ⟨fun byte front => (h byte front).1, fun _ => ?_, fun _ point => ?_⟩
  · cases rest with
    | nil => rfl
    | cons byte rest =>
      obtain ⟨-, -, small, capital⟩ := h byte rfl
      simp [isExponentLetter, small, capital]
  · exact (h _ point).2.1 rfl

theorem isExponentLetter_iff {byte : Option UInt8} :
    isExponentLetter byte = true ↔ byte = some 0x65 ∨ byte = some 0x45 := by
  simp [isExponentLetter]

private theorem afterWhole_noPoint {negative : Bool} {before : List Nat} {input : List UInt8}
    (noPoint : input.head? ≠ some 0x2E) : afterWhole negative before input =
      (if isExponentLetter input.head? then exponent negative (significand before [])
        else whole negative before) input := by
  rw [afterWhole, bind_of_ok (peek_eq input), if_neg noPoint]

private theorem afterWhole_point {negative : Bool} {before : List Nat}
    {fraction behind : List UInt8} (all : Digits fraction) (nonempty : fraction ≠ [])
    (stops : NoDigit behind) :
    afterWhole negative before (0x2E :: (fraction ++ behind)) =
      (if isExponentLetter behind.head? then
        exponent negative (significand before (digitValues fraction))
      else double negative (significand before (digitValues fraction))) behind := by
  have read : digits (fraction ++ behind) = .ok (digitValues fraction, behind) :=
    digits_ok_iff.mpr ⟨_, all, rfl, rfl, stops⟩
  have present : ¬ (digitValues fraction).isEmpty = true := by simpa [digitValues] using nonempty
  rw [afterWhole, bind_of_ok (rfl : peek (0x2E :: _) = .ok (some 0x2E, _))]
  change (advance >>= fun _ => _) _ = _
  rw [bind_of_ok (advance_ok_iff.mpr rfl), bind_of_ok read, if_neg present,
    bind_of_ok (peek_eq behind)]

theorem noDigit_of_letter {input : List UInt8} (letter : isExponentLetter input.head? = true) :
    NoDigit input := by
  intro byte front
  rw [Option.mem_def.mp front] at letter
  rcases isExponentLetter_iff.mp letter with h | h <;> cases h <;> rfl

theorem afterWhole_text_ok_iff {literal : NumberLiteral} {n : JsonNumber}
    {rest unread : List UInt8} (ends : Ends literal rest) :
    afterWhole literal.negative (digitValues literal.whole)
        (literal.fractionText ++ (literal.exponentText ++ rest)) = .ok (n, unread) ↔
      literal.value? = some n ∧ rest = unread := by
  obtain ⟨stops, noLetter, noPoint⟩ := ends
  have value (other : ¬ literal.IsWhole) : literal.value? =
      literal.magnitude?.map fun x => .double (x.withSign literal.negative) := by
    simp [NumberLiteral.value?, NumberLiteral.integer?, other]
  have letter (e : ExponentLiteral) : isExponentLetter (e.text ++ rest).head? = true :=
    isExponentLetter_iff.mpr (by simpa [ExponentLiteral.text] using e.isLetter)
  -- Either part may be missing, and the reader looks at one byte to find out.
  by_cases point : literal.fraction = []
  · rw [NumberLiteral.fractionText, if_pos point, List.nil_append]
    cases e : literal.exponent with
    | none =>
      have isWhole : literal.IsWhole := ⟨point, e⟩
      rw [NumberLiteral.exponentText, e, List.nil_append, ← whole_ok_iff isWhole,
        afterWhole_noPoint (noPoint isWhole), noLetter e]
      rfl
    | some e' =>
      have other : ¬ literal.IsWhole := fun isWhole => by simp [isWhole.2] at e
      have noPoint : (e'.text ++ rest).head? ≠ some 0x2E := by
        rcases isExponentLetter_iff.mp (letter e') with h | h <;> simp [h]
      have magnitude : literal.magnitude? =
          e'.scale? (significand (digitValues literal.whole) []) := by
        simp [NumberLiteral.magnitude?, e, point, digitValues]
      rw [NumberLiteral.exponentText, e, value other, magnitude, ← exponent_text_ok_iff stops,
        afterWhole_noPoint noPoint, if_pos (letter e')]
  · have other : ¬ literal.IsWhole := fun isWhole => point isWhole.1
    rw [NumberLiteral.fractionText, if_neg point, value other, List.cons_append]
    cases e : literal.exponent with
    | none =>
      have magnitude : literal.magnitude? = Binary64.ofDecimal?
          (significand (digitValues literal.whole) (digitValues literal.fraction)).1
          (significand (digitValues literal.whole) (digitValues literal.fraction)).2 := by
        simp [NumberLiteral.magnitude?, e]
      rw [NumberLiteral.exponentText, e, List.nil_append, magnitude, ← double_ok_iff,
        afterWhole_point literal.fractionDigits point stops, noLetter e]
      rfl
    | some e' =>
      have magnitude : literal.magnitude? = e'.scale?
          (significand (digitValues literal.whole) (digitValues literal.fraction)) := by
        simp [NumberLiteral.magnitude?, e]
      rw [NumberLiteral.exponentText, e, magnitude, ← exponent_text_ok_iff stops,
        afterWhole_point literal.fractionDigits point (noDigit_of_letter (letter e')),
        if_pos (letter e')]

/-- Behind the digits of a number that was read stands an exponent, or the number ends. -/
private theorem exists_exponent_or_end {negative : Bool} {parts : Nat × Int}
    {last : Scan JsonNumber}
    {n : JsonNumber} {behind unread : List UInt8} (stops : NoDigit behind)
    (ok : (if isExponentLetter behind.head? then exponent negative parts else last) behind =
      .ok (n, unread)) :
    ∃ (e : Option ExponentLiteral) (rest : List UInt8),
      behind = e.elim [] ExponentLiteral.text ++ rest ∧ NoDigit rest ∧
        (e = none → rest = behind ∧ isExponentLetter rest.head? = false) := by
  split at ok
  next letter =>
    obtain ⟨byte, more, rfl⟩ : ∃ byte more, behind = byte :: more := by
      cases behind <;> simp [isExponentLetter] at letter ⊢
    obtain ⟨e, rest, split, stops⟩ :=
      exists_exponent_of_ok (by simpa [isExponentLetter_iff] using letter) ok
    exact ⟨some e, rest, split, stops, by rintro ⟨⟩⟩
  next noLetter => exact ⟨none, behind, rfl, stops, fun _ => ⟨rfl, by simpa using noLetter⟩⟩

private theorem exponentText_eq_elim (literal : NumberLiteral) :
    literal.exponentText = literal.exponent.elim [] ExponentLiteral.text := by
  unfold NumberLiteral.exponentText
  cases literal.exponent <;> rfl

/-- Behind the whole part of a number that was read stands the rest of a literal. -/
theorem exists_literal_of_afterWhole_ok {negative : Bool} {before input unread : List UInt8}
    {n : JsonNumber} (wholeDigits : Digits before) (someDigit : before ≠ [])
    (noLeadingZero : before = [0x30] ∨ before.head? ≠ some 0x30) (stops : NoDigit input)
    (ok : afterWhole negative (digitValues before) input = .ok (n, unread)) :
    ∃ (literal : NumberLiteral) (rest : List UInt8), literal.negative = negative ∧
      literal.whole = before ∧ input = literal.fractionText ++ (literal.exponentText ++ rest) ∧
      Ends literal rest := by
  by_cases point : input.head? = some 0x2E
  · obtain ⟨input, rfl⟩ := List.head?_eq_some_iff.mp point
    obtain ⟨fraction, behind, all, stops', rfl⟩ := exists_digits input
    by_cases nonempty : fraction = []
    · -- A point without a digit behind it is an error.
      subst nonempty
      have read : digits behind = .ok (digitValues [], behind) :=
        digits_ok_iff.mpr ⟨[], all, rfl, rfl, stops'⟩
      rw [List.nil_append, afterWhole,
        bind_of_ok (rfl : peek (0x2E :: _) = .ok (some 0x2E, _))] at ok
      change (advance >>= fun _ => _) _ = _ at ok
      rw [bind_of_ok (advance_ok_iff.mpr rfl), bind_of_ok read] at ok
      change (peek >>= fun _ => _) _ = _ at ok
      rw [bind_of_ok (peek_eq behind)] at ok
      cases front : behind.head? <;> simp [front] at ok
    · rw [afterWhole_point all nonempty stops'] at ok
      obtain ⟨e, rest, split, stops'', last⟩ := exists_exponent_or_end stops' ok
      refine ⟨⟨negative, before, fraction, e, wholeDigits, someDigit, noLeadingZero, all⟩,
        rest, rfl, rfl, ?_, stops'', fun none => (last none).2,
        fun isWhole => absurd isWhole.1 nonempty⟩
      rw [exponentText_eq_elim, ← split, NumberLiteral.fractionText, if_neg nonempty,
        List.cons_append]
  · rw [afterWhole_noPoint point] at ok
    obtain ⟨e, rest, split, stops', last⟩ := exists_exponent_or_end stops ok
    refine ⟨⟨negative, before, [], e, wholeDigits, someDigit, noLeadingZero, .nil⟩, rest,
      rfl, rfl, ?_, stops', fun none => (last none).2, ?_⟩
    · rw [exponentText_eq_elim, ← split, NumberLiteral.fractionText, if_pos rfl, List.nil_append]
    · -- Without an exponent nothing was read, so what follows is no point either.
      intro isWhole
      rwa [(last isWhole.2).1]

/-! ## Numbers -/

/-- A whole part is read to its end. -/
private theorem number_eq_afterWhole {negative : Bool} {before rest : List UInt8}
    (all : Digits before)
    (someDigit : before ≠ []) (noLeadingZero : before = [0x30] ∨ before.head? ≠ some 0x30)
    (stops : NoDigit rest) :
    number negative (before ++ rest) = afterWhole negative (digitValues before) rest := by
  obtain ⟨first, more, rfl⟩ := List.exists_cons_of_ne_nil someDigit
  rw [List.cons_append, number, bind_of_ok (next_ok_iff.mpr rfl)]
  dsimp only
  rw [digit?_of_digits all]
  -- A leading zero is the whole part by itself; any other digit goes on as far as digits go.
  by_cases zero : first = 0x30
  · have alone : more = [] := by
      rcases noLeadingZero with h | h
      · exact (List.cons.inj h).2
      · exact absurd (by rw [zero]; rfl) h
    subst alone zero
    rw [List.nil_append]
    change (peek >>= fun _ => _) _ = _
    rw [bind_of_ok (peek_eq rest)]
    cases front : rest.head? with
    | none => rfl
    | some byte =>
      dsimp only
      rw [stops byte front]
      rfl
  · have positive : first.toNat - 0x30 ≠ 0 := by
      have range := all first (by simp)
      have other : first.toNat ≠ 0x30 := fun h => zero (UInt8.toNat_inj.mp h)
      omega
    have read : digits (more ++ rest) = .ok (digitValues more, rest) :=
      digits_ok_iff.mpr ⟨more, all.tail, rfl, rfl, stops⟩
    obtain ⟨d, value⟩ := Nat.exists_eq_succ_of_ne_zero positive
    rw [value]
    change (digits >>= fun _ => _) _ = _
    rw [bind_of_ok read, ← value]
    rfl

/-- Where a number was read stands a whole part. -/
theorem exists_whole_of_number_ok {negative : Bool} {n : JsonNumber} {input unread : List UInt8}
    (ok : number negative input = .ok (n, unread)) :
    ∃ before rest, Digits before ∧ before ≠ [] ∧
      (before = [0x30] ∨ before.head? ≠ some 0x30) ∧ NoDigit rest ∧ input = before ++ rest := by
  rw [number, bind_ok_iff] at ok
  obtain ⟨head, mid, taken, ok⟩ := ok
  cases head with
  | none => simp at ok
  | some byte =>
    obtain rfl := next_ok_iff.mp taken
    dsimp only at ok
    cases value : digit? byte with
    | none => simp [value] at ok
    | some d =>
      obtain ⟨sum, small⟩ := digit?_eq_some_iff.mp value
      rw [value] at ok
      cases d with
      | zero =>
        have isZero : byte = 0x30 := UInt8.toNat_inj.mp (by simpa using sum)
        change (peek >>= fun _ => _) _ = _ at ok
        rw [bind_of_ok (peek_eq mid)] at ok
        refine ⟨[byte], mid, by simp [Digits, isZero], by simp, .inl (by rw [isZero]), ?_, rfl⟩
        intro next front
        rw [Option.mem_def.mp front] at ok
        dsimp only at ok
        split at ok
        next => simp at ok
        next stops => simpa using stops
      | succ d =>
        obtain ⟨more, rest, all, stops, rfl⟩ := exists_digits mid
        refine ⟨byte :: more, rest, ?_, by simp, .inr ?_, stops, rfl⟩
        · rintro b (_ | ⟨_, member⟩)
          · omega
          · exact all b member
        · rintro ⟨rfl⟩
          simp at sum

theorem number_sound {negative : Bool} {n : JsonNumber} {input rest : List UInt8}
    (ok : number negative input = .ok (n, rest)) :
    ∃ literal : NumberLiteral, literal.negative = negative ∧ literal.value? = some n ∧
      input = literal.magnitude ++ rest := by
  obtain ⟨before, behind, all, someDigit, noLeadingZero, stops, rfl⟩ := exists_whole_of_number_ok ok
  rw [number_eq_afterWhole all someDigit noLeadingZero stops] at ok
  obtain ⟨literal, unread, rfl, rfl, rfl, ends⟩ :=
    exists_literal_of_afterWhole_ok all someDigit noLeadingZero stops ok
  obtain ⟨value, rfl⟩ := (afterWhole_text_ok_iff ends).mp ok
  exact ⟨literal, rfl, value, by simp [NumberLiteral.magnitude]⟩

/-- No digit follows the digits before the point. -/
theorem noDigit_of_ends {literal : NumberLiteral} {rest : List UInt8} (ends : Ends literal rest) :
    NoDigit (literal.fractionText ++ (literal.exponentText ++ rest)) := by
  by_cases point : literal.fraction = []
  · rw [NumberLiteral.fractionText, if_pos point, List.nil_append, NumberLiteral.exponentText]
    cases literal.exponent with
    | none => exact ends.1
    | some e =>
      exact noDigit_of_letter
        (isExponentLetter_iff.mpr (by simpa [ExponentLiteral.text] using e.isLetter))
  · rw [NumberLiteral.fractionText, if_neg point]
    rintro _ ⟨⟩
    rfl

theorem number_text_ok_iff {literal : NumberLiteral} {n : JsonNumber} {rest unread : List UInt8}
    (ends : Ends literal rest) :
    number literal.negative (literal.magnitude ++ rest) = .ok (n, unread) ↔
      literal.value? = some n ∧ rest = unread := by
  have split : literal.magnitude ++ rest =
      literal.whole ++ (literal.fractionText ++ (literal.exponentText ++ rest)) := by
    simp [NumberLiteral.magnitude]
  rw [split, number_eq_afterWhole literal.wholeDigits literal.someDigit literal.noLeadingZero
    (noDigit_of_ends ends)]
  exact afterWhole_text_ok_iff ends

theorem number_complete {literal : NumberLiteral} {n : JsonNumber} {rest : List UInt8}
    (value : literal.value? = some n) (ends : Ends literal rest) :
    number literal.negative (literal.magnitude ++ rest) = .ok (n, rest) :=
  (number_text_ok_iff ends).mpr ⟨value, rfl⟩

/-! ## Short whole numbers -/

private theorem readOnto_append (value : Nat) (front back : List Nat) :
    readOnto value (front ++ back) = readOnto (readOnto value front) back := by
  rw [readOnto, List.foldl_append]
  rfl

private theorem mul_pow_le_readOnto (value : Nat) (digits : List Nat) :
    value * 10 ^ digits.length ≤ readOnto value digits := by
  induction digits generalizing value with
  | nil => simp [readOnto]
  | cons d digits ih =>
    have step := Nat.le_trans (Nat.mul_le_mul_right _ (Nat.le_add_right (value * 10) d))
      (ih (value * 10 + d))
    rwa [Nat.mul_assoc, ← Nat.pow_succ'] at step

private theorem readOnto_lt (value : Nat) {text : List UInt8} (all : Digits text) :
    readOnto value (digitValues text) < (value + 1) * 10 ^ text.length := by
  induction text generalizing value with
  | nil => simp [readOnto, digitValues]
  | cons byte text ih =>
    have range := all byte (by simp)
    refine Nat.lt_of_lt_of_le (ih (value * 10 + (byte.toNat - 0x30)) all.tail) ?_
    rw [List.length_cons, Nat.pow_succ', ← Nat.mul_assoc]
    exact Nat.mul_le_mul_right _ (by omega)

/-- Whole numbers of fewer than 300 digits are never out of range. -/
theorem not_outOfRange_of_short {literal : NumberLiteral} (isWhole : literal.IsWhole)
    (short : literal.whole.length < 300) : ¬ literal.OutOfRange := by
  obtain ⟨front, split, read⟩ := absorb_append 0 (digitValues literal.whole)
  -- The zeros that stand for digits left over make the number no larger than it is written.
  have total : (absorb 0 (digitValues literal.whole)).1 *
      10 ^ (absorb 0 (digitValues literal.whole)).2.length < 10 ^ literal.whole.length := by
    have small : readOnto 0 (digitValues literal.whole) < 10 ^ literal.whole.length := by
      simpa using readOnto_lt 0 literal.wholeDigits
    refine Nat.lt_of_le_of_lt (mul_pow_le_readOnto _ _) ?_
    rwa [read, ← readOnto_append, ← split]
  have fewer : (absorb 0 (digitValues literal.whole)).2.length ≤ literal.whole.length := by
    have length := congrArg List.length split
    simp only [digitValues, List.length_map, List.length_append] at length ⊢
    omega
  obtain ⟨x, found⟩ := Binary64.ofDecimal?_of_lt (by omega) (Binary64.powerOfTen_lt (by omega))
    (Nat.lt_trans total (Binary64.powerOfTen_lt short)) (Nat.le_refl _)
  unfold NumberLiteral.OutOfRange NumberLiteral.value?
  rw [magnitude?_of_isWhole isWhole, found]
  split <;> simp

end Scan

end TokenIntake.Json
