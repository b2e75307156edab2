import TokenIntake.Proofs.Listings
import TokenIntake.Proofs.Numerals
import TokenIntake.Proofs.Truncation

/-!
# Pages of a query

A page has the size and the number that its raw values ask for, and the defaults where they ask
for nothing in range. A value is cut before it is read: of a numeral of more than a hundred bytes
the first hundred count, whose number may be in range although that of the whole numeral is not.
-/

namespace TokenIntake

open Numeral (Unsigned)
open QueryValue (clean sanitize IsCleaned)

namespace QueryValue

/-! ## Numerals in raw values -/

/-- Of characters of one byte the cut leaves as many as it leaves bytes. -/
private theorem takeBytes_eq_take {text : List Char} (ascii : ∀ c ∈ text, c.toNat < 128)
    (budget : Nat) :
    takeBytes budget text = text.take budget := by
  induction text generalizing budget with
  | nil => rw [takeBytes, List.take_nil]
  | cons c text ih =>
    obtain ⟨low, ascii⟩ := List.forall_mem_cons.mp ascii
    have size : c.utf8Size = 1 := by
      rw [← String.length_utf8EncodeChar, Utf8.encodeChar_of_lt low]
      rfl
    rw [takeBytes, size]
    cases budget with
    | zero => rfl
    | succ budget =>
      rw [if_pos (Nat.le_add_left 1 budget), Nat.add_sub_cancel, ih ascii, List.take_succ_cons]

/-- A numeral that is cut stays a numeral, of the number without the digits that are cut off. -/
private theorem unsigned_sanitize {raw : String} {n : Nat}
    (numeral : Unsigned (clean raw).toList n) :
    Unsigned (sanitize raw).toList (n / 10 ^ ((clean raw).utf8ByteSize - maxSize)) := by
  have ascii := numeral.lt_of_mem
  rw [toList_sanitize, takeBytes_eq_take ascii, size_of_ascii ascii]
  exact numeral.take (by decide)

/-- The text with line feeds, carriage returns, tabs and zero characters put in anywhere. -/
inductive Interspersed : List Char → List Char → Prop
  | nil : Interspersed [] []
  | keep {text raw : List Char} (c : Char) (rest : Interspersed text raw) :
    Interspersed (c :: text) (c :: raw)
  | put {text raw : List Char} {c : Char} (stripped : c ∈ ['\n', '\r', '\t', '\x00'])
    (rest : Interspersed text raw) : Interspersed text (c :: raw)

theorem Interspersed.filter_eq {text raw : List Char} (h : Interspersed text raw) :
    raw.filter (· ∉ ['\n', '\r', '\t', '\x00']) =
      text.filter (· ∉ ['\n', '\r', '\t', '\x00']) := by
  induction h with
  | nil => rfl
  | keep c rest ih => rw [List.filter_cons, List.filter_cons, ih]
  | @put text raw c stripped rest ih =>
    have dropped : ¬ decide (c ∉ ['\n', '\r', '\t', '\x00']) = true := by
      rw [decide_eq_true_iff, not_not]
      exact stripped
    rw [List.filter_cons, if_neg dropped, ih]

private theorem interspersed_self : (text : List Char) → Interspersed text text
  | [] => .nil
  | c :: text => .keep c (interspersed_self text)

/-- Plain digits with blanks around them and stripped characters anywhere. -/
def Padded (digits : List Char) (raw : String) : Prop :=
  ∃ front back, (∀ c ∈ front, isBlank c = true) ∧ (∀ c ∈ back, isBlank c = true) ∧
    Interspersed (front ++ digits ++ back) raw.toList

/-- Nothing has to be around them. -/
private theorem padded_ofList (digits : List Char) : Padded digits (String.ofList digits) :=
  ⟨[], [], nofun, nofun, by simpa using interspersed_self digits⟩

theorem Padded.toList_clean {digits : List Char} {raw : String} (padded : Padded digits raw)
    (all : ∀ c ∈ digits, c.isDigit = true) : (clean raw).toList = digits := by
  obtain ⟨front, back, blank, blank', spelled⟩ := padded
  -- A digit is neither stripped nor a blank, so only what is around the digits goes.
  have kept : digits.filter (· ∉ ['\n', '\r', '\t', '\x00']) = digits := by
    rw [List.filter_eq_self]
    intro c found
    apply decide_eq_true
    intro stripped
    have digit := all c found
    simp only [List.mem_cons, List.not_mem_nil, or_false] at stripped
    rcases stripped with rfl | rfl | rfl | rfl <;> cases digit
  have solid : ∀ c ∈ digits, isBlank c = false := fun c found =>
    Numeral.isBlank_of_isDigit (all c found)
  have split : raw.toList.filter (· ∉ ['\n', '\r', '\t', '\x00']) =
      front.filter (· ∉ ['\n', '\r', '\t', '\x00']) ++ digits ++
        back.filter (· ∉ ['\n', '\r', '\t', '\x00']) := by
    rw [spelled.filter_eq, List.filter_append, List.filter_append, kept]
  refine (isCleaned_iff.mp ⟨_, _, split, ?_, ?_, ?_, ?_⟩).symm
  · exact fun c found => blank c (List.mem_filter.mp found).1
  · exact fun c found => blank' c (List.mem_filter.mp found).1
  · exact fun c first => solid c (List.mem_of_mem_head? first)
  · exact fun c last => solid c (List.mem_of_mem_getLast? last)

end QueryValue

namespace Pagination

/-! ## Numbers in range -/

/-- The value asks for the number: it is a numeral of it, and the number is in range. -/
def Asks (max : Nat) (raw : Option String) (n : Nat) : Prop :=
  1 ≤ n ∧ n ≤ max ∧ ∃ value ∈ raw, Unsigned (sanitize value).toList n

/-- Why a value asks for no number in range. -/
inductive AsksNothing (max : Nat) : Option String → Prop
  | missing : AsksNothing max none
  | noNumeral {raw : String} (other : ∀ n, ¬ Unsigned (sanitize raw).toList n) :
    AsksNothing max (some raw)
  | outOfRange {raw : String} {n : Nat} (numeral : Unsigned (sanitize raw).toList n)
    (outside : ¬ (1 ≤ n ∧ n ≤ max)) : AsksNothing max (some raw)

/-- The number if it is in range, and otherwise the default. -/
def orDefault (max default n : Nat) : Nat := if 1 ≤ n ∧ n ≤ max then n else default

section

variable {max n : Nat} {raw : Option String} (small : max < Word.limit)

include small

theorem bounded?_eq_some_iff : bounded? raw max = some n ↔ Asks max raw n := by
  cases raw with
  | none => exact iff_of_false nofun (by simp [Asks])
  | some raw =>
    -- The word has room for all numbers in range, so the reader refuses none of them.
    have reads {n : Nat} : n ≤ max → (Unsigned (sanitize raw).toList n ↔
        Numeral.natural (Word.limit - 1) (sanitize raw).toList = .ok n) := by
      intro most
      rw [Numeral.natural_eq_ok_iff, and_iff_left (by omega)]
    simp only [bounded?, Option.bind_eq_bind, Option.bind_some]
    constructor
    · intro found
      split at found
      next m read =>
        rw [Option.ite_none_right_eq_some] at found
        obtain ⟨⟨least, most⟩, ⟨⟩⟩ := found
        exact ⟨least, most, raw, rfl, (reads most).mpr read⟩
      next => cases found
    · rintro ⟨least, most, _, ⟨⟩, numeral⟩
      rw [(reads most).mp numeral]
      exact if_pos ⟨least, most⟩

theorem bounded?_eq_none_iff : bounded? raw max = none ↔ AsksNothing max raw := by
  constructor
  · intro nothing
    have refuses (n : Nat) : ¬ Asks max raw n := by
      rw [← bounded?_eq_some_iff small, nothing]
      nofun
    cases raw with
    | none => exact .missing
    | some raw =>
      by_cases numeral : ∃ n, Unsigned (sanitize raw).toList n
      · obtain ⟨n, numeral⟩ := numeral
        exact .outOfRange numeral fun range => refuses n ⟨range.1, range.2, raw, rfl, numeral⟩
      · exact .noNumeral (not_exists.mp numeral)
  · intro nothing
    rw [Option.eq_none_iff_forall_ne_some]
    intro n found
    obtain ⟨least, most, value, found, numeral⟩ := (bounded?_eq_some_iff small).mp found
    cases nothing with
    | missing => cases found
    | noNumeral other =>
      cases found
      exact other n numeral
    | outOfRange numeral' outside =>
      cases found
      exact outside (numeral.unique numeral' ▸ ⟨least, most⟩)

theorem getD_bounded?_eq_iff {default : Nat} :
    (bounded? raw max).getD default = n ↔
      Asks max raw n ∨ n = default ∧ AsksNothing max raw := by
  rw [← bounded?_eq_some_iff small, ← bounded?_eq_none_iff small]
  cases bounded? raw max <;> simp [eq_comm]

/-- A numeral is read as its number if that is in range. -/
private theorem getD_bounded?_of_numeral {value : String} {default : Nat}
    (numeral : Unsigned (sanitize value).toList n) :
    (bounded? (some value) max).getD default = orDefault max default n := by
  rw [getD_bounded?_eq_iff small, orDefault]
  split
  next range => exact .inl ⟨range.1, range.2, value, rfl, numeral⟩
  next outside => exact .inr ⟨rfl, .outOfRange numeral outside⟩

end

/-! ## Pages -/

/-- The items of the page are counted without overflow. -/
structure HasWindow (p : Pagination) : Prop where
  toNat_start : p.start.toNat = p.page.toNat * p.limit.toNat
  toNat_stop : p.stop.toNat = p.start.toNat + p.limit.toNat
  stop_le : p.stop.toNat ≤ 100100

theorem InBounds.hasWindow {p : Pagination} (bounds : p.InBounds) : p.HasWindow := by
  obtain ⟨-, size, number⟩ := bounds
  -- The bounds leave both results far below the size of a word.
  have product : p.page.toNat * p.limit.toNat ≤ 1000 * 100 := Nat.mul_le_mul number size
  have start : p.start.toNat = p.page.toNat * p.limit.toNat := by
    rw [Pagination.start, UInt64.toNat_mul, Nat.mod_eq_of_lt (by omega)]
  have stop : p.stop.toNat = p.start.toNat + p.limit.toNat := by
    rw [Pagination.stop, UInt64.toNat_add, Nat.mod_eq_of_lt (by omega)]
  exact ⟨start, stop, by omega⟩

/-- The plain decimal of a number in range is not cut. -/
private theorem asks_of_padded {max n : Nat} {raw : String} (least : 1 ≤ n) (most : n ≤ max)
    (small : max ≤ 1000) (padded : QueryValue.Padded (Numeral.ofNat n) raw) :
    Asks max (some raw) n := by
  have said : (clean raw).toList = Numeral.ofNat n :=
    padded.toList_clean fun c found => Numeral.isDigit_of_mem_ofNat found
  have numeral : Unsigned (clean raw).toList n := said ▸ .bare (Numeral.digits_ofNat n)
  have short : (Numeral.ofNat n).length ≤ 4 := by
    rw [Numeral.ofNat, Nat.length_toDigits_le_iff (by decide) (by decide)]
    omega
  have fits : (clean raw).utf8ByteSize ≤ QueryValue.maxSize := by
    rw [size_of_ascii numeral.lt_of_mem, said]
    exact Nat.le_trans short (by decide)
  refine ⟨least, most, raw, rfl, ?_⟩
  rwa [QueryValue.sanitize_eq_clean_iff.mpr fits]

/-- A page takes what is asked for in range and the defaults otherwise, and all its items can be
counted. -/
theorem ofQuery_takes_numbers_in_range (limit page : Option String) :
    (∀ n, (ofQuery limit page).limit.toNat = n ↔
      Asks 100 limit n ∨ n = 100 ∧ AsksNothing 100 limit) ∧
    (∀ n, (ofQuery limit page).page.toNat = n ↔
      Asks 1000 page n ∨ n = 0 ∧ AsksNothing 1000 page) ∧
    (ofQuery limit page).InBounds ∧ (ofQuery limit page).HasWindow ∧
    (∀ n raw, 1 ≤ n → n ≤ 100 → QueryValue.Padded (Numeral.ofNat n) raw →
      (ofQuery (some raw) page).limit.toNat = n) ∧
    ∀ n raw, 1 ≤ n → n ≤ 1000 → QueryValue.Padded (Numeral.ofNat n) raw →
      (ofQuery limit (some raw)).page.toNat = n := by
  have size (limit : Option String) (n : Nat) : (ofQuery limit page).limit.toNat = n ↔
      Asks 100 limit n ∨ n = 100 ∧ AsksNothing 100 limit := by
    rw [toNat_limit_ofQuery]
    exact getD_bounded?_eq_iff (by decide)
  have number (page : Option String) (n : Nat) : (ofQuery limit page).page.toNat = n ↔
      Asks 1000 page n ∨ n = 0 ∧ AsksNothing 1000 page := by
    rw [toNat_page_ofQuery]
    exact getD_bounded?_eq_iff (by decide)
  have bounds := inBounds_ofQuery limit page
  refine ⟨size limit, number page, bounds, bounds.hasWindow, ?_, ?_⟩
  · intro n raw least most padded
    exact (size (some raw) n).mpr (.inl (asks_of_padded least most (by decide) padded))
  · intro n raw least most padded
    exact (number (some raw) n).mpr (.inl (asks_of_padded least most (by decide) padded))

/-! ## Numerals past the cut -/

/-- A page reads what the cut leaves of a numeral. -/
theorem ofQuery_of_numeral {raw : String} {n : Nat} (numeral : Unsigned (sanitize raw).toList n)
    (other : Option String) :
    (ofQuery (some raw) other).limit.toNat = orDefault 100 100 n ∧
      (ofQuery other (some raw)).page.toNat = orDefault 1000 0 n := by
  rw [toNat_limit_ofQuery, toNat_page_ofQuery]
  exact ⟨getD_bounded?_of_numeral (by decide) numeral,
    getD_bounded?_of_numeral (by decide) numeral⟩

/-- Of a numeral the first hundred bytes count. A shorter one is read as its number, and a longer
one as the number without the digits behind them. -/
theorem ofQuery_reads_first_hundred {raw : String} {n : Nat}
    (numeral : Unsigned (clean raw).toList n) (other : Option String) :
    (∀ text, IsCleaned raw.toList text ↔ text = (clean raw).toList) ∧
    ((clean raw).utf8ByteSize ≤ 100 →
      (ofQuery (some raw) other).limit.toNat = orDefault 100 100 n ∧
      (ofQuery other (some raw)).page.toNat = orDefault 1000 0 n) ∧
    ∀ more, (clean raw).utf8ByteSize = 100 + more →
      Unsigned ((clean raw).toList.take 100) (n / 10 ^ more) ∧
      (ofQuery (some raw) other).limit.toNat = orDefault 100 100 (n / 10 ^ more) ∧
      (ofQuery other (some raw)).page.toNat = orDefault 1000 0 (n / 10 ^ more) := by
  refine ⟨fun _ => QueryValue.isCleaned_iff, fun short => ?_, fun more long => ?_⟩
  · have whole : sanitize raw = clean raw := QueryValue.sanitize_eq_clean_iff.mpr short
    exact ofQuery_of_numeral (whole ▸ numeral) other
  · have left : (clean raw).utf8ByteSize - QueryValue.maxSize = more := by
      rw [long]
      exact Nat.add_sub_cancel_left _ _
    have cut : Unsigned (sanitize raw).toList (n / 10 ^ more) :=
      left ▸ QueryValue.unsigned_sanitize numeral
    refine ⟨?_, ofQuery_of_numeral cut other⟩
    rwa [QueryValue.toList_sanitize, QueryValue.takeBytes_eq_take numeral.lt_of_mem] at cut

/-- Zeros in front of five hundred, so that the last digit is one too many. -/
def longDigits : List Char := List.replicate 98 '0' ++ ['5', '0', '0']

def longNumeral : String := String.ofList longDigits

private theorem digits_longDigits : Numeral.Digits longDigits 500 where
  present := List.append_ne_nil_of_right_ne_nil _ (List.cons_ne_nil _ _)
  digit c found := by
    have last : ['5', '0', '0'].all Char.isDigit = true := rfl
    rcases List.mem_append.mp found with zero | found
    · rw [List.eq_of_mem_replicate zero]
      rfl
    · exact List.all_eq_true.mp last c found
  value := by
    rw [longDigits, Nat.ofDigitChars_append, Nat.ofDigitChars_replicate_zero, Nat.mul_zero]
    rfl

private theorem toList_clean_longNumeral : (clean longNumeral).toList = longDigits :=
  (QueryValue.padded_ofList longDigits).toList_clean digits_longDigits.digit

private theorem unsigned_longNumeral : Unsigned (clean longNumeral).toList 500 := by
  rw [toList_clean_longNumeral]
  exact .bare digits_longDigits

private theorem size_longNumeral : (clean longNumeral).utf8ByteSize = 101 := by
  rw [size_of_ascii unsigned_longNumeral.lt_of_mem, toList_clean_longNumeral]
  rfl

/-- Without its last digit the numeral stands for fifty. -/
theorem ofQuery_reads_first_hundred_of_longNumeral :
    Unsigned (clean longNumeral).toList 500 ∧ (clean longNumeral).utf8ByteSize = 101 ∧
      (ofQuery (some longNumeral) none).limit.toNat = 50 ∧
      (ofQuery none (some longNumeral)).page.toNat = 50 := by
  obtain ⟨-, -, longer⟩ := ofQuery_reads_first_hundred unsigned_longNumeral none
  obtain ⟨-, limit, page⟩ := longer 1 size_longNumeral
  exact ⟨unsigned_longNumeral, size_longNumeral, limit, page⟩

/-- Neither the size nor the number of a page is always what the whole numeral asks for. -/
theorem ofQuery_misreads_longNumeral :
    ¬ (∀ raw n, Unsigned (clean raw).toList n → ∀ other,
      (ofQuery (some raw) other).limit.toNat = orDefault 100 100 n) ∧
    ¬ (∀ raw n, Unsigned (clean raw).toList n → ∀ other,
      (ofQuery other (some raw)).page.toNat = orDefault 1000 0 n) := by
  have cut := QueryValue.unsigned_sanitize unsigned_longNumeral
  rw [size_longNumeral] at cut
  obtain ⟨limit, page⟩ := ofQuery_of_numeral cut none
  refine ⟨fun whole => ?_, fun whole => ?_⟩
  · -- Five hundred is no size, so a hundred is claimed and fifty is read.
    have claimed := whole _ _ unsigned_longNumeral none
    exact absurd (limit.symm.trans claimed) (by decide)
  · have claimed := whole _ _ unsigned_longNumeral none
    exact absurd (page.symm.trans claimed) (by decide)

end Pagination

end TokenIntake
