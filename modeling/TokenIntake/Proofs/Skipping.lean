import TokenIntake.Json.Skip
import TokenIntake.Proofs.Reading

/-!
# Values passed over

What a value looks like that nobody asks for: any JSON, with numbers of any size, brackets of any
depth and escapes that need not make up characters. Such a value is passed over to its last byte,
whatever brackets are open around it. The induction is on the value, and says of every part that
the reader stands behind it with the same brackets open as in front of it.
-/

namespace TokenIntake.Json

/-! ## The grammar -/

/-- The inside of a string. Its escapes may be halves of surrogate pairs without the other half. -/
inductive LooseText : List UInt8 → Prop
  | nil : LooseText []
  | raw {byte : UInt8} {text : List UInt8} (noControl : 0x20 ≤ byte.toNat) (noQuote : byte ≠ 0x22)
      (noBackslash : byte ≠ 0x5C) (rest : LooseText text) : LooseText (byte :: text)
  | short {letter : UInt8} {c : Char} {text : List UInt8} (known : (letter, c) ∈ shortEscapes)
      (rest : LooseText text) : LooseText (0x5C :: letter :: text)
  | unit {n : Nat} {digits text : List UInt8} (number : HexUnit n digits) (rest : LooseText text) :
      LooseText (0x5C :: 0x75 :: (digits ++ text))

/-- A member, by the text of its value. -/
inductive LooseMember : List UInt8 → List UInt8 → Prop
  | mk {core key after before : List UInt8} (name : LooseText key) (back : Blanks after)
      (front : Blanks before) :
      LooseMember core (0x22 :: key ++ [0x22] ++ after ++ 0x3A :: (before ++ core))

/-- Any value: numbers are of any size, and brackets nest to any depth. -/
inductive WellFormed : List UInt8 → Prop
  | null : WellFormed [0x6E, 0x75, 0x6C, 0x6C]
  | true : WellFormed [0x74, 0x72, 0x75, 0x65]
  | false : WellFormed [0x66, 0x61, 0x6C, 0x73, 0x65]
  | number (literal : NumberLiteral) : WellFormed literal.text
  | string {text : List UInt8} (inside : LooseText text) : WellFormed (0x22 :: (text ++ [0x22]))
  | array {items : List (List UInt8)} {text : List UInt8} (inside : Entries Eq items text)
      (each : ∀ item ∈ items, WellFormed item) : WellFormed (0x5B :: (text ++ [0x5D]))
  | object {values : List (List UInt8)} {text : List UInt8}
      (inside : Entries LooseMember values text) (each : ∀ value ∈ values, WellFormed value) :
      WellFormed (0x7B :: (text ++ [0x7D]))

theorem wellFormed_starts {core : List UInt8} (h : WellFormed core) :
    ∃ byte tail, core = byte :: tail ∧ Scan.isBlank byte = false ∧ byte ≠ 0x5D := by
  cases h with
  | number literal =>
    obtain ⟨byte, tail, cons, token, other⟩ := literal.starts
    exact ⟨byte, tail, cons, token, other _ (by decide) (by decide)⟩
  | _ => exact ⟨_, _, rfl, by decide⟩

private theorem looseText_of_escape {c : Char} {spelled text : List UInt8}
    (escape : Escape c spelled)
    (rest : LooseText text) : LooseText (spelled ++ text) := by
  cases escape with
  | short known => exact .short known rest
  | unit number => exact .unit number rest
  | pair first second =>
    have low := LooseText.unit second rest
    have both := LooseText.unit first low
    simpa using both

private theorem looseText_of_pieces {text bytes : List UInt8} (h : Scan.Pieces text bytes) :
    LooseText text := by
  induction h with
  | nil => exact .nil
  | raw noControl noQuote noBackslash _ ih => exact .raw noControl noQuote noBackslash ih
  | escaped escape _ ih => exact looseText_of_escape escape ih

/-- Whatever spells characters is the inside of a string. -/
theorem looseText_of_spelling {cs : List Char} {text : List UInt8} (spelled : TextSpelling cs text) :
    LooseText text :=
  looseText_of_pieces (Scan.pieces_of_textSpelling spelled)

namespace Scan

/-! ## Strings -/

private theorem isSome_shortEscape? {letter : UInt8} {c : Char}
    (known : (letter, c) ∈ shortEscapes) :
    (shortEscape? letter).isSome = true := by
  have all : ∀ pair ∈ shortEscapes, (shortEscape? pair.1).isSome = true := by decide
  exact all _ known

private theorem skipEscape_short {letter : UInt8} {c : Char} (known : (letter, c) ∈ shortEscapes)
    (rest : List UInt8) : skipEscape (letter :: rest) = .ok ((), rest) := by
  rw [skipEscape, bind_of_ok (next_ok_iff.mpr rfl)]
  dsimp only
  rw [if_pos (isSome_shortEscape? known)]
  rfl

private theorem skipEscape_unit {n : Nat} {digits : List UInt8} (number : HexUnit n digits)
    (rest : List UInt8) : skipEscape (0x75 :: (digits ++ rest)) = .ok ((), rest) := by
  have read : hexUnit (digits ++ rest) = .ok (n, rest) := hexUnit_ok_iff.mpr ⟨_, number, rfl⟩
  rw [skipEscape, bind_of_ok (next_ok_iff.mpr rfl)]
  change (hexUnit >>= fun _ => pure ()) _ = _
  rw [bind_of_ok read]
  rfl

private theorem skipStringBytes_complete {fuel : Nat} {text rest : List UInt8}
    (loose : LooseText text)
    (enough : text.length < fuel) :
    skipStringBytes fuel (text ++ 0x22 :: rest) = .ok ((), rest) := by
  induction loose generalizing fuel with
  | nil =>
    obtain ⟨fuel, rfl⟩ := Nat.exists_eq_add_one.mpr enough
    rfl
  | @raw byte text noControl noQuote noBackslash _ ih =>
    obtain ⟨fuel, rfl⟩ : ∃ n, fuel = n + 1 := Nat.exists_eq_add_one.mpr (by omega)
    have printable : ¬ byte < 0x20 := by simpa [UInt8.lt_iff_toNat_lt] using noControl
    have length : text.length < fuel := by
      simp only [List.length_cons] at enough
      omega
    rw [← ih length]
    change (if byte = 0x22 then advance else if byte = 0x5C then _ else if byte < 0x20 then _
      else advance >>= fun _ => skipStringBytes fuel) (byte :: (text ++ 0x22 :: rest)) = _
    rw [if_neg noQuote, if_neg noBackslash, if_neg printable, bind_of_ok (advance_ok_iff.mpr rfl)]
  | @short letter c text known _ ih =>
    obtain ⟨fuel, rfl⟩ : ∃ n, fuel = n + 1 := Nat.exists_eq_add_one.mpr (by omega)
    have length : text.length < fuel := by
      simp only [List.length_cons] at enough
      omega
    rw [← ih length]
    change (skipEscape >>= fun _ => skipStringBytes fuel) (letter :: (text ++ 0x22 :: rest)) = _
    rw [bind_of_ok (skipEscape_short known _)]
  | @unit n digits text number _ ih =>
    obtain ⟨fuel, rfl⟩ : ∃ n, fuel = n + 1 := Nat.exists_eq_add_one.mpr (by omega)
    have length : text.length < fuel := by
      simp only [List.length_cons, List.length_append] at enough
      omega
    rw [← ih length]
    change (skipEscape >>= fun _ => skipStringBytes fuel)
      (0x75 :: (digits ++ text ++ 0x22 :: rest)) = _
    rw [List.append_assoc, bind_of_ok (skipEscape_unit number _)]

theorem skipString_complete {text : List UInt8} (loose : LooseText text) (rest : List UInt8) :
    skipString (text ++ 0x22 :: rest) = .ok ((), rest) :=
  skipStringBytes_complete loose (by simp only [List.length_append, List.length_cons]; omega)

/-! ## Numbers -/

private theorem skipExponent_complete (e : ExponentLiteral) {rest : List UInt8}
    (stops : NoDigit rest) :
    skipExponent (e.text ++ rest) = .ok ((), rest) := by
  obtain ⟨first, more, cons⟩ := List.exists_cons_of_ne_nil e.someDigit
  have all : Digits (first :: more) := cons ▸ e.isDigits
  have digit : isDigit first = true := isDigit_iff.mpr (all first List.mem_cons_self)
  have read : digits (more ++ rest) = .ok (digitValues more, rest) :=
    digits_ok_iff.mpr ⟨more, all.tail, rfl, rfl, stops⟩
  have noSign : ¬ (some first = some 0x2B ∨ some first = some 0x2D) := by
    rintro (h | h) <;> cases h <;> cases digit
  have unsigned : skipExponent (e.letter :: first :: (more ++ rest)) = .ok ((), rest) := by
    rw [skipExponent, bind_of_ok (advance_ok_iff.mpr rfl), bind_of_ok (peek_eq _), List.head?_cons,
      if_neg noSign]
    dsimp only
    rw [bind_of_ok (next_ok_iff.mpr rfl)]
    dsimp only
    rw [if_pos digit, bind_of_ok read]
    rfl
  -- A sign is passed over, whichever it is.
  have signed {sign : UInt8} (isSign : some sign = some 0x2B ∨ some sign = some 0x2D) :
      skipExponent (e.letter :: sign :: first :: (more ++ rest)) = .ok ((), rest) := by
    rw [← unsigned, skipExponent, bind_of_ok (advance_ok_iff.mpr rfl), bind_of_ok (peek_eq _),
      bind_of_ok (advance_ok_iff.mpr rfl), bind_of_ok (peek_eq _), List.head?_cons,
      List.head?_cons, if_pos isSign, if_neg noSign, bind_of_ok (advance_ok_iff.mpr rfl)]
  have text : e.text ++ rest = e.letter :: (e.sign ++ first :: (more ++ rest)) := by
    simp [ExponentLiteral.text, cons]
  rw [text]
  rcases e.isSign with sign | sign | sign
  · rw [sign]
    exact unsigned
  · rw [sign]
    exact signed (.inl rfl)
  · rw [sign]
    exact signed (.inr rfl)

/-- What is passed over behind the digits before the point. -/
def skipAfterWhole : Scan Unit := do
  let byte ← peek
  if byte = some 0x2E then skipFraction
  else if isExponentLetter byte then skipExponent
  else pure ()

private theorem skipNumber_eq {before rest : List UInt8} (all : Digits before)
    (someDigit : before ≠ [])
    (noLeadingZero : before = [0x30] ∨ before.head? ≠ some 0x30) (stops : NoDigit rest) :
    skipNumber (before ++ rest) = skipAfterWhole rest := by
  obtain ⟨first, more, rfl⟩ := List.exists_cons_of_ne_nil someDigit
  rw [List.cons_append, skipNumber, bind_of_ok (next_ok_iff.mpr rfl)]
  dsimp only
  rw [digit?_of_digits all]
  by_cases zero : first = 0x30
  · -- A leading zero is the whole part by itself.
    have alone : more = [] := by
      rcases noLeadingZero with h | h
      · exact (List.cons.inj h).2
      · exact absurd (by rw [zero]; rfl) h
    subst alone zero
    have noMore : rest.head?.any isDigit = false := by
      cases rest with
      | nil => rfl
      | cons byte rest => exact stops byte rfl
    change (peek >>= fun more => if more.any isDigit then _ else _) rest = _
    rw [bind_of_ok (peek_eq rest), noMore]
    rfl
  · have positive : first.toNat - 0x30 ≠ 0 := by
      have range := all first List.mem_cons_self
      have other : first.toNat ≠ 0x30 := fun h => zero (UInt8.toNat_inj.mp h)
      omega
    have read : (digits >>= fun _ => pure none : Scan (Option UInt8)) (more ++ rest) =
        .ok (none, rest) :=
      bind_pure_ok_iff.mpr ⟨_, digits_ok_iff.mpr ⟨more, all.tail, rfl, rfl, stops⟩, rfl⟩
    dsimp only
    rw [if_neg positive, bind_of_ok read]
    rfl

private theorem skipAfterWhole_complete {literal : NumberLiteral} {rest : List UInt8}
    (ends : Ends literal rest) :
    skipAfterWhole (literal.fractionText ++ (literal.exponentText ++ rest)) = .ok ((), rest) := by
  obtain ⟨stops, noLetter, noPoint⟩ := ends
  have letter (e : ExponentLiteral) : isExponentLetter (e.text ++ rest).head? = true :=
    isExponentLetter_iff.mpr (by simpa [ExponentLiteral.text] using e.isLetter)
  by_cases point : literal.fraction = []
  · rw [NumberLiteral.fractionText, if_pos point, List.nil_append, skipAfterWhole,
      bind_of_ok (peek_eq _)]
    cases e : literal.exponent with
    | none =>
      rw [NumberLiteral.exponentText, e, List.nil_append, if_neg (noPoint ⟨point, e⟩), noLetter e]
      rfl
    | some e' =>
      have other : (e'.text ++ rest).head? ≠ some 0x2E := by
        rcases isExponentLetter_iff.mp (letter e') with h | h <;> simp [h]
      rw [NumberLiteral.exponentText, e]
      dsimp only
      rw [if_neg other, if_pos (letter e')]
      exact skipExponent_complete e' stops
  · have present : ¬ (digitValues literal.fraction).isEmpty = true := by
      simpa [digitValues] using point
    have stops' : NoDigit (literal.exponentText ++ rest) := by
      cases e : literal.exponent with
      | none => rwa [NumberLiteral.exponentText, e]
      | some e' =>
        rw [NumberLiteral.exponentText, e]
        exact noDigit_of_letter (letter e')
    have read : digits (literal.fraction ++ (literal.exponentText ++ rest)) =
        .ok (digitValues literal.fraction, literal.exponentText ++ rest) :=
      digits_ok_iff.mpr ⟨_, literal.fractionDigits, rfl, rfl, stops'⟩
    rw [NumberLiteral.fractionText, if_neg point]
    change skipFraction (0x2E :: (literal.fraction ++ (literal.exponentText ++ rest))) = _
    rw [skipFraction, bind_of_ok (advance_ok_iff.mpr rfl), bind_of_ok read, if_neg present,
      bind_of_ok (peek_eq _)]
    cases e : literal.exponent with
    | none =>
      rw [NumberLiteral.exponentText, e, List.nil_append, noLetter e]
      rfl
    | some e' =>
      rw [NumberLiteral.exponentText, e]
      dsimp only
      rw [if_pos (letter e')]
      exact skipExponent_complete e' stops

private theorem skipNumber_complete {literal : NumberLiteral} {rest : List UInt8}
    (ends : Ends literal rest) : skipNumber (literal.magnitude ++ rest) = .ok ((), rest) := by
  rw [NumberLiteral.magnitude, List.append_assoc, List.append_assoc,
    skipNumber_eq literal.wholeDigits literal.someDigit literal.noLeadingZero
      (noDigit_of_ends ends),
    skipAfterWhole_complete ends]

/-! ## Brackets -/

/-- What is done behind a value or behind an opening bracket: brackets close until a part follows,
and the part is passed over. -/
def goOn (behindPart : Bool) (fuel : Nat) (enclosing : List Frame) : Scan Unit := do
  match ← resume behindPart enclosing with
  | none => pure ()
  | some [] => pure ()
  | some (frame :: rest) => do
    if frame = .object then skipName
    skipParts fuel (frame :: rest)

/-- A part of a bracket of the kind. In an object its name stands in front. -/
def skipPart (frame : Frame) (fuel : Nat) (enclosing : List Frame) : Scan Unit := do
  if frame = .object then skipName
  skipParts fuel enclosing

private theorem skipParts_succ (fuel : Nat) (enclosing : List Frame) :
    skipParts (fuel + 1) enclosing =
      skipToken >>= fun opened => goOn opened.isNone fuel (opened.toList ++ enclosing) := rfl

section

variable {fuel : Nat} {frame : Frame} {enclosing : List Frame} {input rest tail : List UInt8}

private theorem Frame.closing_eq (frame : Frame) : frame.closing = 0x5D ∨ frame.closing = 0x7D := by
  cases frame <;> simp [closing]

private theorem goOn_closing (behindPart : Bool) (skips : Skips input (frame.closing :: rest)) :
    goOn behindPart fuel (frame :: enclosing) input = goOn true fuel enclosing rest := by
  have token : isBlank frame.closing = false := by cases frame <;> rfl
  have noComma : ¬ (frame.closing = 0x2C ∧ behindPart = true) := by
    cases frame <;> simp [Frame.closing]
  have closes : resume behindPart (frame :: enclosing) input = resume true enclosing rest := by
    rw [resume, bind_of_ok (peekToken_of_skips skips token)]
    dsimp only
    rw [if_neg noComma, if_pos rfl]
    rfl
  change (resume behindPart (frame :: enclosing) input >>= _) = (resume true enclosing rest >>= _)
  rw [closes]

private theorem goOn_comma (skips : Skips input (0x2C :: tail)) :
    goOn true fuel (frame :: enclosing) input = skipPart frame fuel (frame :: enclosing) tail := by
  have resumes : resume true (frame :: enclosing) input = .ok (some (frame :: enclosing), tail) := by
    rw [resume, bind_of_ok (peekToken_of_skips skips (by decide))]
    rfl
  rw [goOn, bind_of_ok resumes]
  rfl

private theorem goOn_first {byte : UInt8} (skips : Skips input (byte :: tail))
    (token : isBlank byte = false) (opens : byte ≠ frame.closing) :
    goOn false fuel (frame :: enclosing) input =
      skipPart frame fuel (frame :: enclosing) (byte :: tail) := by
  have resumes : resume false (frame :: enclosing) input =
      .ok (some (frame :: enclosing), byte :: tail) := by
    rw [resume, bind_of_ok (peekToken_of_skips skips token)]
    dsimp only
    rw [if_neg (by simp), if_neg opens]
    rfl
  rw [goOn, bind_of_ok resumes]
  rfl

end

/-- The text is passed over wherever it stands: the reader goes on behind it with the brackets that
were open in front of it, and takes no more steps than the text has bytes. -/
def Passes (pass : Nat → List Frame → Scan Unit) (core : List UInt8) : Prop :=
  ∀ (fuel : Nat) (enclosing : List Frame) {input rest : List UInt8}, core.length ≤ fuel →
    Skips input (core ++ rest) → Breaks rest → ∃ left, fuel ≤ left + core.length ∧
      pass fuel enclosing input = goOn true left enclosing rest

section

variable {α : Type} {Entry : α → List UInt8 → Prop} {frame : Frame} {entries : List α}
  (fuel : Nat) (enclosing : List Frame) (rest : List UInt8)

private theorem goOn_moreEntries {blanks more : List UInt8}
    (spelled : MoreEntries Entry entries more)
    (each : ∀ entry ∈ entries, ∀ core, Entry entry core → Passes (skipPart frame) core)
    (front : Blanks blanks) (enough : more.length ≤ fuel) :
    ∃ left, fuel ≤ left + more.length ∧
      goOn true fuel (frame :: enclosing) (blanks ++ (more ++ frame.closing :: rest)) =
        goOn true left enclosing rest := by
  -- The blanks behind an entry are read with the separator that follows, so they vary.
  induction spelled generalizing fuel blanks with
  | nil => exact ⟨fuel, by simp, goOn_closing true ⟨blanks, front, rfl⟩⟩
  | @cons entry others before core after more front' head back tail ih =>
    obtain ⟨part, each⟩ := List.forall_mem_cons.mp each
    simp only [List.length_cons, List.length_append] at enough ⊢
    have breaks : Breaks (after ++ (more ++ frame.closing :: rest)) :=
      breaks_append back (breaks_moreEntries frame.closing_eq tail)
    obtain ⟨left, spent, passed⟩ :=
      part core head fuel (frame :: enclosing) (by omega) ⟨before, front', rfl⟩ breaks
    obtain ⟨left', spent', passed'⟩ := ih left each back (by omega)
    have skips : Skips (blanks ++ (0x2C :: (before ++ core ++ after ++ more) ++
        frame.closing :: rest))
        (0x2C :: (before ++ (core ++ (after ++ (more ++ frame.closing :: rest))))) :=
      ⟨blanks, front, by simp⟩
    exact ⟨left', by omega, by rw [goOn_comma skips, passed, passed']⟩

private theorem goOn_entries {text : List UInt8} (spelled : Entries Entry entries text)
    (starts : ∀ entry ∈ entries, ∀ core, Entry entry core →
      ∃ byte tail, core = byte :: tail ∧ isBlank byte = false ∧ byte ≠ frame.closing)
    (each : ∀ entry ∈ entries, ∀ core, Entry entry core → Passes (skipPart frame) core)
    (enough : text.length ≤ fuel) :
    ∃ left, fuel ≤ left + text.length ∧
      goOn false fuel (frame :: enclosing) (text ++ frame.closing :: rest) =
        goOn true left enclosing rest := by
  cases spelled with
  | none blanks => exact ⟨fuel, by simp, goOn_closing false ⟨text, blanks, rfl⟩⟩
  | @some entry others before core after more front head back tail =>
    obtain ⟨part, each⟩ := List.forall_mem_cons.mp each
    obtain ⟨byte, coreTail, cons, token, opens⟩ := starts entry List.mem_cons_self core head
    simp only [List.length_append] at enough ⊢
    have breaks : Breaks (after ++ (more ++ frame.closing :: rest)) :=
      breaks_append back (breaks_moreEntries frame.closing_eq tail)
    obtain ⟨left, spent, passed⟩ :=
      part core head fuel (frame :: enclosing) (by omega) (.refl _) breaks
    obtain ⟨left', spent', passed'⟩ := goOn_moreEntries left enclosing rest tail each back (by omega)
    have skips : Skips (before ++ core ++ after ++ more ++ frame.closing :: rest)
        (byte :: (coreTail ++ (after ++ (more ++ frame.closing :: rest)))) :=
      ⟨before, front, by simp [cons]⟩
    rw [cons, List.cons_append] at passed
    exact ⟨left', by omega, by rw [goOn_first skips token opens, passed, passed']⟩

end

/-! ## Values -/

private theorem skipToken_of_skips {input tail : List UInt8} {byte : UInt8}
    (skips : Skips input (byte :: tail)) (token : isBlank byte = false) :
    skipToken input = skipToken (byte :: tail) := by
  rw [skipToken, bind_of_ok (peekToken_of_skips skips token),
    bind_of_ok (peekToken_of_skips (.refl _) token)]

private theorem passes_scalar {core : List UInt8} (h : WellFormed core)
    (token : ∀ {rest : List UInt8}, Breaks rest → skipToken (core ++ rest) = .ok (none, rest)) :
    Passes skipParts core := by
  intro fuel enclosing input rest enough skips breaks
  have read := token breaks
  obtain ⟨byte, tail, rfl, notBlank, -⟩ := wellFormed_starts h
  simp only [List.length_cons] at enough ⊢
  obtain ⟨fuel, rfl⟩ : ∃ n, fuel = n + 1 := Nat.exists_eq_add_one.mpr (by omega)
  refine ⟨fuel, by omega, ?_⟩
  rw [skipParts_succ, bind_of_ok ((skipToken_of_skips skips notBlank).trans read)]
  rfl

/-- A bracket with its entries. -/
private theorem passes_brackets (frame : Frame) {α : Type} {Entry : α → List UInt8 → Prop}
    {entries : List α} {byte : UInt8} {text : List UInt8}
    (opening : ∀ {input tail : List UInt8}, Skips input (byte :: tail) →
      skipToken input = .ok (some frame, tail))
    (spelled : Entries Entry entries text)
    (starts : ∀ entry ∈ entries, ∀ core, Entry entry core →
      ∃ byte tail, core = byte :: tail ∧ isBlank byte = false ∧ byte ≠ frame.closing)
    (each : ∀ entry ∈ entries, ∀ core, Entry entry core → Passes (skipPart frame) core) :
    Passes skipParts (byte :: (text ++ [frame.closing])) := by
  intro fuel enclosing input rest enough skips breaks
  simp only [List.length_cons, List.length_append, List.length_nil] at enough ⊢
  obtain ⟨fuel, rfl⟩ : ∃ n, fuel = n + 1 := Nat.exists_eq_add_one.mpr (by omega)
  rw [enclosed_append] at skips
  obtain ⟨left, spent, passed⟩ :=
    goOn_entries fuel enclosing rest spelled starts each (by omega)
  refine ⟨left, by omega, ?_⟩
  rw [skipParts_succ, bind_of_ok (opening skips), ← passed]
  rfl

private theorem skipName_complete {key after input rest : List UInt8} (name : LooseText key)
    (back : Blanks after) (skips : Skips input (0x22 :: (key ++ 0x22 :: (after ++ 0x3A :: rest)))) :
    skipName input = .ok ((), rest) := by
  have separated : colon (after ++ 0x3A :: rest) = .ok ((), rest) :=
    colon_ok_iff.mpr ⟨after, back, rfl⟩
  rw [skipName, bind_of_ok (peekToken_of_skips skips (by decide))]
  dsimp only
  rw [if_pos rfl, bind_of_ok (advance_ok_iff.mpr rfl), bind_of_ok (skipString_complete name _),
    separated]

private theorem passes_member {value core : List UInt8} (member : LooseMember value core)
    (passes : Passes skipParts value) : Passes (skipPart .object) core := by
  obtain ⟨name, back, front⟩ := member
  rename_i key after before
  intro fuel enclosing input rest enough skips breaks
  simp only [List.length_cons, List.length_append, List.length_nil] at enough ⊢
  have front' : 0x22 :: key ++ [0x22] ++ after ++ 0x3A :: (before ++ value) ++ rest =
      0x22 :: (key ++ 0x22 :: (after ++ 0x3A :: (before ++ (value ++ rest)))) := by simp
  rw [front'] at skips
  obtain ⟨left, spent, passed⟩ :=
    passes fuel enclosing (by omega) ⟨before, front, rfl⟩ breaks
  refine ⟨left, by omega, ?_⟩
  change (skipName >>= fun _ => skipParts fuel enclosing) input = _
  rw [bind_of_ok (skipName_complete name back skips), passed]

private theorem skipToken_number {literal : NumberLiteral} {rest : List UInt8}
    (breaks : Breaks rest) :
    skipToken (literal.text ++ rest) = .ok (none, rest) := by
  have passed : skipNumber (literal.magnitude ++ rest) = .ok ((), rest) :=
    skipNumber_complete (ends_of_breaks breaks)
  have read : (skipNumber >>= fun _ => pure none : Scan (Option Frame)) (literal.magnitude ++ rest) =
      .ok (none, rest) := bind_pure_ok_iff.mpr ⟨(), passed, rfl⟩
  cases sign : literal.negative with
  | true =>
    rw [NumberLiteral.text_of_negative sign]
    exact read
  | false =>
    obtain ⟨byte, tail, cons, range⟩ := literal.exists_magnitude_cons
    have digit : isDigit byte = true := isDigit_iff.mpr range
    have other {token : UInt8} (h : isDigit token = false) : byte ≠ token := by
      rintro rfl
      rw [digit] at h
      cases h
    rw [NumberLiteral.text_of_positive sign]
    rw [cons, List.cons_append] at read ⊢
    rw [skipToken, bind_of_ok (peekToken_of_skips (.refl _) (isBlank_of_range range))]
    dsimp only
    rw [if_neg (other (by decide)), if_neg (other (by decide)), if_neg (other (by decide)),
      if_neg (other (by decide)), if_pos digit, read]

/-- A word of letters behind its first one. -/
private theorem skipWord (word rest : List UInt8) :
    (literal word >>= fun _ => pure none : Scan (Option Frame)) (word ++ rest) = .ok (none, rest) :=
  bind_pure_ok_iff.mpr ⟨(), literal_ok_iff.mpr rfl, rfl⟩

private theorem skipToken_null (tail : List UInt8) : skipToken (0x6E :: tail) =
    (nullTail >>= fun _ => pure none) tail := rfl

private theorem skipToken_true (tail : List UInt8) : skipToken (0x74 :: tail) =
    (trueTail >>= fun _ => pure none) tail := rfl

private theorem skipToken_false (tail : List UInt8) : skipToken (0x66 :: tail) =
    (falseTail >>= fun _ => pure none) tail := rfl

private theorem skipToken_quote (tail : List UInt8) : skipToken (0x22 :: tail) =
    (skipString >>= fun _ => pure none) tail := rfl

/-- Any value is passed over. -/
theorem passes_wellFormed {core : List UInt8} (h : WellFormed core) : Passes skipParts core := by
  induction h with
  | null => exact passes_scalar .null fun _ => (skipToken_null _).trans (skipWord ..)
  | true => exact passes_scalar .true fun _ => (skipToken_true _).trans (skipWord ..)
  | false => exact passes_scalar .false fun _ => (skipToken_false _).trans (skipWord ..)
  | number literal => exact passes_scalar (.number literal) skipToken_number
  | @string text inside =>
    refine passes_scalar (.string inside) fun {rest} _ => ?_
    rw [enclosed_append, skipToken_quote, bind_of_ok (skipString_complete inside rest)]
    rfl
  | @array items text inside each ih =>
    refine passes_brackets .array (fun skips => ?_) inside ?_ ?_
    · rw [skipToken_of_skips skips (by decide)]
      rfl
    · rintro item found _ rfl
      exact wellFormed_starts (each item found)
    · rintro item found _ rfl
      exact ih item found
  | @object values text inside each ih =>
    refine passes_brackets .object (fun skips => ?_) inside ?_ ?_
    · rw [skipToken_of_skips skips (by decide)]
      rfl
    · rintro value found _ ⟨⟩
      exact ⟨_, _, rfl, by decide⟩
    · exact fun value found core member => passes_member member (ih value found)

/-- A value that nobody asks for is passed over to its last byte. -/
theorem skipValue_complete {core input rest : List UInt8} (h : WellFormed core)
    (skips : Skips input (core ++ rest)) (breaks : Breaks rest) :
    skipValue input = .ok ((), rest) := by
  obtain ⟨blanks, -, split⟩ := id skips
  have enough : core.length ≤ input.length + 1 := by
    simp only [split, List.length_append]
    omega
  obtain ⟨left, -, passed⟩ := passes_wellFormed h (input.length + 1) [] enough skips breaks
  exact passed

end Scan

end TokenIntake.Json
