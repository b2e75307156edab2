import TokenIntake.Proofs.Grammar

/-!
# What the scanners read

A scanner succeeds on a text exactly if the text starts with what the scanner is for. Every
scanner has one lemma that says so, and a scanner that calls another one uses the lemma of
the other. Arrays and objects are read by one loop, whose entries and separators are
parameters.
-/

namespace TokenIntake.Json.Scan

variable {α β : Type}

theorem bind_ok_iff {s : Scan α} {f : α → Scan β} {input rest : List UInt8} {b : β} :
    (s >>= f) input = .ok (b, rest) ↔
      ∃ a mid, s input = .ok (a, mid) ∧ f a mid = .ok (b, rest) := by
  change (s input >>= fun p => f p.1 p.2) = _ ↔ _
  cases h : s input with
  | error fault => simp [bind, Except.bind]
  | ok p =>
    constructor
    · exact fun ok => ⟨p.1, p.2, rfl, ok⟩
    · rintro ⟨a, mid, same, ok⟩
      cases same
      exact ok

theorem bind_of_ok {s : Scan α} {f : α → Scan β} {input mid : List UInt8} {a : α}
    (h : s input = .ok (a, mid)) : (s >>= f) input = f a mid := by
  change (s input >>= fun p => f p.1 p.2) = _
  rw [h]
  rfl

theorem pure_ok_iff {a b : α} {input rest : List UInt8} :
    (pure a : Scan α) input = .ok (b, rest) ↔ a = b ∧ input = rest := by
  change Except.ok (a, input) = _ ↔ _
  simp

theorem bind_pure_ok_iff {s : Scan α} {f : α → β} {input rest : List UInt8} {b : β} :
    (s >>= fun a => pure (f a)) input = .ok (b, rest) ↔
      ∃ a, s input = .ok (a, rest) ∧ f a = b := by
  rw [bind_ok_iff]
  constructor
  · rintro ⟨a, mid, read, ok⟩
    obtain ⟨rfl, rfl⟩ := pure_ok_iff.mp ok
    exact ⟨a, read, rfl⟩
  · rintro ⟨a, read, rfl⟩
    exact ⟨a, rest, read, pure_ok_iff.mpr ⟨rfl, rfl⟩⟩

@[simp] theorem fail_ne_ok {reason : Malformed} {input rest : List UInt8} {a : α} :
    (fail reason : Scan α) input ≠ .ok (a, rest) := by
  simp [fail, failWith]

@[simp] theorem failAtNext_ne_ok {reason : Malformed} {input rest : List UInt8} {a : α} :
    (failAtNext reason : Scan α) input ≠ .ok (a, rest) := by
  simp [failAtNext]

/-- Only blanks stand between two places. -/
def Skips (input rest : List UInt8) : Prop := ∃ blanks, Blanks blanks ∧ input = blanks ++ rest

/-- A token or the end of the text stands in front. -/
def AtToken (text : List UInt8) : Prop := ∀ byte ∈ text.head?, isBlank byte = false

theorem Skips.trans {first second third : List UInt8} (h : Skips first second)
    (h' : Skips second third) : Skips first third := by
  obtain ⟨before, blanks, rfl⟩ := h
  obtain ⟨after, blanks', rfl⟩ := h'
  exact ⟨before ++ after, blanks.append blanks', (List.append_assoc ..).symm⟩

theorem isBlank_iff (byte : UInt8) :
    isBlank byte = true ↔ byte = 0x20 ∨ byte = 0x09 ∨ byte = 0x0A ∨ byte = 0x0D := by
  simp [isBlank, or_assoc]

theorem dropWhile_stops (p : UInt8 → Bool) (input : List UInt8) :
    ∀ byte ∈ (input.dropWhile p).head?, p byte = false := by
  intro byte front
  have stops := List.head?_dropWhile_not p input
  rw [Option.mem_def.mp front] at stops
  simpa using stops

/-- A run of bytes is taken to its end if the next byte does not go on with it. -/
theorem span_append {p : UInt8 → Bool} {front rest : List UInt8}
    (run : ∀ byte ∈ front, p byte = true) (stops : ∀ byte ∈ rest.head?, p byte = false) :
    (front ++ rest).takeWhile p = front ∧ (front ++ rest).dropWhile p = rest := by
  rw [List.takeWhile_append_of_pos run, List.dropWhile_append_of_pos run]
  cases rest with
  | nil => simp
  | cons byte rest => simp [stops byte rfl]

theorem dropWhile_eq_iff {input rest : List UInt8} :
    input.dropWhile isBlank = rest ↔ Skips input rest ∧ AtToken rest := by
  constructor
  · rintro rfl
    refine ⟨⟨input.takeWhile isBlank, ?_, List.takeWhile_append_dropWhile.symm⟩,
      dropWhile_stops isBlank input⟩
    intro byte member
    exact (isBlank_iff byte).mp (List.all_eq_true.mp List.all_takeWhile byte member)
  · rintro ⟨⟨blanks, allBlank, rfl⟩, token⟩
    have run : ∀ byte ∈ blanks, isBlank byte = true := by
      intro byte member
      exact (isBlank_iff byte).mpr (allBlank byte member)
    exact (span_append run token).2

theorem skips_unique {input first second : List UInt8} (skips : Skips input first)
    (token : AtToken first) (skips' : Skips input second) (token' : AtToken second) :
    first = second :=
  (dropWhile_eq_iff.mpr ⟨skips, token⟩).symm.trans (dropWhile_eq_iff.mpr ⟨skips', token'⟩)

theorem peekToken_ok_iff {input rest : List UInt8} {next : Option UInt8} :
    peekToken input = .ok (next, rest) ↔ rest.head? = next ∧ Skips input rest ∧ AtToken rest := by
  rw [← dropWhile_eq_iff]
  change Except.ok ((input.dropWhile isBlank).head?, input.dropWhile isBlank) = _ ↔ _
  simp only [Except.ok.injEq, Prod.mk.injEq]
  constructor
  · rintro ⟨rfl, rfl⟩
    exact ⟨rfl, rfl⟩
  · rintro ⟨rfl, rfl⟩
    exact ⟨rfl, rfl⟩

theorem peek_eq (input : List UInt8) : peek input = .ok (input.head?, input) := rfl

theorem next_ok_iff {input rest : List UInt8} {byte : UInt8} :
    next input = .ok (some byte, rest) ↔ input = byte :: rest := by
  cases input <;> simp [next]

theorem advance_ok_iff {byte : UInt8} {input rest : List UInt8} :
    advance (byte :: input) = .ok ((), rest) ↔ input = rest := by
  simp [advance]

theorem peekToken_of_skips {input tail : List UInt8} {byte : UInt8}
    (skips : Skips input (byte :: tail)) (token : isBlank byte = false) :
    peekToken input = .ok (some byte, byte :: tail) :=
  peekToken_ok_iff.mpr ⟨rfl, skips, by rintro _ ⟨rfl⟩; exact token⟩

/-! ## Tokens -/

theorem literal_ok_iff {expected input rest : List UInt8} :
    literal expected input = .ok ((), rest) ↔ input = expected ++ rest := by
  induction expected generalizing input with
  | nil => simp [literal, pure_ok_iff]
  | cons byte expected ih =>
    cases input with
    | nil => simp [literal, bind_ok_iff, next, and_assoc]
    | cons found input =>
      have step : literal (byte :: expected) (found :: input) =
          (if found = byte then literal expected else fail .noLiteral) input := rfl
      rw [step]
      by_cases same : found = byte
      · simp [same, ih]
      · simp [same]

/-- How a scanner of separators finds out whether another entry follows: `close` ends the
list, and an entry starts with a byte of the given kind. -/
def Separates (close : UInt8) (starts : UInt8 → Prop) (next : Bool → Scan Bool) : Prop :=
  ∀ first input more rest, next first input = .ok (more, rest) ↔
    ∃ byte tail, rest = byte :: tail ∧
      (more = false ∧ byte = close ∧ Skips input rest ∨
        more = true ∧ starts byte ∧ (first = true ∧ Skips input rest ∨
          first = false ∧ ∃ mid, Skips input (0x2C :: mid) ∧ Skips mid rest))

/-- What arrays and objects have in common in front of an entry: their closing byte, or the
first entry, or a comma and another entry. -/
def separator (close : UInt8) (endless noComma : Malformed)
    (opening following : Option UInt8 → Scan Bool) (first : Bool) : Scan Bool := do
  match ← peekToken with
  | none => fail endless
  | some byte =>
    if byte = close then pure false
    else if first then opening (some byte)
    else if byte = 0x2C then do
      advance
      following (← peekToken)
    else failAtNext noComma

section

variable {close : UInt8} {starts : UInt8 → Prop} {opening following : Option UInt8 → Scan Bool}

/-- The scanner that looks at the byte behind a comma lets an entry start there, and nothing
else. -/
def Follows (starts : UInt8 → Prop) (following : Option UInt8 → Scan Bool) : Prop :=
  ∀ text more rest, AtToken text → (following text.head? text = .ok (more, rest) ↔
    more = true ∧ rest = text ∧ ∃ byte ∈ text.head?, starts byte)

private theorem separates_separator {endless noComma : Malformed}
    (closes : close = 0x5D ∨ close = 0x7D)
    (isToken : ∀ byte, starts byte → isBlank byte = false ∧ byte ≠ close)
    (opens : ∀ byte tail more rest, isBlank byte = false → byte ≠ close →
      (opening (some byte) (byte :: tail) = .ok (more, rest) ↔
        more = true ∧ rest = byte :: tail ∧ starts byte))
    (follows : Follows starts following) :
    Separates close starts (separator close endless noComma opening following) := by
  intro first input more rest
  constructor
  · intro ok
    obtain ⟨front, mid, peeked, ok⟩ := bind_ok_iff.mp ok
    obtain ⟨rfl, skips, token⟩ := peekToken_ok_iff.mp peeked
    cases mid with
    | nil => simp at ok
    | cons byte tail =>
      simp only [List.head?_cons] at ok
      -- The three ways to go on, of which the last one needs a second look behind the comma.
      split at ok
      next atClose =>
        obtain ⟨rfl, rfl⟩ := pure_ok_iff.mp ok
        exact ⟨byte, tail, rfl, .inl ⟨rfl, atClose, skips⟩⟩
      next notClose =>
        split at ok
        next isFirst =>
          obtain ⟨rfl, rfl, start⟩ := (opens _ _ _ _ (token byte rfl) notClose).mp ok
          exact ⟨byte, tail, rfl, .inr ⟨rfl, start, .inl ⟨isFirst, skips⟩⟩⟩
        next notFirst =>
          split at ok
          next comma =>
            subst comma
            obtain ⟨_, behind, advanced, ok⟩ := bind_ok_iff.mp ok
            obtain rfl := advance_ok_iff.mp advanced
            obtain ⟨front, mid, peeked, ok⟩ := bind_ok_iff.mp ok
            obtain ⟨rfl, skips', token'⟩ := peekToken_ok_iff.mp peeked
            obtain ⟨rfl, rfl, byte, found, start⟩ := (follows _ _ _ token').mp ok
            obtain ⟨tail', rfl⟩ := List.head?_eq_some_iff.mp found
            exact ⟨byte, tail', rfl, .inr ⟨rfl, start,
              .inr ⟨by simpa using notFirst, _, skips, skips'⟩⟩⟩
          next => simp at ok
  · rintro ⟨byte, tail, rfl, ⟨rfl, rfl, skips⟩ | ⟨rfl, start, h⟩⟩
    · have token : isBlank byte = false := by
        rcases closes with rfl | rfl <;> rfl
      rw [separator, bind_of_ok (peekToken_of_skips skips token)]
      dsimp only
      rw [if_pos rfl]
      exact pure_ok_iff.mpr ⟨rfl, rfl⟩
    · obtain ⟨token, notClose⟩ := isToken byte start
      -- The first entry stands here, a later one behind its comma.
      rcases h with ⟨rfl, skips⟩ | ⟨rfl, mid, skips, skips'⟩
      · rw [separator, bind_of_ok (peekToken_of_skips skips token)]
        dsimp only
        rw [if_neg notClose, if_pos rfl]
        exact (opens _ _ _ _ token notClose).mpr ⟨rfl, rfl, start⟩
      · have other : (0x2C : UInt8) ≠ close := by
          rcases closes with rfl | rfl <;> decide
        have behind : AtToken (byte :: tail) := by
          rintro _ ⟨rfl⟩
          exact token
        rw [separator, bind_of_ok (peekToken_of_skips skips rfl)]
        dsimp only
        rw [if_neg other, if_neg Bool.false_ne_true, if_pos rfl,
          bind_of_ok (advance_ok_iff.mpr rfl), bind_of_ok (peekToken_of_skips skips' token)]
        exact (follows _ _ _ behind).mpr ⟨rfl, rfl, byte, rfl, start⟩

end

/-- Behind the comma of an array stands anything but the closing bracket. -/
def itemStart : Option UInt8 → Scan Bool
  | none => fail .endInValue
  | some byte => if byte = 0x5D then failAtNext .trailingComma else pure true

private theorem nextItem_eq_separator :
    nextItem = separator 0x5D .endInArray .noCommaOrBracket (fun _ => pure true) itemStart :=
  rfl

private theorem nextMember_eq_separator : nextMember =
    separator 0x7D .endInObject .noCommaOrBrace nextMember.nameStart nextMember.nameStart :=
  rfl

theorem separates_nextItem :
    Separates 0x5D (fun byte => isBlank byte = false ∧ byte ≠ 0x5D) nextItem := by
  rw [nextItem_eq_separator]
  apply separates_separator (.inl rfl) (fun _ start => start)
  · intro byte tail more rest token notClose
    rw [pure_ok_iff, eq_comm (a := rest)]
    simp [token, notClose]
  · intro text more rest token
    cases text with
    | nil => simp [itemStart]
    | cons byte tail =>
      have notBlank : isBlank byte = false := token byte rfl
      by_cases atClose : byte = 0x5D
      · simp [itemStart, atClose]
      · simp [itemStart, atClose, notBlank, pure_ok_iff, eq_comm (a := rest)]

theorem nameStart_ok_iff {next : Option UInt8} {input rest : List UInt8} {more : Bool} :
    nextMember.nameStart next input = .ok (more, rest) ↔
      more = true ∧ rest = input ∧ next = some 0x22 := by
  cases next with
  | none => simp [nextMember.nameStart]
  | some byte =>
    unfold nextMember.nameStart
    by_cases quote : byte = 0x22
    · simp [quote, pure_ok_iff, eq_comm (a := rest)]
    · by_cases brace : byte = 0x7D <;> simp [quote, brace]

theorem separates_nextMember : Separates 0x7D (· = 0x22) nextMember := by
  rw [nextMember_eq_separator]
  apply separates_separator (.inr rfl)
  · rintro _ rfl
    exact ⟨rfl, by decide⟩
  · intro byte tail more rest _ _
    rw [nameStart_ok_iff, Option.some.injEq]
  · intro text more rest _
    rw [nameStart_ok_iff]
    simp

theorem Skips.refl (text : List UInt8) : Skips text text := ⟨[], .nil, rfl⟩

theorem colon_ok_iff {input rest : List UInt8} :
    colon input = .ok ((), rest) ↔ Skips input (0x3A :: rest) := by
  constructor
  · intro ok
    obtain ⟨front, mid, peeked, ok⟩ := bind_ok_iff.mp ok
    obtain ⟨rfl, skips, -⟩ := peekToken_ok_iff.mp peeked
    cases mid with
    | nil => simp at ok
    | cons byte tail =>
      simp only [List.head?_cons] at ok
      split at ok
      next isColon =>
        obtain rfl := advance_ok_iff.mp ok
        rwa [isColon] at skips
      next => simp at ok
  · intro skips
    rw [colon, bind_of_ok (peekToken_of_skips skips rfl)]
    rfl

theorem closeArray_ok_iff {input unread : List UInt8} :
    closeArray input = .ok ((), unread) ↔ Skips input (0x5D :: unread) := by
  constructor
  · intro ok
    obtain ⟨front, mid, peeked, ok⟩ := bind_ok_iff.mp ok
    obtain ⟨rfl, skips, -⟩ := peekToken_ok_iff.mp peeked
    cases mid with
    | nil => simp at ok
    | cons byte tail =>
      simp only [List.head?_cons] at ok
      split at ok
      next isClosing =>
        obtain rfl := advance_ok_iff.mp ok
        rwa [isClosing] at skips
      next =>
        split at ok
        next =>
          obtain ⟨_, behind, -, ok⟩ := bind_ok_iff.mp ok
          obtain ⟨front, mid, -, ok⟩ := bind_ok_iff.mp ok
          cases front with
          | none => simp at ok
          | some byte =>
            dsimp only at ok
            split at ok <;> simp at ok
        next => simp at ok
  · intro skips
    rw [closeArray, bind_of_ok (peekToken_of_skips skips rfl)]
    rfl

theorem finish_ok_iff {input rest : List UInt8} :
    finish input = .ok ((), rest) ↔ Blanks input ∧ rest = [] := by
  constructor
  · intro ok
    rw [finish, bind_ok_iff] at ok
    obtain ⟨front, mid, peeked, ok⟩ := ok
    obtain ⟨rfl, ⟨blanks, allBlank, rfl⟩, -⟩ := peekToken_ok_iff.mp peeked
    cases mid with
    | nil =>
      obtain ⟨-, rfl⟩ := pure_ok_iff.mp ok
      exact ⟨by simpa using allBlank, rfl⟩
    | cons byte tail => simp at ok
  · rintro ⟨blanks, rfl⟩
    have peeked : peekToken input = .ok (none, []) :=
      peekToken_ok_iff.mpr ⟨rfl, ⟨input, blanks, by simp⟩, by rintro _ ⟨⟩⟩
    rw [finish, bind_of_ok peeked]
    rfl

/-! ## Lists -/

/-- The entries of a list up to its closing byte, given the scanner of what stands in front
of an entry. -/
def listOf (endless : Malformed) (next : Bool → Scan Bool) (entry : Scan α) :
    Nat → Bool → Scan (List α)
  | 0, _ => fail endless
  | fuel + 1, first => do
    if ← next first then
      let a ← entry
      let rest ← listOf endless next entry fuel false
      pure (a :: rest)
    else pure []

theorem items_eq_listOf (item : Scan α) (fuel : Nat) (first : Bool) :
    items item fuel first = listOf .endInArray nextItem item fuel first := by
  induction fuel generalizing first with
  | zero => rfl
  | succ fuel ih => simp only [items, listOf, ih]

/-- A member, whose quote stays unread until here. -/
def member (value : Scan Json) : Scan (String × Json) := do
  advance
  let name ← string
  colon
  let value' ← value
  pure (name, value')

theorem members_eq_listOf (value : Scan Json) (fuel : Nat) (first : Bool) :
    members value fuel first = listOf .endInObject nextMember (member value) fuel first := by
  induction fuel generalizing first with
  | zero => rfl
  | succ fuel ih => simp only [members, listOf, member, ih, bind_assoc, pure_bind]

/-- What stands behind a closing bracket or quote can be told apart from what stands inside. -/
theorem enclosed_append (opening closing : UInt8) (text rest : List UInt8) :
    opening :: (text ++ [closing]) ++ rest = opening :: (text ++ closing :: rest) := by
  simp

/-- The text in front does not go on with a number that ends where it starts. -/
def Breaks (text : List UInt8) : Prop :=
  ∀ byte ∈ text.head?, isDigit byte = false ∧ byte ≠ 0x2E ∧ byte ≠ 0x65 ∧ byte ≠ 0x45

/-- The scanner reads every spelling that stands in front. -/
def Completes (scan : Scan α) (Spelled : α → List UInt8 → Prop) : Prop :=
  ∀ {core rest : List UInt8} {a : α}, Spelled a core → Breaks rest →
    scan (core ++ rest) = .ok (a, rest)

/-- The scanner reads exactly the spellings, blanks in front of them included, where a byte
of the given kind stands in front. -/
structure Reads (starts : UInt8 → Prop) (scan : Scan α) (Spelled : α → List UInt8 → Prop) :
    Prop where
  sound {input rest : List UInt8} {a : α} (front : ∀ byte ∈ input.head?, starts byte)
    (ok : scan input = .ok (a, rest)) : ∃ core, Spelled a core ∧ Skips input (core ++ rest)
  complete : Completes scan Spelled

section

variable {endless : Malformed} {next : Bool → Scan Bool} {entry : Scan α} {close : UInt8}
  {starts : UInt8 → Prop} {Spelled : α → List UInt8 → Prop}

private theorem listOf_sound (separates : Separates close starts next)
    (reads : Reads starts entry Spelled)
    {fuel : Nat} {input rest : List UInt8} {entries : List α}
    (ok : listOf endless next entry fuel false input = .ok (entries, rest)) :
    ∃ tail more, rest = close :: tail ∧ MoreEntries Spelled entries more ∧
      Skips input (more ++ rest) := by
  -- Every step takes one entry with the comma in front of it off the input.
  induction fuel generalizing input entries with
  | zero => simp [listOf] at ok
  | succ fuel ih =>
    obtain ⟨another, mid, found, ok⟩ := bind_ok_iff.mp ok
    obtain ⟨byte, tail, rfl, ⟨rfl, rfl, skips⟩ | ⟨rfl, start, ⟨⟨⟩, -⟩ | ⟨-, mid, comma, skips⟩⟩⟩ :=
      (separates ..).mp found
    · obtain ⟨rfl, rfl⟩ := pure_ok_iff.mp ok
      exact ⟨tail, [], rfl, .nil, skips⟩
    · obtain ⟨a, behind, read, ok⟩ := bind_ok_iff.mp ok
      obtain ⟨others, rest', read', ok⟩ := bind_ok_iff.mp ok
      obtain ⟨rfl, rfl⟩ := pure_ok_iff.mp ok
      obtain ⟨core, spelled, skips'⟩ := reads.sound (by rintro _ ⟨rfl⟩; exact start) read
      obtain ⟨tail', more, closes, moreSpelled, after, back, rfl⟩ := ih read'
      obtain ⟨before, front, rfl⟩ := skips.trans skips'
      refine ⟨tail', _, closes, .cons front spelled back moreSpelled, ?_⟩
      simpa using comma

/-- What is read up to the closing byte are the entries of a list. -/
theorem listOf_first_sound (separates : Separates close starts next)
    (reads : Reads starts entry Spelled) {fuel : Nat} {input rest : List UInt8} {entries : List α}
    (ok : listOf endless next entry fuel true input = .ok (entries, rest)) :
    ∃ tail text, rest = close :: tail ∧ Entries Spelled entries text ∧ input = text ++ rest := by
  cases fuel with
  | zero => simp [listOf] at ok
  | succ fuel =>
    obtain ⟨another, mid, found, ok⟩ := bind_ok_iff.mp ok
    obtain ⟨byte, tail, rfl, ⟨rfl, rfl, skips⟩ | ⟨rfl, start, ⟨-, skips⟩ | ⟨⟨⟩, -⟩⟩⟩ :=
      (separates ..).mp found
    · obtain ⟨rfl, rfl⟩ := pure_ok_iff.mp ok
      obtain ⟨blanks, front, rfl⟩ := skips
      exact ⟨tail, blanks, rfl, .none front, rfl⟩
    · obtain ⟨a, behind, read, ok⟩ := bind_ok_iff.mp ok
      obtain ⟨others, rest', read', ok⟩ := bind_ok_iff.mp ok
      obtain ⟨rfl, rfl⟩ := pure_ok_iff.mp ok
      obtain ⟨core, spelled, skips'⟩ := reads.sound (by rintro _ ⟨rfl⟩; exact start) read
      obtain ⟨tail', more, closes, moreSpelled, after, back, rfl⟩ :=
        listOf_sound separates reads read'
      obtain ⟨before, front, rfl⟩ := skips.trans skips'
      exact ⟨tail', _, closes, .some front spelled back moreSpelled, by simp⟩

/-- A text whose first byte is a blank, a comma or a closing bracket breaks a number. -/
private theorem breaks_cons {byte : UInt8} {rest : List UInt8}
    (h : isBlank byte = true ∨ byte = 0x2C ∨ byte = 0x5D ∨ byte = 0x7D) :
    Breaks (byte :: rest) := by
  rintro _ ⟨rfl⟩
  rw [isBlank_iff] at h
  rcases h with (rfl | rfl | rfl | rfl) | rfl | rfl | rfl <;> decide

theorem breaks_append {blanks rest : List UInt8} (h : Blanks blanks) (breaks : Breaks rest) :
    Breaks (blanks ++ rest) := by
  cases blanks with
  | nil => exact breaks
  | cons byte blanks => exact breaks_cons (.inl ((isBlank_iff byte).mpr (h byte (by simp))))

theorem breaks_moreEntries {entries : List α} {more tail : List UInt8}
    (closes : close = 0x5D ∨ close = 0x7D) (spelled : MoreEntries Spelled entries more) :
    Breaks (more ++ close :: tail) := by
  cases spelled with
  | nil => exact breaks_cons (.inr (.inr closes))
  | cons => exact breaks_cons (.inr (.inl rfl))

variable (closes : close = 0x5D ∨ close = 0x7D)
  (startsEntry : ∀ a core, Spelled a core → ∃ byte tail, core = byte :: tail ∧ starts byte)

include closes startsEntry

private theorem listOf_complete (separates : Separates close starts next)
    (complete : Completes entry Spelled) {fuel : Nat} {blanks more tail : List UInt8}
    {entries : List α}
    (spelled : MoreEntries Spelled entries more) (front : Blanks blanks)
    (enough : more.length < fuel) :
    listOf endless next entry fuel false (blanks ++ (more ++ close :: tail)) =
      .ok (entries, close :: tail) := by
  -- The blanks behind an entry are read with the separator that follows, so they vary.
  induction spelled generalizing fuel blanks with
  | nil =>
    obtain ⟨fuel, rfl⟩ := Nat.exists_eq_add_one.mpr enough
    have found : next false (blanks ++ close :: tail) = .ok (false, close :: tail) :=
      (separates ..).mpr ⟨close, tail, rfl, .inl ⟨rfl, rfl, blanks, front, rfl⟩⟩
    rw [listOf, List.nil_append, bind_of_ok found]
    rfl
  | @cons a others before core after more front' head back rest ih =>
    obtain ⟨fuel, rfl⟩ : ∃ n, fuel = n + 1 := Nat.exists_eq_add_one.mpr (by omega)
    obtain ⟨byte, coreTail, same, start⟩ := startsEntry a core head
    have found : next false (blanks ++ (0x2C :: (before ++ core ++ after ++ more) ++
        close :: tail)) = .ok (true, core ++ (after ++ (more ++ close :: tail))) := by
      refine (separates ..).mpr ⟨byte, _, by rw [same]; rfl, .inr ⟨rfl, start, .inr ⟨rfl,
        before ++ (core ++ (after ++ (more ++ close :: tail))), ?_, ?_⟩⟩⟩
      · exact ⟨blanks, front, by simp⟩
      · exact ⟨before, front', rfl⟩
    have breaks : Breaks (more ++ close :: tail) := breaks_moreEntries closes rest
    have read := complete head (breaks_append back breaks)
    -- The comma alone makes the text that is left shorter than the fuel that is left.
    have length : more.length < fuel := by
      simp only [List.length_cons, List.length_append] at enough
      omega
    rw [listOf, bind_of_ok found]
    change (entry >>= fun _ => _) _ = _
    rw [bind_of_ok read, bind_of_ok (ih back length)]
    rfl

theorem listOf_first_complete (separates : Separates close starts next)
    (complete : Completes entry Spelled) {fuel : Nat} {text tail : List UInt8} {entries : List α}
    (spelled : Entries Spelled entries text) (enough : text.length < fuel) :
    listOf endless next entry fuel true (text ++ close :: tail) = .ok (entries, close :: tail) := by
  obtain ⟨fuel, rfl⟩ : ∃ n, fuel = n + 1 := Nat.exists_eq_add_one.mpr (by omega)
  cases spelled with
  | none blanks =>
    have found : next true (text ++ close :: tail) = .ok (false, close :: tail) :=
      (separates ..).mpr ⟨close, tail, rfl, .inl ⟨rfl, rfl, text, blanks, rfl⟩⟩
    rw [listOf, bind_of_ok found]
    rfl
  | @some a others before core after more front head back rest =>
    obtain ⟨byte, coreTail, same, start⟩ := startsEntry a core head
    have found : next true (before ++ core ++ after ++ more ++ close :: tail) =
        .ok (true, core ++ (after ++ (more ++ close :: tail))) := by
      refine (separates ..).mpr ⟨byte, _, by rw [same]; rfl, .inr ⟨rfl, start, .inl ⟨rfl, ?_⟩⟩⟩
      exact ⟨before, front, by simp [List.append_assoc]⟩
    have breaks : Breaks (more ++ close :: tail) := breaks_moreEntries closes rest
    have read := complete head (breaks_append back breaks)
    -- The first entry has no comma, but at least one byte.
    have length : more.length < fuel := by
      simp only [same, List.length_cons, List.length_append] at enough
      omega
    rw [listOf, bind_of_ok found]
    change (entry >>= fun _ => _) _ = _
    rw [bind_of_ok read,
      bind_of_ok (listOf_complete closes startsEntry separates complete rest back length)]
    rfl

end

end TokenIntake.Json.Scan
