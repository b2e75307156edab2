import Mathlib.Data.List.Forall2
import TokenIntake.Json.Printer
import TokenIntake.Toml.Document

/-!
# Reading plain TOML

What the lexers take from a text, in the direction that a writer needs: if a text is written in a
plain way, then just this text is taken, and it stands for what was written. A string that is
written with the escapes of JSON is a string of TOML as well, and a header with entries to the
line is a table.
-/

namespace TokenIntake.Toml

namespace Lexer

variable {α β : Type}

/-- The part takes the text in front of the rest, and nothing else, and yields the value. -/
def Takes (part : Lexer α) (text : List Char) (value : α) (rest : List Char) : Prop :=
  part (text ++ rest) = some (value, rest)

private theorem bind_eq (part : Lexer α) (next : α → Lexer β) (unread : List Char) :
    (part >>= next) unread = (part unread).bind fun found => next found.1 found.2 := rfl

private theorem bind_of_none {part : Lexer α} {next : α → Lexer β} {unread : List Char}
    (stops : part unread = none) : (part >>= next) unread = none := by
  rw [bind_eq, stops]
  rfl

private theorem orElse_of_none {first second : Lexer α} {unread : List Char}
    (stops : first unread = none) :
    (first <|> second) unread = second unread := by
  change (first unread <|> second unread) = _
  rw [stops]
  rfl

namespace Takes

variable {part other : Lexer α} {text more rest : List Char} {value : α}

theorem pure (value : α) (rest : List Char) : Takes (Pure.pure value) [] value rest := rfl

theorem bind {next : α → Lexer β} {result : β} (first : Takes part text value (more ++ rest))
    (second : Takes (next value) more result rest) :
    Takes (part >>= next) (text ++ more) result rest := by
  unfold Takes at first second ⊢
  rw [List.append_assoc, bind_eq, first]
  exact second

/-- The second part may take nothing. -/
theorem bind_nil {next : α → Lexer β} {result : β} (first : Takes part text value rest)
    (second : Takes (next value) [] result rest) : Takes (part >>= next) text result rest := by
  have both : Takes (part >>= next) (text ++ []) result rest := .bind first second
  rwa [List.append_nil] at both

/-- The first part may take nothing. -/
theorem nil_bind {next : α → Lexer β} {result : β} (first : Takes part [] value (text ++ rest))
    (second : Takes (next value) text result rest) : Takes (part >>= next) text result rest :=
  .bind first second

theorem map (f : α → β) (takes : Takes part text value rest) :
    Takes (f <$> part) text (f value) rest := by
  unfold Takes at takes ⊢
  change ((part (text ++ rest)).bind fun found => some (f found.1, found.2)) = _
  rw [takes]
  rfl

theorem orElse (takes : Takes part text value rest) : Takes (part <|> other) text value rest := by
  unfold Takes at takes ⊢
  change (part (text ++ rest) <|> other (text ++ rest)) = _
  rw [takes]
  rfl

theorem orElse_right (stops : other (text ++ rest) = none) (takes : Takes part text value rest) :
    Takes (other <|> part) text value rest := by
  unfold Takes
  rw [orElse_of_none stops]
  exact takes

theorem maybe (takes : Takes part text value rest) :
    Takes (Lexer.maybe part) text (some value) rest :=
  (takes.map some).orElse

/-- A part that does not apply takes nothing. -/
theorem maybe_none (stops : part rest = none) : Takes (Lexer.maybe part) [] none rest := by
  refine .orElse_right ?_ (.pure none rest)
  change (part rest).bind _ = none
  rw [stops]
  rfl

end Takes

/-- A class does not go on at the front of the rest. -/
def Ends (accept : Char → Bool) (rest : List Char) : Prop := ∀ c ∈ rest.head?, accept c = false

private theorem ends_nil (accept : Char → Bool) : Ends accept [] := nofun

private theorem ends_cons {accept : Char → Bool} {c : Char} (stops : accept c = false)
    (rest : List Char) : Ends accept (c :: rest) := by
  rintro _ ⟨⟩
  exact stops

private theorem ends_of_ne {c d : Char} (other : c ≠ d) (rest : List Char) :
    Ends (· == d) (c :: rest) := by
  rintro _ ⟨⟩
  exact beq_false_of_ne other

/-- A character of a class is none that does not belong to it. -/
private theorem ne_of_accept {accept : Char → Bool} {c d : Char} (inside : accept c = true)
    (outside : accept d = false) : c ≠ d := by
  rintro rfl
  exact Bool.false_ne_true (outside.symm.trans inside)

private theorem ends_dropWhile (accept : Char → Bool) (text : List Char) :
    Ends accept (text.dropWhile accept) := by
  intro c front
  have stops := List.head?_dropWhile_not accept text
  rw [Option.mem_def.mp front] at stops
  simpa using stops

private theorem takes_char (c : Char) (rest : List Char) : Takes (char c) [c] () rest := by
  simp [Takes, char, satisfy, bind_eq]
  rfl

private theorem char_eq_none {c : Char} {unread : List Char} (ends : Ends (· == c) unread) :
    char c unread = none := by
  cases unread with
  | nil => rfl
  | cons d unread =>
    have other : (d == c) = false := ends d rfl
    simp [char, satisfy, bind_eq, other]

private theorem word_cons (c : Char) (cs unread : List Char) :
    word (c :: cs) (c :: unread) = word cs unread := by
  have first : char c (c :: unread) = some ((), unread) := takes_char c unread
  rw [word, bind_eq, first]
  rfl

private theorem takes_run {accept : Char → Bool} {text rest : List Char}
    (all : ∀ c ∈ text, accept c = true) (ends : Ends accept rest) :
    Takes (run accept) text text rest := by
  unfold Takes run
  rw [List.takeWhile_append_of_pos all, List.dropWhile_append_of_pos all]
  cases rest with
  | nil => simp
  | cons c rest => simp [ends c rfl]

private theorem takes_run1 {accept : Char → Bool} {text rest : List Char}
    (all : ∀ c ∈ text, accept c = true) (some : text ≠ []) (ends : Ends accept rest) :
    Takes (run1 accept) text text rest := by
  refine .bind_nil (takes_run all ends) ?_
  rw [if_neg (by simpa using some)]
  exact .pure text rest

private theorem run1_eq_none {accept : Char → Bool} {unread : List Char}
    (ends : Ends accept unread) :
    run1 accept unread = none := by
  cases unread with
  | nil => rfl
  | cons c unread =>
    simp only [run1, run, bind_eq, List.takeWhile_cons, ends c rfl]
    rfl

private theorem takes_blanks {text rest : List Char} (all : ∀ c ∈ text, isBlank c = true)
    (ends : Ends isBlank rest) : Takes blanks text () rest :=
  .bind_nil (takes_run all ends) (.pure () rest)

/-- The part applies again and again to a text, and no more behind it. -/
inductive Repeats (part : Lexer α) : List Char → List α → List Char → Prop
  | done {rest : List Char} (stops : part rest = none) : Repeats part [] [] rest
  | more {text others rest : List Char} {value : α} {values : List α}
      (first : Takes part text value (others ++ rest)) (nonempty : text ≠ [])
      (tail : Repeats part others values rest) :
      Repeats part (text ++ others) (value :: values) rest

theorem Repeats.takes_upTo {part : Lexer α} {text rest : List Char} {values : List α}
    (repeats : Repeats part text values rest) {fuel : Nat} (enough : text.length ≤ fuel) :
    Takes (upTo part fuel) text values rest := by
  induction repeats generalizing fuel with
  | done stops =>
    cases fuel with
    | zero => exact .pure ..
    | succ fuel => exact .nil_bind (.maybe_none stops) (.pure ..)
  | @more text others rest value values first nonempty tail ih =>
    have positive := List.length_pos_iff.mpr nonempty
    rw [List.length_append] at enough
    cases fuel with
    | zero => omega
    | succ fuel =>
      have room : others.length ≤ fuel := by omega
      exact .bind first.maybe (.bind_nil (ih room) (.pure ..))

theorem Repeats.takes_many {part : Lexer α} {text rest : List Char} {values : List α}
    (repeats : Repeats part text values rest) : Takes (many part) text values rest :=
  repeats.takes_upTo (by simp)

/-! ## Strings -/

private theorem hexDigit?_digitChar :
    ∀ value < 16, hexDigit? (Nat.digitChar value) = some value := by
  decide

private theorem takes_hexNumber_succ (digit : Nat) {value count result : Nat}
    {text rest : List Char}
    (small : digit < 16) (takes : Takes (hexNumber count (16 * value + digit)) text result rest) :
    Takes (hexNumber (count + 1) value) (Nat.digitChar digit :: text) result rest := by
  have known := hexDigit?_digitChar digit small
  have first : Takes (satisfy fun c => (hexDigit? c).isSome) [Nat.digitChar digit]
      (Nat.digitChar digit) (text ++ rest) := by
    simp [Takes, satisfy, known]
  refine .bind first ?_
  rwa [known, Option.getD_some]

private theorem takes_scalar (c : Char) (rest : List Char) : Takes (scalar c.toNat) [] c rest := by
  have valid : c.toNat.isValidChar := c.valid
  unfold scalar
  rw [if_pos valid, Char.ofNat_toNat]
  exact .pure c rest

/-- A control character is read from its number. -/
private theorem takes_escaped_control {c : Char} (control : c.toNat < 0x20) (rest : List Char) :
    Takes escaped ['u', '0', '0', Nat.digitChar (c.toNat / 16), Nat.digitChar (c.toNat % 16)] c
      rest := by
  have number : Takes (hexNumber 4 0) ['0', '0', Nat.digitChar (c.toNat / 16),
      Nat.digitChar (c.toNat % 16)] c.toNat rest := by
    -- The first two digits are zero.
    have total : 16 * (16 * (16 * (16 * 0 + 0) + 0) + c.toNat / 16) + c.toNat % 16 = c.toNat := by
      omega
    refine takes_hexNumber_succ 0 (by decide) ?_
    refine takes_hexNumber_succ 0 (by decide) ?_
    refine takes_hexNumber_succ _ (by omega) ?_
    refine takes_hexNumber_succ _ (by omega) ?_
    rw [total]
    exact .pure ..
  have character : Takes (hexNumber 4 0 >>= scalar) _ c rest :=
    .bind_nil number (takes_scalar c rest)
  exact character

/-- An escape of JSON is one of TOML, for the same character. -/
private theorem exists_escape {c : Char} {escape : List Char}
    (written : Json.escape? c = some escape) :
    ∃ text, escape = '\\' :: text ∧ ∀ rest, Takes escaped text c rest := by
  have short (d letter : Char) (same : c.toNat = d.toNat)
      (takes : ∀ rest, Takes escaped [letter] d rest)
      (written : some ['\\', letter] = some escape) :
      ∃ text, escape = '\\' :: text ∧ ∀ rest, Takes escaped text c rest := by
    obtain rfl : c = d := Char.ext (UInt32.toNat_inj.mp same)
    exact ⟨[letter], (Option.some.inj written).symm, takes⟩
  unfold Json.escape? at written
  -- Seven characters have an escape of their own, in both notations the same.
  split at written
  next h => exact short '"' '"' h (fun _ => rfl) written
  next h => exact short '\\' '\\' h (fun _ => rfl) written
  next h => exact short '\x08' 'b' h (fun _ => rfl) written
  next h => exact short '\t' 't' h (fun _ => rfl) written
  next h => exact short '\n' 'n' h (fun _ => rfl) written
  next h => exact short '\x0c' 'f' h (fun _ => rfl) written
  next h => exact short '\r' 'r' h (fun _ => rfl) written
  next =>
    split at written
    next control => exact ⟨_, (Option.some.inj written).symm, takes_escaped_control control⟩
    next => cases written

/-- A character that JSON writes as itself. -/
def isUnescaped (c : Char) : Bool := (Json.escape? c).isNone

/-- What JSON writes as itself stands for itself in TOML, but for the delete character. -/
private theorem isPlain_of_isUnescaped {c : Char} (bare : isUnescaped c = true)
    (noDelete : c ≠ '\x7f') :
    isPlain c = true := by
  have number : c.toNat ≠ 0x7F := fun same =>
    noDelete (Char.ext (UInt32.toNat_inj.mp (same : c.toNat = '\x7f'.toNat)))
  have noQuote : c ≠ quote := ne_of_accept bare rfl
  have noBackslash : c ≠ '\\' := ne_of_accept bare rfl
  have noControl : 0x20 ≤ c.toNat := by
    refine Nat.not_lt.mp fun control => ?_
    unfold isUnescaped Json.escape? at bare
    split at bare <;> simp [control] at bare
  simp [isPlain, isPrintable, noQuote, noBackslash, noControl, number]

private theorem flatMap_writeChar_of_isUnescaped {text : List Char}
    (bare : ∀ c ∈ text, isUnescaped c = true) : text.flatMap Json.writeChar = text := by
  induction text with
  | nil => rfl
  | cons c text ih =>
    obtain ⟨first, others⟩ := List.forall_mem_cons.mp bare
    rw [List.flatMap_cons, ih others, Json.writeChar, Option.isNone_iff_eq_none.mp first]
    rfl

/-- Behind a run of such characters there is an escape or the closing quote. -/
private theorem ends_isPlain_written {text rest : List Char} (escaped : Ends isUnescaped text) :
    Ends isPlain (text.flatMap Json.writeChar ++ '"' :: rest) := by
  cases text with
  | nil => exact ends_cons (by decide) rest
  | cons c text =>
    have notNone : Json.escape? c ≠ none := fun none => by
      simpa [isUnescaped, none] using escaped c rfl
    obtain ⟨escape, written⟩ := Option.ne_none_iff_exists'.mp notNone
    obtain ⟨inside, rfl, -⟩ := exists_escape written
    rw [List.flatMap_cons, Json.writeChar, written]
    exact ends_cons (by decide) _

/-- An escape is one part. -/
private theorem takes_plainPart_escape {c : Char} {escape : List Char}
    (written : Json.escape? c = some escape) (rest : List Char) :
    Takes plainPart escape [c] rest := by
  obtain ⟨inside, rfl, takes⟩ := exists_escape written
  have whole : Takes (char '\\' >>= fun _ => escaped >>= fun c => pure [c]) ('\\' :: inside) [c]
      rest := .bind (takes_char ..) (.bind_nil (takes _) (.pure ..))
  exact .orElse_right (run1_eq_none (ends_cons (by decide) _)) whole

/-- A written text begins with a part of it: a run without escapes, or one escape. -/
private theorem exists_plainPart {text : List Char} (nonempty : text ≠ [])
    (noDelete : '\x7f' ∉ text)
    (rest : List Char) :
    ∃ front back, text = front ++ back ∧ front.flatMap Json.writeChar ≠ [] ∧
      Takes plainPart (front.flatMap Json.writeChar) front
        (back.flatMap Json.writeChar ++ '"' :: rest) := by
  obtain ⟨c, cs, rfl⟩ := List.exists_cons_of_ne_nil nonempty
  cases written : Json.escape? c with
  | some escape =>
    have single : [c].flatMap Json.writeChar = escape := by
      simp [Json.writeChar, written]
    refine ⟨[c], cs, rfl, ?_, single ▸ takes_plainPart_escape written _⟩
    obtain ⟨inside, rfl, -⟩ := exists_escape written
    simp [single]
  | none =>
    have first : isUnescaped c = true := by simp [isUnescaped, written]
    have run : ∀ d ∈ (c :: cs).takeWhile isUnescaped, isUnescaped d = true :=
      List.all_eq_true.mp List.all_takeWhile
    have nonempty : (c :: cs).takeWhile isUnescaped ≠ [] := by
      simp [List.takeWhile_cons_of_pos first]
    have plain : ∀ d ∈ (c :: cs).takeWhile isUnescaped, isPlain d = true := by
      intro d found
      refine isPlain_of_isUnescaped (run d found) ?_
      rintro rfl
      exact noDelete ((List.takeWhile_sublist _).mem found)
    have unchanged := flatMap_writeChar_of_isUnescaped run
    refine ⟨_, _, List.takeWhile_append_dropWhile.symm, by rwa [unchanged], ?_⟩
    rw [unchanged]
    exact .orElse (takes_run1 plain nonempty (ends_isPlain_written (ends_dropWhile _ _)))

private theorem exists_parts (text : List Char) (noDelete : '\x7f' ∉ text) (rest : List Char) :
    ∃ parts, parts.flatten = text ∧
      Repeats plainPart (text.flatMap Json.writeChar) parts ('"' :: rest) := by
  -- A part may have many characters, so the induction is on their number.
  induction length : text.length using Nat.strongRecOn generalizing text with
  | ind size ih =>
    by_cases empty : text = []
    · subst empty
      exact ⟨[], rfl, .done rfl⟩
    · obtain ⟨front, back, rfl, progress, takes⟩ := exists_plainPart empty noDelete rest
      have shorter : back.length < size := by
        have some : front ≠ [] := by
          rintro rfl
          exact progress rfl
        have positive := List.length_pos_iff.mpr some
        rw [List.length_append] at length
        omega
      have noDelete' : '\x7f' ∉ back := fun found => noDelete (List.mem_append_right _ found)
      obtain ⟨parts, joined, repeats⟩ := ih _ shorter back noDelete' rfl
      refine ⟨front :: parts, by rw [List.flatten_cons, joined], ?_⟩
      rw [List.flatMap_append]
      exact .more takes progress repeats

/-- A string of JSON without the delete character is one of TOML. -/
private theorem takes_basicText {text : String} (noDelete : '\x7f' ∉ text.toList)
    (rest : List Char) :
    Takes basicText (Json.writeString text) text.toList rest := by
  obtain ⟨parts, joined, repeats⟩ := exists_parts text.toList noDelete rest
  have closing : Takes (char quote >>= fun _ => pure parts.flatten) ['"'] text.toList rest :=
    .bind_nil (takes_char ..) (joined ▸ .pure ..)
  exact .bind (takes_char ..) (.bind repeats.takes_many closing)

/-- The text inside the quotes begins with no quote. -/
private theorem ends_quote_written (c : Char) (more : List Char) :
    Ends (· == '"') (Json.writeChar c ++ more) := by
  unfold Json.writeChar
  cases written : Json.escape? c with
  | some escape =>
    obtain ⟨inside, rfl, -⟩ := exists_escape written
    exact ends_cons rfl _
  | none =>
    have bare : isUnescaped c = true := by simp [isUnescaped, written]
    exact ends_of_ne (ne_of_accept bare (by decide)) _

/-- A written string does not begin with three quotes, even if it is empty. -/
private theorem basicBlock_eq_none (text : String) {rest : List Char}
    (ends : Ends (· == '"') rest) :
    basicBlock (Json.writeString text ++ rest) = none := by
  refine bind_of_none ?_
  change word ['"', '"', '"'] (Json.writeString text ++ rest) = none
  unfold Json.writeString
  cases text.toList with
  | nil =>
    change word ['"', '"', '"'] ('"' :: '"' :: rest) = none
    rw [word_cons, word_cons]
    exact bind_of_none (char_eq_none ends)
  | cons c cs =>
    rw [List.flatMap_cons, List.cons_append, List.append_assoc, List.append_assoc, word_cons]
    exact bind_of_none (char_eq_none (ends_quote_written c _))

private theorem takes_value_text {text : String} (noDelete : '\x7f' ∉ text.toList) (depth : Nat)
    {rest : List Char} (ends : Ends (· == '"') rest) :
    Takes (value depth) (Json.writeString text) (.text text) rest := by
  have found : Takes (basicBlock <|> basicText <|> literalBlock <|> literalText)
      (Json.writeString text) text.toList rest :=
    .orElse_right (basicBlock_eq_none text ends) (takes_basicText noDelete rest).orElse
  have any : Takes anyText (Json.writeString text) text rest := by
    refine .bind_nil found ?_
    rw [String.ofList_toList]
    exact .pure ..
  have flat : Takes flatValue (Json.writeString text) (.text text) rest := (any.map _).orElse
  cases depth with
  | zero => exact flat
  | succ depth => exact flat.orElse

private theorem takes_value_flag (flag : Bool) (depth : Nat) (rest : List Char) :
    Takes (value depth) (Json.writeBool flag) (.boolean flag) rest := by
  have flat : Takes flatValue (Json.writeBool flag) (.boolean flag) rest := by
    cases flag <;> rfl
  cases depth with
  | zero => exact flat
  | succ depth => exact flat.orElse

/-! ## Lines -/

/-- A name that needs no quotes. -/
def IsBareName (name : String) : Prop := name.toList ≠ [] ∧ name.toList.all isBare = true

instance (name : String) : Decidable (IsBareName name) := inferInstanceAs (Decidable (_ ∧ _))

theorem IsBareName.isBare_of_mem {name : String} (bare : IsBareName name) {c : Char}
    (found : c ∈ name.toList) : isBare c = true := List.all_eq_true.mp bare.2 c found

/-- The class of bare characters does not meet another one. -/
theorem IsBareName.ends {name : String} (bare : IsBareName name) {accept : Char → Bool}
    (apart : ∀ c, isBare c = true → accept c = false) (more : List Char) :
    Ends accept (name.toList ++ more) := by
  obtain ⟨c, cs, split⟩ := List.exists_cons_of_ne_nil bare.1
  rw [split]
  exact ends_cons (apart c (bare.isBare_of_mem (split ▸ List.mem_cons_self))) _

theorem IsBareName.takes_name {name : String} (bare : IsBareName name) {rest : List Char}
    (ends : Ends isBare rest) : Takes Lexer.name name.toList name rest := by
  -- A name in quotes would begin with a quote.
  have unquoted (d : Char) (apart : isBare d = false) :
      char d (name.toList ++ rest) = none :=
    char_eq_none (bare.ends (fun _ bare => beq_false_of_ne (ne_of_accept bare apart)) rest)
  have noQuotes : (basicText <|> literalText) (name.toList ++ rest) = none := by
    have noBasic : basicText (name.toList ++ rest) = none := bind_of_none (unquoted quote rfl)
    rw [orElse_of_none noBasic]
    exact bind_of_none (unquoted apostrophe rfl)
  have takes := (takes_run1 (fun _ => bare.isBare_of_mem) bare.1 ends).map String.ofList
  rw [String.ofList_toList] at takes
  exact .orElse_right (bind_of_none noQuotes) takes

private theorem isBare_of_isBlank {c : Char} (blank : isBlank c = true) : isBare c = false := by
  simp only [isBlank, Bool.or_eq_true, beq_iff_eq] at blank
  obtain rfl | rfl := blank <;> decide

private theorem isBlank_of_isBare {c : Char} (bare : isBare c = true) : isBlank c = false := by
  cases blank : isBlank c with
  | false => rfl
  | true => cases (isBare_of_isBlank blank).symm.trans bare

/-- A bare name with blanks behind it is a key of one part. -/
theorem IsBareName.takes_key {name : String} (bare : IsBareName name) {gap : List Char}
    (blank : ∀ c ∈ gap, isBlank c = true) {d : Char} (noBare : isBare d = false)
    (noBlank : isBlank d = false) (noDot : d ≠ '.') (rest : List Char) :
    Takes key (name.toList ++ gap) [name] (d :: rest) := by
  have nameEnds : Ends isBare (gap ++ d :: rest) := by
    cases gap with
    | nil => exact ends_cons noBare rest
    | cons c gap => exact ends_cons (isBare_of_isBlank (blank c List.mem_cons_self)) _
  have front : Takes blanks [] () (name.toList ++ gap ++ d :: rest) := by
    rw [List.append_assoc]
    exact takes_blanks nofun (bare.ends (fun _ => isBlank_of_isBare) _)
  have spaced : Takes spacedName (name.toList ++ gap) name (d :: rest) :=
    .nil_bind front (.bind (bare.takes_name nameEnds)
      (.bind_nil (takes_blanks blank (ends_cons noBlank rest)) (.pure ..)))
  have noMore : Repeats (char '.' >>= fun _ => spacedName) [] [] (d :: rest) :=
    .done (bind_of_none (char_eq_none (ends_of_ne noDot rest)))
  exact .bind_nil spaced (.nil_bind noMore.takes_many (.pure ..))

/-- What ends a line: a line feed, or the end of the text. -/
inductive EndsLine : (ending rest : List Char) → Prop
  | lineFeed (rest : List Char) : EndsLine ['\n'] rest
  | atEnd : EndsLine [] []

theorem EndsLine.takes {ending rest : List Char} (ends : EndsLine ending rest) :
    Takes lineRest ending () rest := by
  cases ends <;> rfl

/-- The text stands for the value, whatever line end follows it. -/
structure Spells (written : List Char) (found : Toml) : Prop where
  takes : ∀ {ending rest}, EndsLine ending rest →
    Takes (value maxDepth) written found (ending ++ rest)
  ends : ∀ more, Ends isBlank (written ++ more)

theorem spells_text {text : String} (noDelete : '\x7f' ∉ text.toList) :
    Spells (Json.writeString text) (.text text) where
  takes ends := by
    refine takes_value_text noDelete maxDepth ?_
    cases ends with
    | lineFeed => exact ends_cons rfl _
    | atEnd => exact ends_nil _
  ends _ := ends_cons rfl _

theorem spells_flag (flag : Bool) : Spells (Json.writeBool flag) (.boolean flag) where
  takes _ := takes_value_flag flag maxDepth _
  ends _ := by cases flag <;> exact ends_cons rfl _

/-- The text is a line without its end, and the blanks in front of the next line go with it. -/
structure IsLine (text : List Char) (found : Line) : Prop where
  takes : ∀ {ending rest}, EndsLine ending rest → Ends isBlank rest →
    Takes line (text ++ ending) found rest
  nonempty : text ≠ []
  ends : ∀ more, Ends isBlank (text ++ more)

/-- The blanks in front of the next line are taken with a line, if there are any. -/
private theorem takes_thenBlanks {part : Lexer Line} {text rest : List Char} {found : Line}
    (takes : Takes part text found rest) (token : Ends isBlank rest) :
    Takes (part >>= fun found => blanks >>= fun _ => pure found) text found rest :=
  .bind_nil takes (.nil_bind (takes_blanks nofun token) (.pure ..))

private theorem takes_header {name : String} (bare : IsBareName name) {ending rest : List Char}
    (ends : EndsLine ending rest) :
    Takes header ('[' :: (name.toList ++ ']' :: ending)) (.header [name]) rest := by
  have path : Takes key name.toList [name] (']' :: ending ++ rest) := by
    have takes : Takes key (name.toList ++ []) [name] (']' :: (ending ++ rest)) :=
      bare.takes_key (List.forall_mem_nil _) rfl rfl (by decide) _
    rwa [List.append_nil] at takes
  have tail : Takes (char ']' >>= fun _ => lineRest >>= fun _ => pure (Line.header [name]))
      (']' :: ending) (.header [name]) rest :=
    .bind (takes_char ..) (.bind_nil ends.takes (.pure ..))
  -- A second bracket would be the header of an element.
  have single : word ['[', '['] ('[' :: (name.toList ++ ']' :: ending) ++ rest) = none := by
    rw [List.cons_append, word_cons, List.append_assoc]
    have apart (c : Char) (bare : isBare c = true) : (c == '[') = false :=
      beq_false_of_ne (ne_of_accept bare (by decide))
    exact bind_of_none (char_eq_none (bare.ends apart _))
  exact .nil_bind (.maybe_none single) (.bind (takes_char ..) (.bind path tail))

/-- The line of a header. -/
def headerText (name : String) : List Char := '[' :: (name.toList ++ [']'])

private theorem isLine_header {name : String} (bare : IsBareName name) :
    IsLine (headerText name) (.header [name]) where
  takes := by
    intro ending rest ends token
    have takes := takes_thenBlanks (takes_header bare ends) token
    rw [headerText, List.cons_append, List.append_assoc]
    exact takes
  nonempty := nofun
  ends _ := ends_cons rfl _

/-- The line of an entry. -/
def entryText (name : String) (written : List Char) : List Char :=
  name.toList ++ ' ' :: '=' :: ' ' :: written

private theorem line_of_isBare {c : Char} (bare : isBare c = true) (unread : List Char) :
    line (c :: unread) =
      (entryLine >>= fun found => blanks >>= fun _ => pure found) (c :: unread) := by
  -- A bare character is none of those that another kind of line begins with.
  have noComment : c ≠ '#' := ne_of_accept bare (by decide)
  have noLineFeed : c ≠ '\n' := ne_of_accept bare (by decide)
  have noReturn : c ≠ '\r' := ne_of_accept bare (by decide)
  have noHeader : c ≠ '[' := ne_of_accept bare (by decide)
  unfold line
  simp only [bind_eq, peek, List.head?_cons, Option.bind_some]

private theorem takes_entryLine {name : String} {written : List Char} {found : Toml}
    (bare : IsBareName name) (spells : Spells written found) {ending rest : List Char}
    (ends : EndsLine ending rest) :
    Takes entryLine (entryText name written ++ ending) (.entry [name] found) rest := by
  have gap : Takes blanks [' '] () (written ++ ending ++ rest) := by
    rw [List.append_assoc]
    exact takes_blanks (List.forall_mem_singleton.mpr rfl) (spells.ends _)
  have value : Takes (value maxDepth >>= fun found => lineRest >>= fun _ =>
      pure (Line.entry [name] found)) (written ++ ending) (.entry [name] found) rest :=
    .bind (spells.takes ends) (.bind_nil ends.takes (.pure ..))
  have path : Takes key (name.toList ++ [' ']) [name] ('=' :: ' ' :: (written ++ ending) ++ rest) :=
    bare.takes_key (List.forall_mem_singleton.mpr rfl) rfl rfl (by decide) _
  have whole : Takes entryLine (name.toList ++ [' '] ++ '=' :: ' ' :: (written ++ ending))
      (.entry [name] found) rest := .bind path (.bind (takes_char ..) (.bind gap value))
  simpa [entryText] using whole

theorem isLine_entry {name : String} {written : List Char} {found : Toml} (bare : IsBareName name)
    (spells : Spells written found) : IsLine (entryText name written) (.entry [name] found) where
  takes := by
    intro ending rest ends token
    have takes := takes_thenBlanks (takes_entryLine bare spells ends) token
    obtain ⟨c, cs, split⟩ := List.exists_cons_of_ne_nil bare.1
    unfold Takes at takes ⊢
    unfold entryText at takes ⊢
    rw [split] at takes ⊢
    rw [← takes]
    exact line_of_isBare (bare.isBare_of_mem (split ▸ List.mem_cons_self)) _
  nonempty := by simp [entryText]
  ends more := by
    unfold entryText
    rw [List.append_assoc]
    exact bare.ends (fun _ => isBlank_of_isBare) _

/-- No blank stands in front of the first line. -/
theorem IsLine.ends_intercalate {text : List Char} {found : Line} (first : IsLine text found)
    (others : List (List Char)) (more : List Char) :
    Ends isBlank (['\n'].intercalate (text :: others) ++ more) := by
  cases others with
  | nil =>
    rw [List.intercalate_singleton]
    exact first.ends more
  | cons second others =>
    rw [List.intercalate_cons_cons, List.append_assoc, List.append_assoc]
    exact first.ends _

/-- Lines are read one after the other. The last one may have no line feed. -/
private theorem repeats_line {texts : List (List Char)} {found : List Line}
    (areLines : List.Forall₂ IsLine texts found) (some : texts ≠ []) {ending : List Char}
    (ends : EndsLine ending []) :
    Repeats line (['\n'].intercalate texts ++ ending) found [] := by
  induction areLines with
  | nil => exact absurd rfl some
  | @cons text value texts found first others ih =>
    have nonempty (more : List Char) : text ++ more ≠ [] := by simp [first.nonempty]
    cases others with
    | nil =>
      rw [List.intercalate_singleton]
      have last := Repeats.more (first.takes ends (ends_nil _)) (nonempty _) (.done rfl)
      rwa [List.append_nil] at last
    | @cons next _ rest _ second others =>
      -- A line takes the blanks in front of the next one, so there must be none.
      have token : Ends isBlank (['\n'].intercalate (next :: rest) ++ ending ++ []) := by
        rw [List.append_nil]
        exact second.ends_intercalate rest ending
      have all := Repeats.more (first.takes (.lineFeed _) token) (nonempty _) (ih nofun)
      rwa [List.intercalate_cons_cons, List.append_assoc]

private theorem takes_lines {texts : List (List Char)} {found : List Line}
    (areLines : List.Forall₂ IsLine texts found) (some : texts ≠ []) {ending : List Char}
    (ends : EndsLine ending []) :
    Takes lines (['\n'].intercalate texts ++ ending) found [] := by
  have front : Takes blanks [] () (['\n'].intercalate texts ++ ending ++ []) := by
    refine takes_blanks nofun ?_
    cases areLines with
    | nil => exact absurd rfl some
    | cons first others =>
      rw [List.append_nil]
      exact first.ends_intercalate _ ending
  have done : Takes (atEnd >>= fun _ => pure found) [] found [] := rfl
  exact .nil_bind front (.bind_nil (repeats_line areLines some ends).takes_many done)

end Lexer

/-! ## Tables -/

private theorem lookup_eq_none {name : String} {members : Members}
    (fresh : name ∉ members.map Prod.fst) :
    lookup name members = none := by
  induction members with
  | nil => rfl
  | cons member members ih =>
    obtain ⟨other, absent⟩ := not_or.mp (mt List.mem_cons.mpr fresh)
    rw [lookup, if_neg (Ne.symm other), ih absent]

namespace Draft

/-- An entry under a new name is one more member of the current table. -/
private theorem addEntry_of_fresh {draft : Draft} {name : String}
    (fresh : name ∉ draft.current.map Prod.fst) (value : Toml) :
    draft.addEntry [name] value =
      some { draft with current := draft.current ++ [(name, value)] } := by
  have inserted : insertNew? name value draft.current =
      some (draft.current ++ [(name, value)]) := by
    rw [insertNew?, lookup_eq_none fresh]
  simp [addEntry, changeAt, inserted]

/-- Entries under new names are one member after the other. -/
private theorem foldlM_entries (draft : Draft) (members : Members)
    (distinct : ((draft.current ++ members).map Prod.fst).Nodup) :
    (members.map fun member => Line.entry [member.1] member.2).foldlM
      (fun draft line => line.apply draft) draft =
        some { draft with current := draft.current ++ members } := by
  induction members generalizing draft with
  | nil => simp
  | cons member members ih =>
    have fresh : member.1 ∉ draft.current.map Prod.fst := by
      rw [List.map_append, List.map_cons] at distinct
      exact fun found => (List.nodup_append.mp distinct).2.2 _ found _ List.mem_cons_self rfl
    rw [List.map_cons, List.foldlM_cons, Line.apply, addEntry_of_fresh fresh]
    have rest := ih { draft with current := draft.current ++ [member] } (by simpa using distinct)
    simpa using rest

/-- The draft behind a header at the front. -/
private theorem openTable_start (name : String) :
    start.openTable [name] = some ⟨[], [name], false, []⟩ := rfl

private theorem close_single (name : String) (members : Members) :
    close ⟨[], [name], false, members⟩ = some [(name, .table .header members)] := rfl

end Draft

open Lexer

/-- Lines without a byte order mark in front are applied one after the other. -/
theorem parse_of_lines {text : List Char} {found : List Line} {draft : Draft}
    (noMark : Ends (· == '\uFEFF') text) (read : Takes lines text found [])
    (applied : found.foldlM (fun draft line => line.apply draft) .start = some draft) :
    parse (String.ofList text) = draft.close := by
  unfold Takes at read
  rw [List.append_nil] at read
  rw [parse, String.toList_ofList]
  dsimp only
  split
  next => cases noMark '\uFEFF' rfl
  next => simp [read, applied]

/-- A header and entries with a name of their own each are one table. -/
theorem parse_table {name : String} (bare : IsBareName name) {texts : List (List Char)}
    {members : Members}
    (entries : List.Forall₂ (fun text member => IsLine text (.entry [member.1] member.2))
      texts members)
    (distinct : (members.map Prod.fst).Nodup) {ending : List Char} (ends : EndsLine ending []) :
    parse (String.ofList (['\n'].intercalate (headerText name :: texts) ++ ending)) =
      some [(name, .table .header members)] := by
  have areLines : List.Forall₂ IsLine (headerText name :: texts)
      (.header [name] :: members.map fun member => .entry [member.1] member.2) :=
    .cons (isLine_header bare) (List.forall₂_map_right_iff.mpr entries)
  have noMark : Ends (· == '\uFEFF')
      (['\n'].intercalate (headerText name :: texts) ++ ending) := by
    cases texts <;> exact ends_cons (by decide) _
  have applied : (Line.header [name] :: members.map fun member => .entry [member.1] member.2).foldlM
      (fun draft line => line.apply draft) Draft.start = some ⟨[], [name], false, members⟩ := by
    rw [List.foldlM_cons, Line.apply, Draft.openTable_start]
    exact Draft.foldlM_entries ⟨[], [name], false, []⟩ members distinct
  rw [parse_of_lines noMark (takes_lines areLines nofun ends) applied, Draft.close_single]

end TokenIntake.Toml
