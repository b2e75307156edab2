import TokenIntake.Proofs.Numbers
import TokenIntake.Proofs.Strings

/-!
# What the reader accepts

The reader of a text succeeds exactly on the texts of the grammar, and yields the value that
the text denotes. The induction is on the depth that is left for brackets: a value is read
around the values nested in it, so each level needs only that the level below is right.
-/

namespace TokenIntake.Json

section

variable {α β : Type} {P : α → List UInt8 → Prop} {Q : α → Prop} {f : α → β}

/-- Entries that are images of others are spelled as those are. -/
theorem moreEntries_iff_exists {bs : List β} {text : List UInt8} :
    MoreEntries (fun b text => ∃ a, P a text ∧ Q a ∧ f a = b) bs text ↔
      ∃ as, MoreEntries P as text ∧ (∀ a ∈ as, Q a) ∧ as.map f = bs := by
  constructor
  · intro spelled
    induction spelled with
    | nil => exact ⟨[], .nil, by simp, rfl⟩
    | cons front head back _ ih =>
      obtain ⟨a, spelled, holds, rfl⟩ := head
      obtain ⟨as, spelled', hold, rfl⟩ := ih
      exact ⟨a :: as, .cons front spelled back spelled',
        List.forall_mem_cons.mpr ⟨holds, hold⟩, rfl⟩
  · rintro ⟨as, spelled, hold, rfl⟩
    induction spelled with
    | nil => exact .nil
    | cons front head back _ ih =>
      obtain ⟨holds, hold⟩ := List.forall_mem_cons.mp hold
      exact .cons front ⟨_, head, holds, rfl⟩ back (ih hold)

theorem entries_iff_exists {bs : List β} {text : List UInt8} :
    Entries (fun b text => ∃ a, P a text ∧ Q a ∧ f a = b) bs text ↔
      ∃ as, Entries P as text ∧ (∀ a ∈ as, Q a) ∧ as.map f = bs := by
  constructor
  · rintro (blanks | ⟨front, ⟨a, spelled, holds, rfl⟩, back, more⟩)
    · exact ⟨[], .none blanks, by simp, rfl⟩
    · obtain ⟨as, spelled', hold, rfl⟩ := moreEntries_iff_exists.mp more
      exact ⟨a :: as, .some front spelled back spelled',
        List.forall_mem_cons.mpr ⟨holds, hold⟩, rfl⟩
  · rintro ⟨as, blanks | ⟨front, head, back, more⟩, hold, rfl⟩
    · exact .none blanks
    · obtain ⟨holds, hold⟩ := List.forall_mem_cons.mp hold
      exact .some front ⟨_, head, holds, rfl⟩ back
        (moreEntries_iff_exists.mpr ⟨_, more, hold, rfl⟩)

end

/-! ## Where values and members start -/

/-- A digit is no blank. -/
theorem Scan.isBlank_of_range {byte : UInt8} (range : 0x30 ≤ byte.toNat ∧ byte.toNat ≤ 0x39) :
    isBlank byte = false := by
  rw [Bool.eq_false_iff, Ne, isBlank_iff]
  rintro (rfl | rfl | rfl | rfl) <;> simp at range

theorem NumberLiteral.text_of_negative {literal : NumberLiteral} (sign : literal.negative = true) :
    literal.text = 0x2D :: literal.magnitude := by
  rw [text, if_pos sign]

theorem NumberLiteral.text_of_positive {literal : NumberLiteral} (sign : literal.negative = false) :
    literal.text = literal.magnitude := by
  rw [text, sign, if_neg Bool.false_ne_true]

theorem NumberLiteral.exists_magnitude_cons (literal : NumberLiteral) :
    ∃ byte tail, literal.magnitude = byte :: tail ∧ 0x30 ≤ byte.toNat ∧ byte.toNat ≤ 0x39 := by
  obtain ⟨first, more, cons⟩ := List.exists_cons_of_ne_nil literal.someDigit
  exact ⟨first, more ++ literal.fractionText ++ literal.exponentText, by simp [magnitude, cons],
    literal.wholeDigits first (by simp [cons])⟩

theorem NumberLiteral.exists_text_cons (literal : NumberLiteral) :
    ∃ byte tail, literal.text = byte :: tail ∧
      (byte = 0x2D ∨ 0x30 ≤ byte.toNat ∧ byte.toNat ≤ 0x39) := by
  cases sign : literal.negative with
  | false =>
    obtain ⟨byte, tail, cons, range⟩ := literal.exists_magnitude_cons
    exact ⟨byte, tail, (text_of_positive sign).trans cons, .inr range⟩
  | true => exact ⟨0x2D, literal.magnitude, text_of_negative sign, .inl rfl⟩

/-- A number starts with a minus sign or with a digit. -/
theorem NumberLiteral.starts (literal : NumberLiteral) :
    ∃ byte tail, literal.text = byte :: tail ∧ Scan.isBlank byte = false ∧
      ∀ token, token ≠ 0x2D → Scan.isDigit token = false → byte ≠ token := by
  obtain ⟨byte, tail, cons, rfl | range⟩ := literal.exists_text_cons
  · exact ⟨0x2D, tail, cons, by decide, fun _ other _ => other.symm⟩
  · refine ⟨byte, tail, cons, Scan.isBlank_of_range range, ?_⟩
    rintro _ - noDigit rfl
    rw [Scan.isDigit_iff.mpr range] at noDigit
    cases noDigit

theorem value_starts {tree : Json} {core : List UInt8} (h : Value tree core) :
    ∃ byte tail, core = byte :: tail ∧ Scan.isBlank byte = false ∧ byte ≠ 0x5D := by
  cases h with
  | null => exact ⟨_, _, rfl, by decide⟩
  | true => exact ⟨_, _, rfl, by decide⟩
  | false => exact ⟨_, _, rfl, by decide⟩
  | @number literal =>
    obtain ⟨byte, tail, cons, token, other⟩ := literal.starts
    exact ⟨byte, tail, cons, token, other _ (by decide) (by decide)⟩
  | string spelled =>
    cases spelled
    exact ⟨_, _, rfl, by decide⟩
  | array => exact ⟨_, _, rfl, by decide⟩
  | object => exact ⟨_, _, rfl, by decide⟩

private theorem member_starts {member : String × Json} {core : List UInt8}
    (h : Member member core) :
    ∃ byte tail, core = byte :: tail ∧ byte = 0x22 := by
  obtain ⟨⟨-⟩, -, -, -⟩ := h
  exact ⟨_, _, rfl, rfl⟩

namespace Scan

/-- The text is a value with at most the given depth of brackets that denotes `v`. -/
def Reading (depth : Nat) (v : Json) (core : List UInt8) : Prop :=
  ∃ tree, Value tree core ∧ tree.nesting ≤ depth ∧ tree.normal = v

/-- The text is a member whose value has at most the given depth of brackets. -/
def ReadingMember (depth : Nat) (entry : String × Json) (core : List UInt8) : Prop :=
  ∃ member : String × Json, Member member core ∧ member.2.nesting ≤ depth ∧
    (member.1, member.2.normal) = entry

section

variable {nested : Option (Scan Json)}

private theorem valueAround_of_skips {input rest : List UInt8} (skips : Skips input rest)
    (token : AtToken rest) : valueAround nested input = valueAround nested rest := by
  have front : peekToken input = .ok (rest.head?, rest) := peekToken_ok_iff.mpr ⟨rfl, skips, token⟩
  have here : peekToken rest = .ok (rest.head?, rest) :=
    peekToken_ok_iff.mpr ⟨rfl, .refl rest, token⟩
  unfold valueAround
  rw [bind_of_ok front, bind_of_ok here]

private theorem valueAround_digit {byte : UInt8} {tail : List UInt8} (digit : isDigit byte = true) :
    valueAround nested (byte :: tail) =
      (number false >>= fun n => pure (.number n)) (byte :: tail) := by
  have range := isDigit_iff.mp digit
  have other {token : UInt8} (h : token.toNat < 0x30 ∨ 0x39 < token.toNat) : byte ≠ token := by
    rintro rfl
    omega
  unfold valueAround
  rw [bind_of_ok (peekToken_of_skips (.refl _) (isBlank_of_range range))]
  dsimp only
  rw [if_neg (other (by decide)), if_neg (other (by decide)), if_neg (other (by decide)),
    if_neg (other (by decide)), if_pos digit]

/-- A word of letters behind its first one, which stands for a value. -/
theorem word_ok_iff {word tail rest : List UInt8} {byte : UInt8} {v w : Json} :
    (advance >>= fun _ => literal word >>= fun _ => pure v : Scan Json) (byte :: tail) =
      .ok (w, rest) ↔ v = w ∧ tail = word ++ rest := by
  rw [bind_of_ok (advance_ok_iff.mpr rfl), bind_ok_iff]
  constructor
  · rintro ⟨_, mid, read, ok⟩
    obtain ⟨rfl, rfl⟩ := pure_ok_iff.mp ok
    exact ⟨rfl, literal_ok_iff.mp read⟩
  · rintro ⟨rfl, read⟩
    exact ⟨(), rest, literal_ok_iff.mpr read, pure_ok_iff.mpr ⟨rfl, rfl⟩⟩

/-- An opening bracket, what stands inside and the closing bracket. -/
theorem brackets_ok_iff {α : Type} {inside : Scan α} {close : Scan Unit} {f : α → Json}
    {byte : UInt8} {tail rest : List UInt8} {v : Json} :
    (advance >>= fun _ => inside >>= fun list => close >>= fun _ => pure (f list) : Scan Json)
        (byte :: tail) = .ok (v, rest) ↔
      ∃ list mid, inside tail = .ok (list, mid) ∧ close mid = .ok ((), rest) ∧ f list = v := by
  rw [bind_of_ok (advance_ok_iff.mpr rfl), bind_ok_iff]
  refine exists_congr fun list => exists_congr fun mid => and_congr_right fun _ => ?_
  rw [bind_pure_ok_iff]
  exact ⟨fun ⟨_, closed, same⟩ => ⟨closed, same⟩, fun ⟨closed, same⟩ => ⟨(), closed, same⟩⟩

/-- How a value may start, and what is read behind the first byte. -/
private theorem valueAround_ok {byte : UInt8} {tail rest : List UInt8} {v : Json}
    (ok : valueAround nested (byte :: tail) = .ok (v, rest)) (token : isBlank byte = false) :
    (∃ core, Value v core ∧ v.nesting = 0 ∧ byte :: tail = core ++ rest) ∨
      (∃ value list mid, nested = some value ∧ byte = 0x5B ∧ v = .array list ∧
        items value (tail.length + 1) true tail = .ok (list, mid) ∧
          closeArray mid = .ok ((), rest)) ∨
      (∃ value list mid, nested = some value ∧ byte = 0x7B ∧ v = .object (sortMembers list) ∧
        members value (tail.length + 1) true tail = .ok (list, mid) ∧
          closeObject mid = .ok ((), rest)) := by
  unfold valueAround at ok
  rw [bind_of_ok (peekToken_of_skips (.refl _) token)] at ok
  dsimp only at ok
  -- The first byte is tested for one kind of value after the other.
  split at ok
  next isNull =>
    obtain ⟨rfl, rfl⟩ := word_ok_iff.mp ok
    exact .inl ⟨_, .null, rfl, by rw [isNull]; rfl⟩
  split at ok
  next isTrue =>
    obtain ⟨rfl, rfl⟩ := word_ok_iff.mp ok
    exact .inl ⟨_, .true, rfl, by rw [isTrue]; rfl⟩
  split at ok
  next isFalse =>
    obtain ⟨rfl, rfl⟩ := word_ok_iff.mp ok
    exact .inl ⟨_, .false, rfl, by rw [isFalse]; rfl⟩
  split at ok
  next isMinus =>
    rw [bind_of_ok (advance_ok_iff.mpr rfl)] at ok
    obtain ⟨n, read, rfl⟩ := bind_pure_ok_iff.mp ok
    obtain ⟨literal, sign, value, rfl⟩ := number_sound read
    exact .inl ⟨_, .number value, rfl, by simp [NumberLiteral.text, sign, isMinus]⟩
  split at ok
  next isDigit =>
    obtain ⟨n, read, rfl⟩ := bind_pure_ok_iff.mp ok
    obtain ⟨literal, sign, value, split⟩ := number_sound read
    exact .inl ⟨_, .number value, rfl, by simp [NumberLiteral.text, sign, split]⟩
  split at ok
  next isQuote =>
    rw [bind_of_ok (advance_ok_iff.mpr rfl)] at ok
    obtain ⟨content, read, rfl⟩ := bind_pure_ok_iff.mp ok
    obtain ⟨text, spelled, rfl⟩ := string_ok_iff.mp read
    exact .inl ⟨_, .string (.mk spelled), rfl, by simp [isQuote]⟩
  split at ok
  next isBracket =>
    cases nested with
    | none => simp at ok
    | some value =>
      obtain ⟨list, mid, read, close, rfl⟩ := brackets_ok_iff.mp ok
      exact .inr (.inl ⟨value, list, mid, rfl, isBracket, rfl, read, close⟩)
  split at ok
  next isBrace =>
    cases nested with
    | none => simp at ok
    | some value =>
      obtain ⟨list, mid, read, close, rfl⟩ := brackets_ok_iff.mp ok
      exact .inr (.inr ⟨value, list, mid, rfl, isBrace, rfl, read, close⟩)
  next => simp at ok

/-- The first byte of a value decides how it goes on. -/
private theorem valueAround_null (tail : List UInt8) : valueAround nested (0x6E :: tail) =
    (advance >>= fun _ => nullTail >>= fun _ => pure .null) (0x6E :: tail) := rfl

private theorem valueAround_true (tail : List UInt8) : valueAround nested (0x74 :: tail) =
    (advance >>= fun _ => trueTail >>= fun _ => pure (.bool true)) (0x74 :: tail) := rfl

private theorem valueAround_false (tail : List UInt8) : valueAround nested (0x66 :: tail) =
    (advance >>= fun _ => falseTail >>= fun _ => pure (.bool false)) (0x66 :: tail) := rfl

private theorem valueAround_minus (tail : List UInt8) : valueAround nested (0x2D :: tail) =
    (number true >>= fun n => pure (.number n)) tail := rfl

private theorem valueAround_quote (tail : List UInt8) : valueAround nested (0x22 :: tail) =
    (string >>= fun text => pure (.string text)) tail := rfl

/-- Values without brackets are read at any depth. -/
private theorem valueAround_of_leaf {v : Json} {core rest : List UInt8} (spelled : Value v core)
    (flat : v.nesting = 0) (breaks : Breaks rest) :
    valueAround nested (core ++ rest) = .ok (v, rest) := by
  cases spelled with
  | null => exact (valueAround_null _).trans (word_ok_iff.mpr ⟨rfl, rfl⟩)
  | true => exact (valueAround_true _).trans (word_ok_iff.mpr ⟨rfl, rfl⟩)
  | false => exact (valueAround_false _).trans (word_ok_iff.mpr ⟨rfl, rfl⟩)
  | @number literal n value =>
    have read := number_complete value (ends_of_breaks breaks)
    cases sign : literal.negative with
    | true =>
      rw [sign] at read
      rw [NumberLiteral.text_of_negative sign, List.cons_append, valueAround_minus,
        bind_of_ok read]
      rfl
    | false =>
      rw [sign] at read
      obtain ⟨byte, tail, cons, range⟩ := literal.exists_magnitude_cons
      rw [NumberLiteral.text_of_positive sign]
      rw [cons, List.cons_append] at read ⊢
      rw [valueAround_digit (isDigit_iff.mpr range), bind_of_ok read]
      rfl
  | @string content text spelled =>
    obtain ⟨inside⟩ := spelled
    rename_i text
    have read : string (text ++ 0x22 :: rest) = .ok (content, rest) :=
      string_ok_iff.mpr ⟨text, inside, rfl⟩
    have front : 0x22 :: text ++ [0x22] ++ rest = 0x22 :: (text ++ 0x22 :: rest) := by simp
    rw [front, valueAround_quote, bind_of_ok read]
    rfl
  | array => simp [nesting] at flat
  | object => simp [nesting] at flat

end

/-! ## One level of brackets -/

theorem value_of_skips (depth : Nat) {input rest : List UInt8} (skips : Skips input rest)
    (token : AtToken rest) : value depth input = value depth rest := by
  cases depth with
  | zero => exact valueAround_of_skips skips token
  | succ depth => exact valueAround_of_skips skips token

section

variable {depth : Nat} (reads : ∀ starts, Reads starts (value depth) (Reading depth))

include reads

private theorem reads_member : Reads (· = 0x22) (member (value depth)) (ReadingMember depth) where
  sound {input rest entry} front ok := by
    rw [member, bind_ok_iff] at ok
    obtain ⟨_, behind, advanced, ok⟩ := ok
    rw [bind_ok_iff] at ok
    obtain ⟨name, mid, read, ok⟩ := ok
    rw [bind_ok_iff] at ok
    obtain ⟨_, value, separated, ok⟩ := ok
    rw [bind_ok_iff] at ok
    obtain ⟨v, rest', read', ok⟩ := ok
    obtain ⟨rfl, rfl⟩ := pure_ok_iff.mp ok
    obtain ⟨text, inside, rfl⟩ := string_ok_iff.mp read
    obtain ⟨after, back, rfl⟩ := colon_ok_iff.mp separated
    obtain ⟨core, ⟨tree, spelled, shallow, rfl⟩, before, front', rfl⟩ :=
      (reads fun _ => True).sound (by simp) read'
    refine ⟨_, ⟨(name, tree), .mk (.mk inside) back front' spelled, shallow, rfl⟩, ?_⟩
    -- The byte passed over unseen is the opening quote.
    cases input with
    | nil => simp [advance] at advanced
    | cons byte tail =>
      obtain rfl := advance_ok_iff.mp advanced
      obtain rfl := front byte rfl
      exact ⟨[], .nil, by simp⟩
  complete {core rest entry} spelled breaks := by
    obtain ⟨_, ⟨⟨inside⟩, back, front, spelled⟩, shallow, rfl⟩ := spelled
    rename_i name tree after before core' text
    have readName : string (text ++ 0x22 :: (after ++ 0x3A :: (before ++ core') ++ rest)) =
        .ok (name, after ++ 0x3A :: (before ++ core') ++ rest) :=
      string_ok_iff.mpr ⟨text, inside, rfl⟩
    have readColon : colon (after ++ 0x3A :: (before ++ core') ++ rest) =
        .ok ((), before ++ core' ++ rest) :=
      colon_ok_iff.mpr ⟨after, back, by simp⟩
    -- A value is read from its first token on, and the blanks before it are skipped.
    have readValue : value depth (before ++ core' ++ rest) = .ok (tree.normal, rest) := by
      obtain ⟨byte, tail, cons, token, -⟩ := value_starts spelled
      rw [List.append_assoc, value_of_skips depth ⟨before, front, rfl⟩
        (by rw [cons]; rintro _ ⟨rfl⟩; exact token)]
      exact (reads fun _ => True).complete ⟨tree, spelled, shallow, rfl⟩ breaks
    have front : 0x22 :: text ++ [0x22] ++ after ++ 0x3A :: (before ++ core') ++ rest =
        0x22 :: (text ++ 0x22 :: (after ++ 0x3A :: (before ++ core') ++ rest)) := by simp
    rw [member, front, bind_of_ok (advance_ok_iff.mpr rfl), bind_of_ok readName,
      bind_of_ok readColon, bind_of_ok readValue]
    rfl

private theorem valueAround_array_sound {tail mid rest : List UInt8} {list : List Json}
    (read : items (value depth) (tail.length + 1) true tail = .ok (list, mid))
    (close : closeArray mid = .ok ((), rest)) :
    ∃ core, Reading (depth + 1) (.array list) core ∧ 0x5B :: tail = core ++ rest := by
  rw [items_eq_listOf] at read
  obtain ⟨tail', text, rfl, spelled, rfl⟩ := listOf_first_sound separates_nextItem (reads _) read
  obtain rfl := advance_ok_iff.mp close
  obtain ⟨trees, spelled', shallow, rfl⟩ := entries_iff_exists.mp spelled
  refine ⟨_, ⟨.array trees, .array spelled', ?_, ?_⟩, ?_⟩
  · exact Nat.succ_le_succ (nestingItems_le_iff.mpr shallow)
  · rw [normal, normalItems_eq_map]
  · simp

private theorem valueAround_object_sound {tail mid rest : List UInt8} {list : List (String × Json)}
    (read : members (value depth) (tail.length + 1) true tail = .ok (list, mid))
    (close : closeObject mid = .ok ((), rest)) :
    ∃ core, Reading (depth + 1) (.object (sortMembers list)) core ∧
      0x7B :: tail = core ++ rest := by
  rw [members_eq_listOf] at read
  obtain ⟨tail', text, rfl, spelled, rfl⟩ :=
    listOf_first_sound separates_nextMember (reads_member reads) read
  obtain rfl := advance_ok_iff.mp close
  obtain ⟨trees, spelled', shallow, rfl⟩ := entries_iff_exists.mp spelled
  refine ⟨_, ⟨.object trees, .object spelled', ?_, ?_⟩, ?_⟩
  · exact Nat.succ_le_succ (nestingMembers_le_iff.mpr shallow)
  · rw [normal, normalMembers_eq_map]
  · simp

private theorem valueAround_array_complete {trees : List Json} {text rest : List UInt8}
    (spelled : Entries Value trees text) (shallow : ∀ tree ∈ trees, tree.nesting ≤ depth) :
    value (depth + 1) (0x5B :: (text ++ 0x5D :: rest)) =
      .ok (.array (trees.map normal), rest) := by
  have read : bounded (fun fuel => items (value depth) fuel true) (text ++ 0x5D :: rest) =
      .ok (trees.map normal, 0x5D :: rest) := by
    change items (value depth) ((text ++ 0x5D :: rest).length + 1) true _ = _
    rw [items_eq_listOf]
    refine listOf_first_complete (.inl rfl) ?_ separates_nextItem (reads fun _ => True).complete
      (entries_iff_exists.mpr ⟨trees, spelled, shallow, rfl⟩) ?_
    · rintro _ core ⟨tree, spelled, -, -⟩
      exact value_starts spelled
    · simp only [List.length_append]
      omega
  have close : closeArray (0x5D :: rest) = .ok ((), rest) := rfl
  exact brackets_ok_iff.mpr ⟨_, _, read, close, rfl⟩

private theorem valueAround_object_complete {trees : List (String × Json)} {text rest : List UInt8}
    (spelled : Entries Member trees text) (shallow : ∀ tree ∈ trees, tree.2.nesting ≤ depth) :
    value (depth + 1) (0x7B :: (text ++ 0x7D :: rest)) =
      .ok (.object (sortMembers (normalMembers trees)), rest) := by
  have read : bounded (fun fuel => members (value depth) fuel true) (text ++ 0x7D :: rest) =
      .ok (normalMembers trees, 0x7D :: rest) := by
    change members (value depth) ((text ++ 0x7D :: rest).length + 1) true _ = _
    rw [members_eq_listOf, normalMembers_eq_map]
    refine listOf_first_complete (.inr rfl) ?_ separates_nextMember (reads_member reads).complete
      (entries_iff_exists.mpr ⟨trees, spelled, shallow, rfl⟩) ?_
    · rintro _ core ⟨tree, spelled, -, -⟩
      exact member_starts spelled
    · simp only [List.length_append]
      omega
  have close : closeObject (0x7D :: rest) = .ok ((), rest) := rfl
  exact (brackets_ok_iff (f := fun list => .object (sortMembers list))).mpr
    ⟨_, _, read, close, rfl⟩

end

private theorem normal_of_flat {v : Json} (flat : v.nesting = 0) : v.normal = v := by
  cases v <;> simp [nesting, normal] at flat ⊢

/-- Around values that are read rightly a value is read rightly. -/
theorem reads_valueAround {nested : Option (Scan Json)} {depth : Nat}
    (level : nested = none ∧ depth = 0 ∨ ∃ below, depth = below + 1 ∧
      nested = some (value below) ∧ ∀ starts, Reads starts (value below) (Reading below))
    (starts : UInt8 → Prop) : Reads starts (valueAround nested) (Reading depth) where
  sound {input rest v} _ ok := by
    have token : AtToken (input.dropWhile isBlank) := (dropWhile_eq_iff.mp rfl).2
    have skips : Skips input (input.dropWhile isBlank) := (dropWhile_eq_iff.mp rfl).1
    rw [valueAround_of_skips skips token] at ok
    -- From here on the text starts with a token.
    generalize input.dropWhile isBlank = mid at skips token ok
    cases mid with
    | nil =>
      change (fail .endInValue : Scan Json) [] = _ at ok
      simp at ok
    | cons byte tail =>
      have found : ∃ core, Reading depth v core ∧ byte :: tail = core ++ rest := by
        rcases valueAround_ok ok (token byte rfl) with ⟨core, spelled, flat, split⟩ |
          ⟨scan, list, mid, same, rfl, rfl, read, close⟩ |
          ⟨scan, list, mid, same, rfl, rfl, read, close⟩
        · exact ⟨core, ⟨v, spelled, by omega, normal_of_flat flat⟩, split⟩
        -- Brackets are read only if some depth is left for what stands inside.
        all_goals
          obtain ⟨rfl, -⟩ | ⟨below, rfl, rfl, reads⟩ := level
          · cases same
        · cases same
          exact valueAround_array_sound reads read close
        · cases same
          exact valueAround_object_sound reads read close
      obtain ⟨core, reading, split⟩ := found
      exact ⟨core, reading, split ▸ skips⟩
  complete {core rest v} spelled breaks := by
    obtain ⟨tree, spelled, shallow, rfl⟩ := spelled
    by_cases flat : tree.nesting = 0
    · rw [normal_of_flat flat]
      exact valueAround_of_leaf spelled flat breaks
    -- A tree with brackets nests at least once, so there is a level below.
    · obtain ⟨-, rfl⟩ | ⟨below, rfl, rfl, reads⟩ := level
      · exact absurd (Nat.le_zero.mp shallow) flat
      · cases spelled with
        | @array items text inside =>
          rw [enclosed_append, normal, normalItems_eq_map]
          exact valueAround_array_complete reads inside
            (nestingItems_le_iff.mp (Nat.le_of_succ_le_succ shallow))
        | @object members text inside =>
          rw [enclosed_append, normal]
          exact valueAround_object_complete reads inside
            (nestingMembers_le_iff.mp (Nat.le_of_succ_le_succ shallow))
        | _ => exact absurd rfl flat

theorem reads_value (depth : Nat) : ∀ starts, Reads starts (value depth) (Reading depth) := by
  induction depth with
  | zero => exact reads_valueAround (.inl ⟨rfl, rfl⟩)
  | succ depth ih => exact reads_valueAround (.inr ⟨depth, rfl, rfl, ih⟩)

theorem run_eq_ok_iff {α : Type} {scan : Scan α} {text : List UInt8} {v : α} :
    scan.run text = .ok v ↔ ∃ rest, scan text = .ok (v, rest) ∧ Blanks rest := by
  have whole {rest : List UInt8} :
      (scan >>= fun value => finish >>= fun _ => pure value) text = .ok (v, rest) ↔
        ∃ mid, scan text = .ok (v, mid) ∧ Blanks mid ∧ rest = [] := by
    rw [bind_ok_iff]
    constructor
    · rintro ⟨v', mid, read, ok⟩
      rw [bind_ok_iff] at ok
      obtain ⟨_, mid', done, ok⟩ := ok
      obtain ⟨rfl, rfl⟩ := pure_ok_iff.mp ok
      obtain ⟨blanks, rfl⟩ := finish_ok_iff.mp done
      exact ⟨mid, read, blanks, rfl⟩
    · rintro ⟨mid, read, blanks, rfl⟩
      exact ⟨v, mid, read, bind_ok_iff.mpr
        ⟨(), [], finish_ok_iff.mpr ⟨blanks, rfl⟩, pure_ok_iff.mpr ⟨rfl, rfl⟩⟩⟩
  unfold run
  constructor
  · intro ok
    split at ok
    next v' rest read =>
      cases ok
      obtain ⟨mid, read, blanks, -⟩ := whole.mp read
      exact ⟨mid, read, blanks⟩
    next => cases ok
  · rintro ⟨mid, read, blanks⟩
    have ok := whole.mpr ⟨mid, read, blanks, rfl⟩
    split
    next v' rest read' =>
      cases read'.symm.trans ok
      rfl
    next fault read' => cases read'.symm.trans ok

end Scan

/-! ## Whole texts -/

/-- The reader accepts exactly the texts of the grammar. -/
theorem parse_eq_ok_iff {text : List UInt8} {v : Json} : parse text = .ok v ↔ Denotes text v := by
  unfold parse
  rw [Scan.run_eq_ok_iff]
  constructor
  · rintro ⟨rest, read, back⟩
    obtain ⟨core, ⟨tree, spelled, shallow, rfl⟩, before, front, rfl⟩ :=
      (Scan.reads_value maxDepth fun _ => True).sound (by simp) read
    exact ⟨tree, by rw [← List.append_assoc]; exact .mk front spelled back shallow, rfl⟩
  · rintro ⟨tree, ⟨front, spelled, back, shallow⟩, rfl⟩
    rename_i before core after
    obtain ⟨byte, tail, cons, token, -⟩ := value_starts spelled
    -- Behind the value stand only blanks, which no number goes on with.
    have nothing : Scan.Breaks [] := by
      rintro _ ⟨⟩
    have ends : Scan.Breaks after := by
      simpa using Scan.breaks_append back nothing
    refine ⟨after, ?_, back⟩
    rw [List.append_assoc, Scan.value_of_skips maxDepth ⟨before, front, rfl⟩
      (by rw [cons]; rintro _ ⟨rfl⟩; exact token)]
    exact (Scan.reads_value maxDepth fun _ => True).complete ⟨tree, spelled, shallow, rfl⟩ ends

end TokenIntake.Json
