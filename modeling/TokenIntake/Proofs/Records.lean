import Mathlib.Data.List.Nodup
import TokenIntake.Proofs.Fits
import TokenIntake.Proofs.Members
import TokenIntake.Proofs.Skipping

/-!
# Records read from text

The reader of records takes a text as it comes, so it sees the members of an object in the order
in which they are written and equal names where they stand. A text that spells a record with every
field under a name of its own is read as that record: the fields met so far are at every moment
those whose names were seen, with the values that they have in the end. Members under names of no
field are passed over.
-/

namespace TokenIntake

open Json (Blanks Entries MoreEntries Member MemberOf WellFormed)

/-! ## Spelled records -/

/-- The fields without one of the names need not be present, and have their absent values. -/
def Fields.AbsentBut : (fields : Fields) → List String → fields.Row → Prop
  | .nil, _, () => True
  | .cons name shape required rest, names, (value, row) =>
    (name ∉ names → required = false ∧ value = shape.absent) ∧ rest.AbsentBut names row

mutual

/-- The tree, with its members as they are written, tells the value. A record is an object whose
members are fields of it, no two of them the same. -/
def Shape.Tells : (shape : Shape) → Json → shape.Value → Prop
  | .text, tree, text => tree = .string text
  | .integer, tree, n => tree = .integer n.toInt
  | .word, tree, n => tree = .integer n.toNat
  | .flag, tree, flag => tree = .bool flag
  | .json, tree, value => tree.normal = value
  | .list item, tree, values =>
    ∃ items, tree = .array items ∧ List.Forall₂ item.Tells items values
  | .option inner, tree, value =>
    match value with
    | none => tree = .null
    | some value => tree ≠ .null ∧ inner.Tells tree value
  | .record _ fields, tree, row =>
    ∃ members, tree = .object members ∧ fields.names.Nodup ∧ (members.map Prod.fst).Nodup ∧
      (∀ member ∈ members, fields.TellsMember member.1 member.2 row) ∧
        fields.AbsentBut (members.map Prod.fst) row

/-- The tree tells the value of the field with the name. -/
def Fields.TellsMember : (fields : Fields) → String → Json → fields.Row → Prop
  | .nil, _, _, () => False
  | .cons name shape _ rest, key, tree, (value, row) =>
    if key = name then shape.Tells tree value else rest.TellsMember key tree row

end

private theorem Fields.absentBut_of_subset : (fields : Fields) → (row : fields.Row) →
    {names : List String} → (∀ name ∈ fields.names, name ∈ names) → fields.AbsentBut names row
  | .nil, (), _, _ => trivial
  | .cons name _ _ rest, (_, row), _, all =>
    ⟨fun absent => absurd (all name List.mem_cons_self) absent,
      rest.absentBut_of_subset row fun other found => all other (List.mem_cons_of_mem _ found)⟩

mutual

/-- What a value is written as tells the value. -/
theorem Shape.tells_toJson : (shape : Shape) → {value : shape.Value} → shape.Faithful value →
    shape.Tells (shape.toJson value) value
  | .text, _, _ => rfl
  | .integer, _, _ => rfl
  | .word, _, _ => rfl
  | .flag, _, _ => rfl
  | .json, document, faithful => Json.normal_of_ordered document faithful.2
  | .list item, values, faithful => by
    refine ⟨_, rfl, ?_⟩
    rw [List.forall₂_map_left_iff, List.forall₂_same]
    exact fun value member => item.tells_toJson (faithful value member)
  | .option inner, value, faithful => by
    cases value with
    | none => rfl
    | some value => exact ⟨faithful.1, inner.tells_toJson faithful.2⟩
  | .record name fields, row, ⟨distinct, faithful⟩ => by
    refine ⟨_, rfl, distinct, ?_, ?_, ?_⟩
    · rwa [fields.names_toMembers]
    · rintro ⟨key, tree⟩ found
      exact fields.tellsMember_toMembers distinct faithful found
    · rw [fields.names_toMembers]
      exact fields.absentBut_of_subset row fun name found => found

theorem Fields.tellsMember_toMembers : (fields : Fields) → {row : fields.Row} →
    fields.names.Nodup → fields.FaithfulRow row → {key : String} → {tree : Json} →
    (key, tree) ∈ fields.toMembers row → fields.TellsMember key tree row
  | .nil, (), _, _, key, tree, found => by simp [Fields.toMembers] at found
  | .cons name shape _ rest, (value, row), distinct, ⟨faithful, faithfulRest⟩, key, tree,
      found => by
    obtain ⟨fresh, distinct⟩ := List.nodup_cons.mp distinct
    unfold Fields.TellsMember
    rcases List.mem_cons.mp found with same | later
    · cases same
      rw [if_pos rfl]
      exact shape.tells_toJson faithful
    · have other : key ≠ name := by
        rintro rfl
        exact fresh (rest.names_toMembers row ▸ List.mem_map_of_mem later)
      rw [if_neg other]
      exact rest.tellsMember_toMembers distinct faithfulRest later

end

/-! ## Fields met so far -/

/-- The fields whose names are among the names, with their values in the row. -/
def Fields.metOf : (fields : Fields) → List String → fields.Row → fields.Partial
  | .nil, _, () => ()
  | .cons name _ _ rest, names, (value, row) =>
    (if name ∈ names then some value else none, rest.metOf names row)

private theorem Fields.metOf_nil : (fields : Fields) → (row : fields.Row) →
    fields.metOf [] row = fields.unmet
  | .nil, () => rfl
  | .cons _ _ _ rest, (_, row) => by
    rw [metOf, unmet, rest.metOf_nil row, if_neg List.not_mem_nil]

/-- A name of no field changes nothing. -/
private theorem Fields.metOf_append_of_notMem : (fields : Fields) → (row : fields.Row) →
    (names : List String) → {name : String} → name ∉ fields.names →
    fields.metOf (names ++ [name]) row = fields.metOf names row
  | .nil, (), _, _, _ => rfl
  | .cons field _ _ rest, (_, row), names, name, unknown => by
    obtain ⟨other, unknown⟩ := not_or.mp (mt List.mem_cons.mpr unknown)
    have same : field ∈ names ++ [name] ↔ field ∈ names := by simp [Ne.symm other]
    simp only [metOf, rest.metOf_append_of_notMem row names unknown, same]

/-- Behind the last member the row is complete if no other field has to be present. -/
private theorem Fields.complete_metOf : (fields : Fields) → {row : fields.Row} →
    {names : List String} →
    fields.AbsentBut names row → fields.complete (fields.metOf names row) = .ok row
  | .nil, (), _, _ => rfl
  | .cons name shape required rest, (value, row), names, ⟨absent, absentRest⟩ => by
    unfold metOf complete
    by_cases seen : name ∈ names
    · rw [if_pos seen, rest.complete_metOf absentRest]
      rfl
    · obtain ⟨rfl, rfl⟩ := absent seen
      rw [if_neg seen, rest.complete_metOf absentRest]
      rfl

namespace Json.Scan

/-! ## Values -/

theorem valueStart_of_skips {input tail : List UInt8} {byte : UInt8}
    (skips : Skips input (byte :: tail)) (token : isBlank byte = false) :
    valueStart input = .ok (byte, byte :: tail) := by
  rw [valueStart, bind_of_ok (peekToken_of_skips skips token)]
  rfl

theorem valueStart_ok_iff {byte : UInt8} {input rest : List UInt8} :
    valueStart input = .ok (byte, rest) ↔
      ∃ tail, rest = byte :: tail ∧ Skips input rest ∧ isBlank byte = false := by
  constructor
  · intro ok
    obtain ⟨front, mid, peeked, ok⟩ := bind_ok_iff.mp ok
    obtain ⟨rfl, skips, token⟩ := peekToken_ok_iff.mp peeked
    cases mid with
    | nil => simp at ok
    | cons byte tail =>
      obtain ⟨rfl, rfl⟩ := pure_ok_iff.mp ok
      exact ⟨tail, rfl, skips, token byte rfl⟩
  · rintro ⟨tail, rfl, skips, token⟩
    exact valueStart_of_skips skips token

theorem wrongType_ne_ok {α : Type} {expected : String} {input rest : List UInt8} {value : α} :
    (wrongType expected : Scan α) input ≠ .ok (value, rest) := by
  intro ok
  obtain ⟨front, mid, -, ok⟩ := bind_ok_iff.mp ok
  cases front with
  | none => simp at ok
  | some byte =>
    dsimp only at ok
    split_ifs at ok <;> simp [bind_ok_iff, misfit, failWith] at ok

private theorem text_complete {content : String} {core input rest : List UInt8} (expected : String)
    (spelled : Value (.string content) core) (skips : Skips input (core ++ rest)) :
    text expected input = .ok (content, rest) := by
  obtain ⟨inside⟩ : StringSpelling content core := by
    cases spelled
    assumption
  rename_i text
  have split : 0x22 :: text ++ [0x22] ++ rest = 0x22 :: (text ++ 0x22 :: rest) := by simp
  rw [split] at skips
  rw [Scan.text, bind_of_ok (valueStart_of_skips skips (by decide)), if_pos rfl,
    bind_of_ok (advance_ok_iff.mpr rfl)]
  exact string_ok_iff.mpr ⟨text, inside, rfl⟩

theorem text_ok_iff {expected name : String} {input rest : List UInt8} :
    text expected input = .ok (name, rest) ↔
      ∃ core, StringSpelling name core ∧ Skips input (core ++ rest) := by
  constructor
  · intro ok
    obtain ⟨byte, mid, start, ok⟩ := bind_ok_iff.mp ok
    obtain ⟨tail, rfl, skips, -⟩ := valueStart_ok_iff.mp start
    split at ok
    next quote =>
      obtain ⟨_, mid, passed, ok⟩ := bind_ok_iff.mp ok
      obtain rfl := advance_ok_iff.mp passed
      obtain ⟨inside, spelled, rfl⟩ := string_ok_iff.mp ok
      exact ⟨_, .mk spelled, by simpa [quote] using skips⟩
    next => exact absurd ok wrongType_ne_ok
  · rintro ⟨core, spelled, skips⟩
    exact text_complete expected (.string spelled) skips

/-- The first byte of a literal tells that a number follows and whether it is negative. -/
private theorem anyNumber_text {literal : NumberLiteral} {input rest : List UInt8}
    (expected : String)
    (skips : Skips input (literal.text ++ rest)) :
    anyNumber expected input = number literal.negative (literal.magnitude ++ rest) := by
  cases sign : literal.negative with
  | true =>
    rw [NumberLiteral.text_of_negative sign, List.cons_append] at skips
    rw [anyNumber, bind_of_ok (valueStart_of_skips skips (by decide)), if_pos rfl,
      bind_of_ok (advance_ok_iff.mpr rfl)]
  | false =>
    obtain ⟨byte, tail, cons, range⟩ := literal.exists_magnitude_cons
    have digit : isDigit byte = true := isDigit_iff.mpr range
    rw [NumberLiteral.text_of_positive sign] at skips
    rw [cons, List.cons_append] at skips ⊢
    have noMinus : byte ≠ 0x2D := by
      rintro rfl
      cases digit
    rw [anyNumber, bind_of_ok (valueStart_of_skips skips (isBlank_of_range range)),
      if_neg noMinus, if_pos digit]

/-- A literal is read as a whole number if it is one, and if the target has room for it. -/
theorem integer_text_ok_iff {literal : NumberLiteral} {n : Int} {input rest unread : List UInt8}
    (fits : Int → Bool) (expected : String) (skips : Skips input (literal.text ++ rest))
    (breaks : Breaks rest) : integer fits expected input = .ok (n, unread) ↔
      literal.value? = some (.integer n) ∧ fits n = true ∧ rest = unread := by
  rw [integer, bind_ok_iff, anyNumber_text expected skips]
  constructor
  · rintro ⟨number, mid, read, ok⟩
    obtain ⟨value, rfl⟩ := (number_text_ok_iff (ends_of_breaks breaks)).mp read
    cases number with
    | double x => simp [misfit, failWith] at ok
    | integer m =>
      dsimp only at ok
      split at ok
      next room =>
        obtain ⟨rfl, rfl⟩ := pure_ok_iff.mp ok
        exact ⟨value, room, rfl⟩
      next => simp [misfit, failWith] at ok
  · rintro ⟨value, room, rfl⟩
    refine ⟨_, _, number_complete value (ends_of_breaks breaks), ?_⟩
    dsimp only
    rw [if_pos room]
    rfl

private theorem integer_complete {n : Int} {core input rest : List UInt8} {fits : Int → Bool}
    (inRange : fits n = true) (expected : String) (spelled : Value (.integer n) core)
    (skips : Skips input (core ++ rest)) (breaks : Breaks rest) :
    integer fits expected input = .ok (n, rest) := by
  cases spelled with
  | number value => exact (integer_text_ok_iff fits expected skips breaks).mpr ⟨value, inRange, rfl⟩

theorem flag_complete {value : Bool} {core input rest : List UInt8}
    (spelled : Value (.bool value) core) (skips : Skips input (core ++ rest)) :
    flag input = .ok (value, rest) := by
  cases spelled with
  | true =>
    rw [flag, bind_of_ok (valueStart_of_skips skips (by decide)), if_pos rfl,
      bind_of_ok (advance_ok_iff.mpr rfl)]
    exact bind_pure_ok_iff.mpr ⟨(), literal_ok_iff.mpr rfl, rfl⟩
  | false =>
    rw [flag, bind_of_ok (valueStart_of_skips skips (by decide)), if_neg (by decide), if_pos rfl,
      bind_of_ok (advance_ok_iff.mpr rfl)]
    exact bind_pure_ok_iff.mpr ⟨(), literal_ok_iff.mpr rfl, rfl⟩

/-- Only a null starts as a null does. -/
private theorem value_starts_of_ne_null {tree : Json} {core : List UInt8}
    (spelled : Value tree core)
    (present : tree ≠ .null) :
    ∃ byte tail, core = byte :: tail ∧ isBlank byte = false ∧ byte ≠ 0x6E := by
  cases spelled with
  | null => exact absurd rfl present
  | @number literal =>
    obtain ⟨byte, tail, cons, token, other⟩ := literal.starts
    exact ⟨byte, tail, cons, token, other _ (by decide) (by decide)⟩
  | string spelled =>
    cases spelled
    exact ⟨_, _, rfl, by decide, by decide⟩
  | _ => exact ⟨_, _, rfl, by decide, by decide⟩

theorem option_complete_none {α : Type} {inner : Scan α} {core input rest : List UInt8}
    (spelled : Value .null core) (skips : Skips input (core ++ rest)) :
    option inner input = .ok (none, rest) := by
  cases spelled
  rw [option, bind_of_ok (peekToken_of_skips skips (by decide)), if_pos rfl,
    bind_of_ok (advance_ok_iff.mpr rfl)]
  exact bind_pure_ok_iff.mpr ⟨(), literal_ok_iff.mpr rfl, rfl⟩

private theorem option_complete_some {α : Type} {inner : Scan α} {value : α} {tree : Json}
    {core input rest : List UInt8} (spelled : Value tree core) (present : tree ≠ .null)
    (skips : Skips input (core ++ rest)) (read : inner (core ++ rest) = .ok (value, rest)) :
    option inner input = .ok (some value, rest) := by
  obtain ⟨byte, tail, rfl, token, other⟩ := value_starts_of_ne_null spelled present
  have differs : ¬ some byte = some 0x6E := by simpa using other
  rw [option, bind_of_ok (peekToken_of_skips skips token), if_neg differs]
  exact bind_pure_ok_iff.mpr ⟨value, read, rfl⟩

private theorem moreEntries_of_forall₂ {α β : Type} {P : α → List UInt8 → Prop} {R : α → β → Prop}
    {as : List α} {bs : List β} {text : List UInt8} (spelled : MoreEntries P as text)
    (related : List.Forall₂ R as bs) :
    MoreEntries (fun b core => ∃ a, P a core ∧ R a b) bs text := by
  induction spelled generalizing bs with
  | nil =>
    cases related
    exact .nil
  | cons front head back _ ih =>
    cases related with
    | cons holds related => exact .cons front ⟨_, head, holds⟩ back (ih related)

private theorem entries_of_forall₂ {α β : Type} {P : α → List UInt8 → Prop} {R : α → β → Prop}
    {as : List α} {bs : List β} {text : List UInt8} (spelled : Entries P as text)
    (related : List.Forall₂ R as bs) : Entries (fun b core => ∃ a, P a core ∧ R a b) bs text := by
  cases spelled with
  | none blanks =>
    cases related
    exact .none blanks
  | some front head back more =>
    cases related with
    | cons holds related =>
      exact .some front ⟨_, head, holds⟩ back (moreEntries_of_forall₂ more related)

private theorem list_complete {α : Type} {item : Scan α} {Item : Json → α → Prop}
    {items : List Json}
    {values : List α} {text rest : List UInt8} {depth : Nat}
    (complete : ∀ {tree value core rest}, Item tree value → tree.nesting ≤ depth →
      Value tree core → Breaks rest → item (core ++ rest) = .ok (value, rest))
    (spelled : Entries Value items text) (tells : List.Forall₂ Item items values)
    (shallow : ∀ tree ∈ items, tree.nesting ≤ depth) :
    list item (0x5B :: (text ++ 0x5D :: rest)) = .ok (values, rest) := by
  have read : bounded (fun fuel => Scan.items item fuel true) (text ++ 0x5D :: rest) =
      .ok (values, 0x5D :: rest) := by
    change Scan.items item ((text ++ 0x5D :: rest).length + 1) true _ = _
    rw [items_eq_listOf]
    refine listOf_first_complete (.inl rfl) ?_ separates_nextItem ?_
      (entries_of_forall₂ spelled ((List.forall₂_and_left _ _).mpr ⟨shallow, tells⟩)) ?_
    · rintro _ core ⟨tree, spelled, -, -⟩
      exact value_starts spelled
    · rintro core rest value ⟨tree, spelled, shallow, tells⟩ breaks
      exact complete tells shallow spelled breaks
    · simp only [List.length_append]
      omega
  rw [list, bind_of_ok (advance_ok_iff.mpr rfl), bind_of_ok read]
  rfl

end Json.Scan

open Json.Scan (Skips Breaks)

/-- An object is a record once its members are taken and the fields met make up a row. -/
theorem Shape.scan_record {name : String} {fields : Fields} {met : fields.Partial}
    {row : fields.Row} {below : Nat} {input text rest : List UInt8}
    (skips : Skips input (0x7B :: (text ++ 0x7D :: rest)))
    (read : Json.Scan.bounded (fun fuel =>
      Json.Scan.membersInto (fields.scanMember below) fuel true fields.unmet)
        (text ++ 0x7D :: rest) = .ok (met, 0x7D :: rest))
    (complete : fields.complete met = .ok row) :
    (Shape.record name fields).scan (below + 1) input = .ok (row, rest) := by
  rw [Shape.scan, Json.Scan.bind_of_ok (Json.Scan.valueStart_of_skips skips (by decide)),
    if_neg (by decide), if_neg (Nat.succ_ne_zero below), if_neg (by decide),
    Json.Scan.bind_of_ok (Json.Scan.advance_ok_iff.mpr rfl), Nat.add_sub_cancel,
    Json.Scan.bind_of_ok read, complete]
  rfl

/-- The text is read as the value wherever it stands. -/
def Shape.ReadsAs (shape : Shape) (depth : Nat) (core : List UInt8) (value : shape.Value) : Prop :=
  ∀ {input rest : List UInt8}, Skips input (core ++ rest) → Breaks rest →
    shape.scan depth input = .ok (value, rest)

/-- The text is read as the value of the field with the name. Under the name of no field it is any
value. -/
def Fields.ReadsMember : (fields : Fields) → (depth : Nat) → String → List UInt8 → fields.Row → Prop
  | .nil, _, _, core, () => WellFormed core
  | .cons name shape _ rest, depth, key, core, (value, row) =>
    if key = name then shape.ReadsAs depth core value else rest.ReadsMember depth key core row

/-- A member under the name of a field that was not seen before, or of none, is taken into the
fields met. -/
theorem Fields.scanMember_of_reads : (fields : Fields) → {depth : Nat} → {row : fields.Row} →
    {seen : List String} → {key : String} → {core : List UInt8} → fields.names.Nodup →
    fields.ReadsMember depth key core row → (key ∈ fields.names → key ∉ seen) →
    {after input rest : List UInt8} → Blanks after → Skips input (core ++ rest) → Breaks rest →
    fields.scanMember depth key (fields.metOf seen row) (after ++ 0x3A :: input) =
      .ok (fields.metOf (seen ++ [key]) row, rest)
  | .nil, _, (), _, _, _, _, value, _, after, input, _, back, skips, breaks => by
    have separated : Json.Scan.colon (after ++ 0x3A :: input) = .ok ((), input) :=
      Json.Scan.colon_ok_iff.mpr ⟨after, back, rfl⟩
    rw [scanMember, Json.Scan.bind_of_ok separated]
    exact Json.Scan.skipValue_complete value skips breaks
  | .cons name shape _ others, depth, (value, row), seen, key, core, distinct, reads, fresh,
      after, input, rest, back, skips, breaks => by
    obtain ⟨unlike, distinct⟩ := List.nodup_cons.mp distinct
    unfold Fields.ReadsMember at reads
    unfold Fields.scanMember Fields.metOf
    by_cases same : key = name
    · subst same
      rw [if_pos rfl] at reads
      rw [if_pos rfl, if_neg (fresh List.mem_cons_self),
        if_pos (List.mem_append_right seen List.mem_cons_self),
        others.metOf_append_of_notMem row seen unlike]
      have separated : Json.Scan.colon (after ++ 0x3A :: input) = .ok ((), input) :=
        Json.Scan.colon_ok_iff.mpr ⟨after, back, rfl⟩
      dsimp only
      rw [Json.Scan.bind_of_ok separated, Json.Scan.bind_of_ok (reads skips breaks)]
      rfl
    · rw [if_neg same] at reads
      have still : name ∈ seen ++ [key] ↔ name ∈ seen := by simp [Ne.symm same]
      have read := others.scanMember_of_reads distinct reads
        (fun found => fresh (List.mem_cons_of_mem _ found)) back skips breaks
      rw [if_neg same, Json.Scan.bind_of_ok read]
      simp only [still]
      rfl

/-- Of a name that occurs once at most, none is in front of it. -/
private theorem notMem_of_count_le_one {names seen later : List String} {name : String}
    (once : names.count name ≤ 1) (split : names = seen ++ name :: later) : name ∉ seen := by
  rw [split, List.count_append, List.count_cons_self] at once
  exact List.count_eq_zero.mp (by omega)

/-- An object is read as a row if its members are read as fields of it, none of them twice. -/
theorem Shape.scan_object {β : Type} {Entry : String × β → List UInt8 → Prop}
    {Spelled : β → List UInt8 → Prop} {record : String} {fields : Fields} {row : fields.Row}
    {below : Nat} {entries : List (String × β)} {input text rest : List UInt8}
    (named : ∀ entry text, Entry entry text → MemberOf Spelled entry text)
    (spelled : Entries Entry entries text) (distinct : fields.names.Nodup)
    (reads : ∀ entry ∈ entries, ∀ core, Spelled entry.2 core →
      fields.ReadsMember below entry.1 core row)
    (once : ∀ name ∈ fields.names, (entries.map Prod.fst).count name ≤ 1)
    (absent : fields.AbsentBut (entries.map Prod.fst) row)
    (skips : Skips input (0x7B :: (text ++ 0x7D :: rest))) :
    (Shape.record record fields).scan (below + 1) input = .ok (row, rest) := by
  -- At every member the fields met are those under the names in front of it.
  have takes : Json.Scan.TakesEach False Entry (fields.scanMember below)
      (fun seen met => met = fields.metOf (seen.map Prod.fst) row) entries := by
    refine Json.Scan.takesEach_of_named named ?_
    rintro seen name value later split after core input rest _ back spelled skips breaks rfl
    refine Json.Scan.leaves_false_iff.mpr ?_
    rw [List.map_append]
    have found : (name, value) ∈ entries := by simp [split]
    refine fields.scanMember_of_reads distinct (reads _ found core spelled) ?_ back skips breaks
    intro known
    have names : entries.map Prod.fst = seen.map Prod.fst ++ name :: later.map Prod.fst := by
      simp [split]
    exact notMem_of_count_le_one (once name known) names
  have read := Json.Scan.membersInto_leaves (fun _ _ h => (named _ _ h).quoted) takes
    (fields.metOf_nil row).symm spelled rest
  exact Shape.scan_record skips (Json.Scan.leaves_false_iff.mp read) (fields.complete_metOf absent)

mutual

/-- A value that a tree tells is read from every text that spells the tree. -/
theorem Shape.scan_complete : (shape : Shape) → {depth : Nat} → {tree : Json} →
    {value : shape.Value} → shape.Tells tree value → tree.nesting ≤ depth →
    {core input rest : List UInt8} → Json.Value tree core → Skips input (core ++ rest) →
    Breaks rest → shape.scan depth input = .ok (value, rest)
  | .text, _, _, _, rfl, _, _, _, _, spelled, skips, _ => Json.Scan.text_complete _ spelled skips
  | .integer, _, _, n, rfl, _, _, _, _, spelled, skips, breaks => by
    have read := Json.Scan.integer_complete (Word.fitsSigned_toInt n) Shape.integer.expected
      spelled skips breaks
    rw [Shape.scan, Json.Scan.bind_of_ok read, Int64.ofInt_toInt]
    rfl
  | .word, _, _, n, rfl, _, _, _, _, spelled, skips, breaks => by
    have inRange : Word.fitsUnsigned (n.toNat : Int) = true := by
      have bound := n.toNat_lt
      rw [Word.fitsUnsigned_iff]
      omega
    have read := Json.Scan.integer_complete inRange Shape.word.expected spelled skips breaks
    rw [Shape.scan, Json.Scan.bind_of_ok read, Int.toNat_natCast, UInt64.ofNat_toNat]
    rfl
  | .flag, _, _, _, rfl, _, _, _, _, spelled, skips, _ => Json.Scan.flag_complete spelled skips
  | .json, depth, tree, value, tells, shallow, _, _, _, spelled, skips, breaks => by
    obtain ⟨byte, tail, cons, token, -⟩ := Json.value_starts spelled
    rw [Shape.scan, Json.Scan.value_of_skips depth skips
      (by rw [cons]; rintro _ ⟨rfl⟩; exact token)]
    exact (Json.Scan.reads_value depth fun _ => True).complete ⟨tree, spelled, shallow, tells⟩
      breaks
  | .list item, depth, tree, values, tells, shallow, _, _, rest, spelled, skips, _ => by
    obtain ⟨items, rfl, tells⟩ := tells
    obtain ⟨below, rfl⟩ := Nat.exists_eq_add_one.mpr (Nat.lt_of_lt_of_le (Nat.succ_pos _) shallow)
    cases spelled with
    | @array items text inside =>
      rw [Json.Scan.enclosed_append] at skips
      rw [Shape.scan, Json.Scan.bind_of_ok (Json.Scan.valueStart_of_skips skips (by decide)),
        if_neg (not_not.mpr rfl), if_neg (Nat.succ_ne_zero below)]
      refine Json.Scan.list_complete (fun tells shallow spelled breaks =>
        item.scan_complete tells shallow spelled (.refl _) breaks) inside tells ?_
      exact Json.nestingItems_le_iff.mp (Nat.le_of_succ_le_succ shallow)
  | .option inner, _, tree, none, tells, _, _, _, _, spelled, skips, _ => by
    obtain rfl : tree = .null := tells
    exact Json.Scan.option_complete_none spelled skips
  | .option inner, _, tree, some value, ⟨present, tells⟩, shallow, _, _, _, spelled, skips,
      breaks =>
    Json.Scan.option_complete_some spelled present skips
      (inner.scan_complete tells shallow spelled (.refl _) breaks)
  | .record name fields, depth, tree, row, tells, shallow, _, _, rest, spelled, skips, _ => by
    obtain ⟨members, rfl, known, distinct, tells, absent⟩ := tells
    obtain ⟨below, rfl⟩ := Nat.exists_eq_add_one.mpr (Nat.lt_of_lt_of_le (Nat.succ_pos _) shallow)
    cases spelled with
    | @object members text inside =>
      rw [Json.Scan.enclosed_append] at skips
      have shallow := Json.nestingMembers_le_iff.mp (Nat.le_of_succ_le_succ shallow)
      exact Shape.scan_object (fun _ _ => Json.Member.memberOf) inside known
        (fun entry found core spelled =>
          fields.readsMember_of_tells (tells entry found) (shallow entry found) spelled)
        (fun name _ => List.nodup_iff_count_le_one.mp distinct name) absent skips

/-- A member that tells the value of a field is read as it. -/
theorem Fields.readsMember_of_tells : (fields : Fields) → {depth : Nat} → {row : fields.Row} →
    {key : String} → {tree : Json} → fields.TellsMember key tree row → tree.nesting ≤ depth →
    {core : List UInt8} → Json.Value tree core → fields.ReadsMember depth key core row
  | .nil, _, (), _, _, unknown, _, _, _ => unknown.elim
  | .cons name shape _ rest, depth, (value, row), key, tree, tells, shallow, core, spelled => by
    unfold Fields.TellsMember at tells
    unfold Fields.ReadsMember
    by_cases same : key = name
    · rw [if_pos same] at tells ⊢
      exact fun skips breaks => shape.scan_complete tells shallow spelled skips breaks
    · rw [if_neg same] at tells ⊢
      exact rest.readsMember_of_tells tells shallow spelled

end

/-- A text is read as the value that its document tells. -/
theorem Shape.parse_of_tells {shape : Shape} {text : List UInt8} {tree : Json}
    {value : shape.Value} (document : Json.Document tree text) (tells : shape.Tells tree value) :
    shape.parse text = .ok value := by
  obtain ⟨front, spelled, back, shallow⟩ := document
  rename_i before core after
  have ends : Breaks after := by
    have nothing : Breaks [] := by rintro _ ⟨⟩
    simpa using Json.Scan.breaks_append back nothing
  refine Json.Scan.run_eq_ok_iff.mpr ⟨after, ?_, back⟩
  exact shape.scan_complete tells shallow spelled ⟨before, front, List.append_assoc ..⟩ ends

/-- What a value is written as, on one line or on lines of its own, is read back as the value. -/
theorem Shape.parse_compact {shape : Shape} {value : shape.Value} (faithful : shape.Faithful value)
    (shallow : (shape.toJson value).nesting ≤ 127) :
    shape.parse (Utf8.ofString (shape.toJson value).compact) = .ok value :=
  shape.parse_of_tells (Json.document_compact (shape.whole_toJson faithful) shallow)
    (shape.tells_toJson faithful)

theorem Shape.parse_pretty {shape : Shape} {value : shape.Value} (faithful : shape.Faithful value)
    (shallow : (shape.toJson value).nesting ≤ 127) :
    shape.parse (Utf8.ofString (shape.toJson value).pretty) = .ok value :=
  shape.parse_of_tells (Json.document_pretty (shape.whole_toJson faithful) shallow)
    (shape.tells_toJson faithful)

end TokenIntake
