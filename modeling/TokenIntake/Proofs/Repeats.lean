import TokenIntake.Proofs.Items
import TokenIntake.Proofs.Misfits
import TokenIntake.Proofs.Records

/-!
# Fields that occur twice or not at all

A record is never read from an object in which one of its fields occurs twice or a required one is
missing. The reader may stop at such an object for other reasons, so the induction is on the members
and says of each that the reader has stopped or stands at its end. Values that do not fit their
fields are no exception.
-/

namespace TokenIntake

namespace Json.Scan

/-! ## Strings in step -/

/-- Behind the inside of a string the reader of strings stands behind the closing quote. -/
private theorem string_leaves {key : List UInt8} (loose : LooseText key) (rest : List UInt8) :
    Leaves True (fun _ unread => unread = rest) (string (key ++ 0x22 :: rest)) := by
  refine leaves_true_iff.mpr fun content unread ok => ?_
  obtain ⟨text, spelled, split⟩ := string_ok_iff.mp ok
  -- Passing over the string tells where it ends.
  have passed := skipString_complete loose rest
  rw [split, skipString_complete (looseText_of_spelling spelled)] at passed
  cases passed
  rfl

/-! ## Values in step -/

/-- Behind any value the scanner stands at the end of the value, unless it has stopped. -/
def KeepsStep {α : Type} (scan : Scan α) : Prop :=
  ∀ {core input rest : List UInt8}, WellFormed core → Skips input (core ++ rest) → Breaks rest →
    Leaves True (fun _ unread => unread = rest) (scan input)

private theorem leaves_wrongType {α : Type} {post : α → List UInt8 → Prop} (expected : String)
    (input : List UInt8) : Leaves True post (wrongType expected input) :=
  leaves_true_iff.mpr fun _ _ ok => absurd ok wrongType_ne_ok

theorem keepsStep_text (expected : String) : KeepsStep (text expected) := by
  intro core input rest value skips breaks
  have notText {byte : UInt8} {tail : List UInt8} (skips : Skips input (byte :: tail))
      (token : isBlank byte = false) (other : byte ≠ 0x22) :
      Leaves True (fun _ unread => unread = rest) (text expected input) := by
    rw [text, bind_of_ok (valueStart_of_skips skips token), if_neg other]
    exact leaves_wrongType ..
  cases value with
  | @string key loose =>
    rw [enclosed_append] at skips
    rw [text, bind_of_ok (valueStart_of_skips skips (by decide)), if_pos rfl,
      bind_of_ok (advance_ok_iff.mpr rfl)]
    exact string_leaves loose rest
  | number literal =>
    obtain ⟨byte, tail, cons, token, other⟩ := literal.starts
    rw [cons] at skips
    exact notText skips token (other _ (by decide) (by decide))
  | _ => exact notText skips (by decide) (by decide)

theorem keepsStep_flag : KeepsStep flag := by
  intro core input rest value skips breaks
  have notFlag {byte : UInt8} {tail : List UInt8} (skips : Skips input (byte :: tail))
      (token : isBlank byte = false) (other : byte ≠ 0x74) (other' : byte ≠ 0x66) :
      Leaves True (fun _ unread => unread = rest) (flag input) := by
    rw [flag, bind_of_ok (valueStart_of_skips skips token), if_neg other, if_neg other']
    exact leaves_wrongType ..
  cases value with
  | true =>
    rw [flag_complete .true skips]
    exact rfl
  | false =>
    rw [flag_complete .false skips]
    exact rfl
  | number literal =>
    obtain ⟨byte, tail, cons, token, other⟩ := literal.starts
    rw [cons] at skips
    exact notFlag skips token (other _ (by decide) (by decide)) (other _ (by decide) (by decide))
  | _ => exact notFlag skips (by decide) (by decide) (by decide)

private theorem keepsStep_integer (fits : Int → Bool) (expected : String) :
    KeepsStep (integer fits expected) := by
  intro core input rest value skips breaks
  have notNumber {byte : UInt8} {tail : List UInt8} (skips : Skips input (byte :: tail))
      (token : isBlank byte = false) (noMinus : byte ≠ 0x2D) (noDigit : ¬ isDigit byte = true) :
      Leaves True (fun _ unread => unread = rest) (integer fits expected input) := by
    have stops : Leaves True (fun _ _ => False) (anyNumber expected input) := by
      rw [anyNumber, bind_of_ok (valueStart_of_skips skips token), if_neg noMinus, if_neg noDigit]
      exact leaves_wrongType ..
    exact stops.bind fun _ _ never => never.elim
  cases value with
  | number literal =>
    refine leaves_true_iff.mpr fun n unread ok => ?_
    obtain ⟨-, -, same⟩ := (integer_text_ok_iff fits expected skips breaks).mp ok
    exact same.symm
  | _ => exact notNumber skips (by decide) (by decide) (by decide)

theorem keepsStep_option {α : Type} {inner : Scan α} (keeps : KeepsStep inner) :
    KeepsStep (option inner) := by
  intro core input rest value skips breaks
  have present {byte : UInt8} {tail : List UInt8} (skips' : Skips input (byte :: tail))
      (token : isBlank byte = false) (other : byte ≠ 0x6E) (same : core ++ rest = byte :: tail) :
      Leaves True (fun _ unread => unread = rest) (option inner input) := by
    rw [option, bind_of_ok (peekToken_of_skips skips' token), if_neg (by simpa using other),
      ← same]
    exact (keeps value (.refl _) breaks).bind fun _ _ same => same
  cases value with
  | null =>
    rw [option_complete_none .null skips]
    exact rfl
  | number literal =>
    obtain ⟨byte, tail, cons, token, other⟩ := literal.starts
    rw [cons] at skips present
    exact present skips token (other _ (by decide) (by decide)) rfl
  | _ => exact present skips (by decide) (by decide) rfl

/-! ## Arrays in step -/

/-- Well-formed items and the end of the array are left. -/
def ItemsLeft (rest : List UInt8) (first : Bool) (input : List UInt8) : Prop :=
  ∃ items, ItemsAhead Eq rest items first input ∧ ∀ item ∈ items, WellFormed item

theorem ItemsLeft.closing (rest : List UInt8) : ItemsLeft rest false (0x5D :: rest) :=
  ⟨[], .closing rest, nofun⟩

section

variable {first : Bool} {input rest : List UInt8}

private theorem nextItem_of_left (left : ItemsLeft rest first input) :
    nextItem first input = .ok (false, 0x5D :: rest) ∨
      ∃ core unread, nextItem first input = .ok (true, core ++ unread) ∧ WellFormed core ∧
        Breaks unread ∧ ItemsLeft rest false unread := by
  obtain ⟨items, ahead, each⟩ := left
  cases items with
  | nil => exact .inl ahead.nextItem_of_nil
  | cons item others =>
    obtain ⟨value, each⟩ := List.forall_mem_cons.mp each
    obtain ⟨core, unread, found, rfl, breaks, behind⟩ :=
      ahead.nextItem_of_cons fun core same => wellFormed_starts (same ▸ value)
    exact .inr ⟨_, unread, found, value, breaks, others, behind, each⟩

private theorem closeArray_leaves (left : ItemsLeft rest first input) :
    Leaves True (fun _ unread => unread = rest) (closeArray input) := by
  refine leaves_true_iff.mpr fun _ unread ok => ?_
  -- The next token is the closing bracket, so no comma and no item follows.
  have closes {byte : UInt8} {tail : List UInt8} (skips : Skips input (byte :: tail))
      (token : isBlank byte = false) : byte :: tail = 0x5D :: unread :=
    skips_unique skips (by rintro _ ⟨rfl⟩; exact token) (closeArray_ok_iff.mp ok)
      (by rintro _ ⟨rfl⟩; rfl)
  obtain ⟨items, ahead, each⟩ := left
  cases items with
  | nil => exact (List.cons.inj (closes ahead.skips_of_nil rfl)).2.symm
  | cons item others =>
    obtain ⟨core, behind, rfl, -, -, ⟨-, skips⟩ | ⟨-, mid, comma, -⟩⟩ := ahead.exists_item
    · obtain ⟨byte, tail, rfl, token, other⟩ := wellFormed_starts (each _ List.mem_cons_self)
      exact absurd (List.cons.inj (closes skips token)).1 other
    · cases closes comma rfl

end

end Json.Scan

open Json (Blanks Entries MemberOf LooseMember WellFormed)
open Json.Scan (Skips Breaks Leaves KeepsStep ItemsLeft)

/-! ## Fields in step -/

/-- The scanners of all fields keep step. -/
def Fields.KeepStep : Fields → (depth : Nat) → Prop
  | .nil, _ => True
  | .cons _ shape _ rest, depth => KeepsStep (shape.scan depth) ∧ rest.KeepStep depth

/-- The items of an array are taken one for each field, as long as there are any. -/
private theorem Fields.scanItems_leaves : (fields : Fields) → {depth : Nat} →
    fields.KeepStep depth →
    (record : String) → (arity index : Nat) → {input rest : List UInt8} →
    ItemsLeft rest (index == 0) input →
    Leaves True (fun _ unread => ∃ first, ItemsLeft rest first unread)
      (fields.scanItems record arity depth index input)
  | .nil, _, _, _, _, _, _, _, left => ⟨_, left⟩
  | .cons _ shape required others, depth, ⟨keeps, keepOthers⟩, record, arity, index, input, rest,
      left => by
    have goOn {unread : List UInt8} (left : ItemsLeft rest false unread) :
        Leaves True (fun _ unread => ∃ first, ItemsLeft rest first unread)
          (others.scanItems record arity depth (index + 1) unread) :=
      others.scanItems_leaves keepOthers record arity (index + 1) left
    unfold scanItems
    obtain found | ⟨core, unread, found, value, breaks, behind⟩ := Json.Scan.nextItem_of_left left
    · rw [Json.Scan.bind_of_ok found]
      -- The bracket still stands there for the fields behind.
      cases required with
      | true => exact trivial
      | false => exact (goOn (.closing rest)).bind fun _ _ left => left
    · rw [Json.Scan.bind_of_ok found]
      refine (keeps value (.refl _) breaks).bind ?_
      rintro value _ rfl
      exact (goOn behind).bind fun _ _ left => left

theorem Shape.keepsStep_word (depth : Nat) : KeepsStep (Shape.word.scan depth) :=
  fun value skips breaks =>
    (Json.Scan.keepsStep_integer _ _ value skips breaks).bind fun _ _ same => same

/-! ## Fields followed -/

/-- Every field has been met as often as its name was seen. -/
def Fields.Follows : (fields : Fields) → List String → fields.Partial → Prop
  | .nil, _, () => True
  | .cons name _ _ rest, names, (met, others) =>
    names.count name = met.toList.length ∧ rest.Follows names others

/-- The text was read as the value of the field with the name, if there is one. -/
def Fields.Accepts : Fields → (depth : Nat) → String → List UInt8 → Prop
  | .nil, _, _, _ => True
  | .cons name shape _ rest, depth, key, core =>
    if key = name then
      ∃ input rest value, Skips input (core ++ rest) ∧ Breaks rest ∧
        shape.scan depth input = .ok (value, rest)
    else rest.Accepts depth key core

/-- What a record demands of the members of an object. -/
structure Fields.Admits (fields : Fields) (depth : Nat) (entries : List (String × List UInt8)) :
    Prop where
  once : ∀ name ∈ fields.names, (entries.map Prod.fst).count name ≤ 1
  present : ∀ name ∈ fields.required, name ∈ entries.map Prod.fst
  accepts : ∀ entry ∈ entries, fields.Accepts depth entry.1 entry.2

private theorem Fields.follows_unmet : (fields : Fields) → fields.Follows [] fields.unmet
  | .nil => trivial
  | .cons _ _ _ rest => ⟨rfl, rest.follows_unmet⟩

/-- A name of no field changes nothing. -/
private theorem Fields.follows_append_of_notMem : (fields : Fields) → {names : List String} →
    {name : String} → {met : fields.Partial} → name ∉ fields.names → fields.Follows names met →
    fields.Follows (names ++ [name]) met
  | .nil, _, _, (), _, _ => trivial
  | .cons field _ _ rest, names, name, (met, others), unknown, ⟨count, follows⟩ => by
    obtain ⟨other, unknown⟩ := not_or.mp (mt List.mem_cons.mpr unknown)
    refine ⟨?_, rest.follows_append_of_notMem unknown follows⟩
    rw [List.count_append, List.count_singleton, if_neg (by simpa using other), count]
    rfl

private theorem Fields.count_le_one_of_follows : (fields : Fields) → {names : List String} →
    {met : fields.Partial} → fields.Follows names met → ∀ name ∈ fields.names,
    names.count name ≤ 1
  | .nil, _, (), _, name, known => by simp [names] at known
  | .cons field _ _ rest, names, (met, others), ⟨count, follows⟩, name, known => by
    rcases List.mem_cons.mp known with rfl | known
    · rw [count]
      cases met <;> simp
    · exact rest.count_le_one_of_follows follows name known

/-- Behind the last member every required field has been met, if the fields met make up a row. -/
private theorem Fields.mem_of_complete : (fields : Fields) → {names : List String} →
    {met : fields.Partial} → {row : fields.Row} → fields.Follows names met →
    fields.complete met = .ok row → ∀ name ∈ fields.required, name ∈ names
  | .nil, _, (), _, _, _, name, needed => by simp [required] at needed
  | .cons field shape isRequired rest, names, (met, others), row, ⟨count, follows⟩, complete, name,
      needed => by
    unfold Fields.complete at complete
    unfold Fields.required at needed
    cases met with
    | some value =>
      obtain ⟨row, complete, -⟩ := map_eq_ok_iff.mp complete
      have here : field ∈ names := List.count_pos_iff.mp (by simp [count])
      have others := rest.mem_of_complete follows complete
      split at needed
      · exact List.forall_mem_cons.mpr ⟨here, others⟩ name needed
      · exact others name needed
    | none =>
      cases isRequired with
      | true => cases complete
      | false =>
        obtain ⟨row, complete, -⟩ := map_eq_ok_iff.mp complete
        exact rest.mem_of_complete follows complete name needed

/-- A member is taken into the fields met only if its field was not met before. -/
theorem Fields.scanMember_follows : (fields : Fields) → {depth : Nat} → fields.KeepStep depth →
    fields.names.Nodup → {seen : List String} → {met : fields.Partial} →
    fields.Follows seen met → (key : String) → {after core input rest : List UInt8} →
    WellFormed core → Blanks after → Skips input (core ++ rest) → Breaks rest →
    Leaves True (fun met unread =>
        (fields.Follows (seen ++ [key]) met ∧ fields.Accepts depth key core) ∧ unread = rest)
      (fields.scanMember depth key met (after ++ 0x3A :: input))
  | .nil, _, _, _, _, (), _, key, after, core, input, rest, value, back, skips, breaks => by
    have separated : Json.Scan.colon (after ++ 0x3A :: input) = .ok ((), input) :=
      Json.Scan.colon_ok_iff.mpr ⟨after, back, rfl⟩
    rw [scanMember, Json.Scan.bind_of_ok separated,
      Json.Scan.skipValue_complete value skips breaks]
    exact ⟨⟨trivial, trivial⟩, rfl⟩
  | .cons name shape _ others, depth, ⟨keeps, keepOthers⟩, distinct, seen, (met, metOthers),
      ⟨count, follows⟩, key, after, core, input, rest, value, back, skips, breaks => by
    obtain ⟨unlike, distinct⟩ := List.nodup_cons.mp distinct
    unfold Fields.scanMember Fields.Accepts
    by_cases same : key = name
    · subst same
      rw [if_pos rfl, if_pos rfl]
      cases met with
      -- At a second member of the field the reader stops.
      | some _ => exact trivial
      | none =>
        have separated : Json.Scan.colon (after ++ 0x3A :: input) = .ok ((), input) :=
          Json.Scan.colon_ok_iff.mpr ⟨after, back, rfl⟩
        have once : (seen ++ [key]).count key = 1 := by
          rw [List.count_append, count, List.count_singleton_self]
          rfl
        dsimp only
        rw [Json.Scan.bind_of_ok separated]
        refine (keeps value skips breaks).with_ok.bind ?_
        rintro found _ ⟨rfl, read⟩
        exact ⟨⟨⟨once, others.follows_append_of_notMem unlike follows⟩, input, _, found, skips,
          breaks, read⟩, rfl⟩
    · rw [if_neg same, if_neg same]
      have still : (seen ++ [key]).count name = seen.count name := by
        simp [List.count_append, same]
      refine (others.scanMember_follows keepOthers distinct follows key value back skips
        breaks).bind ?_
      rintro metOthers _ ⟨⟨follows, accepts⟩, rfl⟩
      exact ⟨⟨⟨still.trans count, follows⟩, accepts⟩, rfl⟩

/-! ## Objects in step -/

section

variable {record : String} {fields : Fields} {below : Nat}

/-- Behind an object whose members keep step stands the reader of the record, unless it has
stopped. -/
theorem Shape.scan_object_leaves {ε : Type} {Entry : ε → List UInt8 → Prop}
    {Good : List ε → fields.Partial → Prop} {entries : List ε} {input text rest : List UInt8}
    (quoted : ∀ entry core, Entry entry core → core.head? = some 0x22)
    (takes : Json.Scan.TakesEach True Entry (fields.scanMember below) Good entries)
    (good : Good [] fields.unmet) (spelled : Entries Entry entries text)
    (skips : Skips input (0x7B :: (text ++ 0x7D :: rest))) :
    Leaves True
      (fun _ unread => (∃ met row, Good entries met ∧ fields.complete met = .ok row) ∧ unread = rest)
      ((Shape.record record fields).scan (below + 1) input) := by
  rw [Shape.scan, Json.Scan.bind_of_ok (Json.Scan.valueStart_of_skips skips (by decide)),
    if_neg (by decide), if_neg (Nat.succ_ne_zero below), if_neg (by decide),
    Json.Scan.bind_of_ok (Json.Scan.advance_ok_iff.mpr rfl), Nat.add_sub_cancel]
  refine (Json.Scan.membersInto_leaves quoted takes good spelled rest).bind ?_
  rintro met _ ⟨good, rfl⟩
  cases complete : fields.complete met with
  | error field => exact trivial
  | ok row => exact ⟨⟨met, row, good, complete⟩, rfl⟩

theorem Shape.keepsStep_record (keeps : fields.KeepStep below) (distinct : fields.names.Nodup) :
    KeepsStep ((Shape.record record fields).scan (below + 1)) := by
  intro core input rest value skips breaks
  have noBracket {byte : UInt8} {tail : List UInt8} (skips : Skips input (byte :: tail))
      (token : Json.Scan.isBlank byte = false) (other : byte ≠ 0x5B) (other' : byte ≠ 0x7B) :
      Leaves True (fun _ unread => unread = rest)
        ((Shape.record record fields).scan (below + 1) input) := by
    rw [Shape.scan, Json.Scan.bind_of_ok (Json.Scan.valueStart_of_skips skips token),
      if_pos ⟨other, other'⟩]
    exact Json.Scan.leaves_wrongType ..
  cases value with
  | @array items text inside each =>
    rw [Json.Scan.enclosed_append] at skips
    rw [Shape.scan, Json.Scan.bind_of_ok (Json.Scan.valueStart_of_skips skips (by decide)),
      if_neg (by decide), if_neg (Nat.succ_ne_zero below), if_pos rfl,
      Json.Scan.bind_of_ok (Json.Scan.advance_ok_iff.mpr rfl), Nat.add_sub_cancel]
    refine (fields.scanItems_leaves keeps record fields.arity 0
      ⟨items, .first inside, each⟩).bind ?_
    rintro row unread ⟨first, left⟩
    exact (Json.Scan.closeArray_leaves left).bind fun _ _ same => same
  | @object values text inside each =>
    rw [Json.Scan.enclosed_append] at skips
    -- The names may be no text at all, and then the reader stops at them.
    have takes : Json.Scan.TakesEach True LooseMember (fields.scanMember below)
        (fun _ met => ∃ names, fields.Follows names met) values := by
      rintro seen _ later split _ rest met ⟨name, back, front⟩ breaks ⟨names, follows⟩
      rename_i core key after before
      have found : core ∈ values := by simp [split]
      have text : 0x22 :: key ++ [0x22] ++ after ++ 0x3A :: (before ++ core) ++ rest =
          0x22 :: (key ++ 0x22 :: (after ++ 0x3A :: (before ++ (core ++ rest)))) := by simp
      rw [text, Json.Scan.takeMember, Json.Scan.bind_of_ok (Json.Scan.advance_ok_iff.mpr rfl)]
      refine (Json.Scan.string_leaves name _).bind ?_
      rintro name _ rfl
      have taken := fields.scanMember_follows keeps distinct follows name (each _ found) back
        ⟨before, front, rfl⟩ breaks
      refine taken.imp ?_
      rintro _ _ ⟨⟨follows, -⟩, same⟩
      exact ⟨⟨_, follows⟩, same⟩
    have quoted : ∀ value core, LooseMember value core → core.head? = some 0x22 := by
      rintro _ _ ⟨⟩
      rfl
    exact (Shape.scan_object_leaves quoted takes ⟨[], fields.follows_unmet⟩ inside skips).imp
      fun _ _ left => left.2
  | number literal =>
    obtain ⟨byte, tail, cons, token, other⟩ := literal.starts
    rw [cons] at skips
    exact noBracket skips token (other _ (by decide) (by decide)) (other _ (by decide) (by decide))
  | _ => exact noBracket skips (by decide) (by decide) (by decide)

/-- A record is read from an object only if the record admits its members. -/
theorem Shape.scan_object_admits {entries : List (String × List UInt8)}
    {input text rest : List UInt8} (keeps : fields.KeepStep below)
    (distinct : fields.names.Nodup) (spelled : Entries (MemberOf Eq) entries text)
    (each : ∀ entry ∈ entries, WellFormed entry.2)
    (skips : Skips input (0x7B :: (text ++ 0x7D :: rest))) :
    Leaves True (fun _ _ => fields.Admits below entries)
      ((Shape.record record fields).scan (below + 1) input) := by
  have takes : Json.Scan.TakesEach True (MemberOf Eq) (fields.scanMember below)
      (fun seen met => fields.Follows (seen.map Prod.fst) met ∧
        ∀ entry ∈ seen, fields.Accepts below entry.1 entry.2) entries := by
    refine Json.Scan.takesEach_of_named (fun _ _ member => member) ?_
    rintro seen name core later split after _ input rest met back rfl skips breaks
      ⟨follows, accepts⟩
    have found : (name, core) ∈ entries := by simp [split]
    have taken := fields.scanMember_follows keeps distinct follows name (each _ found) back skips
      breaks
    refine taken.imp ?_
    rintro _ _ ⟨⟨follows, accept⟩, same⟩
    refine ⟨⟨?_, ?_⟩, same⟩
    · rwa [List.map_append]
    · rw [List.forall_mem_append]
      exact ⟨accepts, by simpa using accept⟩
  refine (Shape.scan_object_leaves (fun _ _ member => member.quoted) takes
    ⟨fields.follows_unmet, by simp⟩ spelled skips).imp ?_
  rintro _ _ ⟨⟨met, row, ⟨follows, accepts⟩, complete⟩, -⟩
  exact ⟨fields.count_le_one_of_follows follows, fields.mem_of_complete follows complete, accepts⟩

end

end TokenIntake
