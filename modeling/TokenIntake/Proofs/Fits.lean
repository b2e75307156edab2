import Mathlib.Data.List.Forall2
import TokenIntake.Proofs.Walks
import TokenIntake.Proofs.Written
import TokenIntake.Schema.ToJson

/-!
# Documents that fit a shape

When a document fits a shape, and as which value, said without the reader: no order of
checks, no misfits. Of documents in normal form the reader of records accepts exactly what fits,
and what a value is written as fits as that value.
-/

namespace TokenIntake

mutual

/-- The document fits the shape as the value. A null fits an option as its absence, and a
record is an object with the fields under their names or an array of them in order. -/
def Shape.Fits : (shape : Shape) → Json → shape.Value → Prop
  | .text, document, text => document = .string text
  | .integer, document, n => document = .integer n.toInt
  | .word, document, n => document = .integer n.toNat
  | .flag, document, flag => document = .bool flag
  | .json, document, value => document = value
  | .list item, document, values =>
    ∃ items, document = .array items ∧ List.Forall₂ item.Fits items values
  | .option inner, document, value =>
    match value with
    | none => document = .null
    | some value => document ≠ .null ∧ inner.Fits document value
  | .record _ fields, document, row =>
    (∃ members, document = .object members ∧ fields.FitMembers members row) ∨
      ∃ items, document = .array items ∧ items.length ≤ fields.arity ∧ fields.FitItems items row

/-- Every field fits the member of its name. Only a field that is not required may be absent. -/
def Fields.FitMembers : (fields : Fields) → List (String × Json) → fields.Row → Prop
  | .nil, _, () => True
  | .cons name shape required rest, members, (value, row) =>
    (match Json.lookup name members with
      | some document => shape.Fits document value
      | none => required = false ∧ value = shape.absent) ∧ rest.FitMembers members row

/-- The fields fit the items one by one. Only fields that are not required may be left over. -/
def Fields.FitItems : (fields : Fields) → List Json → fields.Row → Prop
  | .nil, _, () => True
  | .cons _ shape required rest, [], (value, row) =>
    (required = false ∧ value = shape.absent) ∧ rest.FitItems [] row
  | .cons _ shape _ rest, item :: items, (value, row) =>
    shape.Fits item value ∧ rest.FitItems items row

end

private theorem forall₂_congr_of_mem {α β : Type} {R S : α → β → Prop} {as : List α} {bs : List β}
    (same : ∀ a ∈ as, ∀ b, R a b ↔ S a b) : List.Forall₂ R as bs ↔ List.Forall₂ S as bs := by
  induction as generalizing bs with
  | nil => simp
  | cons a as ih =>
    obtain ⟨first, others⟩ := List.forall_mem_cons.mp same
    simp only [List.forall₂_cons_left_iff, first, ih others]

theorem integerOfJson_eq_ok_iff {document : Json} {n : Int64} :
    integerOfJson document = .ok n ↔ document = .integer n.toInt := by
  constructor
  · intro ok
    unfold integerOfJson at ok
    split at ok
    next m =>
      split at ok
      next fits =>
        obtain rfl := Except.ok.inj ok
        rw [Word.toInt_ofInt_of_fitsSigned fits]
        rfl
      next => simp at ok
    next => simp at ok
  · rintro rfl
    simp [integerOfJson, Json.integer, Word.fitsSigned_toInt n]

theorem wordOfJson_eq_ok_iff {document : Json} {n : UInt64} :
    wordOfJson document = .ok n ↔ document = .integer n.toNat := by
  constructor
  · intro ok
    unfold wordOfJson at ok
    split at ok
    next m =>
      split at ok
      next fits =>
        obtain rfl := Except.ok.inj ok
        rw [Word.fitsUnsigned_iff] at fits
        have kept : ((UInt64.ofNat m.toNat).toNat : Int) = m := by
          rw [UInt64.toNat_ofNat_of_lt' (by simp only [UInt64.size]; omega)]
          omega
        rw [kept]
        rfl
      next => simp at ok
    next => simp at ok
  · rintro rfl
    have fits : Word.fitsUnsigned (n.toNat : Int) = true := by
      have bound := n.toNat_lt
      rw [Word.fitsUnsigned_iff]
      omega
    simp [wordOfJson, Json.integer, fits]

mutual

/-- The fields of every record have different names. -/
def Shape.Distinct : Shape → Prop
  | .list item => item.Distinct
  | .option inner => inner.Distinct
  | .record _ fields => fields.names.Nodup ∧ fields.Distinct
  | .text | .integer | .word | .flag | .json => True

/-- The fields of the records inside the fields have different names. -/
def Fields.Distinct : Fields → Prop
  | .nil => True
  | .cons _ shape _ rest => shape.Distinct ∧ rest.Distinct

end

/-- A field met has its value, and one that was not met must not be required. -/
theorem Fields.complete_cons_eq_ok_iff {name : String} {shape : Shape} {required : Bool}
    {rest : Fields} {met : Option shape.Value} {others : rest.Partial} {value : shape.Value}
    {row : rest.Row} :
    (Fields.cons name shape required rest).complete (met, others) = .ok (value, row) ↔
      (met = some value ∨ met = none ∧ required = false ∧ value = shape.absent) ∧
        rest.complete others = .ok row := by
  cases met with
  | some value' => simp [Fields.complete, map_eq_ok_iff, Prod.ext_iff, and_comm]
  | none =>
    cases required with
    | true => simp [Fields.complete]
    | false =>
      simp [Fields.complete, map_eq_ok_iff, Prod.ext_iff, and_comm, @eq_comm _ shape.absent]

theorem Fields.rowOfMet_eq_ok_iff {fields : Fields} {met : fields.Partial} {row : fields.Row} :
    fields.rowOfMet met = .ok row ↔ fields.complete met = .ok row := by
  unfold Fields.rowOfMet
  cases fields.complete met <;> simp

/-- A null is taken for an absent value before the inner shape is asked. -/
theorem Shape.ofJson_option_of_ne_null (inner : Shape) {document : Json}
    (present : document ≠ .null) :
    (Shape.option inner).ofJson document = (inner.ofJson document).map some := by
  cases document with
  | null => exact absurd rfl present
  | _ => simp [Shape.ofJson]

/-- A record is read from an array by its items, of which none may be left over. -/
private theorem Shape.ofJson_array_eq_ok_iff {name : String} {fields : Fields} {items : List Json}
    {row : fields.Row} : (Shape.record name fields).ofJson (.array items) = .ok row ↔
      items.length ≤ fields.arity ∧ Fields.ofItems name fields.arity fields 0 items = .ok row := by
  unfold Shape.ofJson
  dsimp only
  cases Fields.ofItems name fields.arity fields 0 items with
  | ok row' =>
    rw [← Nat.not_lt]
    by_cases tooMany : fields.arity < items.length <;> simp [tooMany]
  | error misfit => simp

mutual

theorem Shape.ofJson_eq_ok_iff : (shape : Shape) → shape.Distinct → {document : Json} →
    document.Ordered → {value : shape.Value} →
    (shape.ofJson document = .ok value ↔ shape.Fits document value)
  | .text, _, document, _, value => by
    unfold Shape.ofJson Shape.Fits
    cases document <;> simp
  | .integer, _, _, _, _ => integerOfJson_eq_ok_iff
  | .word, _, _, _, _ => wordOfJson_eq_ok_iff
  | .flag, _, document, _, value => by
    unfold Shape.ofJson Shape.Fits
    cases document <;> simp
  | .json, _, document, _, value => by
    unfold Shape.ofJson Shape.Fits
    simp
  | .list item, distinct, document, ordered, values => by
    unfold Shape.ofJson Shape.Fits
    cases document with
    | array items =>
      have each : ∀ entry ∈ items, ∀ value,
          (item.ofJson entry = .ok value ↔ item.Fits entry value) := fun entry found value =>
        item.ofJson_eq_ok_iff distinct (Json.orderedItems_iff.mp ordered entry found)
      simp only [mapM_eq_ok_iff, Json.array.injEq, exists_eq_left']
      exact forall₂_congr_of_mem each
    | _ => simp
  | .option inner, distinct, document, ordered, value => by
    by_cases null : document = .null
    · subst null
      unfold Shape.ofJson Shape.Fits
      cases value <;> simp
    · rw [inner.ofJson_option_of_ne_null null, map_eq_ok_iff]
      unfold Shape.Fits
      cases value with
      | none => simp [null]
      | some value => simp [null, inner.ofJson_eq_ok_iff distinct ordered]
  | .record name fields, ⟨distinct, inside⟩, document, ordered, row => by
    -- A record is read from an object by name and from an array by position.
    cases document with
    | object members =>
      obtain ⟨sorted, ordered⟩ := ordered
      unfold Shape.ofJson Shape.Fits
      simp only [bind_eq_ok_iff, Fields.rowOfMet_eq_ok_iff,
        Fields.takeMembers_eq_ok_iff distinct sorted.nodup,
        fields.exists_met_iff inside ordered]
      simp
    | array items =>
      have each := Json.orderedItems_iff.mp ordered
      rw [Shape.ofJson_array_eq_ok_iff, fields.ofItems_eq_ok_iff inside name fields.arity 0 each]
      simp [Shape.Fits]
    | _ => simp [Shape.ofJson, Shape.Fits]

/-- The fields are met and none is missing exactly if they fit. -/
theorem Fields.exists_met_iff : (fields : Fields) → fields.Distinct →
    {members : List (String × Json)} → Json.OrderedMembers members → {row : fields.Row} →
    ((∃ met, fields.Met members met ∧ fields.complete met = .ok row) ↔
      fields.FitMembers members row)
  | .nil, _, members, _, () => by
    simp [Fields.Met, Fields.complete, Fields.FitMembers]
  | .cons name shape required rest, ⟨first, inside⟩, members, ordered, (value, row) => by
    constructor
    -- A field was met exactly if its name is there, and then with the value that is read there.
    · rintro ⟨⟨met, others⟩, ⟨here, behind⟩, done⟩
      obtain ⟨taken, done⟩ := Fields.complete_cons_eq_ok_iff.mp done
      refine ⟨?_, (rest.exists_met_iff inside ordered).mp ⟨others, behind, done⟩⟩
      rcases taken with rfl | ⟨rfl, optional⟩
      · obtain ⟨document, found, read⟩ := Option.map_eq_some_iff.mp here
        rw [found]
        exact (shape.ofJson_eq_ok_iff first (Json.ordered_of_lookup ordered found)).mp read
      · rw [Option.map_none, Option.map_eq_none_iff] at here
        rw [here]
        exact optional
    · rintro ⟨here, behind⟩
      obtain ⟨others, behind, done⟩ := (rest.exists_met_iff inside ordered).mpr behind
      cases found : Json.lookup name members with
      | none =>
        rw [found] at here
        exact ⟨(none, others), ⟨by rw [found]; rfl, behind⟩,
          Fields.complete_cons_eq_ok_iff.mpr ⟨.inr ⟨rfl, here⟩, done⟩⟩
      | some document =>
        rw [found] at here
        have read := (shape.ofJson_eq_ok_iff first (Json.ordered_of_lookup ordered found)).mpr here
        exact ⟨(some value, others), ⟨by rw [found]; exact congrArg some read, behind⟩,
          Fields.complete_cons_eq_ok_iff.mpr ⟨.inl rfl, done⟩⟩

theorem Fields.ofItems_eq_ok_iff : (fields : Fields) → fields.Distinct → (record : String) →
    (arity index : Nat) → {items : List Json} → (∀ item ∈ items, item.Ordered) →
    {row : fields.Row} →
    (Fields.ofItems record arity fields index items = .ok row ↔ fields.FitItems items row)
  | .nil, _, record, arity, index, items, _, () => by
    simp [Fields.ofItems, Fields.FitItems]
  | .cons name shape required rest, ⟨_, inside⟩, record, arity, index, [], _, (value, row) => by
    unfold Fields.ofItems Fields.FitItems
    rw [← rest.ofItems_eq_ok_iff inside record arity (index + 1) (List.forall_mem_nil _)]
    cases required with
    | true => simp [bind_eq_ok_iff, throw, throwThe, MonadExceptOf.throw]
    | false =>
      constructor
      · intro ok
        obtain ⟨row', others, done⟩ := bind_eq_ok_iff.mp ok
        cases Except.ok.inj done
        exact ⟨⟨rfl, rfl⟩, others⟩
      · rintro ⟨⟨-, rfl⟩, others⟩
        exact bind_eq_ok_iff.mpr ⟨row, others, rfl⟩
  | .cons name shape required rest, ⟨first, inside⟩, record, arity, index, item :: items, ordered,
      (value, row) => by
    obtain ⟨here, ordered⟩ := List.forall_mem_cons.mp ordered
    unfold Fields.ofItems Fields.FitItems
    rw [← shape.ofJson_eq_ok_iff first here,
      ← rest.ofItems_eq_ok_iff inside record arity (index + 1) ordered, bind_eq_ok_iff]
    constructor
    · rintro ⟨value', first, ok⟩
      obtain ⟨row', others, done⟩ := bind_eq_ok_iff.mp ok
      cases Except.ok.inj done
      exact ⟨first, others⟩
    · rintro ⟨first, others⟩
      exact ⟨value, first, bind_eq_ok_iff.mpr ⟨row, others, rfl⟩⟩

end

/-! ## Written values -/

mutual

/-- The value is told apart from all others by what it is written as: a present option is
not written as null, field names are different, and documents inside it have whole numbers
and sorted objects. -/
def Shape.Faithful : (shape : Shape) → shape.Value → Prop
  | .json, document => document.Whole ∧ document.Ordered
  | .list item, values => ∀ value ∈ values, item.Faithful value
  | .option inner, value =>
    match value with
    | none => True
    | some value => inner.toJson value ≠ .null ∧ inner.Faithful value
  | .record _ fields, row => fields.names.Nodup ∧ fields.FaithfulRow row
  | .text, _ | .integer, _ | .word, _ | .flag, _ => True

/-- The value of every field is told apart from all others. -/
def Fields.FaithfulRow : (fields : Fields) → fields.Row → Prop
  | .nil, () => True
  | .cons _ shape _ rest, (value, row) => shape.Faithful value ∧ rest.FaithfulRow row

end

mutual

theorem Shape.whole_toJson : (shape : Shape) → {value : shape.Value} → shape.Faithful value →
    (shape.toJson value).Whole
  | .text, _, _ => trivial
  | .integer, n, _ => .inl (Word.fitsSigned_toInt n)
  | .word, n, _ => .inr ((Word.fitsUnsigned_iff _).mpr
    ⟨Int.natCast_nonneg _, Int.ofNat_lt.mpr n.toNat_lt⟩)
  | .flag, _, _ => trivial
  | .json, _, faithful => faithful.1
  | .list item, values, faithful => by
    unfold Shape.toJson Json.Whole
    rw [Json.wholeItems_iff, List.forall_mem_map]
    exact fun value member => item.whole_toJson (faithful value member)
  | .option inner, value, faithful => by
    cases value with
    | none => trivial
    | some value => exact inner.whole_toJson faithful.2
  | .record _ fields, row, faithful => fields.wholeMembers_toMembers faithful.2

theorem Fields.wholeMembers_toMembers : (fields : Fields) → {row : fields.Row} →
    fields.FaithfulRow row → Json.WholeMembers (fields.toMembers row)
  | .nil, (), _ => trivial
  | .cons _ shape _ rest, (_, _), ⟨faithful, faithfulRest⟩ =>
    ⟨shape.whole_toJson faithful, rest.wholeMembers_toMembers faithfulRest⟩

end

theorem Fields.names_toMembers : (fields : Fields) → (row : fields.Row) →
    (fields.toMembers row).map Prod.fst = fields.names
  | .nil, () => rfl
  | .cons name _ _ rest, (_, row) => congrArg (name :: ·) (rest.names_toMembers row)

mutual

/-- What a value is written as fits as that value. -/
theorem Shape.fits_toJson : (shape : Shape) → {value : shape.Value} → shape.Faithful value →
    shape.Fits (shape.toJson value).normal value
  | .text, _, _ => rfl
  | .integer, _, _ => rfl
  | .word, _, _ => rfl
  | .flag, _, _ => rfl
  | .json, document, faithful => Json.normal_of_ordered document faithful.2
  | .list item, values, faithful => by
    refine ⟨_, by rw [Shape.toJson, Json.normal, Json.normalItems_eq_map], ?_⟩
    rw [List.map_map, List.forall₂_map_left_iff, List.forall₂_same]
    exact fun value member => item.fits_toJson (faithful value member)
  | .option inner, value, faithful => by
    cases value with
    | none => rfl
    | some value => exact ⟨Json.normal_ne_null faithful.1, inner.fits_toJson faithful.2⟩
  | .record name fields, row, ⟨distinct, faithful⟩ => by
    refine .inl ⟨_, by rw [Shape.toJson, Json.normal, Json.normalMembers_eq_map], ?_⟩
    -- Sorting moves the members but, their names being distinct, loses none.
    have names : (((fields.toMembers row).map fun member =>
        (member.1, member.2.normal)).map Prod.fst).Nodup := by
      rw [List.map_map]
      exact (fields.names_toMembers row).symm ▸ distinct
    refine fields.fitMembers_of_lookup faithful fun field document found => ?_
    rw [Json.lookup_sortMembers, Json.lookup_reverse_of_nodup names]
    exact Json.lookup_of_mem names (List.mem_map.mpr ⟨_, found, rfl⟩)

theorem Fields.fitMembers_of_lookup : (fields : Fields) → {row : fields.Row} →
    {members : List (String × Json)} → fields.FaithfulRow row →
    (∀ name document, (name, document) ∈ fields.toMembers row →
      Json.lookup name members = some document.normal) → fields.FitMembers members row
  | .nil, (), _, _, _ => trivial
  | .cons name shape _ rest, (value, row), members, ⟨faithful, faithfulRest⟩, found => by
    have first : Json.lookup name members = some (shape.toJson value).normal :=
      found name _ (List.mem_cons_self ..)
    unfold Fields.FitMembers
    rw [first]
    exact ⟨shape.fits_toJson faithful, rest.fitMembers_of_lookup faithfulRest
      fun name document member => found name document (List.mem_cons_of_mem _ member)⟩

end

end TokenIntake
