import TokenIntake.Proofs.Decimals
import TokenIntake.Proofs.Fits
import TokenIntake.Proofs.Reading
import TokenIntake.Rpc.Written

/-!
# What a response keeps

An error comes to its sender as a document in a response. Nothing of it is lost on the way: the
refused fields are read back from the data, two errors with the same response are the same, and
the text of a response is read as the response.
-/

namespace TokenIntake

namespace FieldError

private theorem ordered_fieldErrorJson (error : FieldError) :
    (RpcError.fieldErrorJson error).Ordered := by
  have names : ["field", "message"].Pairwise (· < ·) := by decide
  exact ⟨names, trivial, trivial, trivial⟩

private theorem fits_fieldErrorJson (error : FieldError) :
    shape.Fits (RpcError.fieldErrorJson error) error.toRow := by
  have faithful : shape.Faithful error.toRow := ⟨by decide, trivial, trivial, trivial⟩
  have fits := shape.fits_toJson faithful
  rwa [← fieldErrorJson_eq, Json.normal_of_ordered _ (ordered_fieldErrorJson error)] at fits

/-- The refused fields are read as they were written. -/
theorem listOfJson_map_fieldErrorJson (errors : List FieldError) :
    listOfJson (.array (errors.map RpcError.fieldErrorJson)) = .ok errors := by
  have fits : (Shape.list shape).Fits (.array (errors.map RpcError.fieldErrorJson))
      (errors.map toRow) := by
    refine ⟨_, rfl, ?_⟩
    induction errors with
    | nil => exact .nil
    | cons error rest ih => exact .cons (fits_fieldErrorJson error) ih
  have distinct : (Shape.list shape).Distinct := ⟨by decide, trivial, trivial, trivial⟩
  have ordered : (Json.array (errors.map RpcError.fieldErrorJson)).Ordered :=
    Json.orderedItems_iff.mpr (List.forall_mem_map.mpr fun error _ => ordered_fieldErrorJson error)
  have read := ((Shape.list shape).ofJson_eq_ok_iff distinct ordered).mpr fits
  have rows : (errors.map toRow).map ofRow = errors := by simp [Function.comp_def]
  rw [listOfJson, read]
  exact congrArg Except.ok rows

end FieldError

theorem RpcCode.number_eq_iff {code code' : RpcCode} :
    code.number = code'.number ↔ code = code' := by
  cases code <;> cases code' <;> decide

namespace RpcError

/-! ## Messages -/

private theorem fieldsMessage_of_length_ne_one {errors : List FieldError}
    (several : errors.length ≠ 1) :
    fieldsMessage errors = "Validation failed for " ++ toString errors.length ++ " fields" := by
  match errors with
  | [] => rfl
  | [error] => exact absurd rfl several
  | _ :: _ :: _ => rfl

/-- A message that counts has no colon, as its number consists of digits. -/
private theorem colon_notMem_counted (count : Nat) :
    ':' ∉ ("Validation failed for " ++ toString count ++ " fields").toList := by
  rw [String.toList_append, String.toList_append]
  simp only [List.mem_append, not_or]
  refine ⟨⟨by decide, ?_⟩, by decide⟩
  intro found
  rw [Nat.toString_eq_repr, Nat.toList_repr] at found
  have digit : (':').isDigit = true := Numeral.isDigit_of_mem_ofNat found
  exact absurd digit (by decide)

private theorem counted_ne_named (count : Nat) (field text : String) :
    "Validation failed for " ++ toString count ++ " fields" ≠ field ++ ": " ++ text := by
  intro same
  apply colon_notMem_counted count
  rw [same]
  simp [String.toList_append]

/-- The error over refused fields: all of them are read from its data, and its message names the
field and tells its message exactly if there is one, and the number of the fields otherwise. -/
structure TellsFields (error : RpcError) (errors : List FieldError) : Prop where
  data : ∃ document, error.data = some document ∧ FieldError.listOfJson document = .ok errors
  named : ∀ single, errors = [single] → error.message = single.field ++ ": " ++ single.message
  named_iff : (∃ field text, error.message = field ++ ": " ++ text) ↔ errors.length = 1
  counted_iff : error.message = "Validation failed for " ++ toString errors.length ++ " fields" ↔
    errors.length ≠ 1

theorem tellsFields_invalidFields (errors : List FieldError) :
    (invalidFields errors).TellsFields errors where
  data := ⟨_, rfl, FieldError.listOfJson_map_fieldErrorJson errors⟩
  named := by
    rintro single rfl
    rfl
  named_iff := by
    constructor
    · rintro ⟨field, text, named⟩
      by_contra several
      have counted := fieldsMessage_of_length_ne_one several
      exact counted_ne_named _ field text (counted.symm.trans named)
    · intro one
      obtain ⟨single, rfl⟩ := List.length_eq_one_iff.mp one
      exact ⟨single.field, single.message, rfl⟩
  counted_iff := by
    constructor
    · intro counted one
      obtain ⟨single, rfl⟩ := List.length_eq_one_iff.mp one
      exact counted_ne_named _ single.field single.message counted.symm
    · intro several
      exact fieldsMessage_of_length_ne_one several

/-! ## Responses -/

/-- Errors have the same response exactly if they are the same and the identities are, one that is
missing being null. Data is a member of a response only if there is any, so data that is null is
told from no data. -/
theorem toJson_eq_iff {error error' : RpcError} {id id' : Option Json} :
    error.toJson id = error'.toJson id' ↔
      error.code = error'.code ∧ error.message = error'.message ∧ error.data = error'.data ∧
        id.getD .null = id'.getD .null := by
  obtain ⟨code, message, data⟩ := error
  obtain ⟨code', message', data'⟩ := error'
  -- With data on one side only, the members inside differ in number.
  cases data with
  | none =>
    cases data' with
    | none => simp [toJson, Json.integer, RpcCode.number_eq_iff, and_assoc]
    | some document => simp [toJson]
  | some document =>
    cases data' with
    | none => simp [toJson]
    | some document' =>
      simp only [toJson, Json.integer, Json.object.injEq, List.cons.injEq, Prod.mk.injEq, true_and,
        and_true, List.cons_append, List.nil_append, Json.number.injEq, JsonNumber.integer.injEq,
        Json.string.injEq, RpcCode.number_eq_iff, Option.some.injEq]
      constructor
      · rintro ⟨⟨code, data, message⟩, id⟩
        exact ⟨code, message, data, id⟩
      · rintro ⟨code, message, data, id⟩
        exact ⟨⟨code, data, message⟩, id⟩

theorem whole_toJson {error : RpcError} {id : Option Json}
    (data : ∀ document ∈ error.data, document.Whole) (identity : ∀ document ∈ id, document.Whole) :
    (error.toJson id).Whole := by
  obtain ⟨code, message, data?⟩ := error
  have number : (Json.integer code.number).Whole := by
    cases code <;> simp [Json.integer, Json.Whole, RpcCode.number, Word.fitsSigned_iff]
  have name : (id.getD .null).Whole := by
    cases id with
    | none => trivial
    | some document => exact identity document rfl
  cases data? with
  | none => exact ⟨⟨number, trivial, trivial⟩, name, trivial, trivial⟩
  | some document => exact ⟨⟨number, data document rfl, trivial, trivial⟩, name, trivial, trivial⟩

theorem ordered_toJson {error : RpcError} {id : Option Json}
    (data : ∀ document ∈ error.data, document.Ordered)
    (identity : ∀ document ∈ id, document.Ordered) : (error.toJson id).Ordered := by
  obtain ⟨code, message, data?⟩ := error
  have name : (id.getD .null).Ordered := by
    cases id with
    | none => trivial
    | some document => exact identity document rfl
  have outside : ["error", "id", "jsonrpc"].Pairwise (· < ·) := by decide
  cases data? with
  | none =>
    have inside : ["code", "message"].Pairwise (· < ·) := by decide
    exact ⟨outside, ⟨inside, trivial, trivial, trivial⟩, name, trivial, trivial⟩
  | some document =>
    have inside : ["code", "data", "message"].Pairwise (· < ·) := by decide
    exact ⟨outside, ⟨inside, trivial, data document rfl, trivial, trivial⟩, name, trivial, trivial⟩

/-- The text of a response in either layout is read as the response. -/
theorem parse_toJson {error : RpcError} {id : Option Json}
    (data : ∀ document ∈ error.data, document.Whole ∧ document.Ordered)
    (identity : ∀ document ∈ id, document.Whole ∧ document.Ordered)
    (shallow : (error.toJson id).nesting ≤ 127) :
    Json.parse (Utf8.ofString (error.toJson id).compact) = .ok (error.toJson id) ∧
      Json.parse (Utf8.ofString (error.toJson id).pretty) = .ok (error.toJson id) := by
  have whole : (error.toJson id).Whole :=
    whole_toJson (fun document found => (data document found).1)
      (fun document found => (identity document found).1)
  have normal : (error.toJson id).normal = error.toJson id :=
    Json.normal_of_ordered _ (ordered_toJson (fun document found => (data document found).2)
      (fun document found => (identity document found).2))
  constructor
  · exact Json.parse_eq_ok_iff.mpr ⟨_, Json.document_compact whole shallow, normal⟩
  · exact Json.parse_eq_ok_iff.mpr ⟨_, Json.document_pretty whole shallow, normal⟩

/-- The error over refused fields tells all of them, responses are the same exactly if their errors
and their identities are, and a response is read from its text. Data and identity have no doubles
there; as documents are held, their whole numbers fit 64 bits and their objects are sorted. -/
theorem responses_lose_nothing (errors : List FieldError) (error error' : RpcError)
    (id id' : Option Json) :
    (invalidFields errors).TellsFields errors ∧
    (error.toJson id = error'.toJson id' ↔
      error.code = error'.code ∧ error.message = error'.message ∧ error.data = error'.data ∧
        id.getD .null = id'.getD .null) ∧
    ((∀ document ∈ error.data, document.Whole ∧ document.Ordered) →
      (∀ document ∈ id, document.Whole ∧ document.Ordered) →
      (error.toJson id).nesting ≤ 127 →
      Json.parse (Utf8.ofString (error.toJson id).compact) = .ok (error.toJson id) ∧
        Json.parse (Utf8.ofString (error.toJson id).pretty) = .ok (error.toJson id)) :=
  ⟨tellsFields_invalidFields errors, toJson_eq_iff, parse_toJson⟩

/-- An error whose data is null and whose message needs escapes. -/
def nullDataError : RpcError := ⟨.parseError, "a \"tab\"\t", some .null⟩

/-- An identity with items and members. -/
def nestedId : Json :=
  .array [.integer (-1), .object [("a", .bool true), ("b\n", .string "")]]

theorem responses_lose_nothing_of_null_data :
    (∀ document ∈ nullDataError.data, document.Whole ∧ document.Ordered) ∧
    (∀ document ∈ some nestedId, document.Whole ∧ document.Ordered) ∧
    (nullDataError.toJson (some nestedId)).nesting ≤ 127 ∧
    Json.parse (Utf8.ofString (nullDataError.toJson (some nestedId)).compact) =
      .ok (nullDataError.toJson (some nestedId)) := by
  have data : ∀ document ∈ nullDataError.data, document.Whole ∧ document.Ordered := by
    rintro _ ⟨rfl⟩
    exact ⟨trivial, trivial⟩
  have whole : nestedId.Whole := by
    simp [nestedId, Json.Whole, Json.WholeItems, Json.WholeMembers, Json.integer,
      Word.fitsSigned_iff]
  have ordered : nestedId.Ordered := by
    have names : ["a", "b\n"].Pairwise (· < ·) := by decide
    exact ⟨trivial, ⟨names, trivial, trivial, trivial⟩, trivial⟩
  have identity : ∀ document ∈ some nestedId, document.Whole ∧ document.Ordered := by
    rintro _ ⟨rfl⟩
    exact ⟨whole, ordered⟩
  have shallow : (nullDataError.toJson (some nestedId)).nesting ≤ 127 := by decide
  have lossless := responses_lose_nothing [] nullDataError nullDataError (some nestedId) none
  exact ⟨data, identity, shallow, (lossless.2.2 data identity shallow).1⟩

end RpcError

end TokenIntake
