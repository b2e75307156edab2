import TokenIntake.Proofs.FieldRules
import TokenIntake.Rpc.Params

/-!
# Positional parameters

A parameter is the value at a place of an array. It is taken if it is of the required kind and is
accepted; one of another kind counts as missing, and so does everything where the parameters are
no array or end before the place. What a parameter is taken as is the value that stands there: no
double is taken for a whole number, and no number is taken for another one that a word can hold.
-/

namespace TokenIntake

namespace Json

theorem string?_eq_some_iff {item : Json} {value : String} :
    item.string? = some value ↔ item = .string value := by
  cases item <;> simp [string?]

theorem integer?_eq_some_iff {fits : Int → Bool} {item : Json} {n : Int} :
    item.integer? fits = some n ↔ item = .integer n ∧ fits n = true := by
  cases item with
  | number number =>
    cases number with
    | integer m =>
      by_cases inRange : fits m = true
      · simp [integer?, integer, inRange]
        rintro rfl
        exact inRange
      · simp [integer?, integer, inRange]
        rintro rfl
        simpa using inRange
    | double value => simp [integer?, integer]
  | _ => simp [integer?, integer]

end Json

namespace Params

/-- The parameters are an array, and this value stands at that place of it. -/
def StandsAt (params : Json) (index : Nat) (item : Json) : Prop :=
  ∃ items, params = .array items ∧ items[index]? = some item

theorem item?_eq_some_iff {params item : Json} {index : Nat} :
    params.item? index = some item ↔ StandsAt params index item := by
  unfold StandsAt
  cases params <;> simp [Json.item?]

/-- At a place stands only one value. -/
theorem StandsAt.unique {params item other : Json} {index : Nat} (here : StandsAt params index item)
    (here' : StandsAt params index other) : item = other :=
  Option.some.inj ((item?_eq_some_iff.mpr here).symm.trans (item?_eq_some_iff.mpr here'))

/-! ## Extractors -/

/-- What stands at a place is read as a value of the required kind, and what is read is judged. -/
def extract {κ α : Type} (read : Json → Option κ) (judge : κ → Except RpcError α) (params : Json)
    (index : Nat) (name : String) : Except RpcError α :=
  match (params.item? index).bind read with
  | none => .error (missing name)
  | some value => judge value

section

variable {κ α : Type} {read : Json → Option κ} {judge : κ → Except RpcError α} {params item : Json}
  {index : Nat} {name : String}

theorem extract_of_standsAt {value : κ} (here : StandsAt params index item)
    (reads : read item = some value) : extract read judge params index name = judge value := by
  rw [extract, item?_eq_some_iff.mpr here, Option.bind_some, reads]

theorem extract_of_noKind (noKind : ∀ item, StandsAt params index item → read item = none) :
    extract read judge params index name = .error (missing name) := by
  have absent : (params.item? index).bind read = none := by
    rw [Option.bind_eq_none_iff]
    exact fun item here => noKind item (item?_eq_some_iff.mp here)
  rw [extract, absent]

/-- Either something of the required kind stands at the place, or nothing does. -/
private theorem standsAt_cases (read : Json → Option κ) (params : Json) (index : Nat) :
    (∃ item value, StandsAt params index item ∧ read item = some value) ∨
      ∀ item, StandsAt params index item → read item = none := by
  cases found : (params.item? index).bind read with
  | none =>
    rw [Option.bind_eq_none_iff] at found
    exact .inr fun item here => found item (item?_eq_some_iff.mpr here)
  | some value =>
    obtain ⟨item, here, reads⟩ := Option.bind_eq_some_iff.mp found
    exact .inl ⟨item, value, item?_eq_some_iff.mp here, reads⟩

end

/-- A refusal of the parameter that stands at the place, which does not say that it is missing. -/
structure Refusal (name : String) (error : RpcError) : Prop where
  code : error.code = .invalidParams
  noData : error.data = none
  notMissing : error.message ≠ "Missing " ++ name ++ " parameter"

/-- What an extractor answers: the values it takes items for, and the kind of item without which
it says that the parameter is missing. -/
structure TakesExactly {α : Type} (takes : Json → α → Prop) (kind : Json → Prop) (params : Json)
    (index : Nat) (name : String) (answer : Except RpcError α) : Prop where
  ok_iff : ∀ value, answer = .ok value ↔ ∃ item, StandsAt params index item ∧ takes item value
  refused : ∀ error, answer = .error error → error.code = .invalidParams ∧ error.data = none
  missing_iff : (∃ error, answer = .error error ∧
      error.message = "Missing " ++ name ++ " parameter") ↔
    ∀ item, StandsAt params index item → ¬ kind item

/-- An extractor is exact if it reads the items of its kind and its judgement accepts those that it
takes and never says of another one that it is missing. -/
private theorem takesExactly_extract {κ α : Type} {read : Json → Option κ}
    {judge : κ → Except RpcError α}
    {takes : Json → α → Prop} {kind : Json → Prop} {name : String}
    (kind_iff : ∀ item, kind item ↔ ∃ value, read item = some value)
    (takes_iff : ∀ item result, takes item result ↔
      ∃ value, read item = some value ∧ judge value = .ok result)
    (refuses : ∀ value error, judge value = .error error → Refusal name error)
    (params : Json) (index : Nat) :
    TakesExactly takes kind params index name (extract read judge params index name) := by
  obtain ⟨item, value, here, reads⟩ | noKind := standsAt_cases read params index
  -- An item of the kind is the only one at the place, so all that is said of the place is of it.
  · rw [extract_of_standsAt here reads]
    have only (other : Json) (there : StandsAt params index other) : read other = some value := by
      rw [there.unique here, reads]
    refine ⟨fun result => ?_, fun error refused => ?_, ?_⟩
    · constructor
      · intro accepted
        exact ⟨item, here, (takes_iff item result).mpr ⟨value, reads, accepted⟩⟩
      · rintro ⟨other, there, taken⟩
        obtain ⟨value', reads', accepted⟩ := (takes_iff other result).mp taken
        obtain rfl := Option.some.inj ((only other there).symm.trans reads')
        exact accepted
    · have refusal := refuses value error refused
      exact ⟨refusal.code, refusal.noData⟩
    · refine iff_of_false ?_ fun noKind => noKind item here ((kind_iff item).mpr ⟨value, reads⟩)
      rintro ⟨error, refused, missing⟩
      exact (refuses value error refused).notMissing missing
  -- Without one, nothing is taken, and the one error is that the parameter is missing.
  · rw [extract_of_noKind noKind]
    have none (item : Json) (here : StandsAt params index item) (value : κ) :
        read item ≠ some value := by
      rw [noKind item here]
      exact nofun
    refine ⟨fun result => iff_of_false nofun ?_, ?_, iff_of_true ⟨_, rfl, rfl⟩ ?_⟩
    · rintro ⟨item, here, taken⟩
      obtain ⟨value, reads, -⟩ := (takes_iff item result).mp taken
      exact none item here value reads
    · rintro _ ⟨⟩
      exact ⟨rfl, rfl⟩
    · intro item here isKind
      obtain ⟨value, reads⟩ := (kind_iff item).mp isKind
      exact none item here value reads

/-! ## What is said of a refused parameter -/

/-- A text starts like its first part. -/
private theorem head?_append {front back : String} {c : Char}
    (first : front.toList.head? = some c) :
    (front ++ back).toList.head? = some c := by
  rw [String.toList_append, List.head?_append, first]
  rfl

/-- A text ends like its last part. -/
private theorem getLast?_append {front back : String} {c : Char}
    (last : back.toList.getLast? = some c) :
    (front ++ back).toList.getLast? = some c := by
  rw [String.toList_append, List.getLast?_append, last]
  rfl

/-- A text that starts or ends otherwise does not say that a parameter is missing. -/
private theorem refusal_of_message {name message : String}
    (other : message.toList.head? ≠ some 'M' ∨ message.toList.getLast? ≠ some 'r') :
    Refusal name (.invalidParams message) where
  code := rfl
  noData := rfl
  notMissing := by
    rintro rfl
    obtain starts | ends := other
    · simp at starts
    · exact ends (getLast?_append rfl)

/-! ## Texts -/

/-- A text is refused only for its size. -/
def judgeText (name value : String) : Except RpcError String :=
  if maxTextSize < value.utf8ByteSize then
    .error (.invalidParams
      s!"{name} parameter too long: {value.utf8ByteSize} bytes (max: {maxTextSize})")
  else .ok value

private theorem text_eq (params : Json) (index : Nat) (name : String) :
    text params index name = extract Json.string? (judgeText name) params index name := by
  unfold text extract
  cases (params.item? index).bind Json.string? <;> rfl

theorem judgeText_eq_ok_iff {name value result : String} :
    judgeText name value = .ok result ↔ value = result ∧ value.utf8ByteSize ≤ 10000 := by
  unfold judgeText
  split
  next long => exact iff_of_false nofun fun ⟨_, short⟩ => absurd long (Nat.not_lt.mpr short)
  next short =>
    rw [Except.ok.injEq]
    exact (and_iff_left (Nat.not_lt.mp short)).symm

private theorem refusal_of_judgeText {name value : String} {error : RpcError}
    (refused : judgeText name value = .error error) : Refusal name error := by
  unfold judgeText at refused
  split at refused
  · cases refused
    refine refusal_of_message (.inr ?_)
    rw [getLast?_append (c := ')') rfl]
    decide
  · cases refused

theorem takesExactly_text (params : Json) (index : Nat) (name : String) :
    TakesExactly (fun item value => item = .string value ∧ value.utf8ByteSize ≤ 10000)
      (fun item => ∃ value, item = .string value) params index name (text params index name) := by
  rw [text_eq]
  refine takesExactly_extract (fun item => ?_) (fun item result => ?_)
    (fun value error => refusal_of_judgeText) params index
  · exact exists_congr fun _ => Json.string?_eq_some_iff.symm
  · constructor
    · rintro ⟨rfl, short⟩
      exact ⟨result, Json.string?_eq_some_iff.mpr rfl, judgeText_eq_ok_iff.mpr ⟨rfl, short⟩⟩
    · rintro ⟨value, reads, accepted⟩
      obtain ⟨rfl, short⟩ := judgeText_eq_ok_iff.mp accepted
      exact ⟨Json.string?_eq_some_iff.mp reads, short⟩

/-- A text that a check accepts is a text that stands at the place. -/
theorem checkedText_eq_ok_iff {check : String → Verdict} {params : Json} {index : Nat}
    {name value : String} : checkedText check params index name = .ok value ↔
      (StandsAt params index (.string value) ∧ value.utf8ByteSize ≤ 10000) ∧
        check value = .ok () := by
  have extracted : text params index name = .ok value ↔
      StandsAt params index (.string value) ∧ value.utf8ByteSize ≤ 10000 := by
    rw [(takesExactly_text params index name).ok_iff]
    constructor
    · rintro ⟨item, here, rfl, short⟩
      exact ⟨here, short⟩
    · rintro ⟨here, short⟩
      exact ⟨_, here, rfl, short⟩
  rw [← extracted, checkedText]
  cases text params index name with
  | error error => simp
  | ok other =>
    dsimp only
    cases verdict : check other with
    | ok =>
      rw [Except.ok.injEq]
      refine (and_iff_left_of_imp ?_).symm
      rintro rfl
      exact verdict
    | error rejection =>
      refine iff_of_false nofun ?_
      rintro ⟨⟨⟩, accepted⟩
      cases verdict.symm.trans accepted

/-! ## Quantities -/

/-- A word is refused only as a quantity. -/
def judgeQuantity (name : String) (n : Int) : Except RpcError Int64 :=
  match Quantity.check name (Int64.ofInt n) with
  | .ok () => .ok (Int64.ofInt n)
  | .error rejection => .error (.ofRejection rejection)

theorem quantity_eq (params : Json) (index : Nat) (name : String) : quantity params index name =
    extract (Json.integer? Word.fitsSigned) (judgeQuantity name) params index name := by
  unfold quantity extract
  cases (params.item? index).bind (Json.integer? Word.fitsSigned) <;> rfl

theorem judgeQuantity_eq_ok_iff {name : String} {n : Int} (fits : Word.fitsSigned n = true)
    {value : Int64} : judgeQuantity name n = .ok value ↔ value.toInt = n ∧ Amount.Rule value := by
  have same : Int64.ofInt n = value ↔ value.toInt = n := by
    constructor
    · rintro rfl
      exact Word.toInt_ofInt_of_fitsSigned fits
    · rintro rfl
      exact Int64.ofInt_toInt value
  unfold judgeQuantity
  cases verdict : Quantity.check name (Int64.ofInt n) with
  | ok =>
    have rule := Amount.check_eq_ok_iff.mp verdict
    rw [Except.ok.injEq, same]
    refine (and_iff_left_of_imp fun equal => ?_).symm
    rwa [← same.mpr equal]
  | error rejection =>
    refine iff_of_false nofun ?_
    rintro ⟨equal, rule⟩
    rw [same.mpr equal] at verdict
    cases verdict.symm.trans (Amount.check_eq_ok_iff.mpr rule)

private theorem refusal_of_judgeQuantity {name : String} {n : Int} {error : RpcError}
    (refused : judgeQuantity name n = .error error) : Refusal name error := by
  unfold judgeQuantity at refused
  split at refused
  · cases refused
  next rejection verdict =>
    cases refused
    -- Both texts end in the last digit of a bound.
    refine refusal_of_message (.inr ?_)
    obtain ⟨-, rfl⟩ | ⟨-, -, rfl⟩ := Amount.check_eq_error_iff.mp verdict
    · have ends : (Rejection.notPositive name).message.toList.getLast? = some '0' :=
        getLast?_append rfl
      rw [ends]
      decide
    · have bound : (toString Amount.maximum.toInt).toList.getLast? = some '0' := by decide +kernel
      have ends : (Rejection.exceedsMaximum name Amount.maximum).message.toList.getLast? =
        some '0' := getLast?_append bound
      rw [ends]
      decide

theorem takesExactly_quantity (params : Json) (index : Nat) (name : String) :
    TakesExactly (fun item (value : Int64) =>
        item = .integer value.toInt ∧ 1 ≤ value.toInt ∧ value.toInt ≤ 1000000000)
      (fun item => ∃ n, item = .integer n ∧ -9223372036854775808 ≤ n ∧ n < 9223372036854775808)
      params index name (quantity params index name) := by
  rw [quantity_eq]
  refine takesExactly_extract (fun item => ?_) (fun item result => ?_)
    (fun value error => refusal_of_judgeQuantity) params index
  · refine exists_congr fun n => ?_
    rw [Json.integer?_eq_some_iff, Word.fitsSigned_iff]
  · constructor
    · rintro ⟨rfl, rule⟩
      have fits := Word.fitsSigned_toInt result
      exact ⟨result.toInt, Json.integer?_eq_some_iff.mpr ⟨rfl, fits⟩,
        (judgeQuantity_eq_ok_iff fits).mpr ⟨rfl, rule⟩⟩
    · rintro ⟨n, reads, accepted⟩
      obtain ⟨rfl, fits⟩ := Json.integer?_eq_some_iff.mp reads
      obtain ⟨rfl, rule⟩ := (judgeQuantity_eq_ok_iff fits).mp accepted
      exact ⟨rfl, rule⟩

/-! ## Actions -/

/-- A number is refused if it is too wide for the number of an action or if it names none. -/
def judgeAction (name : String) (n : Int) : Except RpcError Action :=
  if (Word.shortLimit : Int) ≤ n then
    .error (.invalidParams s!"Invalid {name}: {n} ({Numeral.Fault.tooLarge.message})")
  else
    match Action.ofCode (UInt32.ofNat n.toNat) with
    | .ok action => .ok action
    | .error rejection => .error (.ofRejection rejection)

private theorem action_eq (params : Json) (index : Nat) (name : String) : action params index name =
    extract (Json.integer? Word.fitsUnsigned) (judgeAction name) params index name := by
  unfold action extract
  cases (params.item? index).bind (Json.integer? Word.fitsUnsigned) <;> rfl

theorem ofCode_eq_ok_iff {code : UInt32} {action : Action} :
    Action.ofCode code = .ok action ↔ action.code = code := by
  constructor
  · intro named
    rw [← UInt32.toNat_inj]
    unfold Action.ofCode at named
    split at named
    next one => cases named; exact one.symm
    next two => cases named; exact two.symm
    next three => cases named; exact three.symm
    next => cases named
  · rintro rfl
    exact Action.ofCode_code action

theorem unknown_of_ofCode {code : UInt32} {rejection : Rejection}
    (unnamed : Action.ofCode code = .error rejection) : rejection = .unknownAction code := by
  unfold Action.ofCode at unnamed
  split at unnamed
  all_goals cases unnamed
  rfl

theorem judgeAction_eq_ok_iff {name : String} {n : Int} (fits : Word.fitsUnsigned n = true)
    {result : Action} : judgeAction name n = .ok result ↔ n = result.code.toNat := by
  have code := result.code.toNat_lt
  obtain ⟨positive, -⟩ := (Word.fitsUnsigned_iff n).mp fits
  unfold judgeAction
  split
  next wide =>
    -- The number is not cut down to the width of a code, so it is none.
    refine iff_of_false nofun fun same => ?_
    rw [same, Word.shortLimit] at wide
    omega
  next narrow =>
    have small : n.toNat < 2 ^ 32 := by
      rw [Word.shortLimit] at narrow
      omega
    have named : Action.ofCode (UInt32.ofNat n.toNat) = .ok result ↔ n = result.code.toNat := by
      rw [ofCode_eq_ok_iff, ← UInt32.toNat_inj, UInt32.toNat_ofNat_of_lt' small]
      omega
    rw [← named]
    cases Action.ofCode (UInt32.ofNat n.toNat) <;> simp

private theorem refusal_of_judgeAction {name : String} {n : Int} {error : RpcError}
    (refused : judgeAction name n = .error error) : Refusal name error := by
  unfold judgeAction at refused
  split at refused
  · cases refused
    refine refusal_of_message (.inr ?_)
    rw [getLast?_append (c := ')') rfl]
    decide
  · split at refused
    · cases refused
    next rejection unnamed =>
      cases refused
      obtain rfl := unknown_of_ofCode unnamed
      have starts (code : UInt32) :
          (Rejection.unknownAction code).message.toList.head? = some 'i' := head?_append rfl
      refine refusal_of_message (.inl ?_)
      rw [starts]
      decide

theorem takesExactly_action (params : Json) (index : Nat) (name : String) :
    TakesExactly (fun item (result : Action) => item = .integer result.code.toNat)
      (fun item => ∃ n, item = .integer n ∧ 0 ≤ n ∧ n < 18446744073709551616)
      params index name (action params index name) := by
  rw [action_eq]
  refine takesExactly_extract (fun item => ?_) (fun item result => ?_)
    (fun value error => refusal_of_judgeAction) params index
  · refine exists_congr fun n => ?_
    rw [Json.integer?_eq_some_iff, Word.fitsUnsigned_iff]
  · constructor
    · rintro rfl
      have bound := result.code.toNat_lt
      have fits : Word.fitsUnsigned result.code.toNat = true :=
        (Word.fitsUnsigned_iff _).mpr ⟨by omega, by omega⟩
      exact ⟨_, Json.integer?_eq_some_iff.mpr ⟨rfl, fits⟩, (judgeAction_eq_ok_iff fits).mpr rfl⟩
    · rintro ⟨n, reads, accepted⟩
      obtain ⟨rfl, fits⟩ := Json.integer?_eq_some_iff.mp reads
      rw [(judgeAction_eq_ok_iff fits).mp accepted]

/-! ## All extractors -/

/-- Texts, quantities and actions are extracted exactly, from every value and at every place. A
number past the words of 32 bits is not taken for an action. -/
theorem extractors_take_exactly (params : Json) (index : Nat) (name : String) :
    TakesExactly (fun item value => item = .string value ∧ value.utf8ByteSize ≤ 10000)
      (fun item => ∃ value, item = .string value) params index name (text params index name) ∧
    TakesExactly (fun item (value : Int64) =>
        item = .integer value.toInt ∧ 1 ≤ value.toInt ∧ value.toInt ≤ 1000000000)
      (fun item => ∃ n, item = .integer n ∧ -9223372036854775808 ≤ n ∧ n < 9223372036854775808)
      params index name (quantity params index name) ∧
    TakesExactly (fun item (result : Action) => item = .integer result.code.toNat)
      (fun item => ∃ n, item = .integer n ∧ 0 ≤ n ∧ n < 18446744073709551616)
      params index name (action params index name) ∧
    ∀ n, StandsAt params index (.integer n) → 4294967295 < n →
      ∀ result, action params index name ≠ .ok result := by
  refine ⟨takesExactly_text params index name, takesExactly_quantity params index name,
    takesExactly_action params index name, fun n here wide result accepted => ?_⟩
  obtain ⟨item, there, code⟩ := ((takesExactly_action params index name).ok_iff result).mp accepted
  have same : Json.integer n = Json.integer result.code.toNat := by rw [← code, here.unique there]
  have bound := result.code.toNat_lt
  cases same
  omega

end Params

end TokenIntake
