import TokenIntake.Proofs.Bodies

/-!
# The misfit that is reported

Why a document does not fit a shape, said without the reader: of all that does not fit, which
misfit is reported. In an object it is the one under the least name, and a missing field only
counts if every field that is present fits. The reader of records reports just this reason, so
the answer to a body that does not fit is determined by the document.
-/

namespace TokenIntake

open Json (Misfit Found)

/-! ## Reasons -/

/-- The names of the fields that have to be present, in the order of their declaration. -/
def Fields.required : Fields → List String
  | .nil => []
  | .cons name _ required rest => if required then name :: rest.required else rest.required

/-- The first field that has to be present and is not. -/
def Fields.firstMissing? (fields : Fields) (members : List (String × Json)) : Option String :=
  fields.required.find? fun field => (Json.lookup field members).isNone

/-- The document fits the shape as no value. -/
def Shape.Misfits (shape : Shape) (document : Json) : Prop := ∀ value, ¬ shape.Fits document value

/-- The field is present, and its value does not fit. -/
def Fields.MisfitsAt : Fields → List (String × Json) → String → Prop
  | .nil, _, _ => False
  | .cons name shape _ rest, members, field =>
    (field = name ∧ ∃ document, Json.lookup name members = some document ∧
      shape.Misfits document) ∨ rest.MisfitsAt members field

/-- Why a document is no whole number of a range: it is another one, or no whole number. -/
def NumberReason (inRange : Int → Bool) (expected : String) (document : Json)
    (reason : Misfit) : Prop :=
  (∃ n, document = .integer n ∧ inRange n = false ∧
      reason = .wrongValue (.ofJson document) expected) ∨
    (∀ n, document ≠ .integer n) ∧ reason = .wrongType (.ofJson document) expected

mutual

/-- The reason that is reported if the document does not fit the shape. -/
def Shape.Reason : Shape → Json → Misfit → Prop
  | .text, document, reason =>
    (∀ text, document ≠ .string text) ∧ reason = .wrongType (.ofJson document) "a string"
  | .integer, document, reason => NumberReason Word.fitsSigned "i64" document reason
  | .word, document, reason => NumberReason Word.fitsUnsigned "usize" document reason
  | .flag, document, reason =>
    (∀ flag, document ≠ .bool flag) ∧ reason = .wrongType (.ofJson document) "a boolean"
  | .json, _, _ => False
  -- The first item that does not fit counts.
  | .list item, document, reason =>
    match document with
    | .array items => ∃ before refused after, items = before ++ refused :: after ∧
        (∀ other ∈ before, ∃ value, item.Fits other value) ∧ item.Reason refused reason
    | _ => reason = .wrongType (.ofJson document) "a sequence"
  | .option inner, document, reason => document ≠ .null ∧ inner.Reason document reason
  | .record name fields, document, reason =>
    match document with
    | .object members =>
      (∃ field, fields.ReasonAt members field reason ∧
          ∀ other, fields.MisfitsAt members other → Utf8.ofString field ≤ Utf8.ofString other) ∨
        (∀ other, ¬ fields.MisfitsAt members other) ∧
          ∃ field, fields.firstMissing? members = some field ∧ reason = .missingField field
    | .array items =>
      fields.ItemReason name fields.arity 0 items reason ∨
        (∃ row, fields.FitItems items row) ∧ fields.arity < items.length ∧
          reason = .tooManyItems items.length
    | _ => reason = .wrongType (.ofJson document) ("struct " ++ name)

/-- The reason for which the value of a field that is present does not fit. -/
def Fields.ReasonAt : Fields → List (String × Json) → String → Misfit → Prop
  | .nil, _, _, _ => False
  | .cons name shape _ rest, members, field, reason =>
    (field = name ∧ ∃ document, Json.lookup name members = some document ∧
      shape.Reason document reason) ∨ rest.ReasonAt members field reason

/-- The reason for which items do not fit the fields from an index on: the first that does not
fit its field counts, or else the first field that is left over and has to be present. -/
def Fields.ItemReason (record : String) (arity : Nat) :
    Fields → (index : Nat) → List Json → Misfit → Prop
  | .nil, _, _, _ => False
  | .cons _ _ required rest, index, [], reason =>
    if required then reason = .tooFewItems index record arity
    else rest.ItemReason record arity (index + 1) [] reason
  | .cons _ shape _ rest, index, item :: items, reason =>
    shape.Reason item reason ∨
      (∃ value, shape.Fits item value) ∧ rest.ItemReason record arity (index + 1) items reason

end

/-! ## What the reader reports -/

section

variable {shape : Shape} (distinct : shape.Distinct) {document : Json} (ordered : document.Ordered)

include distinct ordered

theorem Shape.misfits_iff :
    shape.Misfits document ↔ ∃ reason, shape.ofJson document = .error reason := by
  rw [error_iff_not_ok]
  exact forall_congr' fun value => not_congr (shape.ofJson_eq_ok_iff distinct ordered).symm

theorem Shape.fits_iff :
    (∃ value, shape.Fits document value) ↔ ∃ value, shape.ofJson document = .ok value :=
  exists_congr fun _ => (shape.ofJson_eq_ok_iff distinct ordered).symm

end

theorem integerOfJson_eq_error_iff {document : Json} {reason : Misfit} :
    integerOfJson document = .error reason ↔
      NumberReason Word.fitsSigned "i64" document reason := by
  unfold integerOfJson NumberReason
  split
  next n =>
    cases inRange : Word.fitsSigned n <;>
      simp [Json.integer, inRange, Shape.expected, @eq_comm _ reason]
  next other =>
    have noInteger (n : Int) : document ≠ .integer n := other n
    simp [noInteger, Shape.expected, @eq_comm _ reason]

theorem wordOfJson_eq_error_iff {document : Json} {reason : Misfit} :
    wordOfJson document = .error reason ↔
      NumberReason Word.fitsUnsigned "usize" document reason := by
  unfold wordOfJson NumberReason
  split
  next n =>
    cases inRange : Word.fitsUnsigned n <;>
      simp [Json.integer, inRange, Shape.expected, @eq_comm _ reason]
  next other =>
    have noInteger (n : Int) : document ≠ .integer n := other n
    simp [noInteger, Shape.expected, @eq_comm _ reason]

theorem Fields.rowOfMet_eq_error_iff {fields : Fields} {met : fields.Partial} {reason : Misfit} :
    fields.rowOfMet met = .error reason ↔
      ∃ field, fields.complete met = .error field ∧ reason = .missingField field := by
  unfold Fields.rowOfMet
  cases fields.complete met <;> simp [eq_comm]

private theorem Fields.firstMissing?_cons (name : String) (shape : Shape) (required : Bool)
    (rest : Fields) (members : List (String × Json)) :
    (Fields.cons name shape required rest).firstMissing? members =
      (if required = true ∧ Json.lookup name members = none then some name else none).or
        (rest.firstMissing? members) := by
  rw [firstMissing?, Fields.required, firstMissing?]
  cases required with
  | false => simp
  | true => cases found : Json.lookup name members <;> simp [found]

/-- A field is reported as missing exactly if it is the first of those required that is. -/
theorem Fields.complete_eq_error_iff : (fields : Fields) → {members : List (String × Json)} →
    {met : fields.Partial} → fields.Met members met → {field : String} →
    (fields.complete met = .error field ↔ fields.firstMissing? members = some field)
  | .nil, _, (), _, field => by
    simp [Fields.complete, Fields.firstMissing?, Fields.required]
  | .cons name shape required rest, members, (met, others), ⟨here, behind⟩, field => by
    have later : rest.complete others = .error field ↔ _ := rest.complete_eq_error_iff behind
    rw [Fields.firstMissing?_cons]
    cases met with
    | some value =>
      have present : Json.lookup name members ≠ none := by
        intro absent
        simp [absent] at here
      simp [Fields.complete, map_eq_error_iff, present, later]
    | none =>
      rw [Option.map_none, Option.map_eq_none_iff] at here
      cases required with
      | true => simp [Fields.complete, here]
      | false => simp [Fields.complete, map_eq_error_iff, later]

theorem Fields.firstMissing?_eq_none_iff {fields : Fields} {members : List (String × Json)} :
    fields.firstMissing? members = none ↔
      ∀ field ∈ fields.required, Json.lookup field members ≠ none := by
  simp [firstMissing?]

theorem Fields.misfitsAt_iff : (fields : Fields) → fields.Distinct →
    {members : List (String × Json)} → Json.OrderedMembers members → {field : String} →
    (fields.MisfitsAt members field ↔ ∃ reason, fields.RefusedAt members field reason)
  | .nil, _, _, _, _ => by simp [Fields.MisfitsAt, Fields.RefusedAt]
  | .cons name shape _ rest, ⟨first, inside⟩, members, ordered, field => by
    unfold Fields.MisfitsAt Fields.RefusedAt
    rw [exists_or, rest.misfitsAt_iff inside ordered]
    refine or_congr_left ?_
    simp only [Option.map_eq_some_iff, exists_and_left]
    refine and_congr_right fun _ => ?_
    constructor
    · rintro ⟨document, found, misfits⟩
      obtain ⟨reason, refused⟩ :=
        (Shape.misfits_iff first (Json.ordered_of_lookup ordered found)).mp misfits
      exact ⟨reason, document, found, refused⟩
    · rintro ⟨reason, document, found, refused⟩
      exact ⟨document, found,
        (Shape.misfits_iff first (Json.ordered_of_lookup ordered found)).mpr ⟨reason, refused⟩⟩

/-- All members are taken and a field is missing, exactly if no field that is present misfits and
the first of those required that is not present is reported. -/
theorem Fields.missing_iff {fields : Fields} (distinct : fields.names.Nodup)
    (inside : fields.Distinct) {members : List (String × Json)}
    (ordered : (Json.object members).Ordered) {reason : Misfit} :
    (∃ met, Fields.takeMembers fields.takeMember members = .ok met ∧
        fields.rowOfMet met = .error reason) ↔
      (∀ other, ¬ fields.MisfitsAt members other) ∧
        ∃ field, fields.firstMissing? members = some field ∧ reason = .missingField field := by
  obtain ⟨sorted, ordered⟩ := ordered
  constructor
  · rintro ⟨met, taken, stops⟩
    -- The walk came to the end, so every field that is present was met.
    have behind := (Fields.takeMembers_eq_ok_iff distinct sorted.nodup).mp taken
    obtain ⟨field, missing, rfl⟩ := Fields.rowOfMet_eq_error_iff.mp stops
    refine ⟨fun other unfit => ?_, field, (fields.complete_eq_error_iff behind).mp missing, rfl⟩
    obtain ⟨why, refused⟩ := (fields.misfitsAt_iff inside ordered).mp unfit
    exact behind.not_refusedAt refused
  · rintro ⟨allFit, field, first, rfl⟩
    obtain ⟨met, behind⟩ := fields.exists_met fun other why refused =>
      allFit other ((fields.misfitsAt_iff inside ordered).mpr ⟨why, refused⟩)
    have missing := (fields.complete_eq_error_iff behind).mpr first
    exact ⟨met, (Fields.takeMembers_eq_ok_iff distinct sorted.nodup).mpr behind,
      Fields.rowOfMet_eq_error_iff.mpr ⟨field, missing, rfl⟩⟩

/-! ## The reason is reported -/

/-- That there are too many items is noticed only if those before fit. -/
private theorem Shape.ofJson_array_eq_error_iff {name : String} {fields : Fields}
    {items : List Json} {reason : Misfit} :
    (Shape.record name fields).ofJson (.array items) = .error reason ↔
      Fields.ofItems name fields.arity fields 0 items = .error reason ∨
        (∃ row, Fields.ofItems name fields.arity fields 0 items = .ok row) ∧
          fields.arity < items.length ∧ reason = .tooManyItems items.length := by
  unfold Shape.ofJson
  dsimp only
  cases Fields.ofItems name fields.arity fields 0 items with
  | ok row => by_cases tooMany : fields.arity < items.length <;> simp [tooMany, eq_comm]
  | error why => simp

mutual

theorem Shape.ofJson_eq_error_iff : (shape : Shape) → shape.Distinct → {document : Json} →
    document.Ordered → {reason : Misfit} →
    (shape.ofJson document = .error reason ↔ shape.Reason document reason)
  | .text, _, document, _, reason => by
    unfold Shape.ofJson Shape.Reason
    cases document <;> simp [Shape.expected, eq_comm]
  | .integer, _, _, _, _ => integerOfJson_eq_error_iff
  | .word, _, _, _, _ => wordOfJson_eq_error_iff
  | .flag, _, document, _, reason => by
    unfold Shape.ofJson Shape.Reason
    cases document <;> simp [Shape.expected, eq_comm]
  | .json, _, document, _, reason => by
    unfold Shape.ofJson Shape.Reason
    simp
  | .list item, distinct, document, ordered, reason => by
    unfold Shape.ofJson Shape.Reason
    cases document with
    | array items =>
      have distinct : item.Distinct := distinct
      have each := Json.orderedItems_iff.mp ordered
      dsimp only
      rw [mapM_eq_error_iff]
      refine exists_congr fun before => exists_congr fun entry => exists_congr fun after =>
        and_congr_right fun split => ?_
      subst split
      refine and_congr (forall₂_congr fun other found => ?_) ?_
      · have orderedOther := each other (List.mem_append_left _ found)
        exact (Shape.fits_iff distinct orderedOther).symm
      · have orderedEntry := each entry (List.mem_append_right _ List.mem_cons_self)
        exact item.ofJson_eq_error_iff distinct orderedEntry
    | _ => simp [Shape.expected, eq_comm]
  | .option inner, distinct, document, ordered, reason => by
    unfold Shape.Reason
    by_cases null : document = .null
    · subst null
      unfold Shape.ofJson
      simp
    · rw [inner.ofJson_option_of_ne_null null, map_eq_error_iff,
        inner.ofJson_eq_error_iff distinct ordered]
      simp [null]
  | .record name fields, ⟨distinct, inside⟩, document, ordered, reason => by
    cases document with
    | object members =>
      unfold Shape.ofJson Shape.Reason
      dsimp only
      rw [bind_eq_error_iff_exists, Fields.missing_iff distinct inside ordered]
      obtain ⟨sorted, ordered⟩ := ordered
      -- Of what does not fit, the reader comes to the least name first.
      rw [Fields.takeMembers_eq_error_iff distinct sorted]
      refine or_congr_left (exists_congr fun field => ?_)
      rw [fields.refusedAt_iff inside ordered]
      refine and_congr_right fun _ => forall_congr' fun other => ?_
      rw [fields.misfitsAt_iff inside ordered, Utf8.ofString_le_iff, forall_exists_index]
    | array items =>
      have each := Json.orderedItems_iff.mp ordered
      rw [Shape.ofJson_array_eq_error_iff, fields.ofItems_eq_error_iff inside each]
      simp only [fields.ofItems_eq_ok_iff inside name fields.arity 0 each, Shape.Reason]
    | _ =>
      unfold Shape.ofJson Shape.Reason
      exact ⟨fun refused => (Except.error.inj refused).symm, fun why => congrArg _ why.symm⟩

theorem Fields.refusedAt_iff : (fields : Fields) → fields.Distinct →
    {members : List (String × Json)} → Json.OrderedMembers members → {field : String} →
    {reason : Misfit} →
    (fields.RefusedAt members field reason ↔ fields.ReasonAt members field reason)
  | .nil, _, _, _, _, _ => by
    unfold Fields.RefusedAt Fields.ReasonAt
    exact Iff.rfl
  | .cons name shape _ rest, ⟨first, inside⟩, members, ordered, field, reason => by
    unfold Fields.RefusedAt Fields.ReasonAt
    rw [rest.refusedAt_iff inside ordered, Option.map_eq_some_iff]
    refine or_congr_left (and_congr_right fun _ => exists_congr fun document =>
      and_congr_right fun found => ?_)
    exact shape.ofJson_eq_error_iff first (Json.ordered_of_lookup ordered found)

theorem Fields.ofItems_eq_error_iff : (fields : Fields) → fields.Distinct → {record : String} →
    {arity index : Nat} → {items : List Json} → (∀ item ∈ items, item.Ordered) →
    {reason : Misfit} → (Fields.ofItems record arity fields index items = .error reason ↔
      fields.ItemReason record arity index items reason)
  | .nil, _, _, _, _, _, _, _ => by
    unfold Fields.ofItems Fields.ItemReason
    simp
  | .cons name shape required rest, ⟨_, inside⟩, record, arity, index, [], _, reason => by
    unfold Fields.ofItems Fields.ItemReason
    cases required with
    | true =>
      exact ⟨fun refused => (Except.error.inj refused).symm, fun why => congrArg _ why.symm⟩
    | false =>
      have others : Fields.ofItems record arity rest (index + 1) [] = .error reason ↔ _ :=
        rest.ofItems_eq_error_iff inside (List.forall_mem_nil _)
      exact (bind_pure_eq_error_iff _).trans others
  | .cons name shape required rest, ⟨first, inside⟩, record, arity, index, item :: items, ordered,
      reason => by
    obtain ⟨here, ordered⟩ := List.forall_mem_cons.mp ordered
    unfold Fields.ofItems Fields.ItemReason
    rw [bind_eq_error_iff_exists, shape.ofJson_eq_error_iff first here]
    refine or_congr_right ?_
    rw [Shape.fits_iff first here, ← exists_and_right]
    refine exists_congr fun value => and_congr_right fun _ => ?_
    exact (bind_pure_eq_error_iff _).trans (rest.ofItems_eq_error_iff inside ordered)

end

/-- Members fit if what is present fits and nothing is missing. -/
theorem Fields.exists_fitMembers (fields : Fields) (inside : fields.Distinct)
    {members : List (String × Json)} (ordered : Json.OrderedMembers members)
    (allFit : ∀ field, ¬ fields.MisfitsAt members field)
    (complete : ∀ field ∈ fields.required, Json.lookup field members ≠ none) :
    ∃ row, fields.FitMembers members row := by
  obtain ⟨met, behind⟩ := fields.exists_met fun field why refused =>
    allFit field ((fields.misfitsAt_iff inside ordered).mpr ⟨why, refused⟩)
  cases done : fields.complete met with
  | ok row => exact ⟨row, (fields.exists_met_iff inside ordered).mp ⟨met, behind, done⟩⟩
  | error field =>
    have first := (fields.complete_eq_error_iff behind).mp done
    cases (Fields.firstMissing?_eq_none_iff.mpr complete).symm.trans first

private theorem Fields.mem_names_of_misfitsAt : (fields : Fields) →
    {members : List (String × Json)} →
    {field : String} → fields.MisfitsAt members field → field ∈ fields.names
  | .cons _ _ _ _, _, _, .inl ⟨same, _⟩ => same ▸ List.mem_cons_self
  | .cons _ _ _ rest, _, _, .inr later => List.mem_cons_of_mem _ (rest.mem_names_of_misfitsAt later)

/-! ## Requests -/

namespace RequestKind

open Json (Denotes)

/-- The fields of a request in the order of their declaration. -/
@[reducible] def fields : RequestKind → Fields
  | mint => MintPayload.fields
  | buyOffer => BuyOfferPayload.fields
  | sellOffer => SellOfferPayload.fields
  | deleteOffer => DeleteOfferPayload.fields
  | invoice => InvoicePayload.fields
  | signed payload =>
    .cons "public_key" .text true <|
    .cons "signature" .text true <|
    .cons "payload" payload.shape true .nil

theorem exists_shape_eq (kind : RequestKind) : ∃ name, kind.shape = .record name kind.fields := by
  cases kind <;> exact ⟨_, rfl⟩

theorem misfits_iff {kind : RequestKind} {document : Json} :
    kind.shape.Misfits document ↔ ∀ request, ¬ kind.shape.Fits document (kind.toValue request) := by
  constructor
  · intro misfits request
    exact misfits _
  · intro misfits value fits
    refine misfits (kind.ofValue value) ?_
    rwa [toValue_ofValue]

/-- An object that fits no request is answered with the one reason that holds of it: the misfit
under the least name, and only if there is none the first missing field. An object whose fields
fit as far as they are present fits, if only such fields are absent as need not be present. -/
theorem parse_reports_reason (kind : RequestKind) {body : List UInt8}
    {members : List (String × Json)} (denotes : Denotes body (.object members)) :
    ((∀ request, ¬ kind.shape.Fits (.object members) (kind.toValue request)) →
      ∃ reason, kind.shape.Reason (.object members) reason ∧
        (∀ other, kind.shape.Reason (.object members) other → other = reason) ∧
        (kind.parse body).answer =
          .error (.parseError ("Invalid request body: " ++ reason.message))) ∧
    ((∀ field, ¬ kind.fields.MisfitsAt members field) →
      (∀ field ∈ kind.fields.required, Json.lookup field members ≠ none) →
      ∃ request, kind.shape.Fits (.object members) (kind.toValue request)) := by
  have ordered := ordered_of_denotes denotes
  have refuses (reason : Misfit) :
      kind.shape.ofJson (.object members) = .error reason ↔ kind.shape.Reason _ reason :=
    kind.shape.ofJson_eq_error_iff kind.distinct_shape ordered
  constructor
  · intro misfits
    obtain ⟨reason, refused⟩ :=
      (Shape.misfits_iff kind.distinct_shape ordered).mp (misfits_iff.mpr misfits)
    refine ⟨reason, (refuses reason).mp refused, fun other why => ?_, ?_⟩
    · exact Except.error.inj (((refuses other).mpr why).symm.trans refused)
    · rw [parse_of_denotes denotes, ofJson, refused]
      rfl
  · intro allFit complete
    by_contra misfits
    obtain ⟨name, record⟩ := kind.exists_shape_eq
    have none := misfits_iff.mpr (not_exists.mp misfits)
    rw [record] at none
    have distinct := kind.distinct_shape
    rw [record] at distinct
    obtain ⟨row, fits⟩ := kind.fields.exists_fitMembers distinct.2 ordered.2 allFit complete
    exact none row (.inl ⟨members, rfl, fits⟩)

/-- A signed offer to sell with three misfits and two missing fields. -/
def misfitOffer : List (String × Json) :=
  [("payload", .object [("mint_hash", .integer 5), ("quantity", .string "x")]),
    ("public_key", .null)]

/-- The payload comes before the key, and its hash before its quantity. -/
theorem parse_misfitOffer :
    (∀ request, ¬ (signed .sellOffer).shape.Fits (.object misfitOffer)
      (toValue (.signed .sellOffer) request)) ∧
    (parse (.signed .sellOffer) (Utf8.ofString (Json.object misfitOffer).compact)).answer =
      .error (.parseError
        "Invalid request body: invalid type: integer `5`, expected a string") := by
  have whole : (Json.object misfitOffer).Whole := by
    simp [misfitOffer, Json.Whole, Json.WholeMembers, Json.integer, Word.fitsSigned_iff]
  have denotes : Denotes (Utf8.ofString (Json.object misfitOffer).compact) (.object misfitOffer) :=
    ⟨_, Json.document_compact whole (by decide), rfl⟩
  have why : (signed .sellOffer).shape.Reason (.object misfitOffer)
      (.wrongType (.number (.integer 5)) "a string") := by
    have hash : SellOfferPayload.shape.Reason
        (.object [("mint_hash", .integer 5), ("quantity", .string "x")])
        (.wrongType (.number (.integer 5)) "a string") := by
      have least : ∀ other ∈ SellOfferPayload.fields.names,
          Utf8.ofString "mint_hash" ≤ Utf8.ofString other := by decide
      have noText (text : String) : Json.integer 5 ≠ .string text := Json.noConfusion
      exact .inl ⟨"mint_hash", .inr (.inl ⟨rfl, _, rfl, noText, rfl⟩),
        fun other unfit => least other (Fields.mem_names_of_misfitsAt _ unfit)⟩
    have least : ∀ other ∈ (signed .sellOffer).fields.names,
        Utf8.ofString "payload" ≤ Utf8.ofString other := by decide
    exact .inl ⟨"payload", .inr (.inr (.inl ⟨rfl, _, rfl, hash⟩)),
      fun other unfit => least other (Fields.mem_names_of_misfitsAt _ unfit)⟩
  have ordered := ordered_of_denotes denotes
  have refused := ((signed .sellOffer).shape.ofJson_eq_error_iff (distinct_shape _) ordered).mpr why
  have misfits := misfits_iff.mp ((Shape.misfits_iff (distinct_shape _) ordered).mpr ⟨_, refused⟩)
  obtain ⟨reason, -, only, answer⟩ := (parse_reports_reason (.signed .sellOffer) denotes).1 misfits
  rw [answer, ← only _ why]
  exact ⟨misfits, rfl⟩

end RequestKind

end TokenIntake
