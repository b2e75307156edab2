import Mathlib.Data.List.Basic
import TokenIntake.Proofs.FieldRules
import TokenIntake.Proofs.Reports

/-!
# What a review reports

A review goes through the fields of a request in the order of their declaration, those of a
signed payload last. It reports exactly the fields that break their rule, each once and
under a name that tells how many signatures are around it.
-/

namespace TokenIntake

/-- A field under review: the number of signatures around it, its name, its rule and the
outcome of its check. -/
structure ReviewedField where
  depth : Nat
  name : String
  Rule : Prop
  verdict : Verdict

/-- The name of a field with a prefix for every signature around it. -/
def prefixed : Nat → String → String
  | 0, name => name
  | depth + 1, name => "payload." ++ prefixed depth name

namespace ReviewedField

/-- The field inside one more signature. -/
def signed (field : ReviewedField) : ReviewedField := { field with depth := field.depth + 1 }

/-- The check accepts what keeps the rule, and nothing else. -/
def Sound (field : ReviewedField) : Prop := field.verdict = .ok () ↔ field.Rule

/-- The errors are those of the fields that break their rule, in order. -/
inductive Broken : List ReviewedField → List FieldError → Prop
  | nil : Broken [] []
  | kept {field : ReviewedField} {rest : List ReviewedField} {errors : List FieldError}
      (keeps : field.Rule) (others : Broken rest errors) : Broken (field :: rest) errors
  | broken {field : ReviewedField} {rest : List ReviewedField} {errors : List FieldError}
      {rejection : Rejection} (breaks : ¬ field.Rule) (rejected : field.verdict = .error rejection)
      (others : Broken rest errors) :
      Broken (field :: rest) (⟨prefixed field.depth field.name, rejection.message⟩ :: errors)

/-- The error of a field, if its check refuses it. -/
def error? (field : ReviewedField) : Option FieldError :=
  match field.verdict with
  | .ok () => none
  | .error rejection => some ⟨prefixed field.depth field.name, rejection.message⟩

/-- The same error under the name that the field has without the signatures around it. -/
def bareError? (field : ReviewedField) : Option FieldError :=
  match field.verdict with
  | .ok () => none
  | .error rejection => some ⟨field.name, rejection.message⟩

/-- Sound checks make a report determined by the rules. -/
theorem broken_iff {fields : List ReviewedField} {errors : List FieldError}
    (sound : ∀ field ∈ fields, field.Sound) :
    Broken fields errors ↔ errors = fields.filterMap error? := by
  -- A sound check decides at every field which of the constructors applies.
  induction fields generalizing errors with
  | nil =>
    constructor
    · rintro ⟨⟩
      rfl
    · rintro rfl
      exact .nil
  | cons field rest ih =>
    obtain ⟨soundField, soundRest⟩ := List.forall_mem_cons.mp sound
    cases outcome : field.verdict with
    | ok =>
      have keeps : field.Rule := soundField.mp outcome
      have silent : field.error? = none := by rw [error?, outcome]
      rw [List.filterMap_cons_none silent, ← ih soundRest]
      constructor
      · rintro (_ | ⟨_, others⟩ | ⟨breaks, -, -⟩)
        · exact others
        · exact absurd keeps breaks
      · exact .kept keeps
    | error rejection =>
      have breaks : ¬ field.Rule := fun keeps => by
        cases outcome.symm.trans (soundField.mpr keeps)
      have error : field.error? = some ⟨prefixed field.depth field.name, rejection.message⟩ := by
        rw [error?, outcome]
      rw [List.filterMap_cons_some error]
      constructor
      · rintro (_ | ⟨keeps, -⟩ | ⟨-, rejected, others⟩)
        · exact absurd keeps breaks
        · cases outcome.symm.trans rejected
          rw [(ih soundRest).mp others]
      · rintro rfl
        exact .broken breaks outcome ((ih soundRest).mpr rfl)

theorem all_rules_iff {fields : List ReviewedField} (sound : ∀ field ∈ fields, field.Sound) :
    fields.filterMap error? = [] ↔ ∀ field ∈ fields, field.Rule := by
  rw [List.filterMap_eq_nil_iff]
  refine forall₂_congr fun field found => ?_
  have rule : field.verdict = .ok () ↔ field.Rule := sound field found
  rw [← rule, error?]
  cases field.verdict <;> simp

end ReviewedField

namespace RequestKind

open ReviewedField

/-- The fields that a signature adds to a payload. -/
def signatureFields (publicKey signature : String) : List ReviewedField :=
  [⟨0, "public_key", PublicKey.Rule publicKey, PublicKey.check publicKey⟩,
    ⟨0, "signature", Signature.Rule signature, Signature.check signature⟩]

/-- The fields of a request, in the order in which they are reported. -/
def reviewed : (kind : RequestKind) → kind.Request → List ReviewedField
  | mint, p =>
    [⟨0, "title", Title.Rule p.title, Title.check p.title⟩,
      ⟨0, "fraction_count", Amount.Rule p.fractionCount,
        FractionCount.check "fraction_count" p.fractionCount⟩,
      ⟨0, "description", Description.Rule p.description, Description.check p.description⟩,
      ⟨0, "tags", Tags.Rule p.tags, Tags.check p.tags⟩,
      ⟨0, "metadata", Metadata.Rule p.metadata, Metadata.check p.metadata⟩,
      ⟨0, "feed_url", FeedUrl.Rule p.feedUrl, FeedUrl.check p.feedUrl⟩,
      ⟨0, "owner_address", Address.OptionalRule p.ownerAddress,
        Address.checkOptional p.ownerAddress⟩]
  | buyOffer, p =>
    [⟨0, "offerer_address", Address.Rule p.offererAddress, Address.check p.offererAddress⟩,
      ⟨0, "seller_address", Address.Rule p.sellerAddress, Address.check p.sellerAddress⟩,
      ⟨0, "mint_hash", Hash.Rule p.mintHash, Hash.check p.mintHash⟩,
      ⟨0, "quantity", Amount.Rule p.quantity, Quantity.check "quantity" p.quantity⟩,
      ⟨0, "price", Amount.Rule p.price, Price.check "price" p.price⟩]
  | sellOffer, p =>
    [⟨0, "offerer_address", Address.Rule p.offererAddress, Address.check p.offererAddress⟩,
      ⟨0, "mint_hash", Hash.Rule p.mintHash, Hash.check p.mintHash⟩,
      ⟨0, "quantity", Amount.Rule p.quantity, Quantity.check "quantity" p.quantity⟩,
      ⟨0, "price", Amount.Rule p.price, Price.check "price" p.price⟩]
  | deleteOffer, p => [⟨0, "offer_hash", Hash.Rule p.offerHash, Hash.check p.offerHash⟩]
  | invoice, p =>
    [⟨0, "payment_address", Address.Rule p.paymentAddress, Address.check p.paymentAddress⟩,
      ⟨0, "buy_offer_offerer_address", Address.Rule p.buyOfferOffererAddress,
        Address.check p.buyOfferOffererAddress⟩,
      ⟨0, "buy_offer_hash", Hash.Rule p.buyOfferHash, Hash.check p.buyOfferHash⟩,
      ⟨0, "buy_offer_mint_hash", Hash.Rule p.buyOfferMintHash, Hash.check p.buyOfferMintHash⟩,
      ⟨0, "buy_offer_quantity", Amount.Rule p.buyOfferQuantity,
        Quantity.check "buy_offer_quantity" p.buyOfferQuantity⟩,
      ⟨0, "buy_offer_price", Amount.Rule p.buyOfferPrice,
        Price.check "buy_offer_price" p.buyOfferPrice⟩,
      ⟨0, "sell_offer_address", Address.Rule p.sellOfferAddress,
        Address.check p.sellOfferAddress⟩]
  | signed kind, p =>
    signatureFields p.publicKey p.signature ++
      (kind.reviewed p.payload).map ReviewedField.signed

/-- The declared fields of a kind with the number of signatures around them. -/
def declared : RequestKind → List (Nat × String)
  | mint => MintPayload.fields.names.map (0, ·)
  | buyOffer => BuyOfferPayload.fields.names.map (0, ·)
  | sellOffer => SellOfferPayload.fields.names.map (0, ·)
  | deleteOffer => DeleteOfferPayload.fields.names.map (0, ·)
  | invoice => InvoicePayload.fields.names.map (0, ·)
  | signed kind =>
    (0, "public_key") :: (0, "signature") :: kind.declared.map fun field => (field.1 + 1, field.2)

theorem reviewed_declared (kind : RequestKind) (request : kind.Request) :
    (kind.reviewed request).map (fun field => (field.depth, field.name)) = kind.declared := by
  -- Every signature adds its two fields in front and one level around the others.
  induction kind with
  | signed kind ih =>
    rw [declared, ← ih request.payload, reviewed]
    simp [signatureFields, ReviewedField.signed, Function.comp_def]
  | _ => rfl

theorem reviewed_sound (kind : RequestKind) (request : kind.Request) :
    ∀ field ∈ kind.reviewed request, field.Sound := by
  induction kind with
  | signed kind ih =>
    refine List.forall_mem_cons.mpr ⟨PublicKey.check_eq_ok_iff, ?_⟩
    refine List.forall_mem_cons.mpr ⟨Signature.check_eq_ok_iff, ?_⟩
    exact List.forall_mem_map.mpr fun field found => ih request.payload field found
  | _ =>
    simp only [reviewed, List.forall_mem_cons, Sound, FractionCount.check, Quantity.check,
      Price.check, Title.check_eq_ok_iff, Amount.check_eq_ok_iff, Description.check_eq_ok_iff,
      Tags.check_eq_ok_iff, Metadata.check_eq_ok_iff, FeedUrl.check_eq_ok_iff,
      Address.checkOptional_eq_ok_iff, Address.check_eq_ok_iff, Hash.check_eq_ok_iff]
    simp

/-- A report to which the checks of some fields are added. -/
def checkAll (report : FieldReport) (fields : List ReviewedField) : FieldReport :=
  fields.foldl (fun report field => report.check field.name field.verdict) report

/-- The check of a field as a step of a report. -/
def checkStep (field : ReviewedField) : FieldReport.Step := .check field.name field.verdict

private theorem checkStep_errors (field : ReviewedField) :
    (checkStep field).errors = field.bareError?.toList := by
  unfold checkStep bareError?
  cases field.verdict <;> rfl

private theorem checkStep_events (field : ReviewedField) :
    (checkStep field).events =
      field.bareError?.toList.map fun error => .fieldRejected error.field error.message := by
  unfold checkStep bareError?
  cases field.verdict <;> rfl

/-- The checks leave the errors of the fields under their own names, and the events of these. -/
theorem checkAll_eq (report : FieldReport) (fields : List ReviewedField) :
    checkAll report fields =
      ⟨report.errors ++ fields.filterMap bareError?,
        report.events ++ (fields.filterMap bareError?).map fun error =>
          .fieldRejected error.field error.message⟩ := by
  have run : checkAll report fields =
      (fields.map checkStep).foldl FieldReport.Step.addTo report := by
    rw [List.foldl_map]
    rfl
  rw [run, FieldReport.foldl_addTo]
  simp only [List.flatMap_map, checkStep_errors, checkStep_events, List.filterMap_eq_flatMap_toList,
    List.map_flatMap]

private theorem checkAll_errors {fields : List ReviewedField}
    (flat : ∀ field ∈ fields, field.depth = 0)
    (report : FieldReport) :
    (checkAll report fields).errors = report.errors ++ fields.filterMap error? := by
  rw [checkAll_eq]
  refine congrArg _ (List.filterMap_congr fun field found => ?_)
  rw [bareError?, error?, flat field found, prefixed]

private theorem error?_signed (field : ReviewedField) :
    field.signed.error? = field.error?.map (·.within "payload") := by
  unfold error? ReviewedField.signed
  dsimp only
  cases field.verdict with
  | ok => rfl
  | error rejection => simp [FieldError.within, prefixed]

theorem filterMap_error?_signed (fields : List ReviewedField) :
    (fields.map ReviewedField.signed).filterMap error? =
      (fields.filterMap error?).map (·.within "payload") := by
  rw [List.filterMap_map, List.map_filterMap]
  exact congrArg (List.filterMap · _) (funext error?_signed)

/-- The answer to a request is the list of the errors of its fields, unless there are none. -/
theorem review_answer (kind : RequestKind) (request : kind.Request) :
    (kind.review request).answer =
      if (kind.reviewed request).filterMap error? = [] then .ok ()
      else .error ((kind.reviewed request).filterMap error?) := by
  have payload {report : FieldReport} {fields : List ReviewedField}
      (same : report = checkAll .empty fields) (flat : ∀ field ∈ fields, field.depth = 0) :
      report.finish.answer =
        if fields.filterMap error? = [] then .ok () else .error (fields.filterMap error?) := by
    rw [FieldReport.finish_answer, same, checkAll_errors flat]
    rfl
  -- The payload of a signature is reviewed by itself; its errors are prefixed and come last.
  induction kind with
  | signed kind ih =>
    have errors : ((checkAll .empty (signatureFields request.publicKey request.signature)).nested
        "payload" (kind.review request.payload)).errors =
        (reviewed (.signed kind) request).filterMap error? := by
      rw [FieldReport.errors_nested, checkAll_errors (by simp [signatureFields]), reviewed,
        List.filterMap_append, filterMap_error?_signed, ih request.payload, refusedFields_ite,
        FieldReport.empty, List.nil_append]
    rw [← errors]
    exact FieldReport.finish_answer _
  | _ => exact payload rfl (by simp [reviewed])

theorem review_eq_ok_iff {kind : RequestKind} {request : kind.Request} :
    (kind.review request).answer = .ok () ↔ ∀ field ∈ kind.reviewed request, field.Rule := by
  rw [review_answer, ← all_rules_iff (reviewed_sound kind request)]
  split
  next silent => simp [silent]
  next refused => simp [refused]

/-- A review accepts exactly the requests whose fields all keep their rules, and otherwise
reports the fields that break theirs, in the order of declaration, with the wording of
their own check. -/
theorem review_reports_broken (kind : RequestKind) (request : kind.Request) :
    (kind.reviewed request).map (fun field => (field.depth, field.name)) = kind.declared ∧
    ((kind.review request).answer = .ok () ↔ ∀ field ∈ kind.reviewed request, field.Rule) ∧
    ∀ errors, (kind.review request).answer = .error errors ↔
      errors ≠ [] ∧ Broken (kind.reviewed request) errors := by
  have sound := reviewed_sound kind request
  refine ⟨reviewed_declared kind request, ?_, fun errors => ?_⟩
  · rw [review_answer, ← all_rules_iff sound]
    split
    next silent => simp [silent]
    next refused => simp [refused]
  · rw [review_answer, broken_iff sound]
    split
    next silent => simp [silent]
    next refused =>
      rw [Except.error.injEq]
      constructor
      · rintro rfl
        exact ⟨refused, rfl⟩
      · rintro ⟨-, rfl⟩
        rfl

end RequestKind

end TokenIntake
