import TokenIntake.Proofs.Bodies
import TokenIntake.Proofs.Review
import TokenIntake.Query.Filter

/-!
# What the log tells

A request that is accepted leaves no event, and a refused one leaves the events that tell its
error: one for a body that is no request, and for refused fields one each, in the order of the
error, and one more that counts them. An event knows a field by its own name, without the
signatures around it.
-/

namespace TokenIntake

/-- The name of a field without the prefixes in front of it. -/
def bareName : List Char → List Char
  | 'p' :: 'a' :: 'y' :: 'l' :: 'o' :: 'a' :: 'd' :: '.' :: rest => bareName rest
  | name => name

private theorem bareName_payload (name : String) :
    bareName ("payload." ++ name).toList = bareName name.toList := by
  rw [String.toList_append]
  rfl

private theorem bareName_prefixed (depth : Nat) (name : String) :
    bareName (prefixed depth name).toList = bareName name.toList := by
  induction depth with
  | zero => rfl
  | succ depth ih => rw [prefixed, bareName_payload, ih]

/-- The event of a refused field. -/
def FieldError.event (error : FieldError) : Event :=
  .fieldRejected (String.ofList (bareName error.field.toList)) error.message

private theorem FieldError.event_within_payload (error : FieldError) :
    (error.within "payload").event = error.event := by
  have name : (error.within "payload").field = "payload." ++ error.field := rfl
  rw [event, event, name, bareName_payload]
  rfl

namespace RequestKind

open ReviewedField

/-! ## Reviews -/

/-- No declared name starts with a prefix. -/
private theorem bareName_of_reviewed (kind : RequestKind) (request : kind.Request) :
    ∀ field ∈ kind.reviewed request, bareName field.name.toList = field.name.toList := by
  induction kind with
  | signed kind ih =>
    refine List.forall_mem_cons.mpr ⟨by simp [bareName], ?_⟩
    refine List.forall_mem_cons.mpr ⟨by simp [bareName], ?_⟩
    exact List.forall_mem_map.mpr fun field found => ih request.payload field found
  | _ =>
    simp only [reviewed, List.forall_mem_cons]
    simp [bareName]

private theorem event_prefixed {name : String} (bare : bareName name.toList = name.toList)
    (depth : Nat)
    (message : String) :
    FieldError.event ⟨prefixed depth name, message⟩ = .fieldRejected name message := by
  rw [FieldError.event, bareName_prefixed, bare, String.ofList_toList]

private theorem checkAll_events {fields : List ReviewedField}
    (bare : ∀ field ∈ fields, bareName field.name.toList = field.name.toList)
    (report : FieldReport) :
    (checkAll report fields).events =
      report.events ++ (fields.filterMap error?).map FieldError.event := by
  rw [checkAll_eq, List.map_filterMap, List.map_filterMap]
  refine congrArg _ (List.filterMap_congr fun field found => ?_)
  rw [bareError?, error?]
  cases field.verdict with
  | ok => rfl
  | error rejection => rw [Option.map_some, Option.map_some, event_prefixed (bare field found)]

/-- A review leaves the events of its errors, and no others. -/
theorem review_events (kind : RequestKind) (request : kind.Request) :
    (kind.review request).events =
      ((kind.reviewed request).filterMap error?).map FieldError.event := by
  have bare := bareName_of_reviewed kind request
  -- The events of a payload come behind those of the signature, as its errors do.
  induction kind with
  | signed kind ih =>
    have signature : ∀ field ∈ signatureFields request.publicKey request.signature,
        bareName field.name.toList = field.name.toList :=
      fun field found => bare field (List.mem_append_left _ found)
    have payload := ih request.payload (bareName_of_reviewed kind request.payload)
    have within : FieldError.event ∘ (FieldError.within "payload") = FieldError.event :=
      funext FieldError.event_within_payload
    have review : (review (.signed kind) request).events =
        ((checkAll .empty (signatureFields request.publicKey request.signature)).nested
          "payload" (kind.review request.payload)).events := rfl
    rw [review, FieldReport.events_nested, checkAll_events signature, payload, reviewed, List.filterMap_append,
      filterMap_error?_signed, List.map_append, List.map_map, within]
    rfl
  | _ => exact checkAll_events bare .empty

/-! ## Bodies -/

/-- What the log tells of a body, with one case for every class of answers. -/
inductive Told (kind : RequestKind) : Logged (Except RpcError kind.Request) → Prop
  | accepted (request : kind.Request) : Told kind ⟨[], .ok request⟩
  | malformed (text : String) :
      Told kind ⟨[.bodyRejected text], .error (.parseError ("Invalid JSON: " ++ text))⟩
  | noObject (text : String) : Told kind ⟨[.bodyNotObject], .error (.invalidRequest text)⟩
  | misfit (text : String) :
      Told kind ⟨[.bodyRejected text], .error (.parseError ("Invalid request body: " ++ text))⟩
  | refused (errors : List FieldError) :
      Told kind ⟨errors.map FieldError.event ++ [.requestRejected errors.length],
        .error (.invalidFields errors)⟩

private theorem told_accept (kind : RequestKind) (request : kind.Request) :
    Told kind (kind.accept request) := by
  have events := review_events kind request
  have answer := review_answer kind request
  unfold accept Logged.andThen
  split at answer
  next silent =>
    rw [silent] at events
    rw [events, answer]
    exact .accepted request
  next =>
    rw [events, answer]
    exact .refused _

private theorem told_ofJson (kind : RequestKind) (document : Json) :
    Told kind (kind.ofJson document) := by
  unfold ofJson
  split
  next members =>
    split
    next value read => exact told_accept kind (kind.ofValue value)
    next misfit read => exact .misfit misfit.message
  next => exact .noObject _

theorem told_parse (kind : RequestKind) (body : List UInt8) : Told kind (kind.parse body) := by
  unfold parse
  split
  next document read => exact told_ofJson kind document
  next fault read => exact .malformed (fault.message body)

namespace Told

variable {kind : RequestKind} {logged : Logged (Except RpcError kind.Request)}

theorem events_eq_nil_iff (told : Told kind logged) :
    logged.events = [] ↔ ∃ request, logged.answer = .ok request := by
  cases told with
  | accepted request => exact ⟨fun _ => ⟨request, rfl⟩, fun _ => rfl⟩
  | malformed | noObject | misfit | refused => simp

end Told

end RequestKind

/-! ## Queries -/

/-- An answer leaves no event, and a refusal leaves the one event that names the one field of
its error, with the same message. -/
structure Logged.TellsRefusal {α : Type} (logged : Logged (Except RpcError α)) : Prop where
  answered : ∀ value, logged.answer = .ok value → logged.events = []
  refused : ∀ error, logged.answer = .error error → ∃ field message,
    error.data = some (.array [RpcError.fieldErrorJson ⟨field, message⟩]) ∧
      logged.events = [.queryRejected field message]

private theorem Logged.tellsRefusal_silent {α : Type} (value : α) :
    (silent (.ok value)).TellsRefusal where
  answered _ _ := rfl
  refused := by rintro _ ⟨⟩

namespace Filter

private theorem tellsRefusal_rejected {α : Type} (field : String) (rejection : Rejection) :
    (rejected (α := α) field rejection).TellsRefusal where
  answered := by rintro _ ⟨⟩
  refused := by
    rintro _ ⟨rfl⟩
    exact ⟨field, rejection.message, rfl, rfl⟩

private theorem tellsRefusal_hashSegment (raw : String) : (hashSegment raw).TellsRefusal := by
  unfold hashSegment
  dsimp only
  split
  next accepted => exact Logged.tellsRefusal_silent _
  next rejection refused => exact tellsRefusal_rejected "hash" rejection

private theorem tellsRefusal_optional (field : String) (raw : Option String)
    (check : String → Verdict) :
    (optional field raw check).TellsRefusal := by
  unfold optional
  dsimp only
  split
  next empty => exact Logged.tellsRefusal_silent _
  next present =>
    split
    next accepted => exact Logged.tellsRefusal_silent _
    next rejection refused => exact tellsRefusal_rejected field rejection

end Filter

/-- Of filters one behind the other only the first refused one is told. -/
theorem Logged.TellsRefusal.andThenOk {α β : Type} {logged : Logged (Except RpcError α)}
    {next : α → Logged (Except RpcError β)} (first : logged.TellsRefusal)
    (others : ∀ value, (next value).TellsRefusal) : (logged.andThenOk next).TellsRefusal := by
  obtain ⟨events, answer⟩ := logged
  cases answer with
  | ok value =>
    obtain rfl : events = [] := first.answered value rfl
    exact others value
  | error error =>
    obtain ⟨field, message, data, rfl⟩ := first.refused error rfl
    refine ⟨by rintro _ ⟨⟩, ?_⟩
    rintro _ ⟨rfl⟩
    exact ⟨field, message, data, rfl⟩

private theorem tellsRefusal_mintQuery (params : QueryParams) :
    (MintQuery.ofParams params).TellsRefusal := by
  refine (Filter.tellsRefusal_optional _ _ _).andThenOk fun publicKey => ?_
  refine (Filter.tellsRefusal_optional _ _ _).andThenOk fun address => ?_
  exact Logged.tellsRefusal_silent _

private theorem tellsRefusal_invoiceQuery (params : QueryParams) :
    (InvoiceQuery.ofParams params).TellsRefusal := by
  refine (Filter.tellsRefusal_optional _ _ _).andThenOk fun mintHash => ?_
  refine (Filter.tellsRefusal_optional _ _ _).andThenOk fun offererAddress => ?_
  exact Logged.tellsRefusal_silent _

/-- The log tells the same as the answer, for every body and every query. -/
theorem log_tells_answer :
    (∀ (kind : RequestKind) (body : List UInt8),
      ((kind.parse body).events = [] ↔ ∃ request, (kind.parse body).answer = .ok request) ∧
      ∀ error, (kind.parse body).answer = .error error →
        match error.code with
        | .parseError => ∃ text, (kind.parse body).events = [.bodyRejected text] ∧
            (error.message = "Invalid JSON: " ++ text ∨
              error.message = "Invalid request body: " ++ text)
        | .invalidRequest => (kind.parse body).events = [.bodyNotObject]
        | .invalidParams => ∃ errors : List FieldError,
            error.data = some (.array (errors.map RpcError.fieldErrorJson)) ∧
              (kind.parse body).events =
                errors.map FieldError.event ++ [.requestRejected errors.length]) ∧
    (∀ raw, (Filter.hashSegment raw).TellsRefusal) ∧
    (∀ field raw check, (Filter.optional field raw check).TellsRefusal) ∧
    (∀ params, (MintQuery.ofParams params).TellsRefusal) ∧
    ∀ params, (InvoiceQuery.ofParams params).TellsRefusal := by
  refine ⟨fun kind body => ?_, Filter.tellsRefusal_hashSegment, Filter.tellsRefusal_optional,
    tellsRefusal_mintQuery, tellsRefusal_invoiceQuery⟩
  have told := kind.told_parse body
  refine ⟨told.events_eq_nil_iff, ?_⟩
  generalize kind.parse body = logged at told
  rintro error refused
  cases told with
  | accepted => cases refused
  | malformed text =>
    cases refused
    exact ⟨text, rfl, .inl rfl⟩
  | noObject =>
    cases refused
    rfl
  | misfit text =>
    cases refused
    exact ⟨text, rfl, .inr rfl⟩
  | refused errors =>
    cases refused
    exact ⟨errors, rfl, rfl⟩

end TokenIntake
