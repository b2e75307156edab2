import TokenIntake.Proofs.Faults
import TokenIntake.Query.Filter
import TokenIntake.Request.Parse

/-!
# What a sender can make the log say

An error goes back to the sender and an event goes into a log that is read line by line. No text of
a sender puts a control character into either of them: a body is quoted where it is shown, and a
field is called by the program's name for it.
-/

namespace TokenIntake

/-! ## Texts of errors and events -/

mutual

/-- Every text of a document, the names of members included. -/
def Json.texts : Json → List String
  | .null | .bool _ | .number _ => []
  | .string text => [text]
  | .array items => itemTexts items
  | .object members => memberTexts members

def Json.itemTexts : List Json → List String
  | [] => []
  | item :: rest => item.texts ++ itemTexts rest

def Json.memberTexts : List (String × Json) → List String
  | [] => []
  | (name, value) :: rest => name :: (value.texts ++ memberTexts rest)

end

structure FieldError.IsControlFree (error : FieldError) : Prop where
  field : ControlFree error.field
  message : ControlFree error.message

structure RpcError.IsControlFree (error : RpcError) : Prop where
  message : ControlFree error.message
  display : ControlFree error.display
  data : ∀ data, error.data = some data → ∀ text ∈ data.texts, ControlFree text

structure Event.IsControlFree (event : Event) : Prop where
  message : ControlFree event.message
  fields : ∀ name text, (name, .text text) ∈ event.fields → ControlFree text

/-- All events are free of control characters, and so is what the answer fails with, if it fails. -/
structure Logged.IsControlFree {ε α : Type} (words : ε → Prop) (logged : Logged (Except ε α)) :
    Prop where
  events : ∀ event ∈ logged.events, event.IsControlFree
  error : ∀ error, logged.answer = .error error → words error

theorem Event.controlFree_message (event : Event) : ControlFree event.message := by
  cases event <;> simp only [message] <;> decide

namespace Event.IsControlFree

theorem fieldRejected {field error : String} (named : ControlFree field)
    (free : ControlFree error) : (fieldRejected field error).IsControlFree where
  message := controlFree_message _
  fields name text found := by
    simp only [Event.fields, List.mem_cons, Prod.mk.injEq, EventValue.text.injEq, List.not_mem_nil,
      or_false] at found
    rcases found with ⟨-, rfl⟩ | ⟨-, rfl⟩
    · exact named
    · exact free

theorem queryRejected {field error : String} (named : ControlFree field)
    (free : ControlFree error) : (queryRejected field error).IsControlFree where
  message := controlFree_message _
  -- A refused value of a query is logged with the fields of a refused field.
  fields := (fieldRejected named free).fields

theorem bodyRejected {error : String} (free : ControlFree error) :
    (bodyRejected error).IsControlFree where
  message := controlFree_message _
  fields name text found := by
    simp only [Event.fields, List.mem_singleton, Prod.mk.injEq, EventValue.text.injEq] at found
    obtain ⟨-, rfl⟩ := found
    exact free

theorem bodyNotObject : bodyNotObject.IsControlFree where
  message := controlFree_message _
  fields := nofun

theorem requestRejected (count : Nat) : (requestRejected count).IsControlFree where
  message := controlFree_message _
  fields name text found := by simp [Event.fields] at found

end Event.IsControlFree

namespace Logged.IsControlFree

variable {ε ε' α β : Type} {words : ε → Prop} {words' : ε' → Prop}

theorem ok (value : α) : IsControlFree words (.silent (.ok value) : Logged (Except ε α)) where
  events := nofun
  error := nofun

theorem report {event : Event} {error : ε} (event_free : event.IsControlFree) (free : words error) :
    IsControlFree words (.report event (.error error) : Logged (Except ε α)) where
  events := List.forall_mem_singleton.mpr event_free
  error := by
    rintro _ ⟨rfl⟩
    exact free

theorem andThen {logged : Logged (Except ε α)} {next : Except ε α → Logged (Except ε' β)}
    (first : logged.IsControlFree words) (rest : (next logged.answer).IsControlFree words') :
    (logged.andThen next).IsControlFree words' where
  events := List.forall_mem_append.mpr ⟨first.events, rest.events⟩
  error := rest.error

theorem andThenOk {logged : Logged (Except RpcError α)} {next : α → Logged (Except RpcError β)}
    {words : RpcError → Prop} (first : logged.IsControlFree words)
    (rest : ∀ value, (next value).IsControlFree words) :
    (logged.andThenOk next).IsControlFree words := by
  refine first.andThen ?_
  cases answer : logged.answer with
  | ok value => exact rest value
  | error error => exact ⟨nofun, fun _ same => first.error _ (by cases same; exact answer)⟩

end Logged.IsControlFree

/-! ## Errors -/

namespace RpcError

/-- The line of an error adds only its number to its message. -/
private theorem controlFree_display {error : RpcError} (free : ControlFree error.message) :
    ControlFree error.display :=
  .append (.append (.append (by decide) (controlFree_int error.code.number)) (by decide)) free

private theorem isControlFree_of_message {error : RpcError} (free : ControlFree error.message)
    (bare : error.data = none) : error.IsControlFree where
  message := free
  display := controlFree_display free
  data := by
    rw [bare]
    nofun

private theorem controlFree_fieldsMessage {errors : List FieldError}
    (free : ∀ error ∈ errors, error.IsControlFree) : ControlFree (fieldsMessage errors) := by
  unfold fieldsMessage
  split
  next error =>
    have single := free error List.mem_cons_self
    exact .append (.append single.field (by decide)) single.message
  next => exact .append (.append (by decide) (controlFree_nat _)) (by decide)

private theorem controlFree_itemTexts_fieldErrors {errors : List FieldError}
    (free : ∀ error ∈ errors, error.IsControlFree) :
    ∀ text ∈ Json.itemTexts (errors.map fieldErrorJson), ControlFree text := by
  induction errors with
  | nil => nofun
  | cons error rest ih =>
    obtain ⟨here, others⟩ := List.forall_mem_cons.mp free
    refine List.forall_mem_append.mpr ⟨?_, ih others⟩
    have texts : (fieldErrorJson error).texts = ["field", error.field, "message", error.message] :=
      rfl
    rw [texts]
    simp only [List.forall_mem_cons]
    exact ⟨by decide, here.field, by decide, here.message, nofun⟩

/-- Whether one field is refused or several, nothing but their names and messages is shown. -/
private theorem isControlFree_invalidFields {errors : List FieldError}
    (free : ∀ error ∈ errors, error.IsControlFree) : (invalidFields errors).IsControlFree where
  message := controlFree_fieldsMessage free
  display := controlFree_display (controlFree_fieldsMessage free)
  data := by
    rintro _ ⟨rfl⟩
    exact controlFree_itemTexts_fieldErrors free

end RpcError

/-! ## Reviews -/

/-- The refused fields and the events so far are free of control characters. -/
structure FieldReport.IsControlFree (report : FieldReport) : Prop where
  errors : ∀ error ∈ report.errors, error.IsControlFree
  events : ∀ event ∈ report.events, event.IsControlFree

/-- The outcome of a review is free of control characters. -/
abbrev Reviewed.IsControlFree (reviewed : Logged (Except (List FieldError) Unit)) : Prop :=
  reviewed.IsControlFree fun errors => ∀ error ∈ errors, error.IsControlFree

namespace FieldReport.IsControlFree

theorem empty : FieldReport.empty.IsControlFree := ⟨nofun, nofun⟩

variable {report : FieldReport} (free : report.IsControlFree)

include free

theorem check {field : String} (named : ControlFree field) {verdict : Verdict}
    (plain : PlainRefusal verdict) : (report.check field verdict).IsControlFree := by
  cases verdict with
  | ok => exact free
  | error rejection =>
    have refused : ControlFree rejection.message := plain rejection rfl
    exact {
      errors := List.forall_mem_append.mpr
        ⟨free.errors, List.forall_mem_singleton.mpr ⟨named, refused⟩⟩
      events := List.forall_mem_append.mpr
        ⟨free.events, List.forall_mem_singleton.mpr (.fieldRejected named refused)⟩ }

theorem nested {outer : String} (named : ControlFree outer)
    {reviewed : Logged (Except (List FieldError) Unit)} (inner : Reviewed.IsControlFree reviewed) :
    (report.nested outer reviewed).IsControlFree := by
  obtain ⟨events, answer⟩ := reviewed
  have events_free := List.forall_mem_append.mpr ⟨free.events, inner.events⟩
  cases answer with
  | ok => exact ⟨free.errors, events_free⟩
  | error errors =>
    refine ⟨List.forall_mem_append.mpr ⟨free.errors, List.forall_mem_map.mpr ?_⟩, events_free⟩
    intro error found
    have refused := inner.error errors rfl error found
    -- An inner field is called by both names, with a dot between them.
    exact ⟨.append (.append named (by decide)) refused.field, refused.message⟩

theorem finish : Reviewed.IsControlFree report.finish where
  events := free.events
  error errors stops := by
    unfold FieldReport.finish at stops
    dsimp only at stops
    split at stops
    · cases stops
    · obtain rfl := Except.error.inj stops
      exact free.errors

end FieldReport.IsControlFree

/-- Every field has a name of the program's and a check that shows nothing of its value. -/
private theorem RequestKind.isControlFree_review (kind : RequestKind) (request : kind.Request) :
    Reviewed.IsControlFree (kind.review request) := by
  induction kind with
  | mint =>
    exact FieldReport.IsControlFree.empty
      |>.check (by decide) (plainRefusal_title _)
      |>.check (by decide) (plainRefusal_amount (by decide) _)
      |>.check (by decide) (plainRefusal_description _)
      |>.check (by decide) (plainRefusal_tags _)
      |>.check (by decide) (plainRefusal_metadata _)
      |>.check (by decide) (plainRefusal_feedUrl _)
      |>.check (by decide) (plainRefusal_optionalAddress _)
      |>.finish
  | buyOffer =>
    exact FieldReport.IsControlFree.empty
      |>.check (by decide) (plainRefusal_address _)
      |>.check (by decide) (plainRefusal_address _)
      |>.check (by decide) (plainRefusal_hash _)
      |>.check (by decide) (plainRefusal_amount (by decide) _)
      |>.check (by decide) (plainRefusal_amount (by decide) _)
      |>.finish
  | sellOffer =>
    exact FieldReport.IsControlFree.empty
      |>.check (by decide) (plainRefusal_address _)
      |>.check (by decide) (plainRefusal_hash _)
      |>.check (by decide) (plainRefusal_amount (by decide) _)
      |>.check (by decide) (plainRefusal_amount (by decide) _)
      |>.finish
  | deleteOffer =>
    exact FieldReport.IsControlFree.empty
      |>.check (by decide) (plainRefusal_hash _)
      |>.finish
  | invoice =>
    exact FieldReport.IsControlFree.empty
      |>.check (by decide) (plainRefusal_address _)
      |>.check (by decide) (plainRefusal_address _)
      |>.check (by decide) (plainRefusal_hash _)
      |>.check (by decide) (plainRefusal_hash _)
      |>.check (by decide) (plainRefusal_amount (by decide) _)
      |>.check (by decide) (plainRefusal_amount (by decide) _)
      |>.check (by decide) (plainRefusal_address _)
      |>.finish
  | signed kind ih =>
    exact FieldReport.IsControlFree.empty
      |>.check (by decide) (plainRefusal_publicKey _)
      |>.check (by decide) (plainRefusal_signature _)
      |>.nested (by decide) (ih _)
      |>.finish

/-! ## Requests and queries -/

namespace RequestKind

private theorem isControlFree_accept (kind : RequestKind) (request : kind.Request) :
    (kind.accept request).IsControlFree RpcError.IsControlFree := by
  have review := kind.isControlFree_review request
  refine review.andThen ?_
  cases answer : (kind.review request).answer with
  | ok => exact .ok request
  | error errors =>
    exact .report (.requestRejected _) (RpcError.isControlFree_invalidFields
      (review.error errors answer))

private theorem isControlFree_ofJson (kind : RequestKind) (document : Json) :
    (kind.ofJson document).IsControlFree RpcError.IsControlFree := by
  unfold ofJson
  split
  · split
    next value _ => exact kind.isControlFree_accept (kind.ofValue value)
    next misfit stops =>
      have shown : ControlFree misfit.message :=
        kind.shape.plainMisfit_ofJson kind.controlFree_vocabulary _ misfit stops
      exact .report (.bodyRejected shown)
        (RpcError.isControlFree_of_message (.append (by decide) shown) rfl)
  · exact .report .bodyNotObject (RpcError.isControlFree_of_message (by decide) rfl)

theorem isControlFree_parse (kind : RequestKind) (body : List UInt8) :
    (kind.parse body).IsControlFree RpcError.IsControlFree := by
  unfold parse
  split
  next document _ => exact kind.isControlFree_ofJson document
  next fault stops =>
    obtain ⟨reason, malformed⟩ := Json.malformed_of_parse stops
    have shown : ControlFree (fault.message body) :=
      Json.Fault.controlFree_message malformed body
    exact .report (.bodyRejected shown)
      (RpcError.isControlFree_of_message (.append (by decide) shown) rfl)

end RequestKind

namespace Filter

private theorem isControlFree_rejected {α : Type} {field : String} (named : ControlFree field)
    {rejection : Rejection} (free : ControlFree rejection.message) :
    (rejected field rejection : Logged (Except RpcError α)).IsControlFree
      RpcError.IsControlFree :=
  .report (.queryRejected named free) (RpcError.isControlFree_invalidFields
    (List.forall_mem_singleton.mpr ⟨named, free⟩))

private theorem isControlFree_hashSegment (raw : String) :
    (hashSegment raw).IsControlFree RpcError.IsControlFree := by
  unfold hashSegment
  dsimp only
  split
  · exact .ok _
  next rejection refused =>
    exact isControlFree_rejected (by decide) (plainRefusal_hash _ rejection refused)

private theorem isControlFree_optional {field : String} (named : ControlFree field)
    (raw : Option String)
    {check : String → Verdict} (plain : ∀ value, PlainRefusal (check value)) :
    (optional field raw check).IsControlFree RpcError.IsControlFree := by
  unfold optional
  dsimp only
  split
  · exact .ok none
  split
  · exact .ok _
  next rejection refused => exact isControlFree_rejected named (plain _ rejection refused)

end Filter

theorem MintQuery.isControlFree_ofParams (params : QueryParams) :
    (MintQuery.ofParams params).IsControlFree RpcError.IsControlFree :=
  .andThenOk (Filter.isControlFree_optional (by decide) _ plainRefusal_publicKey) fun _ =>
    .andThenOk (Filter.isControlFree_optional (by decide) _ plainRefusal_address) fun _ => .ok _

theorem InvoiceQuery.isControlFree_ofParams (params : QueryParams) :
    (InvoiceQuery.ofParams params).IsControlFree RpcError.IsControlFree :=
  .andThenOk (Filter.isControlFree_optional (by decide) _ plainRefusal_hash) fun _ =>
    .andThenOk (Filter.isControlFree_optional (by decide) _ plainRefusal_address) fun _ => .ok _

/-- Whatever is sent as a body, as a segment of a path or as a query, no error and no event on the
way to it shows a control character. -/
theorem answers_show_no_control :
    (∀ (kind : RequestKind) (body : List UInt8),
      (kind.parse body).IsControlFree RpcError.IsControlFree) ∧
    (∀ raw : String, (Filter.hashSegment raw).IsControlFree RpcError.IsControlFree) ∧
    (∀ params : QueryParams, (MintQuery.ofParams params).IsControlFree RpcError.IsControlFree) ∧
    ∀ params : QueryParams, (InvoiceQuery.ofParams params).IsControlFree RpcError.IsControlFree :=
  ⟨RequestKind.isControlFree_parse, Filter.isControlFree_hashSegment,
    MintQuery.isControlFree_ofParams, InvoiceQuery.isControlFree_ofParams⟩

end TokenIntake
