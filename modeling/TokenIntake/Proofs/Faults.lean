import TokenIntake.Json.Reader
import TokenIntake.Proofs.ControlFree
import TokenIntake.Schema.OfJson

/-!
# Faults in words

A body is refused before its fields are looked at because it is no JSON or because it does not fit.
The reader of documents knows only faults of the first kind, whose words are fixed but for the
place. A misfit shows what was found, and of all that can be found only a string is a text of the
sender; it is shown between quotes.
-/

namespace TokenIntake

namespace Json

/-! ## The reader of documents -/

namespace Scan

/-- The scanner stops only at what is not JSON. -/
def OnlyMalformed {α : Type} (scan : Scan α) : Prop :=
  ∀ input fault, scan input = .error fault → ∃ reason, fault.cause = .malformed reason

namespace OnlyMalformed

variable {α β : Type}

theorem pure (value : α) : OnlyMalformed (pure value) := nofun

theorem fail (reason : Malformed) : OnlyMalformed (fail reason : Scan α) := by
  rintro input _ ⟨rfl⟩
  exact ⟨reason, rfl⟩

theorem failAtNext (reason : Malformed) : OnlyMalformed (failAtNext reason : Scan α) := by
  rintro input _ ⟨rfl⟩
  exact ⟨reason, rfl⟩

theorem bind {scan : Scan α} {next : α → Scan β} (first : OnlyMalformed scan)
    (rest : ∀ value, OnlyMalformed (next value)) : OnlyMalformed (scan >>= next) := by
  intro input fault stops
  change (scan input >>= fun p => next p.1 p.2) = _ at stops
  cases read : scan input with
  | ok p =>
    rw [read] at stops
    exact rest p.1 p.2 fault stops
  | error fault' =>
    rw [read] at stops
    obtain rfl := Except.error.inj stops
    exact first input fault' read

theorem ite {condition : Prop} [Decidable condition] {yes no : Scan α} (first : OnlyMalformed yes)
    (second : OnlyMalformed no) : OnlyMalformed (if condition then yes else no) := by
  split
  · exact first
  · exact second

/-- A byte may be passed over first. -/
theorem advanceIf {condition : Prop} [Decidable condition] {rest : Scan α}
    (behind : OnlyMalformed rest) :
    OnlyMalformed (if condition then Scan.advance >>= fun _ => rest else rest) :=
  .ite (.bind nofun fun _ => behind) behind

theorem bounded {loop : Nat → Scan α} (all : ∀ fuel, OnlyMalformed (loop fuel)) :
    OnlyMalformed (bounded loop) :=
  fun input => all _ input

/-- A scanner that always yields something never stops. -/
theorem total {result : List UInt8 → α × List UInt8} :
    OnlyMalformed (fun unread => .ok (result unread)) := nofun

theorem peek : OnlyMalformed peek := nofun

theorem advance : OnlyMalformed advance := nofun

theorem next : OnlyMalformed next := nofun

theorem peekToken : OnlyMalformed peekToken := nofun

theorem digits : OnlyMalformed digits := nofun

end OnlyMalformed

open OnlyMalformed

private theorem onlyMalformed_literal (expected : List UInt8) :
    OnlyMalformed (literal expected) := by
  induction expected with
  | nil => exact .pure ()
  | cons byte rest ih =>
    refine .bind .next fun found => ?_
    cases found with
    | none => exact .fail _
    | some found => exact .ite ih (.fail _)

private theorem onlyMalformed_nextItem (first : Bool) : OnlyMalformed (nextItem first) := by
  refine .bind .peekToken fun byte => ?_
  cases byte with
  | none => exact .fail _
  | some byte =>
    refine .ite (.pure _) (.ite (.pure _) (.ite (.bind .advance fun _ => .bind .peekToken
      fun behind => ?_) (.failAtNext _)))
    cases behind with
    | none => exact .fail _
    | some behind => exact .ite (.failAtNext _) (.pure _)

private theorem onlyMalformed_closeArray : OnlyMalformed closeArray := by
  refine .bind .peekToken fun byte => ?_
  cases byte with
  | none => exact .fail _
  | some byte =>
    refine .ite .advance (.ite (.bind .advance fun _ => .bind .peekToken fun behind => ?_)
      (.failAtNext _))
    cases behind with
    | none => exact .fail _
    | some behind => exact .ite (.failAtNext _) (.failAtNext _)

private theorem onlyMalformed_nextMember (first : Bool) : OnlyMalformed (nextMember first) := by
  have start : ∀ byte, OnlyMalformed (nextMember.nameStart byte)
    | none => .fail _
    | some byte => .ite (.pure _) (.ite (.failAtNext _) (.failAtNext _))
  refine .bind .peekToken fun byte => ?_
  cases byte with
  | none => exact .fail _
  | some byte =>
    exact .ite (.pure _) (.ite (start _) (.ite (.bind .advance fun _ => .bind .peekToken start)
      (.failAtNext _)))

private theorem onlyMalformed_closeObject : OnlyMalformed closeObject := by
  refine .bind .peekToken fun byte => ?_
  cases byte with
  | none => exact .fail _
  | some byte => exact .ite .advance (.ite (.failAtNext _) (.failAtNext _))

private theorem onlyMalformed_colon : OnlyMalformed colon := by
  refine .bind .peekToken fun byte => ?_
  cases byte with
  | none => exact .fail _
  | some byte => exact .ite .advance (.failAtNext _)

private theorem onlyMalformed_finish : OnlyMalformed finish := by
  refine .bind .peekToken fun byte => ?_
  cases byte with
  | none => exact .pure ()
  | some byte => exact .failAtNext _

private theorem onlyMalformed_items {α : Type} {item : Scan α} (inside : OnlyMalformed item)
    (fuel : Nat)
    (first : Bool) : OnlyMalformed (items item fuel first) := by
  induction fuel generalizing first with
  | zero => exact .fail _
  | succ fuel ih =>
    refine .bind (onlyMalformed_nextItem first) fun more => .ite ?_ (.pure _)
    exact .bind inside fun _ => .bind (ih false) fun _ => .pure _

/-! ### Strings -/

private theorem onlyMalformed_hexDigits (count value : Nat) :
    OnlyMalformed (hexDigits count value) := by
  induction count generalizing value with
  | zero => exact .pure _
  | succ count ih =>
    refine .bind .next fun byte => ?_
    cases byte with
    | none => exact .fail _
    | some byte =>
      dsimp only
      split
      · exact .fail _
      · exact ih _

private theorem onlyMalformed_hexUnit : OnlyMalformed hexUnit := by
  intro input fault stops
  unfold hexUnit at stops
  split at stops
  · obtain rfl := Except.error.inj stops
    exact ⟨_, rfl⟩
  · exact onlyMalformed_hexDigits 4 0 input fault stops

private theorem onlyMalformed_pairByte (expected : UInt8) : OnlyMalformed (pairByte expected) := by
  refine .bind .peek fun byte => ?_
  cases byte with
  | none => exact .fail _
  | some byte => exact .ite .advance (.failAtNext _)

private theorem onlyMalformed_unicodeEscape : OnlyMalformed unicodeEscape := by
  refine .bind onlyMalformed_hexUnit fun unit => .ite (.fail _) (.ite ?_ (.pure _))
  refine .bind (onlyMalformed_pairByte _) fun _ => .bind (onlyMalformed_pairByte _) fun _ => ?_
  exact .bind onlyMalformed_hexUnit fun low => .ite (.pure _) (.fail _)

private theorem onlyMalformed_escape : OnlyMalformed escape := by
  refine .bind .next fun byte => ?_
  cases byte with
  | none => exact .fail _
  | some byte =>
    dsimp only
    split
    · exact .pure _
    · exact .ite (.bind onlyMalformed_unicodeEscape fun _ => .pure _) (.fail _)

private theorem onlyMalformed_stringBytes (fuel : Nat) (done : List UInt8) :
    OnlyMalformed (stringBytes fuel done) := by
  induction fuel generalizing done with
  | zero => exact .fail _
  | succ fuel ih =>
    refine .bind .next fun byte => ?_
    cases byte with
    | none => exact .fail _
    | some byte =>
      exact .ite (.pure _) (.ite (.bind onlyMalformed_escape fun _ => ih _) (.ite (.fail _) (ih _)))

private theorem onlyMalformed_string : OnlyMalformed string := by
  refine .bind (.bounded fun fuel => onlyMalformed_stringBytes fuel []) fun bytes => ?_
  split
  · exact .pure _
  · exact .fail _

/-! ### Numbers -/

private theorem onlyMalformed_double (negative : Bool) (parts : Nat × Int) :
    OnlyMalformed (double negative parts) := by
  unfold double
  split
  · exact .pure _
  · exact .fail _

private theorem onlyMalformed_exponent (negative : Bool) (parts : Nat × Int) :
    OnlyMalformed (exponent negative parts) := by
  refine .bind .advance fun _ => .bind .peek fun sign => .advanceIf (.bind .next fun byte => ?_)
  cases byte with
  | none => exact .fail _
  | some byte =>
    dsimp only
    split
    · exact .fail _
    · refine .bind .total fun value => ?_
      cases value with
      | none => exact .ite (.fail _) (.bind .digits fun _ => .pure _)
      | some value => exact onlyMalformed_double _ _

private theorem onlyMalformed_whole (negative : Bool) (digits : List Nat) :
    OnlyMalformed (whole negative digits) :=
  .ite (.pure _) (.ite (.pure _) (onlyMalformed_double _ _))

private theorem onlyMalformed_afterWhole (negative : Bool) (before : List Nat) :
    OnlyMalformed (afterWhole negative before) := by
  refine .bind .peek fun byte =>
    .ite ?_ (.ite (onlyMalformed_exponent _ _) (onlyMalformed_whole _ _))
  refine .bind .advance fun _ => .bind .digits fun fraction => .ite ?_ ?_
  · refine .bind .peek fun behind => ?_
    cases behind with
    | none => exact .fail _
    | some behind => exact .failAtNext _
  · exact .bind .peek fun behind => .ite (onlyMalformed_exponent _ _) (onlyMalformed_double _ _)

private theorem onlyMalformed_number (negative : Bool) : OnlyMalformed (number negative) := by
  refine .bind .next fun byte => ?_
  cases byte with
  | none => exact .fail _
  | some byte =>
    dsimp only
    split
    · exact .fail _
    · refine .bind .peek fun behind => ?_
      cases behind with
      | none => exact onlyMalformed_afterWhole _ _
      | some behind => exact .ite (.failAtNext _) (onlyMalformed_afterWhole _ _)
    · exact .bind .digits fun rest => onlyMalformed_afterWhole _ _

/-! ### Values -/

private theorem onlyMalformed_members {value : Scan Json} (inside : OnlyMalformed value)
    (fuel : Nat)
    (first : Bool) : OnlyMalformed (members value fuel first) := by
  induction fuel generalizing first with
  | zero => exact .fail _
  | succ fuel ih =>
    refine .bind (onlyMalformed_nextMember first) fun more => .ite ?_ (.pure _)
    refine .bind .advance fun _ => .bind onlyMalformed_string fun _ => ?_
    refine .bind onlyMalformed_colon fun _ => .bind inside fun _ => ?_
    exact .bind (ih false) fun _ => .pure _

private theorem onlyMalformed_valueAround {nested : Option (Scan Json)}
    (inside : ∀ value ∈ nested, OnlyMalformed value) : OnlyMalformed (valueAround nested) := by
  have word (tail : List UInt8) (v : Json) :
      OnlyMalformed (advance >>= fun _ => literal tail >>= fun _ => Pure.pure v) :=
    .bind .advance fun _ => .bind (onlyMalformed_literal tail) fun _ => .pure v
  refine .bind .peekToken fun byte => ?_
  cases byte with
  | none => exact .fail _
  | some byte =>
    refine .ite (word _ _) (.ite (word _ _) (.ite (word _ _) (.ite ?_ (.ite ?_ (.ite ?_ (.ite ?_
      (.ite ?_ (.failAtNext _))))))))
    · exact .bind .advance fun _ => .bind (onlyMalformed_number true) fun _ => .pure _
    · exact .bind (onlyMalformed_number false) fun _ => .pure _
    · exact .bind .advance fun _ => .bind onlyMalformed_string fun _ => .pure _
    · cases nested with
      | none => exact .failAtNext _
      | some value =>
        refine .bind .advance fun _ => .bind (.bounded fun fuel => ?_) fun _ => ?_
        · exact onlyMalformed_items (inside value rfl) fuel true
        · exact .bind onlyMalformed_closeArray fun _ => .pure _
    · cases nested with
      | none => exact .failAtNext _
      | some value =>
        refine .bind .advance fun _ => .bind (.bounded fun fuel => ?_) fun _ => ?_
        · exact onlyMalformed_members (inside value rfl) fuel true
        · exact .bind onlyMalformed_closeObject fun _ => .pure _

theorem onlyMalformed_value (depth : Nat) : OnlyMalformed (value depth) := by
  -- A value is read around values that are nested less deep, and too deep a value around none.
  induction depth with
  | zero => exact onlyMalformed_valueAround nofun
  | succ depth ih =>
    refine onlyMalformed_valueAround ?_
    rintro _ ⟨rfl⟩
    exact ih

end Scan

/-- A text is refused only for not being JSON. -/
theorem malformed_of_parse {text : List UInt8} {fault : Fault} (stops : parse text = .error fault) :
    ∃ reason, fault.cause = .malformed reason := by
  have whole : Scan.OnlyMalformed (Scan.value maxDepth >>= fun v =>
      Scan.finish >>= fun _ => pure v) :=
    .bind (Scan.onlyMalformed_value maxDepth) fun v =>
      .bind Scan.onlyMalformed_finish fun _ => .pure v
  unfold parse Scan.run at stops
  split at stops
  next => cases stops
  next fault' read =>
    obtain rfl := Except.error.inj stops
    exact whole text fault' read

theorem Malformed.controlFree_message (reason : Malformed) : ControlFree reason.message := by
  cases reason <;> decide

theorem Fault.controlFree_message {fault : Fault} {reason : Malformed}
    (malformed : fault.cause = .malformed reason) (text : List UInt8) :
    ControlFree (fault.message text) := by
  have cause : ControlFree fault.cause.message := by
    rw [malformed]
    exact reason.controlFree_message
  exact .append (.append (.append (.append cause (by decide)) (controlFree_nat _)) (by decide))
    (controlFree_nat _)

/-! ## Misfits -/

/-- Whatever was found is described without a control character. -/
private theorem Found.controlFree_describe (found : Found) : ControlFree found.describe := by
  cases found with
  | null | sequence | map => decide
  | boolean value => cases value <;> decide
  | number value =>
    cases value with
    | integer n =>
      exact .append (.append (by decide)
        (controlFree_ofList_iff.mpr (not_isControl_of_mem_ofInt n))) (by decide)
    | double x =>
      exact .append (.append (by decide)
        (controlFree_ofList_iff.mpr (Binary64.not_isControl_of_mem_plain x))) (by decide)
  | text value => exact .append (by decide) (controlFree_quoted value)

section

variable {text : String} (free : ControlFree text)

include free

theorem Misfit.controlFree_wrongType (found : Found) :
    ControlFree (wrongType found text).message :=
  .append (.append (.append (by decide) found.controlFree_describe) (by decide)) free

theorem Misfit.controlFree_wrongValue (found : Found) :
    ControlFree (wrongValue found text).message :=
  .append (.append (.append (by decide) found.controlFree_describe) (by decide)) free

theorem Misfit.controlFree_missingField : ControlFree (missingField text).message :=
  .append (.append (by decide) free) (by decide)

theorem Misfit.controlFree_duplicateField : ControlFree (duplicateField text).message :=
  .append (.append (by decide) free) (by decide)

theorem Misfit.controlFree_tooFewItems (count arity : Nat) :
    ControlFree (tooFewItems count text arity).message := by
  have plural : ControlFree (if arity = 1 then "" else "s") := by split <;> decide
  refine .append (.append (.append (.append (.append (.append (.append ?_ ?_) ?_) free) ?_)
    (controlFree_nat arity)) ?_) plural
  · decide
  · exact controlFree_nat count
  all_goals decide

end

theorem Misfit.controlFree_tooManyItems (count : Nat) :
    ControlFree (tooManyItems count).message :=
  .append (.append (by decide) (controlFree_nat count)) (by decide)

end Json

/-! ## Misfits of a shape -/

mutual

/-- The names of the program that a shape is described with. -/
def Shape.vocabulary : Shape → List String
  | .text | .integer | .word | .flag | .json => []
  | .list item => item.vocabulary
  | .option inner => inner.vocabulary
  | .record name fields => name :: fields.vocabulary

def Fields.vocabulary : Fields → List String
  | .nil => []
  | .cons name shape _ rest => name :: (shape.vocabulary ++ rest.vocabulary)

end

open Json (Misfit)

private theorem Shape.controlFree_expected :
    (shape : Shape) → (∀ name ∈ shape.vocabulary, ControlFree name) → ControlFree shape.expected
  | .text, _ | .integer, _ | .word, _ | .flag, _ | .json, _ => by decide
  | .list _, _ => by unfold expected; decide
  | .option inner, free => inner.controlFree_expected free
  | .record name _, free => .append (by decide) (free name List.mem_cons_self)

/-- What does not fit is put into words without a control character. -/
abbrev PlainMisfit {α : Type} (result : Except Misfit α) : Prop :=
  FailsPlainly Misfit.message result

/-- A field that is missing has a name of the program. -/
private theorem Fields.failsPlainly_complete : (fields : Fields) →
    (∀ name ∈ fields.vocabulary, ControlFree name) → (met : fields.Partial) →
    FailsPlainly id (fields.complete met)
  | .nil, _, () => .ok ()
  | .cons name shape required rest, free, (met, others) => by
    obtain ⟨nameFree, free⟩ := List.forall_mem_cons.mp free
    have behind := rest.failsPlainly_complete (List.forall_mem_append.mp free).2 others
    cases met with
    | some value => exact behind.map _
    | none => exact .ite (.error nameFree) (behind.map _)

private theorem Fields.plainMisfit_rowOfMet {fields : Fields}
    (free : ∀ name ∈ fields.vocabulary, ControlFree name) (met : fields.Partial) :
    PlainMisfit (fields.rowOfMet met) := by
  unfold rowOfMet
  split
  · exact .ok _
  next field missing =>
    exact .error (Misfit.controlFree_missingField (fields.failsPlainly_complete free met _ missing))

private theorem plainMisfit_integerOfJson (value : Json) : PlainMisfit (integerOfJson value) := by
  unfold integerOfJson
  split
  · exact .ite (.ok _) (.error (Misfit.controlFree_wrongValue (by decide) _))
  · exact .error (Misfit.controlFree_wrongType (by decide) _)

private theorem plainMisfit_wordOfJson (value : Json) : PlainMisfit (wordOfJson value) := by
  unfold wordOfJson
  split
  · exact .ite (.ok _) (.error (Misfit.controlFree_wrongValue (by decide) _))
  · exact .error (Misfit.controlFree_wrongType (by decide) _)

mutual

theorem Shape.plainMisfit_ofJson (shape : Shape)
    (free : ∀ name ∈ shape.vocabulary, ControlFree name) (value : Json) :
    PlainMisfit (shape.ofJson value) := by
  -- All shapes refuse a value of another type in the same words.
  have otherType : PlainMisfit
      (.error (.wrongType (.ofJson value) shape.expected) : Except Misfit shape.Value) :=
    .error (Misfit.controlFree_wrongType (shape.controlFree_expected free) _)
  cases shape with
  | text | flag =>
    unfold Shape.ofJson
    split
    · exact .ok _
    · exact otherType
  | integer => exact plainMisfit_integerOfJson value
  | word => exact plainMisfit_wordOfJson value
  | json => exact .ok value
  | list item =>
    unfold Shape.ofJson
    split
    · exact .mapM (item.plainMisfit_ofJson free) _
    · exact otherType
  | option inner =>
    unfold Shape.ofJson
    split
    · exact .ok none
    · exact .map (inner.plainMisfit_ofJson free value) some
  | record name fields =>
    have fieldsFree : ∀ name ∈ fields.vocabulary, ControlFree name :=
      (List.forall_mem_cons.mp free).2
    unfold Shape.ofJson
    split
    next members =>
      have each (met : fields.Partial) (member : String × Json) :=
        fields.plainMisfit_takeMember fieldsFree member.1 member.2 met
      exact .bind (.foldlM each _ _) (Fields.plainMisfit_rowOfMet fieldsFree)
    next items =>
      have row := fields.plainMisfit_ofItems (free name List.mem_cons_self) fields.arity
        fieldsFree 0 items
      split
      · exact .ite (.error (Misfit.controlFree_tooManyItems _)) (.ok _)
      next misfit stops => exact .error (row misfit stops)
    · exact otherType

theorem Fields.plainMisfit_takeMember (fields : Fields)
    (free : ∀ name ∈ fields.vocabulary, ControlFree name) (key : String) (value : Json)
    (met : fields.Partial) : PlainMisfit (fields.takeMember key value met) := by
  cases fields with
  | nil => exact .ok ()
  | cons name shape required rest =>
    obtain ⟨nameFree, others⟩ := List.forall_mem_cons.mp free
    obtain ⟨shapeFree, restFree⟩ := List.forall_mem_append.mp others
    obtain ⟨met, behind⟩ := met
    unfold Fields.takeMember
    refine .ite ?_ (.bind (rest.plainMisfit_takeMember restFree key value behind) fun _ => .ok _)
    cases met with
    | some _ => exact .error (Misfit.controlFree_duplicateField nameFree)
    | none => exact .bind (shape.plainMisfit_ofJson shapeFree value) fun _ => .ok _

theorem Fields.plainMisfit_ofItems (fields : Fields) {record : String}
    (recordFree : ControlFree record) (arity : Nat)
    (free : ∀ name ∈ fields.vocabulary, ControlFree name) (index : Nat) (items : List Json) :
    PlainMisfit (Fields.ofItems record arity fields index items) := by
  cases fields with
  | nil => exact .ok ()
  | cons name shape required rest =>
    obtain ⟨-, others⟩ := List.forall_mem_cons.mp free
    obtain ⟨shapeFree, restFree⟩ := List.forall_mem_append.mp others
    have row := rest.plainMisfit_ofItems recordFree arity restFree (index + 1)
    cases items with
    | nil =>
      have absent : PlainMisfit (Fields.ofItems record arity rest (index + 1) [] >>=
          fun row => pure (shape.absent, row)) := .bind (row []) fun _ => .ok _
      unfold Fields.ofItems
      split
      · exact .error (Misfit.controlFree_tooFewItems recordFree index arity)
      · exact absent
    | cons item items =>
      exact .bind (shape.plainMisfit_ofJson shapeFree item)
        fun _ => .bind (row items) fun _ => .ok _

end

theorem RequestKind.controlFree_vocabulary (kind : RequestKind) :
    ∀ name ∈ kind.shape.vocabulary, ControlFree name := by
  induction kind with
  | mint | buyOffer | sellOffer | deleteOffer | invoice => decide
  | signed kind ih =>
    have wrapper : ∀ name ∈ ["SignedRequest", "public_key", "signature", "payload"],
        ControlFree name := by decide
    have split : (signed kind).shape.vocabulary =
        ["SignedRequest", "public_key", "signature", "payload"] ++ kind.shape.vocabulary := by
      simp [Shape.vocabulary, Fields.vocabulary]
    rw [split]
    exact List.forall_mem_append.mpr ⟨wrapper, ih⟩

end TokenIntake
