import TokenIntake.Proofs.Fits
import TokenIntake.Proofs.Reading
import TokenIntake.Request.Parse

/-!
# What becomes of a body

The answer to a body is a function of the document that it denotes: a body that denotes
none, one that is no object and one that does not fit have an error of their own each, and
what fits is judged by its review. So a request that was written is read back, and the
spelling of a document does not matter.
-/

namespace TokenIntake.RequestKind

open Json (Document Denotes SameDocument)

/-- The metadata of the mint inside all signatures, if it is a mint. -/
def metadata? : (kind : RequestKind) → kind.Request → Option Json
  | mint, p => p.metadata
  | signed kind, p => kind.metadata? p.payload
  | buyOffer, _ | sellOffer, _ | deleteOffer, _ | invoice, _ => none

theorem faithful_toValue (kind : RequestKind) (request : kind.Request)
    (metadata : ∀ document ∈ kind.metadata? request,
      document ≠ .null ∧ document.Whole ∧ document.Ordered) :
    kind.shape.Faithful (kind.toValue request) := by
  -- Only a mint has fields that are documents or options; a signature adds two texts.
  induction kind with
  | mint =>
    obtain ⟨title, fractionCount, description, tags, document, feedUrl, ownerAddress⟩ := request
    refine ⟨by simp [MintPayload.fields, Fields.names], trivial, trivial, trivial, ?_, ?_, trivial,
      ?_, trivial⟩
    · exact fun _ _ => trivial
    · cases document with
      | none => trivial
      | some document =>
        obtain ⟨present, whole, ordered⟩ := metadata document rfl
        exact ⟨present, whole, ordered⟩
    · cases ownerAddress with
      | none => trivial
      | some address => exact ⟨by simp [Shape.toJson], trivial⟩
  | signed kind ih =>
    exact ⟨by simp [Fields.names], trivial, trivial, ih request.payload metadata, trivial⟩
  | buyOffer =>
    exact ⟨by simp [BuyOfferPayload.fields, Fields.names], trivial, trivial, trivial, trivial,
      trivial, trivial⟩
  | sellOffer =>
    exact ⟨by simp [SellOfferPayload.fields, Fields.names], trivial, trivial, trivial, trivial,
      trivial⟩
  | deleteOffer => exact ⟨by simp [DeleteOfferPayload.fields, Fields.names], trivial, trivial⟩
  | invoice =>
    exact ⟨by simp [InvoicePayload.fields, Fields.names], trivial, trivial, trivial, trivial,
      trivial, trivial, trivial, trivial⟩

theorem parse_of_denotes {kind : RequestKind} {body : List UInt8} {document : Json}
    (denotes : Denotes body document) : kind.parse body = kind.ofJson document := by
  rw [parse, Json.parse_eq_ok_iff.mpr denotes]

theorem parse_of_not_denotes (kind : RequestKind) {body : List UInt8}
    (malformed : ∀ document, ¬ Denotes body document) :
    ∃ text, (kind.parse body).answer = .error (.parseError ("Invalid JSON: " ++ text)) := by
  unfold parse
  cases read : Json.parse body with
  | ok document => exact absurd (Json.parse_eq_ok_iff.mp read) (malformed document)
  | error fault => exact ⟨fault.message body, rfl⟩

theorem distinct_shape (kind : RequestKind) : kind.shape.Distinct := by
  induction kind with
  | mint | buyOffer | sellOffer | deleteOffer | invoice =>
    refine ⟨by decide, ?_⟩
    simp [MintPayload.fields, BuyOfferPayload.fields, SellOfferPayload.fields,
      DeleteOfferPayload.fields, InvoicePayload.fields, Fields.Distinct, Shape.Distinct]
  | signed kind ih => exact ⟨by simp [Fields.names], trivial, trivial, ih, trivial⟩

/-- What a body denotes is in normal form. -/
theorem ordered_of_denotes {body : List UInt8} {document : Json} (denotes : Denotes body document) :
    document.Ordered := by
  obtain ⟨tree, -, rfl⟩ := denotes
  exact tree.ordered_normal

theorem ofJson_of_fits {kind : RequestKind} {members : List (String × Json)}
    {request : kind.Request} (ordered : (Json.object members).Ordered)
    (fits : kind.shape.Fits (.object members) (kind.toValue request)) :
    kind.ofJson (.object members) = kind.accept request := by
  rw [ofJson, (kind.shape.ofJson_eq_ok_iff kind.distinct_shape ordered).mpr fits]
  simp

theorem ofJson_of_misfit {kind : RequestKind} {members : List (String × Json)}
    (ordered : (Json.object members).Ordered)
    (misfit : ∀ request, ¬ kind.shape.Fits (.object members) (kind.toValue request)) :
    ∃ text, (kind.ofJson (.object members)).answer =
      .error (.parseError ("Invalid request body: " ++ text)) := by
  unfold ofJson
  dsimp only
  cases read : kind.shape.ofJson (.object members) with
  | ok value =>
    -- Every value of the shape is that of a request.
    refine absurd ?_ (misfit (kind.ofValue value))
    rw [toValue_ofValue]
    exact (kind.shape.ofJson_eq_ok_iff kind.distinct_shape ordered).mp read
  | error fault => exact ⟨fault.message, rfl⟩

theorem accept_answer (kind : RequestKind) (request : kind.Request) :
    (kind.accept request).answer = match (kind.review request).answer with
      | .ok () => .ok request
      | .error errors => .error (.invalidFields errors) := by
  unfold accept Logged.andThen
  cases (kind.review request).answer <;> rfl

/-- What is written is an object whose members fit the shape as the request. -/
theorem exists_members_of_write {kind : RequestKind} {request : kind.Request}
    (faithful : kind.shape.Faithful (kind.toValue request))
    (shallow : (kind.shape.toJson (kind.toValue request)).nesting ≤ 127) :
    ∃ members, Denotes (Utf8.ofString (kind.write request)) (.object members) ∧
      kind.shape.Fits (.object members) (kind.toValue request) := by
  have denotes : Denotes (Utf8.ofString (kind.write request)) _ :=
    ⟨_, Json.document_compact (Shape.whole_toJson _ faithful) shallow, rfl⟩
  have fits := Shape.fits_toJson _ faithful
  obtain ⟨members, object⟩ : ∃ members,
      (kind.shape.toJson (kind.toValue request)).normal = .object members := by
    cases kind <;> exact ⟨_, rfl⟩
  exact ⟨members, object ▸ denotes, object ▸ fits⟩

/-- A request that was written is read as itself and judged by its review alone. Its metadata
has no doubles and is not null; as documents are held, its whole numbers fit 64 bits and its
objects are sorted. -/
theorem parse_write (kind : RequestKind) (request : kind.Request)
    (metadata : ∀ document ∈ kind.metadata? request,
      document ≠ .null ∧ document.Whole ∧ document.Ordered)
    (shallow : (kind.shape.toJson (kind.toValue request)).nesting ≤ 127) :
    (kind.parse (Utf8.ofString (kind.write request))).answer =
        (match (kind.review request).answer with
          | .ok () => .ok request
          | .error errors => .error (.invalidFields errors)) ∧
      ∀ error, (kind.parse (Utf8.ofString (kind.write request))).answer = .error error →
        error.code = .invalidParams := by
  obtain ⟨members, denotes, fits⟩ :=
    exists_members_of_write (faithful_toValue kind request metadata) shallow
  have answer := accept_answer kind request
  rw [parse_of_denotes denotes, ofJson_of_fits (ordered_of_denotes denotes) fits]
  refine ⟨answer, fun error refused => ?_⟩
  rw [answer] at refused
  cases reviewed : (kind.review request).answer with
  | ok => simp [reviewed] at refused
  | error errors =>
    rw [reviewed] at refused
    cases Except.error.inj refused
    rfl

/-- A signed mint whose metadata has members, a list and a name that needs an escape. -/
def signedMint : Request (.signed .mint) where
  publicKey := "02ab"
  signature := ""
  payload :=
    { title := "Token"
      fractionCount := 1
      description := ""
      tags := ["a"]
      metadata := some (.object [("a", .array [.integer (-1), .null]), ("b\n", .string "\"")])
      feedUrl := ""
      ownerAddress := none }

theorem parse_write_signedMint :
    (∀ document ∈ metadata? (.signed .mint) signedMint,
      document ≠ .null ∧ document.Whole ∧ document.Ordered) ∧
    (parse (.signed .mint) (Utf8.ofString (write (.signed .mint) signedMint))).answer =
      match (review (.signed .mint) signedMint).answer with
        | .ok () => .ok signedMint
        | .error errors => .error (.invalidFields errors) := by
  have metadata : ∀ document ∈ metadata? (.signed .mint) signedMint,
      document ≠ .null ∧ document.Whole ∧ document.Ordered := by
    rintro document ⟨rfl⟩
    refine ⟨by simp, ?_, ?_⟩
    · simp [Json.Whole, Json.WholeMembers, Json.WholeItems, Json.integer, Word.fitsSigned_iff]
    · have before : "a" < "b\n" := by decide
      refine ⟨Json.sorted_cons_iff.mpr ⟨?_, by simp [Json.Sorted]⟩, ?_⟩
      · rintro _ (_ | ⟨_, ⟨⟩⟩)
        exact before
      · simp [Json.Ordered, Json.OrderedMembers, Json.OrderedItems, Json.integer]
  exact ⟨metadata, (parse_write (.signed .mint) signedMint metadata (by decide)).1⟩

/-! ## Verdicts -/

theorem denotes_unique {body : List UInt8} {document other : Json} (h : Denotes body document)
    (h' : Denotes body other) : document = other :=
  Except.ok.inj ((Json.parse_eq_ok_iff.mpr h).symm.trans (Json.parse_eq_ok_iff.mpr h'))

/-- A body has at most one request that it fits as. -/
theorem request_unique {kind : RequestKind} {body : List UInt8} {document document' : Json}
    {request other : kind.Request} (denotes : Denotes body document)
    (fits : kind.shape.Fits document (kind.toValue request)) (denotes' : Denotes body document')
    (fits' : kind.shape.Fits document' (kind.toValue other)) : request = other := by
  obtain rfl := denotes_unique denotes denotes'
  have ordered := ordered_of_denotes denotes
  have read := (kind.shape.ofJson_eq_ok_iff kind.distinct_shape ordered).mpr fits
  have read' := (kind.shape.ofJson_eq_ok_iff kind.distinct_shape ordered).mpr fits'
  have same := Except.ok.inj (read.symm.trans read')
  rw [← kind.ofValue_toValue request, same, ofValue_toValue]

/-- The verdict on a body, with one case for every class of bodies. -/
inductive Judged (kind : RequestKind) (body : List UInt8) : Except RpcError kind.Request → Prop
  | malformed {text : String} (noDocument : ∀ tree, ¬ Document tree body) :
      Judged kind body (.error (.parseError ("Invalid JSON: " ++ text)))
  | noObject {document : Json} {text : String} (denotes : Denotes body document)
      (other : ∀ members, document ≠ .object members) :
      Judged kind body (.error (.invalidRequest text))
  | misfit {members : List (String × Json)} {text : String}
      (denotes : Denotes body (.object members))
      (misfit : ∀ request, ¬ kind.shape.Fits (.object members) (kind.toValue request)) :
      Judged kind body (.error (.parseError ("Invalid request body: " ++ text)))
  | refused {members : List (String × Json)} {request : kind.Request} {errors : List FieldError}
      (denotes : Denotes body (.object members))
      (fits : kind.shape.Fits (.object members) (kind.toValue request))
      (reviewed : (kind.review request).answer = .error errors) :
      Judged kind body (.error (.invalidFields errors))
  | accepted {members : List (String × Json)} {request : kind.Request}
      (denotes : Denotes body (.object members))
      (fits : kind.shape.Fits (.object members) (kind.toValue request))
      (reviewed : (kind.review request).answer = .ok ()) : Judged kind body (.ok request)

theorem judged_parse (kind : RequestKind) (body : List UInt8) :
    Judged kind body (kind.parse body).answer := by
  -- The classes in the order in which the parser tells them apart.
  by_cases malformed : ∀ document, ¬ Denotes body document
  · obtain ⟨text, answer⟩ := parse_of_not_denotes kind malformed
    rw [answer]
    exact .malformed fun tree spelled => malformed tree.normal ⟨tree, spelled, rfl⟩
  · obtain ⟨document, denotes⟩ : ∃ document, Denotes body document := by
      simpa using malformed
    have ordered := ordered_of_denotes denotes
    rw [parse_of_denotes denotes]
    by_cases object : ∃ members, document = .object members
    · obtain ⟨members, rfl⟩ := object
      by_cases fits : ∃ request, kind.shape.Fits (.object members) (kind.toValue request)
      · obtain ⟨request, fits⟩ := fits
        rw [ofJson_of_fits ordered fits, accept_answer]
        cases reviewed : (kind.review request).answer with
        | ok => exact .accepted denotes fits reviewed
        | error errors => exact .refused denotes fits reviewed
      · have misfit := not_exists.mp fits
        obtain ⟨text, answer⟩ := ofJson_of_misfit ordered misfit
        rw [answer]
        exact .misfit denotes misfit
    · have other := not_exists.mp object
      have answer : (kind.ofJson document).answer =
          .error (.invalidRequest "request body must be a JSON object") := by
        cases document with
        | object members => exact absurd rfl (other members)
        | _ => rfl
      rw [answer]
      exact .noObject denotes other

/-- The two messages of a text that is no request start differently. -/
private theorem messages_differ {text text' : String} :
    "Invalid JSON: " ++ text ≠ "Invalid request body: " ++ text' := by
  intro same
  have front := congrArg (fun message => message.toList[8]?) same
  simp [String.toList_append] at front

private theorem not_denotes {body : List UInt8} (noDocument : ∀ tree, ¬ Document tree body)
    (document : Json) : ¬ Denotes body document := by
  rintro ⟨tree, spelled, -⟩
  exact noDocument tree spelled

namespace Judged

variable {kind : RequestKind} {body : List UInt8} {answer : Except RpcError kind.Request}
  (judged : Judged kind body answer)

include judged

theorem malformed_iff :
    (∃ error text, answer = .error error ∧ error.code = .parseError ∧
      error.message = "Invalid JSON: " ++ text) ↔ ∀ tree, ¬ Document tree body := by
  constructor
  · rintro ⟨error, text, rfl, code, message⟩
    cases judged with
    | malformed noDocument => exact noDocument
    -- The one other error of this code has a message of its own.
    | misfit => exact absurd message.symm messages_differ
    | noObject | refused => cases code
  · intro noDocument
    cases judged with
    | malformed => exact ⟨_, _, rfl, rfl, rfl⟩
    | noObject denotes | misfit denotes | refused denotes | accepted denotes =>
      exact absurd denotes (not_denotes noDocument _)

theorem noObject_iff :
    (∃ error, answer = .error error ∧ error.code = .invalidRequest) ↔
      ∃ document, Denotes body document ∧ ∀ members, document ≠ .object members := by
  constructor
  · rintro ⟨error, rfl, code⟩
    cases judged with
    | noObject denotes other => exact ⟨_, denotes, other⟩
    | malformed | misfit | refused => cases code
  · rintro ⟨document, denotes, other⟩
    cases judged with
    | malformed noDocument => exact absurd denotes (not_denotes noDocument _)
    | noObject => exact ⟨_, rfl, rfl⟩
    | misfit denotes' | refused denotes' | accepted denotes' =>
      exact absurd (denotes_unique denotes denotes') (other _)

theorem misfit_iff :
    (∃ error text, answer = .error error ∧ error.code = .parseError ∧
        error.message = "Invalid request body: " ++ text) ↔
      ∃ members, Denotes body (.object members) ∧
        ∀ request, ¬ kind.shape.Fits (.object members) (kind.toValue request) := by
  constructor
  · rintro ⟨error, text, rfl, code, message⟩
    cases judged with
    | malformed => exact absurd message messages_differ
    | misfit denotes misfit => exact ⟨_, denotes, misfit⟩
    | noObject | refused => cases code
  · rintro ⟨members, denotes, misfit⟩
    cases judged with
    | malformed noDocument => exact absurd denotes (not_denotes noDocument _)
    | noObject denotes' other => exact absurd (denotes_unique denotes' denotes) (other members)
    | misfit => exact ⟨_, _, rfl, rfl, rfl⟩
    | refused denotes' fits | accepted denotes' fits =>
      cases denotes_unique denotes denotes'
      exact absurd fits (misfit _)

theorem refused_iff :
    (∃ error, answer = .error error ∧ error.code = .invalidParams) ↔
      ∃ members request errors, Denotes body (.object members) ∧
        kind.shape.Fits (.object members) (kind.toValue request) ∧
          (kind.review request).answer = .error errors := by
  constructor
  · rintro ⟨error, rfl, code⟩
    cases judged with
    | refused denotes fits reviewed => exact ⟨_, _, _, denotes, fits, reviewed⟩
    | malformed | noObject | misfit => cases code
  · rintro ⟨members, request, errors, denotes, fits, reviewed⟩
    cases judged with
    | malformed noDocument => exact absurd denotes (not_denotes noDocument _)
    | noObject denotes' other => exact absurd (denotes_unique denotes' denotes) (other members)
    | misfit denotes' misfit =>
      cases denotes_unique denotes denotes'
      exact absurd fits (misfit request)
    | refused => exact ⟨_, rfl, rfl⟩
    | accepted denotes' fits' reviewed' =>
      obtain rfl := request_unique denotes fits denotes' fits'
      cases reviewed.symm.trans reviewed'

theorem accepted_iff {request : kind.Request} :
    answer = .ok request ↔ ∃ members, Denotes body (.object members) ∧
      kind.shape.Fits (.object members) (kind.toValue request) ∧
        (kind.review request).answer = .ok () := by
  constructor
  · rintro rfl
    cases judged with
    | accepted denotes fits reviewed => exact ⟨_, denotes, fits, reviewed⟩
  · rintro ⟨members, denotes, fits, reviewed⟩
    cases judged with
    | malformed noDocument => exact absurd denotes (not_denotes noDocument _)
    | noObject denotes' other => exact absurd (denotes_unique denotes' denotes) (other members)
    | misfit denotes' misfit =>
      cases denotes_unique denotes denotes'
      exact absurd fits (misfit request)
    | refused denotes' fits' reviewed' =>
      obtain rfl := request_unique denotes fits denotes' fits'
      cases reviewed.symm.trans reviewed'
    | accepted denotes' fits' => rw [request_unique denotes fits denotes' fits']

end Judged

/-- Every body gets the one verdict of its class. Literals out of range are left to the
conversion to a double, which takes every whole number of fewer than 300 digits. -/
theorem parse_verdict (kind : RequestKind) (body : List UInt8) :
    ((∃ error text, (kind.parse body).answer = .error error ∧ error.code = .parseError ∧
        error.message = "Invalid JSON: " ++ text) ↔ ∀ tree, ¬ Document tree body) ∧
    ((∃ error, (kind.parse body).answer = .error error ∧ error.code = .invalidRequest) ↔
      ∃ document, Denotes body document ∧ ∀ members, document ≠ .object members) ∧
    ((∃ error text, (kind.parse body).answer = .error error ∧ error.code = .parseError ∧
        error.message = "Invalid request body: " ++ text) ↔
      ∃ members, Denotes body (.object members) ∧
        ∀ request, ¬ kind.shape.Fits (.object members) (kind.toValue request)) ∧
    ((∃ error, (kind.parse body).answer = .error error ∧ error.code = .invalidParams) ↔
      ∃ members request errors, Denotes body (.object members) ∧
        kind.shape.Fits (.object members) (kind.toValue request) ∧
          (kind.review request).answer = .error errors) ∧
    (∀ request, (kind.parse body).answer = .ok request ↔
      ∃ members, Denotes body (.object members) ∧
        kind.shape.Fits (.object members) (kind.toValue request) ∧
          (kind.review request).answer = .ok ()) ∧
    ∀ literal : Json.NumberLiteral, literal.IsWhole → literal.whole.length < 300 →
      ¬ literal.OutOfRange := by
  -- The parser gives a verdict of the relation, and the relation has one for every class.
  have judged := judged_parse kind body
  exact ⟨judged.malformed_iff, judged.noObject_iff, judged.misfit_iff, judged.refused_iff,
    fun request => judged.accepted_iff,
    fun literal isWhole short => Json.Scan.not_outOfRange_of_short isWhole short⟩

/-! ## Spellings -/

/-- Two spellings of one document get the same answer and leave the same events. -/
theorem parse_eq_of_sameDocument (kind : RequestKind) {body body' : List UInt8}
    {tree tree' : Json} (spelled : Document tree body) (spelled' : Document tree' body')
    (same : SameDocument tree tree') : kind.parse body = kind.parse body' := by
  have denotes : Denotes body tree.normal := ⟨tree, spelled, rfl⟩
  have denotes' : Denotes body' tree.normal := ⟨tree', spelled', same.normal_eq.symm⟩
  rw [parse_of_denotes denotes, parse_of_denotes denotes']

/-- A withdrawal with a shadowed hash, and the same without it in another order and behind a
line feed. -/
theorem parse_shadowed_offer_hash :
    parse .deleteOffer (Utf8.ofString (Json.compact
      (.object [("offer_hash", .null), ("memo", .integer 1), ("offer_hash", .string "a")]))) =
    parse .deleteOffer (0x0A :: Utf8.ofString (Json.compact
      (.object [("offer_hash", .string "a"), ("memo", .integer 1)]))) := by
  have whole : (Json.object [("offer_hash", .null), ("memo", .integer 1),
      ("offer_hash", .string "a")]).Whole := by
    simp [Json.Whole, Json.WholeMembers, Json.integer, Word.fitsSigned_iff]
  have whole' : (Json.object [("offer_hash", .string "a"), ("memo", .integer 1)]).Whole := by
    simp [Json.Whole, Json.WholeMembers, Json.integer, Word.fitsSigned_iff]
  have behind : Document (.object [("offer_hash", .string "a"), ("memo", .integer 1)])
      ([0x0A] ++ Utf8.encode (Json.write
        (.object [("offer_hash", .string "a"), ("memo", .integer 1)])) ++ []) :=
    .mk (by simp [Json.Blanks]) (Json.value_write _ whole') .nil (by decide)
  rw [List.append_nil] at behind
  refine parse_eq_of_sameDocument .deleteOffer (Json.document_compact whole (by decide)) behind ?_
  -- First the shadowed member goes, then the other two change places.
  have shadowed : SameDocument
      (.object ([] ++ ("offer_hash", .null) :: [("memo", .integer 1), ("offer_hash", .string "a")]))
      (.object ([] ++ [("memo", .integer 1), ("offer_hash", .string "a")])) :=
    .shadowed ⟨("offer_hash", .string "a"), by simp, rfl⟩
  have swapped : SameDocument
      (.object ([] ++ ("memo", .integer 1) :: ("offer_hash", .string "a") :: []))
      (.object ([] ++ ("offer_hash", .string "a") :: ("memo", .integer 1) :: [])) :=
    .swap (by simp)
  exact shadowed.trans swapped

end TokenIntake.RequestKind
