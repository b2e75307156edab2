import TokenIntake.Field.Message
import TokenIntake.Proofs.Bodies
import TokenIntake.Proofs.Cleaning
import TokenIntake.Proofs.Parameters
import TokenIntake.Proofs.Review

/-!
# Entry points

A hash, an address or a public key comes in by itself, in an on-chain message, as a positional
parameter or inside a body. Parameters have a limit of size of their own, which refuses nothing
that a check accepts, and a body yields its strings as they were written; so a text is accepted
everywhere or nowhere.
-/

namespace TokenIntake

open Json (Denotes)

namespace RequestKind

/-! ## Bodies -/

/-- The body denotes an object that fits as the request. -/
def Carries (kind : RequestKind) (body : List UInt8) (request : kind.Request) : Prop :=
  ∃ members, Denotes body (.object members) ∧
    kind.shape.Fits (.object members) (kind.toValue request)

/-- A request is carried by what it is written as. -/
theorem carries_write {kind : RequestKind} {request : kind.Request}
    (metadata : ∀ document ∈ kind.metadata? request,
      document ≠ .null ∧ document.Whole ∧ document.Ordered)
    (shallow : (kind.shape.toJson (kind.toValue request)).nesting ≤ 127) :
    kind.Carries (Utf8.ofString (kind.write request)) request :=
  exists_members_of_write (faithful_toValue kind request metadata) shallow

/-- A body is answered by the request that it carries, or by the errors of its fields. -/
theorem Carries.answer_eq {kind : RequestKind} {body : List UInt8} {request : kind.Request}
    (carries : kind.Carries body request) : (kind.parse body).answer =
      if (kind.reviewed request).filterMap ReviewedField.error? = [] then .ok request
      else .error (.invalidFields ((kind.reviewed request).filterMap ReviewedField.error?)) := by
  obtain ⟨members, denotes, fits⟩ := carries
  rw [parse_of_denotes denotes, ofJson_of_fits (ordered_of_denotes denotes) fits, accept_answer,
    review_answer]
  by_cases silent : (kind.reviewed request).filterMap ReviewedField.error? = []
  · rw [if_pos silent, if_pos silent]
  · rw [if_neg silent, if_neg silent]

theorem Carries.answer_eq_ok_iff {kind : RequestKind} {body : List UInt8}
    {request other : kind.Request} (carries : kind.Carries body request) :
    (kind.parse body).answer = .ok other ↔
      other = request ∧ ∀ field ∈ kind.reviewed request, field.Rule := by
  rw [carries.answer_eq, ← ReviewedField.all_rules_iff (reviewed_sound kind request)]
  split
  next silent => simp [silent, eq_comm]
  next refused => simp [refused]

end RequestKind

/-! ## Parameters -/

/-- The limit of size of a parameter refuses only what the check refuses as well. -/
theorem Params.checkedText_singleton_eq_ok_iff {check : String → Verdict}
    (long : QueryValue.RefusesLong check) {text value name : String} :
    checkedText check (.array [.string text]) 0 name = .ok value ↔
      value = text ∧ check text = .ok () := by
  have here : StandsAt (.array [.string text]) 0 (.string value) ↔ value = text := by
    simp [StandsAt, eq_comm]
  rw [checkedText_eq_ok_iff, here]
  constructor
  · rintro ⟨⟨rfl, -⟩, accepted⟩
    exact ⟨rfl, accepted⟩
  · rintro ⟨rfl, accepted⟩
    refine ⟨⟨rfl, Nat.not_lt.mp fun tooLong => ?_⟩, accepted⟩
    obtain ⟨rejection, refuses⟩ := long
    cases accepted.symm.trans (refuses value (Nat.lt_trans (by decide) tooLong))

/-! ## Agreement -/

/-- The checks of a text, the parameter and the body that hold it accept it exactly if it keeps
the rule, and those that return it leave it unchanged. -/
structure AgreeOn {Request : Type} (text : String) (rule : Prop) (checks : List (String → Verdict))
    (parameter : Except RpcError String) (answer : Except RpcError Request)
    (field : Request → String) : Prop where
  checked : ∀ check ∈ checks, check text = .ok () ↔ rule
  parameter_accepted : (∃ value, parameter = .ok value) ↔ rule
  parameter_unchanged : ∀ value, parameter = .ok value → value = text
  body_accepted : (∃ request, answer = .ok request) ↔ rule
  body_unchanged : ∀ request, answer = .ok request → field request = text

/-- A body whose one field in question is the text agrees with the check of that field. -/
theorem RequestKind.Carries.agreeOn {kind : RequestKind} {body : List UInt8}
    {request : kind.Request} (carries : kind.Carries body request) {text name : String}
    {rule : Prop} {check : String → Verdict} {checks : List (String → Verdict)}
    {field : kind.Request → String} (same : ∀ other ∈ checks, other = check)
    (keeps : check text = .ok () ↔ rule) (long : QueryValue.RefusesLong check)
    (decides : (∀ field ∈ kind.reviewed request, field.Rule) ↔ rule)
    (holds : field request = text) :
    AgreeOn text rule checks (Params.checkedText check (.array [.string text]) 0 name)
      (kind.parse body).answer field where
  checked other found := by rw [same other found, keeps]
  parameter_accepted := by simp [Params.checkedText_singleton_eq_ok_iff long, keeps]
  parameter_unchanged value accepted := ((Params.checkedText_singleton_eq_ok_iff long).mp accepted).1
  body_accepted := by simp [carries.answer_eq_ok_iff, decides]
  body_unchanged other accepted := by rw [(carries.answer_eq_ok_iff.mp accepted).1, holds]

/-- A text is a hash, an address or a public key for all entry points or for none. The bodies are
all those that carry a request with the text in its place and all else in order; what a request
is written as is one of them. -/
theorem entry_points_agree (text name : String) :
    (∀ body, RequestKind.Carries .deleteOffer body ⟨text⟩ →
      AgreeOn text (Hash.Rule text) [Hash.check, Message.checkHash]
        (Params.hash (.array [.string text]) 0 name)
        (RequestKind.parse .deleteOffer body).answer (·.offerHash)) ∧
    (∀ body mintHash quantity price, Hash.Rule mintHash → Amount.Rule quantity →
      Amount.Rule price → RequestKind.Carries .sellOffer body ⟨text, mintHash, quantity, price⟩ →
      AgreeOn text (Address.Rule text) [Address.check, Message.checkAddress]
        (Params.address (.array [.string text]) 0 name)
        (RequestKind.parse .sellOffer body).answer (·.offererAddress)) ∧
    (∀ (kind : RequestKind) (body : List UInt8) (signature : String) (payload : kind.Request),
      Signature.Rule signature → (∀ field ∈ kind.reviewed payload, field.Rule) →
      RequestKind.Carries (.signed kind) body ⟨text, signature, payload⟩ →
      AgreeOn text (PublicKey.Rule text) [PublicKey.check]
        (Params.publicKey (.array [.string text]) 0 name)
        (RequestKind.parse (.signed kind) body).answer (·.publicKey)) ∧
    Denotes (Utf8.ofString (Json.array [.string text]).compact) (.array [.string text]) ∧
    ∀ (kind : RequestKind) (request : kind.Request),
      (∀ document ∈ kind.metadata? request,
        document ≠ .null ∧ document.Whole ∧ document.Ordered) →
      (kind.shape.toJson (kind.toValue request)).nesting ≤ 127 →
      kind.Carries (Utf8.ofString (kind.write request)) request := by
  refine ⟨fun body carries => ?_, ?_, ?_, ?_, fun kind request => RequestKind.carries_write⟩
  · have same : ∀ check ∈ [Hash.check, Message.checkHash], check = Hash.check :=
      List.forall_mem_cons.mpr ⟨rfl, List.forall_mem_singleton.mpr rfl⟩
    refine carries.agreeOn same Hash.check_eq_ok_iff QueryValue.refusesLong_hash ?_ rfl
    simp [RequestKind.reviewed]
  · intro body mintHash quantity price hash amount amount' carries
    have same : ∀ check ∈ [Address.check, Message.checkAddress], check = Address.check :=
      List.forall_mem_cons.mpr ⟨rfl, List.forall_mem_singleton.mpr rfl⟩
    refine carries.agreeOn same Address.check_eq_ok_iff QueryValue.refusesLong_address ?_ rfl
    simp [RequestKind.reviewed, hash, amount, amount']
  · intro kind body signature payload signed inOrder carries
    refine carries.agreeOn (by simp) PublicKey.check_eq_ok_iff
      QueryValue.refusesLong_publicKey ?_ rfl
    -- A signature leaves the rules of the fields of its payload as they are.
    have payloadRules : ∀ field ∈ (kind.reviewed payload).map ReviewedField.signed, field.Rule :=
      List.forall_mem_map.mpr inOrder
    have signatureRules : (∀ field ∈ RequestKind.signatureFields text signature, field.Rule) ↔
        PublicKey.Rule text := by
      simp [RequestKind.signatureFields, signed]
    rw [RequestKind.reviewed, List.forall_mem_append, signatureRules, and_iff_left payloadRules]
  · exact ⟨_, Json.document_compact (by simp [Json.Whole, Json.WholeItems])
      (by simp [Json.nesting, Json.nestingItems]), rfl⟩

end TokenIntake
