import TokenIntake.Proofs.Decimals
import TokenIntake.Proofs.EntryPoints
import TokenIntake.Proofs.Runs

/-!
# Quantities

A whole number in plain decimal comes in as a quantity in three ways: as a parameter, in a body
and on the command line. Two of them read it as part of a document, one as a text. All three
accept the numbers from one to one billion and no others, and none takes a number for another
one because it is too wide for a word.
-/

namespace TokenIntake

open Json (Denotes Value)

/-! ## Amounts -/

/-- Why a number is not an amount. -/
def Amount.refusal (field : String) (n : Int) : Rejection :=
  if n ≤ 0 then .notPositive field else .exceedsMaximum field maximum

private theorem Amount.check_eq_error {field : String} {amount : Int64} (breaks : ¬ Rule amount) :
    check field amount = .error (refusal field amount.toInt) := by
  rw [Rule] at breaks
  rw [check_eq_error_iff, refusal]
  by_cases positive : amount.toInt ≤ 0
  · exact .inl ⟨positive, (if_pos positive).symm⟩
  · exact .inr ⟨by omega, by omega, (if_neg positive).symm⟩

/-! ## The message -/

theorem Message.checkQuantity_eq_ok_iff {value : Int32} :
    checkQuantity value = .ok () ↔ value.toInt ≠ 0 ∧ value.toInt ≤ 1000000000 := by
  have largest : Amount.maximum.toInt = 1000000000 := by decide
  unfold checkQuantity
  by_cases zero : value.toInt = 0
  · simp [zero]
  · rw [if_neg zero, Verdict.ensure_eq_ok_iff, decide_eq_true_iff, largest, and_iff_right zero]

/-- A message is asked less than a request: a quantity below zero passes there. On all others the
two checks agree, in their errors as well. -/
theorem Message.checkQuantity_eq_check_iff (value : Int32) :
    checkQuantity value = Quantity.check "quantity" value.toInt64 ↔ 0 ≤ value.toInt := by
  have kept : value.toInt64.toInt = value.toInt := Int32.toInt_toInt64 value
  constructor
  · intro same
    by_contra negative
    have passes : checkQuantity value = .ok () := checkQuantity_eq_ok_iff.mpr (by omega)
    have rule := Amount.check_eq_ok_iff.mp (same.symm.trans passes)
    rw [Amount.Rule, kept] at rule
    omega
  · intro natural
    unfold checkQuantity Quantity.check Amount.check Amount.checkAtMost
    rw [kept]
    by_cases zero : value.toInt = 0
    · rw [if_pos zero, zero]
      rfl
    · have positive : 0 < value.toInt := by omega
      rw [if_neg zero, decide_eq_true positive]
      rfl

/-! ## The parameter -/

/-- A plain decimal between brackets denotes an array of its number. -/
private theorem denotes_plainArray {n : Int} {number : JsonNumber}
    (spelled : Value (.number number) (Utf8.encode (Numeral.ofInt n))) :
    Denotes (Utf8.encode ('[' :: (Numeral.ofInt n ++ [']']))) (.array [.number number]) := by
  have shallow : (Json.array [.number number]).nesting ≤ 127 := by
    simp [Json.nesting, Json.nestingItems]
  have document := Json.Document.mk .nil (.array (.some .nil spelled .nil .nil)) .nil shallow
  have written : Utf8.encode ('[' :: (Numeral.ofInt n ++ [']'])) =
      0x5B :: (Utf8.encode (Numeral.ofInt n) ++ [0x5D]) := by
    simp only [Utf8.encode_append, Utf8.encode_cons]
    rfl
  rw [written]
  exact ⟨_, by simpa using document, rfl⟩

/-- A number that is a word is refused only for its size. -/
theorem Params.quantity_of_word (word : Int64) (name : String) :
    quantity (.array [.number (.integer word.toInt)]) 0 name =
      match Quantity.check name word with
        | .ok () => .ok word
        | .error rejection => .error (.ofRejection rejection) := by
  have reads : (Json.integer word.toInt).integer? Word.fitsSigned = some word.toInt :=
    Json.integer?_eq_some_iff.mpr ⟨rfl, Word.fitsSigned_toInt word⟩
  rw [quantity_eq, extract_of_standsAt ⟨_, rfl, rfl⟩ reads]
  cases verdict : Quantity.check name word <;>
    simp [judgeQuantity, Int64.ofInt_toInt, verdict]

theorem Params.quantity_of_noWord {number : JsonNumber}
    (noWord : ∀ word : Int64, number ≠ .integer word.toInt) (name : String) :
    quantity (.array [.number number]) 0 name = .error (missing name) := by
  rw [quantity_eq]
  refine extract_of_noKind ?_
  rintro item ⟨_, ⟨⟩, here⟩
  obtain rfl := Option.some.inj here
  rw [Option.eq_none_iff_forall_ne_some]
  intro n reads
  obtain ⟨⟨⟩, fits⟩ := Json.integer?_eq_some_iff.mp reads
  exact noWord (Int64.ofInt n) (by rw [Word.toInt_ofInt_of_fitsSigned fits])

/-! ## The body -/

/-- A body that offers a number of fractions for sale and is in order otherwise. -/
structure SellOfferOf (number : JsonNumber) where
  body : List UInt8
  members : List (String × Json)
  offererAddress : String
  mintHash : String
  price : Int64
  denotes : Denotes body (.object members)
  lookup_offererAddress : Json.lookup "offerer_address" members = some (.string offererAddress)
  lookup_mintHash : Json.lookup "mint_hash" members = some (.string mintHash)
  lookup_quantity : Json.lookup "quantity" members = some (.number number)
  lookup_price : Json.lookup "price" members = some (.integer price.toInt)
  address : Address.Rule offererAddress
  hash : Hash.Rule mintHash
  amount : Amount.Rule price

namespace SellOfferOf

variable {number : JsonNumber}

/-- The offer of a word of fractions. -/
def request (offer : SellOfferOf number) (word : Int64) : SellOfferPayload :=
  ⟨offer.offererAddress, offer.mintHash, word, offer.price⟩

theorem carries {word : Int64} (offer : SellOfferOf (.integer word.toInt)) :
    RequestKind.Carries .sellOffer offer.body (offer.request word) := by
  refine ⟨offer.members, offer.denotes, .inl ⟨offer.members, rfl, ?_⟩⟩
  simp [SellOfferPayload.fields, Fields.FitMembers, RequestKind.toValue,
    SellOfferPayload.toRow, request, offer.lookup_offererAddress, offer.lookup_mintHash,
    offer.lookup_quantity, offer.lookup_price, Shape.Fits, Json.integer]

/-- The only field that may be refused is the quantity. -/
theorem answer_of_word {word : Int64} (offer : SellOfferOf (.integer word.toInt)) :
    (RequestKind.parse .sellOffer offer.body).answer =
      match Quantity.check "quantity" word with
        | .ok () => .ok (offer.request word)
        | .error rejection => .error (.invalidFields [⟨"quantity", rejection.message⟩]) := by
  have address := Address.check_eq_ok_iff.mpr offer.address
  have hash := Hash.check_eq_ok_iff.mpr offer.hash
  have price : Price.check "price" offer.price = .ok () :=
    Amount.check_eq_ok_iff.mpr offer.amount
  have errors : (RequestKind.reviewed .sellOffer (offer.request word)).filterMap
      ReviewedField.error? = match Quantity.check "quantity" word with
        | .ok () => []
        | .error rejection => [⟨"quantity", rejection.message⟩] := by
    rw [RequestKind.reviewed, request, address, hash, price]
    cases Quantity.check "quantity" word <;> rfl
  rw [offer.carries.answer_eq, errors]
  cases Quantity.check "quantity" word with
  | ok => rfl
  | error rejection => exact if_neg (List.cons_ne_nil _ _)

theorem answer_of_noWord (offer : SellOfferOf number)
    (noWord : ∀ word : Int64, number ≠ .integer word.toInt) :
    ∃ text, (RequestKind.parse .sellOffer offer.body).answer =
      .error (.parseError ("Invalid request body: " ++ text)) := by
  rw [RequestKind.parse_of_denotes offer.denotes]
  have ordered := RequestKind.ordered_of_denotes offer.denotes
  refine RequestKind.ofJson_of_misfit ordered fun request fits => ?_
  -- The offer is an object, so its quantity is looked up by name.
  obtain ⟨members, ⟨⟩, fits⟩ | ⟨items, ⟨⟩, -⟩ := fits
  obtain ⟨-, -, quantity, -⟩ := fits
  rw [offer.lookup_quantity] at quantity
  exact noWord _ (Json.number.inj quantity)

/-! ### Plain texts of offers -/

/-- The members of an offer besides its quantity. -/
def otherMembers (offererAddress mintHash : String) (price : Int64) : List (String × Json) :=
  [("offerer_address", .string offererAddress), ("mint_hash", .string mintHash),
    ("price", .integer price.toInt)]

/-- An offer as a text, with its quantity in plain decimal. -/
def plainText (offererAddress mintHash : String) (quantity : Int) (price : Int64) : List Char :=
  '\x7b' :: (Json.writeString "quantity" ++ ':' :: (Numeral.ofInt quantity ++
    Json.writeMembersAfter (otherMembers offererAddress mintHash price)) ++ ['\x7d'])

theorem document_plainText {n : Int}
    (spelled : Value (.number number) (Utf8.encode (Numeral.ofInt n)))
    (offererAddress mintHash : String) (price : Int64) :
    Json.Document
      (.object (("quantity", .number number) :: otherMembers offererAddress mintHash price))
      (Utf8.encode (plainText offererAddress mintHash n price)) := by
  have whole : Json.WholeMembers (otherMembers offererAddress mintHash price) :=
    ⟨trivial, trivial, .inl (Word.fitsSigned_toInt price), trivial⟩
  have first := Json.Member.mk (Json.stringSpelling_writeString "quantity") .nil .nil spelled
  have entries := Json.Entries.some .nil first .nil (Json.moreEntries_writeMembersAfter _ whole)
  have shallow : (Json.object (("quantity", .number number) ::
      otherMembers offererAddress mintHash price)).nesting ≤ 127 := by
    simp [otherMembers, Json.nesting, Json.nestingMembers, Json.integer]
  have document := Json.Document.mk .nil (.object entries) .nil shallow
  have written : Utf8.encode (plainText offererAddress mintHash n price) =
      0x7B :: (Utf8.encode (Json.writeString "quantity") ++ 0x3A :: (Utf8.encode (Numeral.ofInt n) ++
        Utf8.encode (Json.writeMembersAfter (otherMembers offererAddress mintHash price))) ++
          [0x7D]) := by
    simp only [plainText, Utf8.encode_append, Utf8.encode_cons]
    rfl
  rw [written]
  simpa using document

/-- The text of an offer is a body that offers the number its quantity spells. -/
theorem exists_plainText {n : Int}
    (spelled : Value (.number number) (Utf8.encode (Numeral.ofInt n)))
    {offererAddress mintHash : String} {price : Int64} (address : Address.Rule offererAddress)
    (hash : Hash.Rule mintHash) (amount : Amount.Rule price) :
    ∃ offer : SellOfferOf number,
      offer.body = Utf8.encode (plainText offererAddress mintHash n price) := by
  let members := Json.normalMembers
    (("quantity", .number number) :: otherMembers offererAddress mintHash price)
  -- Sorting moves the members but, their names being distinct, loses none.
  have distinct : (members.map Prod.fst).Nodup := by
    simp [members, otherMembers, Json.normalMembers]
  have lookup (name : String) : Json.lookup name (Json.sortMembers members) =
      Json.lookup name members := by
    rw [Json.lookup_sortMembers, Json.lookup_reverse_of_nodup distinct]
  have document := document_plainText spelled offererAddress mintHash price
  exact ⟨⟨_, _, offererAddress, mintHash, price, ⟨_, document, rfl⟩, lookup _, lookup _, lookup _,
    lookup _, address, hash, amount⟩, rfl⟩

end SellOfferOf

/-! ## The command line -/

/-- The command line reads a plain decimal as its word, or as none. -/
theorem Cli.run_quantity (files : Files) (environment : Option String) (n : Int) :
    ∃ log, Cli.run files environment ["quantity", "--", String.ofList (Numeral.ofInt n)] =
      Finding.output log (if Word.fitsSigned n = true
        then .ofVerdict (Quantity.check "quantity" (Int64.ofInt n))
        else .notNumber "quantity" (if n < 0 then .tooSmall else .tooLarge)) := by
  obtain ⟨log, output⟩ :=
    run_endOfOptions files environment .quantity (String.ofList (Numeral.ofInt n))
  refine ⟨log, output.trans (congrArg _ ?_)⟩
  rw [FieldKind.find, String.toList_ofList, trim_eq_self fun c => Numeral.isBlank_of_mem_ofInt,
    Numeral.signed64_ofInt]
  split <;> rfl

/-! ## Agreement -/

/-- The answers to a whole number as a parameter, in a body and on the command line tell the same
about it, whether it is an amount, out of range or too wide for a word. -/
structure QuantityAgreement (n : Int) (name : String) (parameter : Except RpcError Int64)
    (answer : Except RpcError SellOfferPayload) (output : Cli.Output) : Prop where
  parameter_accepted :
    (∃ quantity, parameter = .ok quantity ∧ quantity.toInt = n) ↔ 1 ≤ n ∧ n ≤ 1000000000
  answer_accepted :
    (∃ offer, answer = .ok offer ∧ offer.quantity.toInt = n) ↔ 1 ≤ n ∧ n ≤ 1000000000
  output_accepted : output.exit = 0 ↔ 1 ≤ n ∧ n ≤ 1000000000
  outOfRange : -9223372036854775808 ≤ n ∧ n < 9223372036854775808 →
    ¬ (1 ≤ n ∧ n ≤ 1000000000) →
      parameter = .error (.invalidParams (Amount.refusal name n).message) ∧
        answer = .error (.invalidFields [⟨"quantity", (Amount.refusal "quantity" n).message⟩])
  tooWide : ¬ (-9223372036854775808 ≤ n ∧ n < 9223372036854775808) →
    parameter = .error (.invalidParams ("Missing " ++ name ++ " parameter")) ∧
      (∃ text, answer = .error (.parseError text)) ∧
      output.exit = 1 ∧ output.stdout = "" ∧
        ∃ fault, output.error = some ("quantity is not a number: " ++ fault)

namespace QuantityAgreement

/-- A number that is a word is judged by that word everywhere. -/
theorem of_word {word : Int64} (offer : SellOfferOf (.integer word.toInt)) (name : String)
    (files : Files) (environment : Option String) :
    QuantityAgreement word.toInt name
      (Params.quantity (.array [.number (.integer word.toInt)]) 0 name)
      (RequestKind.parse .sellOffer offer.body).answer
      (Cli.run files environment
        ["quantity", "--", String.ofList (Numeral.ofInt word.toInt)]) := by
  have bounds := (Word.fitsSigned_iff _).mp (Word.fitsSigned_toInt word)
  obtain ⟨log, output⟩ := Cli.run_quantity files environment word.toInt
  rw [Params.quantity_of_word, offer.answer_of_word, output,
    if_pos (Word.fitsSigned_toInt word), Int64.ofInt_toInt]
  -- All three answers hang on the check of the word alone.
  by_cases inRange : 1 ≤ word.toInt ∧ word.toInt ≤ 1000000000
  · have accepted (field : String) : Quantity.check field word = .ok () :=
      Amount.check_eq_ok_iff.mpr inRange
    rw [accepted, accepted]
    exact {
      parameter_accepted := iff_of_true ⟨word, rfl, rfl⟩ inRange
      answer_accepted := iff_of_true ⟨_, rfl, rfl⟩ inRange
      output_accepted := iff_of_true rfl inRange
      outOfRange := fun _ outside => absurd inRange outside
      tooWide := fun wide => absurd bounds wide }
  · have refused (field : String) : Quantity.check field word =
        .error (Amount.refusal field word.toInt) :=
      Amount.check_eq_error inRange
    rw [refused, refused]
    exact {
      parameter_accepted := iff_of_false (by simp) inRange
      answer_accepted := iff_of_false (by simp) inRange
      output_accepted := iff_of_false (by simp [Cli.Finding.ofVerdict, Cli.Finding.output]) inRange
      outOfRange := fun _ _ => ⟨rfl, rfl⟩
      tooWide := fun wide => absurd bounds wide }

/-- A number that is no word is a quantity nowhere. -/
theorem of_noWord {n : Int} {number : JsonNumber} (wide : ¬ Word.fitsSigned n = true)
    (noWord : ∀ word : Int64, number ≠ .integer word.toInt) (offer : SellOfferOf number)
    (name : String) (files : Files) (environment : Option String) :
    QuantityAgreement n name (Params.quantity (.array [.number number]) 0 name)
      (RequestKind.parse .sellOffer offer.body).answer
      (Cli.run files environment ["quantity", "--", String.ofList (Numeral.ofInt n)]) := by
  obtain ⟨log, output⟩ := Cli.run_quantity files environment n
  obtain ⟨text, answer⟩ := offer.answer_of_noWord noWord
  rw [Params.quantity_of_noWord noWord, answer, output, if_neg wide]
  rw [Word.fitsSigned_iff] at wide
  have outside : ¬ (1 ≤ n ∧ n ≤ 1000000000) := by omega
  exact {
    parameter_accepted := iff_of_false (by simp) outside
    answer_accepted := iff_of_false (by simp) outside
    output_accepted := iff_of_false (by simp [Cli.Finding.output]) outside
    outOfRange := fun fits => absurd fits wide
    tooWide := fun _ => ⟨rfl, ⟨_, rfl⟩, rfl, rfl, _, rfl⟩ }

end QuantityAgreement

/-- All ways in agree on which whole numbers are quantities. The number stands in plain decimal
in an array of parameters and in a body, which may be the plain text of an offer, and is an
argument of the command line. -/
theorem quantities_agree {n : Int} (short : (Numeral.ofNat n.natAbs).length < 300) :
    ∃ number, Denotes (Utf8.encode ('[' :: (Numeral.ofInt n ++ [']']))) (.array [.number number]) ∧
      (∀ address hash price, Address.Rule address → Hash.Rule hash → Amount.Rule price →
        ∃ offer : SellOfferOf number,
          offer.body = Utf8.encode (SellOfferOf.plainText address hash n price)) ∧
      ∀ (offer : SellOfferOf number) (name : String) (files : Files) (environment : Option String),
        QuantityAgreement n name (Params.quantity (.array [.number number]) 0 name)
          (RequestKind.parse .sellOffer offer.body).answer
          (Cli.run files environment ["quantity", "--", String.ofList (Numeral.ofInt n)]) := by
  -- The number that the decimal spells is the word equal to `n`, if there is one.
  obtain ⟨number, spelled, reads⟩ := Json.exists_value_ofInt short
  refine ⟨number, denotes_plainArray spelled,
    fun address hash price => SellOfferOf.exists_plainText spelled, ?_⟩
  intro offer name files environment
  by_cases fits : Word.fitsSigned n = true
  · obtain ⟨word, rfl⟩ : ∃ word : Int64, word.toInt = n := ⟨_, Word.toInt_ofInt_of_fitsSigned fits⟩
    obtain rfl := (reads word).mpr rfl
    exact .of_word offer name files environment
  · refine .of_noWord fits (fun word same => fits ?_) offer name files environment
    rw [← (reads word).mp same]
    exact Word.fitsSigned_toInt word

/-- The first number past the words with a sign is a word without one, and no quantity. -/
theorem quantities_agree_past_signed :
    (Numeral.ofNat (Int.natAbs 9223372036854775808)).length < 300 ∧
      ∃ number, Denotes (Utf8.ofString "[9223372036854775808]") (.array [.number number]) ∧
        Params.quantity (.array [.number number]) 0 "amount" =
          .error (.invalidParams "Missing amount parameter") ∧
        ∃ text, (RequestKind.parse .sellOffer (Utf8.encode
          (SellOfferOf.plainText "D7P2jVEK6JGiGepUGTAHqELKK8QJ8GCahZ"
            "0000000000000000000000000000000000000000000000000000000000000000"
            9223372036854775808 1))).answer = .error (.parseError text) := by
  have short : (Numeral.ofNat (Int.natAbs 9223372036854775808)).length < 300 := by decide +kernel
  obtain ⟨number, denotes, plain, agree⟩ := quantities_agree short
  have address : Address.Rule "D7P2jVEK6JGiGepUGTAHqELKK8QJ8GCahZ" :=
    Address.check_eq_ok_iff.mp (by decide +kernel)
  have hash : Hash.Rule "0000000000000000000000000000000000000000000000000000000000000000" :=
    Hash.check_eq_ok_iff.mp (by decide +kernel)
  have amount : Amount.Rule 1 := ⟨by decide, by decide⟩
  obtain ⟨offer, body⟩ := plain _ _ 1 address hash amount
  have agreement := agree offer "amount" (fun _ => .error .noFile) none
  obtain ⟨missing, misfit, -⟩ := agreement.tooWide (by decide)
  rw [body] at misfit
  exact ⟨short, number, denotes, missing, misfit⟩

end TokenIntake
