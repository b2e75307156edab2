import TokenIntake.Proofs.Steps
import TokenIntake.Proofs.Utf8
import TokenIntake.Request.Review

/-!
# The rules of the fields

What every field of a request has to be, said without its check: lengths count characters,
and character classes are spelled out. Each check accepts exactly the values that keep the
rule of its field; a text of hexadecimal digits is refused for the first reason that applies.
-/

namespace TokenIntake

/-- The safe characters that are no letters and no digits: TAB, LF, FF, CR, space and marks. -/
def safeMarks : List Char :=
  ['\t', '\n', '\x0c', '\r', ' ', '-', '_', '.', ',', '!', '?', '(', ')']

/-- A letter or a digit, a blank or a mark. -/
def SafeChar (c : Char) : Prop :=
  ('a' ≤ c ∧ c ≤ 'z') ∨ ('A' ≤ c ∧ c ≤ 'Z') ∨ ('0' ≤ c ∧ c ≤ '9') ∨ c ∈ safeMarks

/-- The digits and letters that are not easily mistaken for each other. -/
def base58Alphabet : List Char :=
  "123456789ABCDEFGHJKLMNPQRSTUVWXYZabcdefghijkmnopqrstuvwxyz".toList

/-- The hexadecimal digits of either case. -/
def hexAlphabet : List Char := "0123456789abcdefABCDEF".toList

/-- The characters that an address may start with. -/
def addressMarks : List Char := ['D', 'A', 'm', 'n', '2']

/-- A text of one to `max` safe characters. -/
def SafeText (max : Nat) (text : String) : Prop :=
  1 ≤ text.toList.length ∧ text.toList.length ≤ max ∧ ∀ c ∈ text.toList, SafeChar c

/-- A text of exactly `count` hexadecimal digits. -/
def HexText (count : Nat) (text : String) : Prop :=
  text.toList.length = count ∧ ∀ c ∈ text.toList, c ∈ hexAlphabet

/-- One to a hundred safe characters. -/
def Title.Rule (title : String) : Prop := SafeText 100 title

/-- From one to one billion. -/
def Amount.Rule (amount : Int64) : Prop := 1 ≤ amount.toInt ∧ amount.toInt ≤ 1000000000

/-- One to a thousand characters. -/
def Description.Rule (description : String) : Prop :=
  1 ≤ description.toList.length ∧ description.toList.length ≤ 1000

/-- At most twenty tags of one to fifty safe characters. -/
def Tags.Rule (tags : List String) : Prop := tags.length ≤ 20 ∧ ∀ tag ∈ tags, SafeText 50 tag

/-- At most ten thousand bytes as compact JSON. -/
def Metadata.Rule (metadata : Option Json) : Prop :=
  ∀ document ∈ metadata, (Utf8.encode document.write).length ≤ 10000

/-- Empty, or at most five hundred characters that start with a scheme. -/
def FeedUrl.Rule (url : String) : Prop :=
  url = "" ∨ url.toList.length ≤ 500 ∧
    ("http://".toList <+: url.toList ∨ "https://".toList <+: url.toList)

/-- A leading character of one of the networks, and 25 to 34 characters behind it. -/
def Address.Rule (address : String) : Prop :=
  ∃ first body, address.toList = first :: body ∧ first ∈ addressMarks ∧
    25 ≤ body.length ∧ body.length ≤ 34 ∧ ∀ c ∈ body, c ∈ base58Alphabet

/-- The characters that an address of the network starts with. -/
def Network.marks : Network → List Char
  | .mainnet => ['D', 'A']
  | .testnet => ['m', 'n', '2']

/-- An address that starts like those of the network. -/
def Address.OfNetwork (network : Network) (address : String) : Prop :=
  ∃ first body, address.toList = first :: body ∧ first ∈ network.marks ∧
    25 ≤ body.length ∧ body.length ≤ 34 ∧ ∀ c ∈ body, c ∈ base58Alphabet

/-- Absent, empty or an address. -/
def Address.OptionalRule (address : Option String) : Prop :=
  ∀ text ∈ address, text = "" ∨ Address.Rule text

/-- 64 hexadecimal digits. -/
def Hash.Rule (hash : String) : Prop := HexText 64 hash

/-- 66 hexadecimal digits. -/
def PublicKey.Rule (key : String) : Prop := HexText 66 key

/-- Not empty. -/
def Signature.Rule (signature : String) : Prop := signature ≠ ""

/-! ## Characters -/

instance : DecidablePred SafeChar := fun _ => inferInstanceAs (Decidable (_ ∨ _))

/-- Two classes of characters are the same if they are the same below 128 and end there. -/
theorem ascii_iff {p q : Char → Prop} {c : Char}
    (same : ∀ n < 128, p (Char.ofNat n) ↔ q (Char.ofNat n)) (low : p c → c.toNat < 128)
    (low' : q c → c.toNat < 128) : p c ↔ q c := by
  by_cases small : c.toNat < 128
  · have h := same c.toNat small
    rwa [Char.ofNat_toNat] at h
  · exact ⟨fun h => absurd (low h) small, fun h => absurd (low' h) small⟩

theorem toNat_lt_of_le {c bound : Char} (below : c ≤ bound) (low : bound.toNat < 128) :
    c.toNat < 128 :=
  Nat.lt_of_le_of_lt (UInt32.le_iff_toNat_le.mp below) low

/-- Whether an alphabet has only characters below 128 is found out letter by letter. -/
private theorem lt_of_all {alphabet : List Char} (low : alphabet.all (·.toNat < 128) = true) :
    ∀ c ∈ alphabet, c.toNat < 128 := by
  intro c found
  exact of_decide_eq_true (List.all_eq_true.mp low c found)

private theorem base58_lt : ∀ c ∈ base58Alphabet, c.toNat < 128 := lt_of_all (by decide +kernel)

theorem hex_lt : ∀ c ∈ hexAlphabet, c.toNat < 128 := lt_of_all (by decide +kernel)

theorem safeChar_lt {c : Char} : SafeChar c → c.toNat < 128
  | .inl ⟨_, below⟩ | .inr (.inl ⟨_, below⟩) | .inr (.inr (.inl ⟨_, below⟩)) =>
    toNat_lt_of_le below (by decide)
  | .inr (.inr (.inr mark)) => lt_of_all (by decide) c mark

theorem isSafe_iff {c : Char} : isSafe c = true ↔ SafeChar c := by
  -- Below 128 the two classes are compared character by character.
  apply ascii_iff (p := (isSafe · = true))
  · decide +kernel
  · intro safe
    have letter : c.isAlphanum = true → c.toNat < 128 := by
      have ranges : c.isAlphanum = (decide (c.val ≥ 'A'.val ∧ c.val ≤ 'Z'.val) ||
        (c.val ≥ 'a'.val && c.val ≤ 'z'.val) || (c.val ≥ '0'.val && c.val ≤ '9'.val)) := rfl
      rw [ranges]
      simp only [Bool.or_eq_true, Bool.and_eq_true, decide_eq_true_eq]
      rintro ((⟨-, below⟩ | ⟨-, below⟩) | ⟨-, below⟩)
      all_goals exact toNat_lt_of_le below (by decide)
    simp only [isSafe, Bool.or_eq_true, beq_iff_eq] at safe
    obtain (((((((((((((h | rfl) | rfl) | rfl) | rfl) | rfl) | rfl) | rfl) | rfl) | rfl) | rfl) |
      rfl) | rfl) | rfl) := safe
    · exact letter h
    all_goals decide
  · exact safeChar_lt

theorem isBase58_iff {c : Char} : Address.isBase58 c = true ↔ c ∈ base58Alphabet := by
  apply ascii_iff (p := (Address.isBase58 · = true))
  · decide +kernel
  · intro ok
    simp only [Address.isBase58, Bool.or_eq_true, Bool.and_eq_true, decide_eq_true_eq] at ok
    obtain ((((⟨-, below⟩ | ⟨-, below⟩) | ⟨-, below⟩) | ⟨-, below⟩) | ⟨-, below⟩) | ⟨-, below⟩ := ok
    all_goals exact toNat_lt_of_le below (by decide)
  · exact base58_lt c

theorem hexIsDigit_iff {c : Char} : Hex.isDigit c = true ↔ c ∈ hexAlphabet := by
  apply ascii_iff (p := (Hex.isDigit · = true))
  · decide +kernel
  · intro digit
    unfold Hex.isDigit Hex.digit? at digit
    dsimp only at digit
    split at digit
    · omega
    split at digit
    · omega
    split at digit
    · omega
    · cases digit
  · exact hex_lt c

theorem size_eq_length (text : String) :
    text.utf8ByteSize = (Utf8.ofString text).length := by
  rw [← String.size_toByteArray, ← String.utf8Encode_toList, List.utf8Encode, List.size_toByteArray]
  rfl

/-! ## Verdicts -/

theorem bind_eq_ok_iff_and {first second : Verdict} :
    (first >>= fun _ => second) = .ok () ↔ first = .ok () ∧ second = .ok () := by
  cases first <;> simp [bind, Except.bind]

theorem bind_eq_error_iff {first second : Verdict} {rejection : Rejection} :
    (first >>= fun _ => second) = .error rejection ↔
      first = .error rejection ∨ first = .ok () ∧ second = .error rejection := by
  cases first <;> simp [bind, Except.bind]

theorem Verdict.ensure_eq_error_iff {condition : Bool} {rejection other : Rejection} :
    Verdict.ensure condition rejection = .error other ↔ condition = false ∧ rejection = other := by
  cases condition <;> simp [Verdict.ensure]

/-- An answer is refused for the one reason that applies, if reasons exclude each other and whatever
is accepted. -/
theorem eq_error_iff_of_unique {α : Type} {answer : Except Rejection α} {Fault : Rejection → Prop}
    (refused : ∀ rejection, answer = .error rejection → Fault rejection)
    (accepted : ∀ value, answer = .ok value → ∀ rejection, ¬ Fault rejection)
    (unique : ∀ rejection other, Fault rejection → Fault other → rejection = other)
    {rejection : Rejection} : answer = .error rejection ↔ Fault rejection := by
  constructor
  · exact refused rejection
  · intro fault
    cases result : answer with
    | ok value => exact absurd fault (accepted value result rejection)
    | error other => rw [unique other rejection (refused other result) fault]

/-! ## Texts -/

/-- Bytes that encode a text are judged by the number of its characters. -/
theorem checkByteLength_encode (field : String) (text : List Char) (max : Nat) :
    checkByteLength field (Utf8.encode text) max =
      Verdict.ensure (text.length ≤ max) (.tooLong field max) := by
  rw [checkByteLength, Utf8.decode_encode]

theorem checkLength_eq (field text : String) (max : Nat) : checkLength field text max =
    Verdict.ensure (text.toList.length ≤ max) (.tooLong field max) :=
  checkByteLength_encode field text.toList max

theorem checkLength_eq_ok_iff {field text : String} {max : Nat} :
    checkLength field text max = .ok () ↔ text.toList.length ≤ max := by
  rw [checkLength_eq, Verdict.ensure_eq_ok_iff, decide_eq_true_iff]

theorem checkLength_eq_error_iff {field text : String} {max : Nat} {rejection : Rejection} :
    checkLength field text max = .error rejection ↔
      max < text.toList.length ∧ .tooLong field max = rejection := by
  rw [checkLength_eq, Verdict.ensure_eq_error_iff, decide_eq_false_iff_not, Nat.not_le]

theorem isSafeText_iff {text : List Char} :
    isSafeText text = true ↔ text ≠ [] ∧ ∀ c ∈ text, SafeChar c := by
  simp [isSafeText, isSafe_iff]

/-- The check of a safe text of limited length. -/
theorem safeText_eq_ok_iff {field text : String} {max : Nat} {empty hidden : Rejection} :
    (if text.isEmpty then .error empty
      else do
        checkLength field text max
        Verdict.ensure (isSafeText text.toList) hidden) = Except.ok () ↔ SafeText max text := by
  have present : text.isEmpty = true ↔ text.toList = [] := by simp
  unfold SafeText
  by_cases nothing : text.toList = []
  · simp [present.mpr nothing, nothing]
  · rw [if_neg (mt present.mp nothing), bind_eq_ok_iff_and, checkLength_eq_ok_iff,
      Verdict.ensure_eq_ok_iff, isSafeText_iff]
    have positive := List.length_pos_iff.mpr nothing
    exact ⟨fun ⟨short, _, safe⟩ => ⟨positive, short, safe⟩,
      fun ⟨_, short, safe⟩ => ⟨short, nothing, safe⟩⟩

theorem Title.check_eq_ok_iff {title : String} : Title.check title = .ok () ↔ Title.Rule title :=
  safeText_eq_ok_iff

theorem Description.check_eq_ok_iff {description : String} :
    Description.check description = .ok () ↔ Description.Rule description := by
  have present : description.isEmpty = true ↔ description.toList = [] := by simp
  unfold Description.check Description.Rule
  by_cases nothing : description.toList = []
  · simp [present.mpr nothing, nothing]
  · rw [if_neg (mt present.mp nothing), checkLength_eq_ok_iff]
    exact ⟨fun short => ⟨List.length_pos_iff.mpr nothing, short⟩, fun rule => rule.2⟩

theorem FeedUrl.check_eq_ok_iff {url : String} : FeedUrl.check url = .ok () ↔ FeedUrl.Rule url := by
  unfold FeedUrl.check FeedUrl.Rule
  by_cases empty : url = ""
  · simp [empty]
  · have present : ¬ url.isEmpty = true := by simpa using empty
    rw [if_neg present, bind_eq_ok_iff_and, checkLength_eq_ok_iff, Verdict.ensure_eq_ok_iff]
    simp [empty, FeedUrl.hasScheme, maxFeedUrlLength]

theorem Tags.checkFrom_eq_ok_iff {position : Nat} {tags : List String} :
    Tags.checkFrom position tags = .ok () ↔ ∀ tag ∈ tags, SafeText 50 tag := by
  induction tags generalizing position with
  | nil => simp [Tags.checkFrom]
  | cons tag rest ih =>
    rw [Tags.checkFrom, bind_eq_ok_iff_and, ih, List.forall_mem_cons]
    exact and_congr_left' safeText_eq_ok_iff

theorem Tags.check_eq_ok_iff {tags : List String} : Tags.check tags = .ok () ↔ Tags.Rule tags := by
  unfold Tags.check Tags.Rule
  split
  next many =>
    have tooMany : ¬ tags.length ≤ 20 := Nat.not_le.mpr many
    simp [tooMany]
  next few =>
    have enough : tags.length ≤ 20 := Nat.not_lt.mp few
    simp [Tags.checkFrom_eq_ok_iff, enough]

/-! ## Numbers and metadata -/

theorem Amount.check_eq_ok_iff {field : String} {amount : Int64} :
    Amount.check field amount = .ok () ↔ Amount.Rule amount := by
  unfold Amount.check Amount.checkAtMost Amount.Rule
  rw [bind_eq_ok_iff_and, Verdict.ensure_eq_ok_iff, Verdict.ensure_eq_ok_iff, decide_eq_true_iff,
    decide_eq_true_iff]
  exact Iff.rfl

/-- An amount is refused for its sign or else for its size. -/
theorem Amount.check_eq_error_iff {field : String} {amount : Int64} {rejection : Rejection} :
    Amount.check field amount = .error rejection ↔
      amount.toInt ≤ 0 ∧ .notPositive field = rejection ∨
        0 < amount.toInt ∧ 1000000000 < amount.toInt ∧
          .exceedsMaximum field Amount.maximum = rejection := by
  have largest : Amount.maximum.toInt = 1000000000 := by decide
  unfold Amount.check Amount.checkAtMost
  rw [bind_eq_error_iff, Verdict.ensure_eq_error_iff, Verdict.ensure_eq_error_iff,
    Verdict.ensure_eq_ok_iff, decide_eq_true_iff, decide_eq_false_iff_not, decide_eq_false_iff_not,
    largest, Int.not_lt, Int.not_le]

theorem Metadata.check_eq_ok_iff {metadata : Option Json} :
    Metadata.check metadata = .ok () ↔ Metadata.Rule metadata := by
  unfold Metadata.Rule
  cases metadata with
  | none => simp [Metadata.check]
  | some document =>
    rw [Metadata.check, Metadata.checkSize, Verdict.ensure_eq_ok_iff, decide_eq_true_iff]
    simp [Json.compactSize, size_eq_length, Json.compact, Utf8.ofString, maxMetadataSize]

/-! ## Addresses, hashes and keys -/

theorem size_of_ascii {text : String} (low : ∀ c ∈ text.toList, c.toNat < 128) :
    text.utf8ByteSize = text.toList.length := by
  rw [size_eq_length, Utf8.ofString, Utf8.length_encode_of_lt low]

theorem Address.isBody_iff {body : List Char} :
    Address.isBody body = true ↔
      25 ≤ body.length ∧ body.length ≤ 34 ∧ ∀ c ∈ body, c ∈ base58Alphabet := by
  simp [Address.isBody, isBase58_iff, and_assoc]

theorem Address.leading?_eq_some_iff {c : Char} {network : Network} :
    Address.leading? c = some network ↔ c ∈ network.marks := by
  unfold Address.leading?
  split
  next main => rcases main with rfl | rfl <;> cases network <;> simp [Network.marks]
  next notMain =>
    split
    next test => rcases test with rfl | rfl | rfl <;> cases network <;> simp [Network.marks]
    next notTest =>
      simp only [not_or] at notMain notTest
      cases network <;> simp [Network.marks, notMain, notTest]

theorem Address.network?_eq_some_iff {address : String} {network : Network} :
    Address.network? address.toList = some network ↔ Address.OfNetwork network address := by
  unfold Address.OfNetwork
  cases address.toList with
  | nil => simp [Address.network?]
  | cons first body =>
    have whole : Address.network? (first :: body) = some network ↔
        Address.isBody body = true ∧ Address.leading? first = some network := by
      unfold Address.network?
      cases shape : Address.isBody body <;> simp [shape]
    rw [whole, Address.isBody_iff, Address.leading?_eq_some_iff]
    constructor
    · rintro ⟨rule, leading⟩
      exact ⟨first, body, rfl, leading, rule⟩
    · rintro ⟨_, _, ⟨⟩, leading, rule⟩
      exact ⟨rule, leading⟩

theorem Address.OfNetwork.ascii {network : Network} {address : String}
    (form : Address.OfNetwork network address) : ∀ c ∈ address.toList, c.toNat < 128 := by
  obtain ⟨first, body, text, leading, -, -, all⟩ := form
  have low : ∀ c ∈ network.marks, c.toNat < 128 := by
    cases network
    · exact lt_of_all (by decide)
    · exact lt_of_all (by decide)
  rw [text]
  exact List.forall_mem_cons.mpr ⟨low first leading, fun c found => base58_lt c (all c found)⟩

/-- The bytes of an address are its characters. -/
theorem Address.OfNetwork.size {network : Network} {address : String}
    (form : Address.OfNetwork network address) :
    26 ≤ address.utf8ByteSize ∧ address.utf8ByteSize ≤ 35 := by
  rw [size_of_ascii form.ascii]
  obtain ⟨first, body, text, -, low, high, -⟩ := form
  rw [text, List.length_cons]
  omega

theorem Address.OfNetwork.ne_empty {network : Network} {address : String}
    (form : Address.OfNetwork network address) : address ≠ "" := by
  rintro rfl
  obtain ⟨first, body, ⟨⟩, -⟩ := form

/-- The limits of length, which are looked at first, refuse no text of the right form. -/
theorem Address.network_eq_ok_iff {address : String} {network : Network} :
    Address.network address = .ok network ↔ Address.OfNetwork network address := by
  rw [← Address.network?_eq_some_iff]
  unfold Address.network
  constructor
  · intro ok
    split at ok
    · cases ok
    split at ok
    · cases ok
    split at ok
    next found => rw [found, Except.ok.inj ok]
    next => cases ok
  · intro found
    have form := Address.network?_eq_some_iff.mp found
    have sized := form.size
    have present : ¬ address.isEmpty = true := mt String.isEmpty_iff.mp form.ne_empty
    have fits : ¬ (address.utf8ByteSize < minAddressLength ∨
        maxAddressLength < address.utf8ByteSize) := by
      rw [minAddressLength, maxAddressLength]
      omega
    rw [if_neg present, if_neg fits, found]

theorem Address.rule_iff_exists_network {address : String} :
    Address.Rule address ↔ ∃ network, Address.OfNetwork network address := by
  have marks : addressMarks = Network.mainnet.marks ++ Network.testnet.marks := rfl
  have leading (c : Char) : c ∈ addressMarks ↔ ∃ network : Network, c ∈ network.marks := by
    rw [marks, List.mem_append]
    constructor
    · rintro (main | test)
      · exact ⟨.mainnet, main⟩
      · exact ⟨.testnet, test⟩
    · rintro ⟨network, found⟩
      cases network
      · exact .inl found
      · exact .inr found
  constructor
  · rintro ⟨first, body, text, mark, rest⟩
    obtain ⟨network, mark⟩ := (leading first).mp mark
    exact ⟨network, first, body, text, mark, rest⟩
  · rintro ⟨network, first, body, text, mark, rest⟩
    exact ⟨first, body, text, (leading first).mpr ⟨network, mark⟩, rest⟩

theorem Address.check_eq_ok_iff {address : String} :
    Address.check address = .ok () ↔ Address.Rule address := by
  rw [Address.rule_iff_exists_network, Address.check]
  simp only [← Address.network_eq_ok_iff]
  cases Address.network address <;> simp [Except.map]

theorem Address.checkOptional_eq_ok_iff {address : Option String} :
    Address.checkOptional address = .ok () ↔ Address.OptionalRule address := by
  unfold Address.OptionalRule
  cases address with
  | none => simp [Address.checkOptional]
  | some text =>
    rw [Address.checkOptional]
    by_cases empty : text = ""
    · simp [empty]
    · have present : ¬ text.isEmpty = true := by simpa using empty
      rw [if_neg present, Address.check_eq_ok_iff]
      simp [empty]

theorem isHexOfLength_iff {count : Nat} {text : String} :
    isHexOfLength count text = true ↔ HexText count text := by
  simp [isHexOfLength, HexText, hexIsDigit_iff]

theorem HexText.size {count : Nat} {text : String} (h : HexText count text) :
    text.utf8ByteSize = count := by
  rw [size_of_ascii fun c found => hex_lt c (h.2 c found), h.1]

theorem HexText.isEmpty {count : Nat} {text : String} (h : HexText count text)
    (positive : 0 < count) : text.isEmpty = false := by
  have nonempty : text.toList ≠ [] := List.length_pos_iff.mp (h.1.symm ▸ positive)
  simpa using nonempty

theorem hexText_iff {count : Nat} {text : String} :
    HexText count text ↔ text.utf8ByteSize = count ∧ ∀ c ∈ text.toList, c ∈ hexAlphabet := by
  constructor
  · intro hex
    exact ⟨hex.size, hex.2⟩
  · rintro ⟨sized, all⟩
    rw [size_of_ascii fun c found => hex_lt c (all c found)] at sized
    exact ⟨sized, all⟩

/-- Why a text does not have that many hexadecimal digits: the first reason that applies. -/
inductive HexFault (count : Nat) (field : String) (wrongSize : Rejection) (text : String) :
    Rejection → Prop
  | missing (empty : text = "") : HexFault count field wrongSize text (.required field)
  | size (present : text ≠ "") (other : text.utf8ByteSize ≠ count) :
    HexFault count field wrongSize text wrongSize
  | digit {c : Char} (sized : text.utf8ByteSize = count) (found : c ∈ text.toList)
    (noDigit : c ∉ hexAlphabet) : HexFault count field wrongSize text (.notHex field)

theorem HexFault.not_hexText {count : Nat} {field text : String} {wrongSize rejection : Rejection}
    (fault : HexFault count field wrongSize text rejection) (positive : 0 < count) :
    ¬ HexText count text := by
  intro hex
  cases fault with
  | missing empty =>
    have present := hex.isEmpty positive
    rw [empty] at present
    cases present
  | size present other => exact other hex.size
  | digit sized found noDigit => exact noDigit (hex.2 _ found)

/-- The tests that a text of digits has to pass before anything is made of it. -/
def hexChecked {α : Type} (count : Nat) (field : String) (wrongSize : Rejection) (text : String)
    (made : Except Rejection α) : Except Rejection α :=
  if text.isEmpty then .error (.required field)
  else if text.utf8ByteSize ≠ count then .error wrongSize
  else if isHexOfLength count text then made
  else .error (.notHex field)

theorem Hash.check_eq (hash : String) :
    Hash.check hash = hexChecked 64 "hash" .hashLength hash (.ok ()) := rfl

theorem PublicKey.decode_eq (key : String) : PublicKey.decode key =
    hexChecked 66 "public key" .publicKeyLength key
      (match Hex.decodeToSlice 33 (Utf8.ofString key) with
        | .ok bytes => .ok bytes
        | .error fault => .error (.undecodableKey fault.message)) := rfl

/-- The tests refuse for the first reason that applies. -/
theorem hexChecked_cases {α : Type} (count : Nat) (field : String) (wrongSize : Rejection)
    (text : String) (made : Except Rejection α) :
    HexText count text ∧ hexChecked count field wrongSize text made = made ∨
      ∃ rejection, HexFault count field wrongSize text rejection ∧
        hexChecked count field wrongSize text made = .error rejection := by
  unfold hexChecked
  split
  next empty => exact .inr ⟨_, .missing (String.isEmpty_iff.mp empty), rfl⟩
  next present =>
    split
    next wrong => exact .inr ⟨_, .size (mt String.isEmpty_iff.mpr present) wrong, rfl⟩
    next right =>
      have sized := Decidable.not_not.mp right
      split
      next hex => exact .inl ⟨isHexOfLength_iff.mp hex, rfl⟩
      next noHex =>
        rw [isHexOfLength_iff, hexText_iff, and_iff_right sized] at noHex
        obtain ⟨c, found, noDigit⟩ : ∃ c ∈ text.toList, c ∉ hexAlphabet := by simpa using noHex
        exact .inr ⟨_, .digit sized found noDigit, rfl⟩

theorem Hash.check_eq_ok_iff {hash : String} : Hash.check hash = .ok () ↔ Hash.Rule hash := by
  rw [Hash.check_eq]
  obtain ⟨rule, checked⟩ | ⟨rejection, fault, checked⟩ :=
    hexChecked_cases 64 "hash" .hashLength hash (.ok ())
  · rw [checked]
    exact iff_of_true rfl rule
  · rw [checked]
    exact iff_of_false nofun (fault.not_hexText (by decide))

namespace Hex

/-- Pairs of digits stand for half as many bytes. -/
private theorem exists_pairs (place : Nat) : (text : List Char) → text.length % 2 = 0 →
    (∀ c ∈ text, isDigit c = true) →
      ∃ bytes, pairs place text = .ok bytes ∧ text.length = 2 * bytes.length
  | [], _, _ => ⟨[], rfl, rfl⟩
  | [_], odd, _ => by simp at odd
  | high :: low :: rest, even, digits => by
    obtain ⟨first, digits⟩ := List.forall_mem_cons.mp digits
    obtain ⟨second, digits⟩ := List.forall_mem_cons.mp digits
    have evenRest : rest.length % 2 = 0 := by
      rw [List.length_cons, List.length_cons] at even
      omega
    obtain ⟨bytes, read, paired⟩ := exists_pairs (place + 2) rest evenRest digits
    obtain ⟨h, first⟩ := Option.isSome_iff_exists.mp first
    obtain ⟨l, second⟩ := Option.isSome_iff_exists.mp second
    refine ⟨UInt8.ofNat (16 * h + l) :: bytes, ?_, ?_⟩
    · rw [pairs, digitAt, digitAt, first, second, read]
      rfl
    · rw [List.length_cons, List.length_cons, List.length_cons, paired]
      omega

/-- A text of digits fills a slice of half its length. -/
theorem exists_decodeToSlice (size : Nat) {text : String} (hex : HexText (2 * size) text) :
    ∃ bytes, decodeToSlice size (Utf8.ofString text) = .ok bytes ∧
      decode text.toList = some bytes ∧ bytes.length = size := by
  have low : ∀ c ∈ text.toList, c.toNat < 128 := fun c found => hex_lt c (hex.2 c found)
  have even : ¬ text.toList.length % 2 ≠ 0 := by
    rw [hex.1]
    omega
  have fills : ¬ text.toList.length / 2 ≠ size := by
    rw [hex.1]
    omega
  obtain ⟨bytes, read, paired⟩ := exists_pairs 0 text.toList (Decidable.not_not.mp even)
    fun c found => hexIsDigit_iff.mpr (hex.2 c found)
  refine ⟨bytes, ?_, ?_, ?_⟩
  · rw [decodeToSlice, Utf8.ofString, Utf8.length_encode_of_lt low, Utf8.map_encode_of_lt low,
      if_neg even, if_neg fills, read]
  · rw [decode, if_neg even, read]
    rfl
  · rw [hex.1] at paired
    omega

end Hex

theorem PublicKey.check_eq_ok_iff {key : String} :
    PublicKey.check key = .ok () ↔ PublicKey.Rule key := by
  rw [PublicKey.check, PublicKey.decode_eq]
  obtain ⟨rule, checked⟩ | ⟨rejection, fault, checked⟩ :=
    hexChecked_cases 66 "public key" .publicKeyLength key _
  · obtain ⟨bytes, read, -⟩ := Hex.exists_decodeToSlice 33 rule
    rw [checked, read]
    exact iff_of_true rfl rule
  · rw [checked]
    exact iff_of_false nofun (fault.not_hexText (by decide))

theorem Signature.check_eq_ok_iff {signature : String} :
    Signature.check signature = .ok () ↔ Signature.Rule signature := by
  unfold Signature.check Signature.Rule
  split
  next empty => simp_all
  next present => simp_all

end TokenIntake
