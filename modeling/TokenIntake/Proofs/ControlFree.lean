import TokenIntake.Field.Message
import TokenIntake.Json.Fault
import TokenIntake.Proofs.Decimals
import TokenIntake.Request.Review

/-!
# Texts without control characters

No text that the program puts into words has a control character of ASCII, whatever a sender
wrote: numbers are digits, marks and letters, quoted text has an escape for everything that is
hidden, and a field is called by its name only, which is one of the program's own.
-/

namespace TokenIntake

/-- The character is below the blank, or the delete character. -/
def IsControl (c : Char) : Prop := c.toNat < 0x20 ∨ c.toNat = 0x7F

instance : DecidablePred IsControl := fun c =>
  inferInstanceAs (Decidable (c.toNat < 0x20 ∨ c.toNat = 0x7F))

-- Only the characters of a text are gone through, not all characters there are.
instance (chars : List Char) : Decidable (∀ c ∈ chars, ¬ IsControl c) :=
  List.decidableBAll (fun c => ¬ IsControl c) chars

/-- No character of the text is a control character. -/
def ControlFree (text : String) : Prop := ∀ c ∈ text.toList, ¬ IsControl c

instance : DecidablePred ControlFree := fun text =>
  inferInstanceAs (Decidable (∀ c ∈ text.toList, ¬ IsControl c))

theorem controlFree_ofList_iff {chars : List Char} :
    ControlFree (String.ofList chars) ↔ ∀ c ∈ chars, ¬ IsControl c := by
  rw [ControlFree, String.toList_ofList]

theorem ControlFree.append {text text' : String} (free : ControlFree text)
    (free' : ControlFree text') : ControlFree (text ++ text') := by
  rw [ControlFree, String.toList_append]
  exact List.forall_mem_append.mpr ⟨free, free'⟩

/-! ## Numbers -/

private theorem not_isControl_digitChar : ∀ d < 16, ¬ IsControl (Nat.digitChar d) := by decide

/-- Digits of any base in use are visible. -/
private theorem not_isControl_of_mem_toDigits {base : Nat} (two : 1 < base) (sixteen : base ≤ 16)
    (n : Nat) : ∀ c ∈ Nat.toDigits base n, ¬ IsControl c := by
  induction n using Nat.strongRecOn with
  | ind n ih =>
    by_cases small : n < base
    · rw [Nat.toDigits_of_lt_base small]
      exact List.forall_mem_singleton.mpr (not_isControl_digitChar n (by omega))
    · -- The last digit is split off, as the digits in front are those of a smaller number.
      have last : n % base < base := Nat.mod_lt n (by omega)
      rw [Nat.toDigits_of_base_le two (Nat.not_lt.mp small)]
      refine List.forall_mem_append.mpr ⟨ih (n / base) (Nat.div_lt_self (by omega) two), ?_⟩
      exact List.forall_mem_singleton.mpr (not_isControl_digitChar _ (by omega))

private theorem not_isControl_of_mem_ofNat (n : Nat) : ∀ c ∈ Numeral.ofNat n, ¬ IsControl c :=
  not_isControl_of_mem_toDigits (by decide) (by decide) n

theorem not_isControl_of_mem_ofInt : (n : Int) → ∀ c ∈ Numeral.ofInt n, ¬ IsControl c
  | .ofNat n => not_isControl_of_mem_ofNat n
  | .negSucc n => List.forall_mem_cons.mpr ⟨by decide, not_isControl_of_mem_ofNat (n + 1)⟩

theorem controlFree_nat (n : Nat) : ControlFree (toString n) := by
  rw [Nat.toString_eq_repr, ControlFree, Nat.toList_repr]
  exact not_isControl_of_mem_ofNat n

theorem controlFree_int : (n : Int) → ControlFree (toString n)
  | .ofNat n => controlFree_nat n
  | .negSucc n => .append (by decide) (controlFree_nat (n + 1))

namespace Binary64

private theorem not_isControl_of_mem_text (decimal : DecimalDigits) :
    ∀ c ∈ decimal.text.1, ¬ IsControl c := by
  intro c found
  have digit : c ∈ (Numeral.ofNat decimal.digits).reverse :=
    (List.dropWhile_sublist _).subset (List.mem_reverse.mp found)
  exact not_isControl_of_mem_ofNat _ c (List.mem_reverse.mp digit)

private theorem not_isControl_of_mem_positional {digits : List Char}
    (visible : ∀ c ∈ digits, ¬ IsControl c)
    (point : Int) : ∀ c ∈ positional digits point, ¬ IsControl c := by
  have zeros (count : Nat) : ∀ c ∈ List.replicate count '0', ¬ IsControl c := by
    intro c found
    rw [List.eq_of_mem_replicate found]
    decide
  unfold positional
  dsimp only
  split
  · refine List.forall_mem_cons.mpr ⟨by decide, List.forall_mem_cons.mpr ⟨by decide, ?_⟩⟩
    exact List.forall_mem_append.mpr ⟨zeros _, visible⟩
  split
  · refine List.forall_mem_append.mpr ⟨fun c found => visible c (List.mem_of_mem_take found), ?_⟩
    refine List.forall_mem_cons.mpr ⟨by decide, ?_⟩
    exact fun c found => visible c (List.mem_of_mem_drop found)
  · refine List.forall_mem_append.mpr ⟨List.forall_mem_append.mpr ⟨visible, zeros _⟩, ?_⟩
    decide

private theorem not_isControl_of_mem_signed (x : Binary64) {text : List Char}
    (visible : ∀ c ∈ text, ¬ IsControl c) : ∀ c ∈ x.signed text, ¬ IsControl c := by
  unfold signed
  split
  · exact List.forall_mem_cons.mpr ⟨by decide, visible⟩
  · exact visible

theorem not_isControl_of_mem_plain (x : Binary64) : ∀ c ∈ x.plain, ¬ IsControl c := by
  refine not_isControl_of_mem_signed x ?_
  split
  · decide
  · exact not_isControl_of_mem_positional (not_isControl_of_mem_text _) _

end Binary64

/-! ## Quoted text -/

private theorem Quoted.not_isControl_of_mem_writeChar {quote : Char} (shown : ¬ IsControl quote)
    (c : Char) : ∀ d ∈ writeChar quote c, ¬ IsControl d := by
  unfold writeChar
  split
  · decide
  split
  · decide
  split
  · decide
  split
  · decide
  split
  next mark =>
    rcases mark with rfl | rfl
    · decide
    · exact List.forall_mem_cons.mpr ⟨by decide, List.forall_mem_singleton.mpr shown⟩
  split
  next hidden =>
    -- A hidden character is shown by its number.
    refine List.forall_mem_append.mpr ⟨List.forall_mem_append.mpr ⟨by decide, ?_⟩, by decide⟩
    exact not_isControl_of_mem_toDigits (by decide) (by decide) _
  next visible =>
    refine List.forall_mem_singleton.mpr ?_
    rintro (control | delete)
    · exact visible (isHidden_of_lt c control)
    · obtain rfl : c = '\x7f' := Char.ext (UInt32.toNat_inj.mp delete)
      exact visible isHidden_delete

theorem controlFree_quoted (text : String) : ControlFree (Quoted.write text) := by
  refine controlFree_ofList_iff.mpr (List.forall_mem_cons.mpr ⟨by decide, ?_⟩)
  refine List.forall_mem_append.mpr ⟨fun d found => ?_, by decide⟩
  obtain ⟨c, -, found⟩ := List.mem_flatMap.mp found
  exact Quoted.not_isControl_of_mem_writeChar (by decide) c d found

private theorem controlFree_quotedChar (c : Char) : ControlFree (Quoted.ofChar c) := by
  refine controlFree_ofList_iff.mpr (List.forall_mem_cons.mpr ⟨by decide, ?_⟩)
  exact List.forall_mem_append.mpr
    ⟨Quoted.not_isControl_of_mem_writeChar (by decide) c, by decide⟩

theorem Hex.Fault.controlFree_message (fault : Hex.Fault) : ControlFree fault.message := by
  cases fault with
  | invalidCharacter c place =>
    exact .append (.append (.append (by decide) (controlFree_quotedChar c)) (by decide))
      (controlFree_nat place)
  | oddLength | invalidLength => decide

/-! ## Rejections -/

/-- The texts of the program that a rejection is made with. -/
def Rejection.texts : Rejection → List String
  | required field | notHex field | undecodableKey field | notUtf8 field | tooLong field _
  | unsafeCharacters field | notUrl field | notPositive field | exceedsMaximum field _
  | tooLarge field _ => [field]
  | addressLength | addressFormat | hashLength | publicKeyLength | tooManyTags _ | emptyTag _
  | unknownAction _ => []

/-- A rejection shows no control character that its texts do not have. -/
theorem Rejection.controlFree_message {rejection : Rejection}
    (free : ∀ text ∈ rejection.texts, ControlFree text) : ControlFree rejection.message := by
  cases rejection with
  | required field | notHex field | notUtf8 field | unsafeCharacters field | notUrl field
  | notPositive field => exact .append (free field List.mem_cons_self) (by decide)
  | undecodableKey detail => exact .append (by decide) (free detail List.mem_cons_self)
  | tooLong field max | tooLarge field max =>
    exact .append (.append (.append (free field List.mem_cons_self) (by decide))
      (controlFree_nat max)) (by decide)
  | exceedsMaximum field max =>
    exact .append (.append (free field List.mem_cons_self) (by decide)) (controlFree_int max.toInt)
  | addressLength | addressFormat | hashLength | publicKeyLength => decide
  | tooManyTags n | emptyTag n =>
    exact .append (.append (by decide) (controlFree_nat n)) (by decide)
  | unknownAction code => exact .append (by decide) (controlFree_nat code.toNat)

/-! ## Results -/

/-- What a result fails with is put into words without a control character. -/
def FailsPlainly {ε α : Type} (words : ε → String) (result : Except ε α) : Prop :=
  ∀ error, result = .error error → ControlFree (words error)

namespace FailsPlainly

variable {ε α β : Type} {words : ε → String}

theorem ok (value : α) : FailsPlainly words (.ok value) := nofun

theorem error {error : ε} (free : ControlFree (words error)) :
    FailsPlainly words (.error error : Except ε α) := by
  rintro _ ⟨rfl⟩
  exact free

theorem bind {result : Except ε α} {next : α → Except ε β} (first : FailsPlainly words result)
    (rest : ∀ value, FailsPlainly words (next value)) : FailsPlainly words (result >>= next) := by
  cases result with
  | ok value => exact rest value
  | error error => exact .error (first error rfl)

theorem map {result : Except ε α} (plain : FailsPlainly words result) (f : α → β) :
    FailsPlainly words (result.map f) := by
  cases result with
  | ok value => exact .ok _
  | error error => exact .error (plain error rfl)

theorem ite {condition : Prop} [Decidable condition] {yes no : Except ε α}
    (first : FailsPlainly words yes) (second : FailsPlainly words no) :
    FailsPlainly words (if condition then yes else no) := by
  split
  · exact first
  · exact second

theorem mapM {f : α → Except ε β} (each : ∀ value, FailsPlainly words (f value))
    (values : List α) : FailsPlainly words (values.mapM f) := by
  induction values with
  | nil => exact .ok []
  | cons value rest ih =>
    rw [List.mapM_cons]
    exact .bind (each value) fun _ => .bind ih fun _ => .ok _

theorem foldlM {step : β → α → Except ε β}
    (each : ∀ state value, FailsPlainly words (step state value)) (start : β) (values : List α) : FailsPlainly words (values.foldlM step start) := by
  induction values generalizing start with
  | nil => exact .ok start
  | cons value rest ih =>
    rw [List.foldlM_cons]
    exact .bind (each start value) ih

end FailsPlainly

/-- What is refused is refused without a control character. -/
abbrev PlainRefusal {α : Type} (result : Except Rejection α) : Prop :=
  FailsPlainly Rejection.message result

namespace FailsPlainly

theorem refused {α : Type} {rejection : Rejection}
    (free : ∀ text ∈ rejection.texts, ControlFree text) :
    PlainRefusal (.error rejection : Except Rejection α) :=
  .error (Rejection.controlFree_message free)

theorem ensure (condition : Bool) {rejection : Rejection}
    (free : ∀ text ∈ rejection.texts, ControlFree text) :
    PlainRefusal (Verdict.ensure condition rejection) :=
  .ite (.ok ()) (.refused free)

/-- A field is called by its name. -/
theorem ensure_field {field : String} (free : ControlFree field) (condition : Bool)
    {rejection : Rejection} (names : rejection.texts = [field]) :
    PlainRefusal (Verdict.ensure condition rejection) :=
  .ensure condition (names ▸ List.forall_mem_singleton.mpr free)

end FailsPlainly

/-! ## Checks -/

section

variable {field : String} (free : ControlFree field)

include free

theorem plainRefusal_amount (value : Int64) : PlainRefusal (Amount.check field value) :=
  .bind (.ensure_field free _ rfl) fun _ => .ensure_field free _ rfl

private theorem plainRefusal_length (text : String) (max : Nat) :
    PlainRefusal (checkLength field text max) := by
  unfold checkLength checkByteLength
  split
  · exact .refused (List.forall_mem_singleton.mpr free)
  · exact .ensure_field free _ rfl

end

theorem plainRefusal_address (text : String) : PlainRefusal (Address.check text) := by
  refine .map (.ite (.refused (by decide)) (.ite (.refused (by decide)) ?_)) _
  split
  · exact .ok _
  · exact .refused (by decide)

theorem plainRefusal_hash (text : String) : PlainRefusal (Hash.check text) :=
  .ite (.refused (by decide)) (.ite (.refused (by decide)) (.ite (.ok ()) (.refused (by decide))))

theorem plainRefusal_publicKey (text : String) : PlainRefusal (PublicKey.check text) := by
  refine .map (.ite (.refused (by decide)) (.ite (.refused (by decide)) (.ite ?_
    (.refused (by decide))))) _
  split
  next => exact .ok _
  next fault _ => exact .refused (List.forall_mem_singleton.mpr fault.controlFree_message)

theorem plainRefusal_title (text : String) : PlainRefusal (Title.check text) :=
  .ite (.refused (by decide)) (.bind (plainRefusal_length (by decide) text _) fun _ =>
    .ensure _ (by decide))

theorem plainRefusal_description (text : String) : PlainRefusal (Description.check text) :=
  .ite (.refused (by decide)) (plainRefusal_length (by decide) text _)

theorem plainRefusal_feedUrl (text : String) : PlainRefusal (FeedUrl.check text) :=
  .ite (.ok ()) (.bind (plainRefusal_length (by decide) text _) fun _ => .ensure _ (by decide))

/-- A tag is called by its position. -/
private theorem plainRefusal_tagAt (position : Nat) (tag : String) :
    PlainRefusal (Tags.checkAt position tag) := by
  have name : ControlFree s!"tag {position}" := .append (by decide) (controlFree_nat position)
  refine .ite (.refused nofun) (.bind (plainRefusal_length name tag _) fun _ => ?_)
  exact .ensure_field name _ rfl

private theorem plainRefusal_tagsFrom (position : Nat) (tags : List String) :
    PlainRefusal (Tags.checkFrom position tags) := by
  induction tags generalizing position with
  | nil => exact .ok ()
  | cons tag rest ih => exact .bind (plainRefusal_tagAt position tag) fun _ => ih (position + 1)

theorem plainRefusal_tags (tags : List String) : PlainRefusal (Tags.check tags) :=
  .ite (.refused nofun) (plainRefusal_tagsFrom 1 tags)

theorem plainRefusal_metadata (metadata : Option Json) :
    PlainRefusal (Metadata.check metadata) := by
  cases metadata with
  | none => exact .ok ()
  | some metadata => exact .ensure _ (by decide)

theorem plainRefusal_optionalAddress (address : Option String) :
    PlainRefusal (Address.checkOptional address) := by
  cases address with
  | none => exact .ok ()
  | some address => exact .ite (.ok ()) (plainRefusal_address address)

theorem plainRefusal_signature (signature : String) : PlainRefusal (Signature.check signature) :=
  .ite (.refused (by decide)) (.ok ())

end TokenIntake
