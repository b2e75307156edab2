import TokenIntake.Proofs.Addresses
import TokenIntake.Proofs.ControlFree
import TokenIntake.Proofs.Digests
import TokenIntake.Proofs.Parameters
import TokenIntake.Proofs.TagLists
import TokenIntake.Proofs.Truncation
import TokenIntake.Proofs.Verdicts

/-!
# Lines of output

What a check prints is one short line, whatever value it was given. A cleaned value has lost what
ends a line and was cut, and a rejection is worded with the name of its field and with a number, but
never with the value.
-/

namespace TokenIntake

/-- The text has so many bytes at most, and nothing in it ends a line or moves along it. -/
structure StaysWithin (budget : Nat) (text : String) : Prop where
  short : text.utf8ByteSize ≤ budget
  plain : ∀ c ∈ text.toList, c ∉ ['\n', '\r', '\t', '\x00']

-- Only the characters of a text are gone through, not all characters there are.
instance decidablePlain (chars : List Char) :
    Decidable (∀ c ∈ chars, c ∉ ['\n', '\r', '\t', '\x00']) :=
  List.decidableBAll (fun c => c ∉ ['\n', '\r', '\t', '\x00']) chars

instance (budget : Nat) : DecidablePred (StaysWithin budget) := fun _ =>
  decidable_of_iff (_ ∧ _) ⟨fun ⟨short, plain⟩ => ⟨short, plain⟩, fun fits => ⟨fits.1, fits.2⟩⟩

namespace StaysWithin

variable {budget more : Nat} {text text' : String}

theorem whole (plain : ∀ c ∈ text.toList, c ∉ ['\n', '\r', '\t', '\x00']) :
    StaysWithin text.utf8ByteSize text :=
  ⟨Nat.le_refl _, plain⟩

theorem append (fits : StaysWithin budget text) (fits' : StaysWithin more text') :
    StaysWithin (budget + more) (text ++ text') where
  short := by
    rw [String.utf8ByteSize_append]
    exact Nat.add_le_add fits.short fits'.short
  plain := by
    rw [String.toList_append]
    exact List.forall_mem_append.mpr ⟨fits.plain, fits'.plain⟩

theorem mono (fits : StaysWithin budget text) (room : budget ≤ more) : StaysWithin more text :=
  ⟨Nat.le_trans fits.short room, fits.plain⟩

/-- A number is written with its digits and nothing else. -/
theorem nat {n digits : Nat} (small : n < 10 ^ digits) (positive : 0 < digits) :
    StaysWithin digits (toString n) where
  short := by
    rw [size_eq_length, Utf8.ofString, Nat.toString_eq_repr, Nat.toList_repr]
    exact Numeral.size_ofNat_le small positive
  plain := by
    intro c found special
    rw [Nat.toString_eq_repr, Nat.toList_repr] at found
    have noDigit : ∀ c ∈ ['\n', '\r', '\t', '\x00'], ¬ c.isDigit = true := by simp
    exact noDigit c special (Numeral.isDigit_of_mem_ofNat found)

theorem int {n : Int} {digits : Nat} (small : n.natAbs < 10 ^ digits) (positive : 0 < digits) :
    StaysWithin (1 + digits) (toString n) := by
  cases n with
  | ofNat n => exact (nat small positive).mono (Nat.le_add_left digits 1)
  | negSucc n =>
    have minus : StaysWithin 1 "-" := by decide
    exact minus.append (nat small positive)

end StaysWithin

/-! ## Rejections -/

/-- The numbers that a rejection is made with. -/
def Rejection.numbers : Rejection → List Int
  | tooLong _ max | tooLarge _ max | tooManyTags max => [max]
  | exceedsMaximum _ max => [max.toInt]
  | emptyTag position => [position]
  | unknownAction code => [code.toNat]
  | required _ | addressLength | addressFormat | hashLength | publicKeyLength | notHex _
  | undecodableKey _ | notUtf8 _ | unsafeCharacters _ | notUrl _ | notPositive _ => []

/-- The rejection names its field in a few words and has numbers of ten digits at most. -/
structure Rejection.Brief (rejection : Rejection) : Prop where
  texts : ∀ text ∈ rejection.texts, StaysWithin 20 text
  numbers : ∀ n ∈ rejection.numbers, n.natAbs < 10 ^ 10

instance : DecidablePred Rejection.Brief := fun _ =>
  decidable_of_iff (_ ∧ _)
    ⟨fun ⟨texts, numbers⟩ => ⟨texts, numbers⟩, fun brief => ⟨brief.1, brief.2⟩⟩

theorem Rejection.Brief.message {rejection : Rejection} (brief : rejection.Brief) :
    StaysWithin 100 rejection.message := by
  obtain ⟨texts, numbers⟩ := brief
  -- A case for each order in which words, the field and the number follow each other.
  cases rejection with
  | required field | notHex field | notUtf8 field | unsafeCharacters field | notUrl field
  | notPositive field =>
    have name := texts field List.mem_cons_self
    exact (name.append (.whole (by decide))).mono (by decide)
  | undecodableKey detail =>
    have name := texts detail List.mem_cons_self
    exact (StaysWithin.append (.whole (by decide)) name).mono (by decide)
  | tooLong field max | tooLarge field max =>
    have name := texts field List.mem_cons_self
    have number := StaysWithin.nat (numbers max List.mem_cons_self) (by decide)
    exact (((name.append (.whole (by decide))).append number).append (.whole (by decide))).mono
      (by decide)
  | exceedsMaximum field max =>
    have name := texts field List.mem_cons_self
    have number := StaysWithin.int (numbers max.toInt List.mem_cons_self) (by decide)
    exact ((name.append (.whole (by decide))).append number).mono (by decide)
  | addressLength | addressFormat | hashLength | publicKeyLength => decide
  | tooManyTags n | emptyTag n =>
    have number := StaysWithin.nat (numbers n List.mem_cons_self) (by decide)
    exact ((StaysWithin.append (.whole (by decide)) number).append (.whole (by decide))).mono
      (by decide)
  | unknownAction code =>
    have number := StaysWithin.nat (numbers code.toNat List.mem_cons_self) (by decide)
    exact (StaysWithin.append (.whole (by decide)) number).mono (by decide)

/-! ## Checks -/

/-- What the check refuses it refuses with a brief rejection. -/
abbrev BriefRefusal (verdict : Verdict) : Prop :=
  ∀ rejection, verdict = .error rejection → rejection.Brief

private theorem briefRefusal_error {rejection : Rejection} (brief : rejection.Brief) :
    BriefRefusal (.error rejection) := by
  intro other refused
  cases refused
  exact brief

private theorem briefRefusal_ensure {condition : Bool} {rejection : Rejection}
    (brief : rejection.Brief) :
    BriefRefusal (Verdict.ensure condition rejection) := by
  intro other refused
  obtain ⟨-, rfl⟩ := Verdict.ensure_eq_error_iff.mp refused
  exact brief

private theorem briefRefusal_bind {first second : Verdict} (head : BriefRefusal first)
    (tail : BriefRefusal second) : BriefRefusal (first >>= fun _ => second) := by
  intro rejection refused
  obtain early | ⟨-, late⟩ := bind_eq_error_iff.mp refused
  · exact head rejection early
  · exact tail rejection late

private theorem briefRefusal_checkLength {field : String} {max : Nat}
    (brief : (Rejection.tooLong field max).Brief) (text : String) :
    BriefRefusal (checkLength field text max) := by
  rw [checkLength_eq]
  exact briefRefusal_ensure brief

private theorem briefRefusal_address (text : String) : BriefRefusal (Address.check text) := by
  intro rejection refused
  cases Address.network_eq_error_iff.mp (Address.check_eq_error_iff.mp refused) with
  | missing | size | form => decide

private theorem briefRefusal_hash (text : String) : BriefRefusal (Hash.check text) := by
  intro rejection refused
  cases ((Hash.judged text).verdict_eq_error_iff (by decide)).mp refused with
  | missing | size | digit => decide

private theorem briefRefusal_publicKey (text : String) : BriefRefusal (PublicKey.check text) := by
  intro rejection refused
  cases ((PublicKey.judged text).verdict_eq_error_iff (by decide)).mp refused with
  | missing | size | digit => decide

private theorem briefRefusal_title (text : String) : BriefRefusal (Title.check text) := by
  unfold Title.check
  split
  next => exact briefRefusal_error (by decide)
  next =>
    exact briefRefusal_bind (briefRefusal_checkLength (by decide) text)
      (briefRefusal_ensure (by decide))

private theorem briefRefusal_description (text : String) :
    BriefRefusal (Description.check text) := by
  unfold Description.check
  split
  next => exact briefRefusal_error (by decide)
  next => exact briefRefusal_checkLength (by decide) text

private theorem briefRefusal_feedUrl (text : String) : BriefRefusal (FeedUrl.check text) := by
  unfold FeedUrl.check
  split
  next => exact nofun
  next =>
    exact briefRefusal_bind (briefRefusal_checkLength (by decide) text)
      (briefRefusal_ensure (by decide))

/-- A tag is called by its position, which has two digits at most. -/
private theorem briefRefusal_tags (tags : List String) : BriefRefusal (Tags.check tags) := by
  intro rejection refused
  unfold Tags.check at refused
  split at refused
  next =>
    cases refused
    decide
  next few =>
    obtain ⟨before, tag, after, rfl, -, fault⟩ := Tags.checkFrom_eq_error_iff.mp refused
    -- The tags in front of the refused one are fewer than a list may have.
    have early : 1 + before.length < 10 ^ 2 := by
      rw [List.length_append, List.length_cons, maxTagCount] at few
      omega
    have name : StaysWithin 20 s!"tag {1 + before.length}" :=
      (StaysWithin.append (.whole (by decide)) (.nat early (by decide))).mono (by decide)
    cases fault with
    | empty =>
      refine ⟨nofun, List.forall_mem_singleton.mpr ?_⟩
      exact Nat.lt_trans early (by decide)
    | long =>
      exact ⟨List.forall_mem_singleton.mpr name, List.forall_mem_singleton.mpr (by decide)⟩
    | character => exact ⟨List.forall_mem_singleton.mpr name, nofun⟩

private theorem briefRefusal_amount {field : String} (name : StaysWithin 20 field)
    (amount : Int64) :
    BriefRefusal (Amount.check field amount) := by
  have small : ∀ n ∈ [Amount.maximum.toInt], n.natAbs < 10 ^ 10 := by decide
  exact briefRefusal_bind (briefRefusal_ensure ⟨List.forall_mem_singleton.mpr name, nofun⟩)
    (briefRefusal_ensure ⟨List.forall_mem_singleton.mpr name, small⟩)

private theorem briefRefusal_action (code : UInt32) : BriefRefusal (Message.checkAction code) := by
  intro rejection refused
  unfold Message.checkAction at refused
  cases read : Action.ofCode code with
  | ok action =>
    rw [read] at refused
    cases refused
  | error =>
    rw [read] at refused
    cases refused
    rw [Params.unknown_of_ofCode read]
    refine ⟨nofun, List.forall_mem_singleton.mpr ?_⟩
    exact Nat.lt_trans code.toNat_lt (by decide)

/-! ## Output -/

namespace Cli

/-- The output is a text of so many bytes at most, which stays on its line, and the end of that
line. -/
def OneLine (max : Nat) (output : String) : Prop :=
  ∃ text, StaysWithin max text ∧ output = text ++ "\n"

/-- One short line is printed if there is something to tell, and nothing else is. -/
structure PrintsLine (output : Output) (tells : Prop) : Prop where
  printed_iff : output.stdout ≠ "" ↔ tells
  oneLine : output.stdout ≠ "" → OneLine 100 output.stdout

/-- There is something to tell about the value, as it is a number where the kind wants one. -/
def Readable (value : String) : FieldKind → Prop
  | .quantity | .price => ∃ word, SpellsWord value word
  | .actionType => ∃ code, SpellsCode value code
  | .address | .hash | .publicKey | .title | .description | .feedUrl | .tags | .sanitize => True

theorem OneLine.printsLine {output : Output} (line : OneLine 100 output.stdout) :
    PrintsLine output True where
  printed_iff := by
    obtain ⟨text, -, written⟩ := line
    simp [written]
  oneLine _ := line

private theorem Finding.printsLine_ofVerdict {verdict : Verdict} (brief : BriefRefusal verdict)
    (log : List String) : PrintsLine ((ofVerdict verdict).output log) True := by
  refine OneLine.printsLine ?_
  cases verdict with
  | ok => exact ⟨"ok", by decide, rfl⟩
  | error rejection => exact ⟨rejection.message, (brief rejection rfl).message, rfl⟩

private theorem Finding.printsLine_ofNumber {α β : Type} {name : String} {as : β → α}
    {spells : α → Prop}
    {read : Except Numeral.Fault β} {check : α → Verdict}
    (spells_iff : ∀ n, spells n ↔ read.map as = .ok n) (brief : ∀ n, BriefRefusal (check n))
    (log : List String) :
    PrintsLine ((ofNumber name (fun m => check (as m)) read).output log) (∃ n, spells n) := by
  cases read with
  | ok m =>
    have spelled : ∃ n, spells n := ⟨as m, (spells_iff _).mpr rfl⟩
    rw [eq_true spelled]
    exact printsLine_ofVerdict (brief (as m)) log
  | error fault =>
    -- The value is no number, and that is told on the other stream.
    have unspelled : ¬ ∃ n, spells n := by
      rintro ⟨n, spelled⟩
      cases (spells_iff n).mp spelled
    exact ⟨iff_of_false (absurd rfl) unspelled, absurd rfl⟩

theorem FieldKind.printsLine_find (kind : FieldKind) (value : String) (log : List String) :
    PrintsLine ((kind.find value).output log) (Readable value kind) := by
  have amount {name : String} (short : StaysWithin 20 name) :
      PrintsLine ((Finding.ofNumber name (Amount.check name)
        (Numeral.signed64 (trim value.toList))).output log) (∃ word, SpellsWord value word) :=
    Finding.printsLine_ofNumber spellsWord_iff_map_id (briefRefusal_amount short) log
  cases kind with
  | address => exact Finding.printsLine_ofVerdict (briefRefusal_address value) log
  | hash => exact Finding.printsLine_ofVerdict (briefRefusal_hash value) log
  | publicKey => exact Finding.printsLine_ofVerdict (briefRefusal_publicKey value) log
  | title => exact Finding.printsLine_ofVerdict (briefRefusal_title value) log
  | description => exact Finding.printsLine_ofVerdict (briefRefusal_description value) log
  | feedUrl => exact Finding.printsLine_ofVerdict (briefRefusal_feedUrl value) log
  | tags => exact Finding.printsLine_ofVerdict (briefRefusal_tags _) log
  | quantity | price => exact amount (by decide)
  | actionType =>
    exact Finding.printsLine_ofNumber (fun _ => spellsCode_iff) briefRefusal_action log
  | sanitize =>
    -- Only here does anything of the value itself get into the output.
    refine OneLine.printsLine ⟨_, ⟨?_, fun c => QueryValue.notMem_of_mem_sanitize⟩, rfl⟩
    rw [size_eq_length]
    exact QueryValue.size_sanitize_le value

/-- Whatever value, settings and filter a check is made with, it prints one line of a hundred bytes
at most, or nothing if the value should be a number and is none. -/
theorem run_prints_one_line {files : Files} {arguments : List String} {invocation : Invocation}
    {settings : Settings} (taken : Invocation.ofArguments arguments = .ok invocation)
    (loads : invocation.settings files = .ok settings) (environment : Option String) :
    PrintsLine (run files environment arguments) (Readable invocation.value invocation.kind) := by
  rw [run, runWith, taken]
  dsimp only
  rw [Invocation.run_of_settings loads]
  exact invocation.kind.printsLine_find invocation.value _

/-- Line ends, a tab and a NUL in a value do not get onto the line that shows it. -/
theorem run_prints_one_line_of_many :
    OneLine 100 (run (fun _ => .ok (Utf8.ofString (Settings.write ⟨⟨some "trace", true⟩⟩)))
      (some "debug") ["--config", "settings.json", "sanitize", "--", "one\r\ntwo\t\x00"]).stdout := by
  have option : Asks ["--config", "settings.json"] ⟨some "settings.json", none, none, none⟩ :=
    .config .nothing rfl (by decide) (.apart (.inl (by decide)))
  have asks : AsksFor ["--config", "settings.json", "sanitize", "--", "one\r\ntwo\t\x00"]
      ⟨some "settings.json", none, .sanitize, "one\r\ntwo\t\x00"⟩ :=
    .valueBehind (.kind option .sanitize) _
  let settings : Settings := ⟨⟨some "trace", true⟩⟩
  let files : Files := fun _ => .ok (Utf8.ofString settings.write)
  have named : FileFormat.ofPath "settings.json" = .json := by decide
  have loads : Invocation.settings files
      ⟨some "settings.json", none, .sanitize, "one\r\ntwo\t\x00"⟩ = .ok settings :=
    Invocation.settings_of_file rfl named settings.ofBytes_write ..
  have prints := run_prints_one_line (Invocation.ofArguments_of_asksFor asks) loads (some "debug")
  exact prints.oneLine (prints.printed_iff.mpr trivial)

end Cli

end TokenIntake
