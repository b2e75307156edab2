import TokenIntake.Proofs.Fits
import TokenIntake.Proofs.Numerals
import TokenIntake.Proofs.Runs
import TokenIntake.Proofs.Sessions

/-!
# Verdicts of the command line

A run tells the verdict of the check it asks for and no other one. Three kinds of values are
numbers: what is between the blanks is a numeral of the target type, and the verdict is the one on
its number, or the run says that the value is not a number.
-/

namespace TokenIntake.Cli

namespace Output

/-- The output tells the verdict, by its exit code and by one line. -/
structure Tells (output : Output) (verdict : Verdict) : Prop where
  accepted_iff : output.exit = 0 ∧ output.stdout = "ok\n" ↔ verdict = .ok ()
  rejected : ∀ rejection, verdict = .error rejection →
    output.exit = 1 ∧ output.stdout = rejection.message ++ "\n"
  noError : output.error = none

/-- The output says that a value is not a number, and tells no verdict. -/
structure DeniesNumber (output : Output) (name : String) : Prop where
  exit : output.exit = 1
  stdout : output.stdout = ""
  error : ∃ fault : Numeral.Fault,
    output.error = some (name ++ " is not a number: " ++ fault.message)

/-- The output tells the verdict on the number that the value spells, if it spells one. -/
structure TellsNumber {α : Type} (output : Output) (name : String) (spells : α → Prop)
    (check : α → Verdict) : Prop where
  number : ∀ n, spells n → output.Tells (check n)
  noNumber : (∀ n, ¬ spells n) → output.DeniesNumber name

end Output

/-- Between blanks the value is a numeral of the word. -/
def SpellsWord (value : String) (word : Int64) : Prop :=
  Numeral.Among (Numeral.Signed · word.toInt) value.toList

/-- Between blanks the value is a numeral of the code, without a minus sign. -/
def SpellsCode (value : String) (code : UInt32) : Prop :=
  Numeral.Among (Numeral.Unsigned · code.toNat) value.toList

/-- The output tells what the library says about the value as a field of the kind. -/
def Output.Answers (output : Output) (value : String) : FieldKind → Prop
  | .address => output.Tells (Address.check value)
  | .hash => output.Tells (Hash.check value)
  | .publicKey => output.Tells (PublicKey.check value)
  | .title => output.Tells (Title.check value)
  | .description => output.Tells (Description.check value)
  | .feedUrl => output.Tells (FeedUrl.check value)
  | .quantity => output.TellsNumber "quantity" (SpellsWord value) (Quantity.check "quantity")
  | .price => output.TellsNumber "price" (SpellsWord value) (Price.check "price")
  | .tags => output.Tells (Tags.check (FieldKind.tagsOf value))
  | .actionType => output.TellsNumber "action type" (SpellsCode value) Message.checkAction
  | .sanitize =>
    output.exit = 0 ∧ output.stdout = QueryValue.sanitize value ++ "\n" ∧ output.error = none

/-! ## Numbers -/

theorem spellsWord_iff {value : String} {word : Int64} :
    SpellsWord value word ↔ Numeral.signed64 (trim value.toList) = .ok word := by
  rw [SpellsWord, Numeral.among_iff fun _ numeral => numeral.isBlank_of_mem,
    Numeral.signed64_eq_ok_iff]

theorem spellsWord_iff_map_id {value : String} (word : Int64) : SpellsWord value word ↔
    (Numeral.signed64 (trim value.toList)).map id = .ok word := by
  rw [spellsWord_iff, Except.map_id, id]

theorem spellsCode_iff {value : String} {code : UInt32} : SpellsCode value code ↔
    (Numeral.natural (Word.shortLimit - 1) (trim value.toList)).map UInt32.ofNat = .ok code := by
  rw [SpellsCode, Numeral.among_iff fun _ numeral => numeral.isBlank_of_mem, map_eq_ok_iff]
  simp only [Numeral.natural_eq_ok_iff]
  constructor
  · intro numeral
    exact ⟨code.toNat, ⟨numeral, Nat.le_pred_of_lt code.toNat_lt⟩, UInt32.ofNat_toNat⟩
  · rintro ⟨n, ⟨numeral, fits⟩, rfl⟩
    rwa [UInt32.toNat_ofNat_of_lt' (Nat.lt_of_le_pred (by decide) fits)]

/-! ## Findings -/

namespace Finding

theorem tells_ofVerdict (verdict : Verdict) (log : List String) :
    ((ofVerdict verdict).output log).Tells verdict := by
  cases verdict with
  | ok => exact ⟨iff_of_true ⟨rfl, rfl⟩ rfl, by simp, rfl⟩
  | error rejection =>
    refine ⟨iff_of_false (by simp [ofVerdict, output]) (by simp), ?_, rfl⟩
    rintro _ ⟨⟩
    exact ⟨rfl, rfl⟩

/-- The reader decides whether there is a number, and the check is made on what it read. -/
private theorem tellsNumber_ofNumber {α β : Type} {name : String} {as : β → α} {spells : α → Prop}
    {read : Except Numeral.Fault β} (spells_iff : ∀ n, spells n ↔ read.map as = .ok n)
    (check : α → Verdict) (log : List String) :
    ((ofNumber name (fun m => check (as m)) read).output log).TellsNumber name spells check := by
  cases read with
  | ok m =>
    have only (n : α) : spells n ↔ as m = n := by simp [spells_iff, Except.map]
    refine ⟨fun n spelled => ?_, fun none => absurd ((only _).mpr rfl) (none _)⟩
    obtain rfl := (only n).mp spelled
    exact tells_ofVerdict _ log
  | error fault =>
    refine ⟨fun n spelled => ?_, fun _ => ⟨rfl, rfl, fault, rfl⟩⟩
    cases (spells_iff n).mp spelled

end Finding

/-- The finding on a value is the answer of the check for its kind. -/
theorem FieldKind.answers_find (kind : FieldKind) (value : String) (log : List String) :
    ((kind.find value).output log).Answers value kind := by
  have word {name : String} (check : Int64 → Verdict) :
      ((Finding.ofNumber name check (Numeral.signed64 (trim value.toList))).output log).TellsNumber
        name (SpellsWord value) check :=
    Finding.tellsNumber_ofNumber spellsWord_iff_map_id check log
  cases kind with
  | address | hash | publicKey | title | description | feedUrl | tags =>
    exact Finding.tells_ofVerdict _ log
  | quantity | price => exact word _
  | actionType => exact Finding.tellsNumber_ofNumber (fun n => spellsCode_iff) _ log
  | sanitize => exact ⟨rfl, rfl, rfl⟩

/-! ## Runs -/

/-- A command line that asks for a check, with settings that can be loaded or with none, is
answered with the verdict of the library. -/
theorem run_answers {files : Files} {arguments : List String} {invocation : Invocation}
    {settings : Settings} (asks : AsksFor arguments invocation)
    (loads : invocation.settings files = .ok settings) (environment : Option String) :
    (run files environment arguments).Answers invocation.value invocation.kind := by
  rw [run, runWith_of_asksFor asks loads]
  exact invocation.kind.answers_find invocation.value _

/-- Blanks, a plus sign and leading zeros do not keep a value from being a number. -/
theorem run_answers_padded_numeral :
    (run (fun _ => .ok (Utf8.ofString (Settings.write ⟨⟨some "warn", false⟩⟩))) none
      ["--config", "settings.json", "quantity", "--", " +0042\u3000"]).stdout = "ok\n" := by
  have option : Asks ["--config", "settings.json"] ⟨some "settings.json", none, none, none⟩ :=
    .config .nothing rfl (by decide) (.apart (.inl (by decide)))
  have asks : AsksFor ["--config", "settings.json", "quantity", "--", " +0042\u3000"]
      ⟨some "settings.json", none, .quantity, " +0042\u3000"⟩ :=
    .valueBehind (.kind option .quantity) _
  let settings : Settings := ⟨⟨some "warn", false⟩⟩
  let files : Files := fun _ => .ok (Utf8.ofString settings.write)
  have named : FileFormat.ofPath "settings.json" = .json := by decide
  have loads : Invocation.settings files ⟨some "settings.json", none, .quantity, " +0042\u3000"⟩ =
      .ok settings := Invocation.settings_of_file rfl named settings.ofBytes_write ..
  have digits : Numeral.Digits ['0', '0', '4', '2'] 42 :=
    ⟨by decide, List.all_eq_true.mp (by decide), by decide⟩
  have spelled : SpellsWord " +0042\u3000" 42 :=
    ⟨[' '], ['+', '0', '0', '4', '2'], ['\u3000'], by decide, List.all_eq_true.mp (by decide),
      .unsigned (.plus digits), List.all_eq_true.mp (by decide)⟩
  have answers := run_answers asks loads none
  exact ((answers.number 42 spelled).accepted_iff.mpr (by decide)).2

end TokenIntake.Cli
