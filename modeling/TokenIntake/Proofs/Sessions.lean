import Mathlib.Data.List.TakeDrop
import TokenIntake.Config.FileStore
import TokenIntake.Proofs.Records

/-!
# Sessions with files of settings

Saved settings are what is loaded, however long ago they were saved, as long as their file was not
written again. A step changes no file but the one it writes, so a file holds what the last step
that wrote it put there; and the text of settings is read back as these settings.
-/

namespace TokenIntake

/-! ## The text of settings -/

namespace Settings

theorem faithful_toRow (settings : Settings) : shape.Faithful settings.toRow := by
  obtain ⟨⟨filter, jsonFormat⟩⟩ := settings
  refine ⟨by decide, ⟨by decide, ?_, trivial, trivial⟩, trivial⟩
  cases filter with
  | none => trivial
  | some filter => exact ⟨nofun, trivial⟩

theorem nesting_toJson (settings : Settings) : (shape.toJson settings.toRow).nesting ≤ 127 := by
  obtain ⟨⟨filter, jsonFormat⟩⟩ := settings
  have nesting : (shape.toJson (toRow ⟨⟨filter, jsonFormat⟩⟩)).nesting = 2 := by
    cases filter <;> rfl
  rw [nesting]
  decide

/-- Settings are read back from what they are written as. -/
theorem ofBytes_write (settings : Settings) :
    ofBytes .json (Utf8.ofString settings.write) = .ok settings := by
  have text : Utf8.decodeString (Utf8.ofString settings.write) = some settings.write :=
    Utf8.decodeString_eq_some_iff.mpr rfl
  have read : ofJsonText (Utf8.ofString settings.write) = .ok settings := by
    rw [ofJsonText, write, Shape.parse_pretty settings.faithful_toRow settings.nesting_toJson]
    rfl
  rw [ofBytes, text]
  dsimp only
  rw [read]

end Settings

namespace FileFormat

/-- The extension is what stands behind the last dot, if something stands in front of it. -/
theorem extension?_eq_some_iff {name ext : List Char} :
    extension? name = some ext ↔ '.' ∉ ext ∧ ∃ stem ≠ [], name = stem ++ '.' :: ext := by
  have noDot {text : List Char} (fresh : '.' ∉ text) :
      ∀ c ∈ text, decide (c ≠ '.') = true := by
    intro c found
    refine decide_eq_true ?_
    rintro rfl
    exact fresh found
  rw [extension?, List.span_eq_takeWhile_dropWhile]
  constructor
  · intro found
    have split : name.reverse.takeWhile (· ≠ '.') ++ name.reverse.dropWhile (· ≠ '.') =
        name.reverse := List.takeWhile_append_dropWhile
    have fresh : '.' ∉ name.reverse.takeWhile (· ≠ '.') := fun dot => by
      have differs := List.all_eq_true.mp List.all_takeWhile _ dot
      simp at differs
    have stops := List.head?_dropWhile_not (fun c : Char => decide (c ≠ '.')) name.reverse
    generalize name.reverse.takeWhile (· ≠ '.') = reversed at *
    generalize name.reverse.dropWhile (· ≠ '.') = behind at *
    match behind, found with
    | dot :: last :: more, found =>
      obtain rfl := Option.some.inj found
      obtain rfl : dot = '.' := by simpa using stops
      refine ⟨fun dot => fresh (List.mem_reverse.mp dot), (last :: more).reverse, by simp, ?_⟩
      rw [← List.reverse_reverse name, ← split]
      simp
  · rintro ⟨fresh, stem, present, rfl⟩
    obtain ⟨last, more, reversed⟩ :=
      List.exists_cons_of_ne_nil (mt List.reverse_eq_nil_iff.mp present)
    have mirrored : (stem ++ '.' :: ext).reverse = ext.reverse ++ '.' :: last :: more := by
      simp [reversed]
    have fresh' : '.' ∉ ext.reverse := fun dot => fresh (List.mem_reverse.mp dot)
    rw [mirrored, List.takeWhile_append_of_pos (noDot fresh'),
      List.dropWhile_append_of_pos (noDot fresh')]
    simp

theorem ofName_eq_json_iff {name : String} :
    ofName name = .json ↔ ∃ stem ≠ "", name = stem ++ ".json" := by
  have isJson : ofName name = .json ↔ extension? name.toList = some "json".toList := by
    rw [ofName]
    split
    next found => exact iff_of_true rfl found
    next other => exact iff_of_false (by simp) other
  rw [isJson, extension?_eq_some_iff]
  constructor
  · rintro ⟨-, stem, present, split⟩
    refine ⟨String.ofList stem, ?_, ?_⟩
    · intro empty
      exact present (by simpa using congrArg String.toList empty)
    · rw [← String.ofList_toList (s := name), split]
      simp
  · rintro ⟨stem, present, rfl⟩
    refine ⟨by decide, stem.toList, by simpa using present, ?_⟩
    rw [String.toList_append]
    rfl

end FileFormat

namespace FileStore

/-- The step writes the file. -/
def Step.Writes : Step → String → Prop
  | .write file _, name => file = name
  | .save file _, name => file = name
  | .load _ _, _ => False
  | .read _, _ => False

/-- The file is taken for JSON, because it is said to be or because its name says so. -/
def LoadsJson (file : String) : Option FileFormat → Prop
  | some format => format = .json
  | none => ∃ stem ≠ "", file = stem ++ ".json"

/-! ## Steps -/

private theorem get?_put_of_ne (store : FileStore) {file name : String} (other : file ≠ name)
    (bytes : List UInt8) : (store.put file bytes).get? name = store.get? name := by
  obtain ⟨files⟩ := store
  have differs : (name == file) = false := beq_false_of_ne (Ne.symm other)
  rw [put, get?, get?, List.lookup_cons, differs]
  dsimp only
  induction files with
  | nil => rfl
  | cons entry files ih =>
    rw [List.filter_cons]
    split
    next => rw [List.lookup_cons, List.lookup_cons, ih]
    next removed =>
      -- What is removed is what the file held before.
      obtain rfl : entry.1 = file := by simpa using removed
      rw [ih, List.lookup_cons, differs]

/-- A step changes no file that it does not write. -/
private theorem get?_after (store : FileStore) {step : Step} {file : String}
    (other : ¬ step.Writes file) :
    (store.after step).get? file = store.get? file := by
  cases step with
  | write name bytes => exact store.get?_put_of_ne other bytes
  | save name settings => exact store.get?_put_of_ne other _
  | load name format => rfl
  | read name => rfl

/-- A step that fails leaves the store as it was, and so do all loads and reads. -/
private theorem after_eq_self (store : FileStore) {step : Step}
    (idle : (∀ file, ¬ step.Writes file) ∨ ∃ error, store.answer step = .failed error) :
    store.after step = store := by
  cases step with
  | write name bytes =>
    obtain none | ⟨error, failed⟩ := idle
    · exact absurd rfl (none name)
    · cases failed
  | save name settings =>
    obtain none | ⟨error, failed⟩ := idle
    · exact absurd rfl (none name)
    · cases failed
  | load name format => rfl
  | read name => rfl

/-! ## Runs of steps -/

/-- The store in front of a step of a session. -/
def storeBefore (steps : List Step) (i : Nat) : FileStore := (steps.take i).foldl after empty

private theorem storeBefore_succ {steps : List Step} {i : Nat} {step : Step}
    (here : steps[i]? = some step) :
    storeBefore steps (i + 1) = (storeBefore steps i).after step := by
  rw [storeBefore, List.take_add_one, here, Option.toList_some, List.foldl_append]
  rfl

/-- Every step is answered from the store in front of it. -/
theorem session_getElem? (store : FileStore) (steps : List Step) (i : Nat) :
    (store.session steps)[i]? =
      steps[i]?.map fun step => ((steps.take i).foldl after store).answer step := by
  induction steps generalizing store i with
  | nil => rfl
  | cons step rest ih =>
    cases i with
    | zero => rfl
    | succ i => exact ih (store.after step) i

/-- From one place to another no step writes the file. -/
def Untouched (steps : List Step) (file : String) (i j : Nat) : Prop :=
  ∀ k, i ≤ k → k < j → ∀ step, steps[k]? = some step → ¬ step.Writes file

/-- A file that no step writes stays as it is. -/
private theorem get?_storeBefore {steps : List Step} {file : String} {i j : Nat} (order : i ≤ j)
    (untouched : Untouched steps file i j) :
    (storeBefore steps j).get? file = (storeBefore steps i).get? file := by
  induction order with
  | refl => rfl
  | @step j order ih =>
    have still := ih fun k first last => untouched k first (Nat.lt_succ_of_lt last)
    cases here : steps[j]? with
    | none =>
      have done : steps.length ≤ j := List.getElem?_eq_none_iff.mp here
      have same : storeBefore steps (j + 1) = storeBefore steps j := by
        rw [storeBefore, storeBefore, List.take_of_length_le done,
          List.take_of_length_le (Nat.le_succ_of_le done)]
      rw [same, still]
    | some step =>
      rw [storeBefore_succ here, get?_after _ (untouched j order (Nat.lt_succ_self j) step here),
        still]

/-! ## Files in a session -/

/-- What was saved is there until the file is written again. -/
private theorem get?_of_save {steps : List Step} {file : String} {settings : Settings} {i j : Nat}
    (order : i < j) (saved : steps[i]? = some (.save file settings))
    (untouched : Untouched steps file (i + 1) j) :
    (storeBefore steps j).get? file = some (Utf8.ofString settings.write) := by
  rw [get?_storeBefore order untouched, storeBefore_succ saved]
  exact get?_put_self ..

/-- A file that no step has written is not there. -/
private theorem get?_of_untouched {steps : List Step} {file : String} {j : Nat}
    (untouched : Untouched steps file 0 j) : (storeBefore steps j).get? file = none :=
  get?_storeBefore (Nat.zero_le j) untouched

section

variable {store : FileStore} {file : String}

theorem answer_load_of_write {settings : Settings} {format : Option FileFormat}
    (held : store.get? file = some (Utf8.ofString settings.write))
    (json : LoadsJson file format) : store.answer (.load file format) = .settings settings := by
  have isJson : format.getD (.ofName file) = .json := by
    cases format with
    | none => exact FileFormat.ofName_eq_json_iff.mpr json
    | some format => exact json
  rw [answer, load, isJson, Settings.loadAs, read, held]
  dsimp only
  rw [Settings.ofBytes_write]

theorem answer_read_of_write {settings : Settings}
    (held : store.get? file = some (Utf8.ofString settings.write)) :
    store.answer (.read file) = .text settings.write := by
  have text : Utf8.decodeString (Utf8.ofString settings.write) = some settings.write :=
    Utf8.decodeString_eq_some_iff.mpr rfl
  rw [answer, readText, read, held]
  dsimp only
  rw [text]

private theorem answer_load_of_absent (absent : store.get? file = none)
    (format : Option FileFormat) :
    store.answer (.load file format) = .failed .noFile := by
  rw [answer, load, Settings.loadAs, read, absent]

private theorem answer_read_of_absent (absent : store.get? file = none) :
    store.answer (.read file) = .failed .noFile := by
  rw [answer, readText, read, absent]

end

/-- In a directory that is empty at first, settings are what is loaded from the file they were
saved to and their text is what is read from it, until the file is written again. A file that was
never written is not there, and every step leaves alone what it does not write. -/
structure KeepsSaved (steps : List Step) : Prop where
  load : ∀ {i j file settings format}, i < j → steps[i]? = some (.save file settings) →
    Untouched steps file (i + 1) j → LoadsJson file format →
      steps[j]? = some (.load file format) →
        (empty.session steps)[j]? = some (.settings settings)
  read : ∀ {i j file settings}, i < j → steps[i]? = some (.save file settings) →
    Untouched steps file (i + 1) j → steps[j]? = some (.read file) →
      (empty.session steps)[j]? = some (.text settings.write)
  load_absent : ∀ {j file format}, Untouched steps file 0 j →
    steps[j]? = some (.load file format) → (empty.session steps)[j]? = some (.failed .noFile)
  read_absent : ∀ {j file}, Untouched steps file 0 j → steps[j]? = some (.read file) →
    (empty.session steps)[j]? = some (.failed .noFile)
  others : ∀ {i step file}, steps[i]? = some step → ¬ step.Writes file →
    (storeBefore steps (i + 1)).get? file = (storeBefore steps i).get? file
  idle : ∀ {i step}, steps[i]? = some step →
    (∀ file, ¬ step.Writes file) ∨ (∃ error, (empty.session steps)[i]? = some (.failed error)) →
      storeBefore steps (i + 1) = storeBefore steps i

/-- Every session keeps what was saved. -/
theorem session_keeps_saved (steps : List Step) : KeepsSaved steps := by
  have answered {j : Nat} {step : Step} (here : steps[j]? = some step) :
      (empty.session steps)[j]? = some ((storeBefore steps j).answer step) := by
    rw [session_getElem?, here]
    rfl
  exact {
    load := fun order saved untouched json here => by
      rw [answered here, answer_load_of_write (get?_of_save order saved untouched) json]
    read := fun order saved untouched here => by
      rw [answered here, answer_read_of_write (get?_of_save order saved untouched)]
    load_absent := fun untouched here => by
      rw [answered here, answer_load_of_absent (get?_of_untouched untouched)]
    read_absent := fun untouched here => by
      rw [answered here, answer_read_of_absent (get?_of_untouched untouched)]
    others := fun here other => by
      rw [storeBefore_succ here, get?_after _ other]
    idle := fun here idle => by
      rw [answered here] at idle
      rw [storeBefore_succ here]
      exact after_eq_self _
        (idle.imp_right fun ⟨error, failed⟩ => ⟨error, Option.some.inj failed⟩) }

/-- Another file is written in between. -/
theorem session_keeps_saved_quotes :
    (empty.session [.save "a.json" ⟨⟨some "\"\\\x07\u00e9\"", true⟩⟩, .write "b.json" [],
      .load "a.json" none])[2]? = some (.settings ⟨⟨some "\"\\\x07\u00e9\"", true⟩⟩) := by
  have json : LoadsJson "a.json" none := ⟨"a", by decide, by decide⟩
  have order : 0 < 2 := by decide
  refine (session_keeps_saved _).load order rfl ?_ json rfl
  intro k first last step here
  obtain rfl : k = 1 := by omega
  cases here
  have other : "b.json" ≠ "a.json" := by decide
  exact other

end FileStore

end TokenIntake
