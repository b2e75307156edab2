import TokenIntake.Proofs.Formats
import TokenIntake.Proofs.Repeats

/-!
# Settings in any layout

How settings may be written in JSON: members in any order, blanks and escapes as one likes, members
left out where the default is meant, and other members between them. Every such text is loaded as the
settings. A text in which a setting stands twice is refused, whatever its values are.
-/

namespace TokenIntake

namespace Json

/-- An object by the names of its members and the texts of their values, as they are written. -/
def ObjectText (members : List (String × List UInt8)) (core : List UInt8) : Prop :=
  ∃ inside, Entries (MemberOf Eq) members inside ∧ core = 0x7B :: (inside ++ [0x7D])

/-- The members make up the whole text, with blanks around the object. -/
def ObjectDocument (members : List (String × List UInt8)) (text : List UInt8) : Prop :=
  ∃ before core after, text = before ++ (core ++ after) ∧ Blanks before ∧ Blanks after ∧
    ObjectText members core

/-- One member at most has the name. It tells what is meant, and is missing only if it may be. -/
structure HasField (members : List (String × List UInt8)) (name : String)
    (Tells : List UInt8 → Prop) (mayMiss : Prop) : Prop where
  once : (members.map Prod.fst).count name ≤ 1
  tells : ∀ core, (name, core) ∈ members → Tells core
  missing : name ∉ members.map Prod.fst → mayMiss

/-- Two members at least have the name. -/
def HasTwice (members : List (String × List UInt8)) (name : String) : Prop :=
  2 ≤ (members.map Prod.fst).count name

instance (members : List (String × List UInt8)) (name : String) :
    Decidable (HasTwice members name) :=
  inferInstanceAs (Decidable (_ ≤ _))

end Json

open Json (Blanks ObjectText ObjectDocument HasField HasTwice Value WellFormed)
open Json.Scan (Skips Breaks)

/-! ## Objects that are records -/

section

variable {record : String} {fields : Fields} {row : fields.Row}
  {members : List (String × List UInt8)} {text : List UInt8}

theorem Json.ObjectDocument.exists_skips (document : ObjectDocument members text) :
    ∃ inside after, Json.Entries (Json.MemberOf Eq) members inside ∧ Blanks after ∧
      Skips text (0x7B :: (inside ++ 0x7D :: after)) := by
  obtain ⟨before, core, after, rfl, front, back, inside, spelled, rfl⟩ := document
  exact ⟨inside, after, spelled, back, before, front, by simp⟩

/-- A whole text is read as a record if its members are read as fields of it. -/
theorem Shape.parse_of_object (document : ObjectDocument members text)
    (distinct : fields.names.Nodup)
    (reads : ∀ member ∈ members, fields.ReadsMember 126 member.1 member.2 row)
    (once : ∀ name ∈ fields.names, (members.map Prod.fst).count name ≤ 1)
    (absent : fields.AbsentBut (members.map Prod.fst) row) :
    (Shape.record record fields).parse text = .ok row := by
  obtain ⟨inside, after, spelled, back, skips⟩ := document.exists_skips
  refine Json.Scan.run_eq_ok_iff.mpr ⟨after, ?_, back⟩
  refine Shape.scan_object (fun _ _ member => member) spelled distinct ?_ once absent skips
  rintro member found _ rfl
  exact reads member found

/-- What a record is read from has members that the record admits. -/
theorem Shape.admits_of_parse (document : ObjectDocument members text)
    (keeps : fields.KeepStep 126) (distinct : fields.names.Nodup)
    (each : ∀ member ∈ members, WellFormed member.2)
    (read : (Shape.record record fields).parse text = .ok row) : fields.Admits 126 members := by
  obtain ⟨inside, after, spelled, -, skips⟩ := document.exists_skips
  obtain ⟨rest, read, -⟩ := Json.Scan.run_eq_ok_iff.mp read
  exact Json.Scan.leaves_true_iff.mp
    (Shape.scan_object_admits keeps distinct spelled each skips) _ _ read

end

/-! ## The layouts -/

namespace LogSettings

/-- A filter, or null for none. -/
def FilterText : Option String → List UInt8 → Prop
  | none => Value .null
  | some filter => Value (.string filter)

/-- The members hold the settings of the log, of which the default may be left out. -/
structure HeldBy (log : LogSettings) (members : List (String × List UInt8)) : Prop where
  filter : HasField members "filter" (FilterText log.filter) (log.filter = none)
  jsonFormat : HasField members "json_format" (Value (.bool log.jsonFormat))
    (log.jsonFormat = false)
  others : ∀ member ∈ members, member.1 ≠ "filter" → member.1 ≠ "json_format" →
    WellFormed member.2

/-- The text is an object that holds the settings of the log. -/
def Layout (log : LogSettings) (core : List UInt8) : Prop :=
  ∃ members, ObjectText members core ∧ log.HeldBy members

end LogSettings

namespace Settings

/-- The members hold the settings, or none of them if they are the default. -/
structure HeldBy (settings : Settings) (members : List (String × List UInt8)) : Prop where
  logging : HasField members "logging" settings.logging.Layout (settings = default)
  others : ∀ member ∈ members, member.1 ≠ "logging" → WellFormed member.2

/-- The text is an object that holds the settings, with blanks around it. -/
def Layout (settings : Settings) (text : List UInt8) : Prop :=
  ∃ before core after members, text = before ++ (core ++ after) ∧ Blanks before ∧ Blanks after ∧
    ObjectText members core ∧ settings.HeldBy members

/-- The text is an object in which a setting stands twice, be it the whole log or one of its
settings. The values may be anything. -/
def Repeats (text : List UInt8) : Prop :=
  ∃ before core after members, text = before ++ (core ++ after) ∧ Blanks before ∧ Blanks after ∧
    ObjectText members core ∧ (∀ member ∈ members, WellFormed member.2) ∧
    (HasTwice members "logging" ∨ ∃ log inner, ("logging", log) ∈ members ∧ ObjectText inner log ∧
      (∀ member ∈ inner, WellFormed member.2) ∧
      (HasTwice inner "filter" ∨ HasTwice inner "json_format"))

/-! ## Reading them -/

private theorem nodup_logFields : logFields.names.Nodup := by decide

private theorem nodup_fields : fields.names.Nodup := by decide

private theorem readsAs_filter {filter : Option String} {core : List UInt8} {depth : Nat}
    (told : LogSettings.FilterText filter core) :
    (Shape.option .text).ReadsAs depth core filter := by
  intro input rest skips breaks
  cases filter with
  | none =>
    have tells : (Shape.option .text).Tells .null none := rfl
    exact (Shape.option .text).scan_complete tells (Nat.zero_le _) told skips breaks
  | some filter =>
    have tells : (Shape.option .text).Tells (.string filter) (some filter) := ⟨by simp, rfl⟩
    exact (Shape.option .text).scan_complete tells (Nat.zero_le _) told skips breaks

private theorem readsAs_log {log : LogSettings} {core : List UInt8} {below : Nat}
    (layout : log.Layout core) :
    (Shape.record "LoggingConfig" logFields).ReadsAs (below + 1) core
      (log.filter, log.jsonFormat, ()) := by
  obtain ⟨members, ⟨inside, spelled, rfl⟩, filter, jsonFormat, others⟩ := layout
  intro input rest skips breaks
  rw [Json.Scan.enclosed_append] at skips
  refine Shape.scan_object (fun _ _ member => member) spelled nodup_logFields ?_ ?_ ?_ skips
  · rintro ⟨name, core⟩ found _ rfl
    change if name = "filter" then _ else if name = "json_format" then _ else WellFormed core
    split_ifs with isFilter isFormat
    · subst isFilter
      exact readsAs_filter (filter.tells core found)
    · subst isFormat
      intro input rest skips breaks
      exact Shape.flag.scan_complete rfl (Nat.zero_le _) (jsonFormat.tells core found) skips breaks
    · exact others _ found isFilter isFormat
  · intro name known
    simp only [logFields, Fields.names, List.mem_cons, List.not_mem_nil, or_false] at known
    rcases known with rfl | rfl
    · exact filter.once
    · exact jsonFormat.once
  · exact ⟨fun missing => ⟨rfl, filter.missing missing⟩,
      fun missing => ⟨rfl, jsonFormat.missing missing⟩, trivial⟩

theorem parse_of_layout {settings : Settings} {text : List UInt8} (layout : settings.Layout text) :
    shape.parse text = .ok settings.toRow := by
  obtain ⟨before, core, after, members, split, front, back, object, log, others⟩ := layout
  refine Shape.parse_of_object ⟨before, core, after, split, front, back, object⟩ nodup_fields
    ?_ ?_ ?_
  · rintro ⟨name, core⟩ found
    change if name = "logging" then _ else WellFormed core
    split_ifs with isLog
    · subst isLog
      exact readsAs_log (log.tells core found)
    · exact others _ found isLog
  · intro name known
    simp only [fields, Fields.names, List.mem_cons, List.not_mem_nil, or_false] at known
    rw [known]
    exact log.once
  · refine ⟨fun missing => ⟨rfl, ?_⟩, trivial⟩
    rw [log.missing missing]
    rfl

/-- A text of the settings is read as them, in whatever layout. -/
theorem ofBytes_of_layout {settings : Settings} {text : String}
    (layout : settings.Layout (Utf8.ofString text)) :
    ofBytes .json (Utf8.ofString text) = .ok settings := by
  have decoded : Utf8.decodeString (Utf8.ofString text) = some text :=
    Utf8.decodeString_eq_some_iff.mpr rfl
  rw [ofBytes, decoded]
  dsimp only
  rw [ofJsonText, parse_of_layout layout]
  rfl

/-! ## Refusing repeated settings -/

private theorem keepStep_logFields (depth : Nat) : logFields.KeepStep depth :=
  ⟨Json.Scan.keepsStep_option (Json.Scan.keepsStep_text _), Json.Scan.keepsStep_flag, trivial⟩

private theorem keepStep_fields (below : Nat) : fields.KeepStep (below + 1) :=
  ⟨Shape.keepsStep_record (keepStep_logFields below) nodup_logFields, trivial⟩

theorem parse_of_repeats {text : List UInt8} (repeats : Repeats text) (row : fields.Row) :
    shape.parse text ≠ .ok row := by
  intro ok
  obtain ⟨before, core, after, members, split, front, back, object, each, twice⟩ := repeats
  obtain ⟨once, -, accepts⟩ := Shape.admits_of_parse
    ⟨before, core, after, split, front, back, object⟩ (keepStep_fields 125) nodup_fields each ok
  rcases twice with twice | ⟨log, inner, found, ⟨inside, spelled, rfl⟩, each, twice⟩
  · exact absurd (once "logging" (by decide)) (Nat.not_le_of_lt twice)
  · -- The object of the log was read as a record of its own, which admits no repetition either.
    have accepted := accepts _ found
    obtain ⟨input, rest, value, skips, -, read⟩ := accepted
    rw [Json.Scan.enclosed_append] at skips
    obtain ⟨once, -, -⟩ := Json.Scan.leaves_true_iff.mp
      (Shape.scan_object_admits (keepStep_logFields 125) nodup_logFields spelled each skips) _ _ read
    rcases twice with twice | twice
    · exact absurd (once "filter" (by decide)) (Nat.not_le_of_lt twice)
    · exact absurd (once "json_format" (by decide)) (Nat.not_le_of_lt twice)

end Settings

namespace Json

theorem MoreEntries.map {α β : Type} {P : α → List UInt8 → Prop} {Q : β → List UInt8 → Prop}
    {f : α → β} (implies : ∀ a core, P a core → Q (f a) core) {entries : List α}
    {text : List UInt8} (spelled : MoreEntries P entries text) :
    MoreEntries Q (entries.map f) text := by
  induction spelled with
  | nil => exact .nil
  | cons front head back _ ih => exact .cons front (implies _ _ head) back ih

theorem Entries.map {α β : Type} {P : α → List UInt8 → Prop} {Q : β → List UInt8 → Prop}
    {f : α → β} (implies : ∀ a core, P a core → Q (f a) core) {entries : List α}
    {text : List UInt8} (spelled : Entries P entries text) : Entries Q (entries.map f) text := by
  cases spelled with
  | none blanks => exact .none blanks
  | some front head back more => exact .some front (implies _ _ head) back (more.map implies)

theorem ObjectText.wellFormed {members : List (String × List UInt8)} {core : List UInt8}
    (object : ObjectText members core) (each : ∀ member ∈ members, WellFormed member.2) :
    WellFormed core := by
  obtain ⟨inside, spelled, rfl⟩ := object
  have loose : Entries LooseMember (members.map Prod.snd) inside := by
    refine spelled.map ?_
    rintro _ _ ⟨⟨name⟩, back, front, rfl⟩
    exact .mk (looseText_of_spelling name) back front
  exact .object loose (List.forall_mem_map.mpr each)

end Json

/-- Settings are held by well-formed values. So where they stand a second time, one of them stands
twice among well-formed values. -/
theorem LogSettings.HeldBy.wellFormed {log : LogSettings} {members : List (String × List UInt8)}
    (held : log.HeldBy members) : ∀ member ∈ members, WellFormed member.2 := by
  rintro ⟨name, core⟩ found
  by_cases isFilter : name = "filter"
  · subst isFilter
    have told := held.filter.tells core found
    cases filter : log.filter with
    | none =>
      rw [filter] at told
      cases told
      exact .null
    | some text =>
      rw [filter] at told
      obtain ⟨inside⟩ : Json.StringSpelling text core := by
        cases told
        assumption
      exact .string (Json.looseText_of_spelling inside)
  by_cases isFormat : name = "json_format"
  · subst isFormat
    have told := held.jsonFormat.tells core found
    generalize log.jsonFormat = flag at told
    cases told
    · exact .true
    · exact .false
  · exact held.others _ found isFilter isFormat

theorem Settings.HeldBy.wellFormed {settings : Settings} {members : List (String × List UInt8)}
    (held : settings.HeldBy members) : ∀ member ∈ members, WellFormed member.2 := by
  rintro ⟨name, core⟩ found
  by_cases isLog : name = "logging"
  · subst isLog
    obtain ⟨inner, object, held⟩ := held.logging.tells core found
    exact object.wellFormed held.wellFormed
  · exact held.others _ found isLog

/-! ## The layout of what is saved -/

namespace Json

/-- Of each member there is its name and the text of its value. -/
theorem MoreEntries.exists_texts {members : List (String × Json)} {text : List UInt8}
    (spelled : MoreEntries Member members text) :
    ∃ texts, MoreEntries (MemberOf Eq) texts text ∧
      List.Forall₂ (fun written member => written.1 = member.1 ∧ Value member.2 written.2)
        texts members := by
  induction spelled with
  | nil => exact ⟨[], .nil, .nil⟩
  | cons front head back _ ih =>
    obtain ⟨texts, tail, related⟩ := ih
    obtain ⟨name, behind, inside, value⟩ := head
    exact ⟨_, .cons front (.mk name behind inside rfl) back tail, .cons ⟨rfl, value⟩ related⟩

private theorem exists_objectText {members : List (String × Json)} {core : List UInt8}
    (spelled : Value (.object members) core) :
    ∃ texts, ObjectText texts core ∧
      List.Forall₂ (fun written member => written.1 = member.1 ∧ Value member.2 written.2)
        texts members := by
  cases spelled with
  | object inside =>
    cases inside with
    | none blanks => exact ⟨[], ⟨_, .none blanks, rfl⟩, .nil⟩
    | some front head back more =>
      obtain ⟨texts, tail, related⟩ := more.exists_texts
      obtain ⟨name, behind, inside, value⟩ := head
      exact ⟨_, ⟨_, .some front (.mk name behind inside rfl) back tail, rfl⟩,
        .cons ⟨rfl, value⟩ related⟩

end Json

/-- The settings of the log, as they are saved. -/
def LogSettings.saved (log : LogSettings) : Json :=
  .object [("filter", log.filter.elim .null .string), ("json_format", .bool log.jsonFormat)]

private theorem LogSettings.layout_saved {log : LogSettings} {core : List UInt8}
    (spelled : Value log.saved core) : log.Layout core := by
  obtain ⟨filter, jsonFormat⟩ := log
  obtain ⟨texts, object, related⟩ := Json.exists_objectText spelled
  obtain ⟨⟨_, text⟩, _, ⟨rfl, told⟩, second, rfl⟩ := List.forall₂_cons_right_iff.mp related
  obtain ⟨⟨_, text'⟩, _, ⟨rfl, told'⟩, none, rfl⟩ := List.forall₂_cons_right_iff.mp second
  obtain rfl := List.forall₂_nil_right_iff.mp none
  have filterText : FilterText filter text := by
    cases filter <;> exact told
  refine ⟨_, object, ⟨by simp, ?_, by simp⟩, ⟨by simp, ?_, by simp⟩, by simp⟩
  · intro core found
    obtain rfl : core = text := by simpa using found
    exact filterText
  · intro core found
    obtain rfl : core = text' := by simpa using found
    exact told'

namespace Settings

theorem toJson_toRow (settings : Settings) :
    shape.toJson settings.toRow = .object [("logging", settings.logging.saved)] := by
  obtain ⟨⟨filter, jsonFormat⟩⟩ := settings
  cases filter <;> rfl

/-- What settings are saved as is one of their layouts. -/
theorem layout_write (settings : Settings) : settings.Layout (Utf8.ofString settings.write) := by
  have document := Json.document_pretty (shape.whole_toJson settings.faithful_toRow)
    settings.nesting_toJson
  rw [write]
  generalize Utf8.ofString (shape.toJson settings.toRow).pretty = text at document
  rw [toJson_toRow] at document
  obtain ⟨front, spelled, back, -⟩ := document
  obtain ⟨texts, object, related⟩ := Json.exists_objectText spelled
  obtain ⟨⟨_, log⟩, _, ⟨rfl, told⟩, none, rfl⟩ := List.forall₂_cons_right_iff.mp related
  obtain rfl := List.forall₂_nil_right_iff.mp none
  refine ⟨_, _, _, _, List.append_assoc .., front, back, object, ⟨by simp, ?_, by simp⟩, by simp⟩
  intro core found
  obtain rfl : core = log := by simpa using found
  exact LogSettings.layout_saved told

end Settings

namespace FileStore

/-- A file of JSON is loaded as the settings that it holds in any layout, and not at all if a setting
stands twice in it. -/
theorem load_json_layouts (store : FileStore) (file text : String) :
    (∀ settings : Settings, settings.Layout (Utf8.ofString text) →
        (store.put file (Utf8.ofString text)).load file (some .json) = .ok settings) ∧
      (Settings.Repeats (Utf8.ofString text) → ∃ message,
        (store.put file (Utf8.ofString text)).load file (some .json) =
          .error (.json message)) := by
  rw [load_put_self]
  constructor
  · intro settings layout
    exact Settings.ofBytes_of_layout layout
  · intro repeats
    have decoded : Utf8.decodeString (Utf8.ofString text) = some text :=
      Utf8.decodeString_eq_some_iff.mpr rfl
    rw [Settings.ofBytes, decoded]
    dsimp only
    cases read : Settings.shape.parse (Utf8.ofString text) with
    | ok row => exact absurd read (Settings.parse_of_repeats repeats row)
    | error fault =>
      rw [Settings.ofJsonText, read]
      exact ⟨_, rfl⟩

/-- The name of the filter is written with an escape and a member of no setting is half a surrogate
pair. In the second file the log stands there again, as null. -/
theorem load_json_layouts_escaped_name :
    (empty.put "a.json" (Utf8.ofString
        "\x7b\"x\":\"\\ud800\", \"logging\":\x7b\"\\u0066ilter\":\"a\"\x7d\x7d")).load "a.json"
          (some .json) = .ok ⟨⟨some "a", false⟩⟩ ∧
      ∃ message, (empty.put "a.json" (Utf8.ofString
        "\x7b\"x\":\"\\ud800\", \"logging\":\x7b\"\\u0066ilter\":\"a\"\x7d,\"logging\":null\x7d")).load
          "a.json" (some .json) = .error (.json message) := by
  have spelled (text : String) := Json.stringSpelling_writeString text
  have half : Json.HexUnit 0xD800 [0x64, 0x38, 0x30, 0x30] :=
    .mk (w := 13) (x := 8) (y := 0) (z := 0) (by decide) (by decide) (by decide) (by decide)
  have letter : Json.HexUnit 'f'.toNat [0x30, 0x30, 0x36, 0x36] :=
    .mk (w := 0) (x := 0) (y := 6) (z := 6) (by decide) (by decide) (by decide) (by decide)
  have name : Json.StringSpelling "filter" _ :=
    .mk (.cons (.escaped (.unit letter)) (Json.textSpelling_write ['i', 'l', 't', 'e', 'r']))
  have space : Blanks [0x20] := by simp [Blanks]
  have extra : WellFormed (Utf8.ofString "\"\\ud800\"") := by
    have text : Utf8.ofString "\"\\ud800\"" =
        0x22 :: (0x5C :: 0x75 :: ([0x64, 0x38, 0x30, 0x30] ++ []) ++ [0x22]) := by decide
    rw [text]
    exact .string (.unit half .nil)
  have log : LogSettings.Layout ⟨some "a", false⟩
      (Utf8.ofString "\x7b\"\\u0066ilter\":\"a\"\x7d") := by
    refine ⟨[("filter", Utf8.ofString "\"a\"")],
      ⟨_, .some .nil (.mk name .nil .nil rfl) .nil .nil, by decide⟩,
      ⟨by decide, fun core found => ?_, by simp⟩, ⟨by decide, by simp, fun _ => rfl⟩, by simp⟩
    have same : core = Utf8.ofString "\"a\"" := by simpa using found
    have written : Utf8.ofString "\"a\"" = Utf8.encode (Json.writeString "a") := by decide
    rw [same, written]
    exact .string (spelled "a")
  have held : Settings.HeldBy ⟨⟨some "a", false⟩⟩ [("x", Utf8.ofString "\"\\ud800\""),
      ("logging", Utf8.ofString "\x7b\"\\u0066ilter\":\"a\"\x7d")] := by
    refine ⟨⟨by decide, fun core found => ?_, by simp⟩, by simpa using extra⟩
    have same : core = Utf8.ofString "\x7b\"\\u0066ilter\":\"a\"\x7d" := by simpa using found
    rw [same]
    exact log
  constructor
  · refine (load_json_layouts empty "a.json" _).1 _ ⟨[], _, [], _, ?_, .nil, .nil, ⟨_, .some .nil
      (.mk (spelled "x") .nil .nil rfl) .nil (.cons space
        (.mk (spelled "logging") .nil .nil rfl) .nil .nil), rfl⟩, held⟩
    decide
  · refine (load_json_layouts empty "a.json" _).2 ⟨[], _, [], _ ++ [("logging",
      Utf8.ofString "null")], ?_, .nil, .nil, ⟨_, .some .nil
        (.mk (spelled "x") .nil .nil rfl) .nil (.cons space
          (.mk (spelled "logging") .nil .nil rfl) .nil (.cons .nil
            (.mk (spelled "logging") .nil .nil rfl) .nil .nil)), rfl⟩,
      List.forall_mem_append.mpr ⟨held.wellFormed, ?_⟩, .inl (by decide)⟩
    · decide
    · exact List.forall_mem_singleton.mpr .null

end FileStore

end TokenIntake
