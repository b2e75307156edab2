import TokenIntake.Proofs.Sessions
import TokenIntake.Proofs.TomlReading

/-!
# Settings in both formats

Settings may be written as TOML or saved as JSON, and are the same to the program. The filter can
stand in the TOML as JSON writes it, unless it has the delete character, which JSON does not escape
and TOML does not allow.
-/

namespace TokenIntake

namespace Settings

open Toml.Lexer

/-- The entries of the settings as lines of TOML. A filter is written as a string of JSON. -/
def tomlEntries (settings : Settings) : List (List Char) :=
  let filter := settings.logging.filter.map fun filter =>
    "filter = ".toList ++ Json.writeString filter
  filter.toList ++ ["json_format = ".toList ++ Json.writeBool settings.logging.jsonFormat]

/-- Settings as TOML. The last line may have a line feed or not. -/
def tomlText (settings : Settings) (lastFeed : Bool) : String :=
  let lines := "[logging]".toList :: settings.tomlEntries
  String.ofList (['\n'].intercalate lines ++ if lastFeed then ['\n'] else [])

/-- The filter has no delete character. -/
def NoDelete (settings : Settings) : Prop :=
  ∀ filter ∈ settings.logging.filter, '\x7f' ∉ filter.toList

/-- The table that the entries are. -/
def tomlMembers (settings : Settings) : Toml.Members :=
  (settings.logging.filter.map fun filter => ("filter", .text filter)).toList ++
    [("json_format", .boolean settings.logging.jsonFormat)]

private theorem nodup_tomlMembers (settings : Settings) :
    (settings.tomlMembers.map Prod.fst).Nodup := by
  obtain ⟨⟨filter, jsonFormat⟩⟩ := settings
  cases filter <;> simp [tomlMembers]

private theorem isLine_tomlEntries {settings : Settings} (noDelete : settings.NoDelete) :
    List.Forall₂ (fun text member => IsLine text (.entry [member.1] member.2))
      settings.tomlEntries settings.tomlMembers := by
  obtain ⟨⟨filter, jsonFormat⟩⟩ := settings
  have flag : IsLine ("json_format = ".toList ++ Json.writeBool jsonFormat)
      (.entry ["json_format"] (.boolean jsonFormat)) := by
    have bare : IsBareName "json_format" := by decide
    simpa [entryText] using isLine_entry bare (spells_flag jsonFormat)
  cases filter with
  | none => exact .cons flag .nil
  | some filter =>
    have text : IsLine ("filter = ".toList ++ Json.writeString filter)
        (.entry ["filter"] (.text filter)) := by
      have bare : IsBareName "filter" := by decide
      simpa [entryText] using isLine_entry bare (spells_text (noDelete filter rfl))
    exact .cons text (.cons flag .nil)

theorem parse_tomlText {settings : Settings} (noDelete : settings.NoDelete) (lastFeed : Bool) :
    Toml.parse (settings.tomlText lastFeed) =
      some [("logging", .table .header settings.tomlMembers)] := by
  have bare : IsBareName "logging" := by decide
  have header : "[logging]".toList = headerText "logging" := by decide
  have ends : EndsLine (if lastFeed then ['\n'] else []) [] := by
    cases lastFeed
    · exact .atEnd
    · exact .lineFeed []
  rw [tomlText, header]
  exact Toml.parse_table bare (isLine_tomlEntries noDelete) settings.nodup_tomlMembers ends

theorem ofToml_tomlMembers (settings : Settings) :
    shape.ofToml (.table .header [("logging", .table .header settings.tomlMembers)]) =
      some settings.toRow := by
  obtain ⟨⟨filter, jsonFormat⟩⟩ := settings
  cases filter <;> rfl

/-- Settings are read back from their lines of TOML. -/
theorem ofBytes_tomlText {settings : Settings} (noDelete : settings.NoDelete) (lastFeed : Bool) :
    ofBytes .toml (Utf8.ofString (settings.tomlText lastFeed)) = .ok settings := by
  have text : Utf8.decodeString (Utf8.ofString (settings.tomlText lastFeed)) =
      some (settings.tomlText lastFeed) := Utf8.decodeString_eq_some_iff.mpr rfl
  have read : ofTomlText (settings.tomlText lastFeed) = some settings := by
    rw [ofTomlText, parse_tomlText noDelete, Option.bind_eq_bind, Option.bind_some,
      ofToml_tomlMembers]
    rfl
  rw [ofBytes, text]
  dsimp only
  rw [read]

end Settings

namespace FileStore

theorem load_put_self (store : FileStore) (file : String) (bytes : List UInt8)
    (format : FileFormat) :
    (store.put file bytes).load file (some format) = Settings.ofBytes format bytes := by
  rw [load, Settings.loadAs, read, get?_put_self]
  rfl

/-- What is loaded from the lines of TOML is what is loaded from the saved JSON. -/
theorem load_toml_and_json (store : FileStore) (file saved : String) {settings : Settings}
    (noDelete : settings.NoDelete) (lastFeed : Bool) :
    (store.put file (Utf8.ofString (settings.tomlText lastFeed))).load file (some .toml) =
        .ok settings ∧
      (store.save saved settings).load saved (some .json) = .ok settings := by
  constructor
  · rw [load_put_self, Settings.ofBytes_tomlText noDelete]
  · rw [save, load_put_self, Settings.ofBytes_write]

/-- The filter is a quote, a line feed and a bell. -/
theorem load_toml_and_json_bell :
    (empty.put "a.toml" (Utf8.ofString
        "[logging]\nfilter = \"\\\"\\n\\u0007\"\njson_format = true")).load "a.toml" (some .toml) =
      (empty.save "a.json" ⟨⟨some "\"\n\x07", true⟩⟩).load "a.json" (some .json) := by
  have noDelete : (⟨⟨some "\"\n\x07", true⟩⟩ : Settings).NoDelete := by
    rintro _ ⟨⟩
    decide
  have text : (⟨⟨some "\"\n\x07", true⟩⟩ : Settings).tomlText false =
      "[logging]\nfilter = \"\\\"\\n\\u0007\"\njson_format = true" := by decide
  obtain ⟨toml, json⟩ := load_toml_and_json empty "a.toml" "a.json" noDelete false
  rw [← text, toml, json]

end FileStore

end TokenIntake
