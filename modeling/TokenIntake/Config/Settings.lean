import TokenIntake.Json.Printer
import TokenIntake.Schema.OfToml
import TokenIntake.Schema.Scan
import TokenIntake.Schema.ToJson
import TokenIntake.Toml.Document

/-!
# Settings

Only the log can be set up. Settings come from a file, either TOML or JSON, and what
the file leaves out has its default.
-/

namespace TokenIntake

structure LogSettings where
  filter : Option String
  jsonFormat : Bool
  deriving DecidableEq, Repr

structure Settings where
  logging : LogSettings
  deriving DecidableEq, Repr

namespace Settings

/-- No filter, and lines for people to read. -/
def default : Settings := ⟨⟨none, false⟩⟩

def logFields : Fields :=
  .cons "filter" (.option .text) false (.cons "json_format" .flag false .nil)

def fields : Fields :=
  .cons "logging" (.record "LoggingConfig" logFields) false .nil

def shape : Shape := .record "ValidatorConfig" fields

def ofRow : fields.Row → Settings
  | ((filter, jsonFormat, ()), ()) => ⟨⟨filter, jsonFormat⟩⟩

def toRow (settings : Settings) : fields.Row :=
  ((settings.logging.filter, settings.logging.jsonFormat, ()), ())

def write (settings : Settings) : String :=
  (shape.toJson settings.toRow).pretty

def ofJsonText (text : List UInt8) : Except Json.Fault Settings :=
  (shape.parse text).map ofRow

def ofTomlText (text : String) : Option Settings := do
  let members ← Toml.parse text
  let row ← shape.ofToml (.table .header members)
  some (ofRow row)

end Settings

inductive FileFormat where
  | toml
  | json
  deriving DecidableEq, Repr

namespace FileFormat

/-- The text behind the last dot of a file name, unless that dot comes first. -/
def extension? (name : List Char) : Option (List Char) :=
  match name.reverse.span (· ≠ '.') with
  | (_, []) => none
  | (_, [_]) => none
  | (reversed, _ :: _ :: _) => some reversed.reverse

/-- A file is taken for JSON if its extension says so, and for TOML otherwise. -/
def ofName (name : String) : FileFormat :=
  if extension? name.toList = some "json".toList then json else toml

end FileFormat

inductive LoadError where
  | noFile
  | notDirectory
  | isDirectory
  | nameTooLong
  | notUtf8
  | toml
  | json (message : String)
  deriving DecidableEq, Repr

def LoadError.message : LoadError → String
  | noFile => "No such file or directory (os error 2)"
  | notDirectory => "Not a directory (os error 20)"
  | isDirectory => "Is a directory (os error 21)"
  | nameTooLong => "File name too long (os error 36)"
  | notUtf8 => "stream did not contain valid UTF-8"
  | toml => "TOML parse error"
  | json message => message

namespace Settings

def ofBytes (format : FileFormat) (bytes : List UInt8) : Except LoadError Settings :=
  match Utf8.decodeString bytes with
  | none => .error .notUtf8
  | some text =>
    match format with
    | .toml =>
      match ofTomlText text with
      | some settings => .ok settings
      | none => .error .toml
    | .json =>
      match ofJsonText bytes with
      | .ok settings => .ok settings
      | .error fault => .error (.json (fault.message bytes))

end Settings

/-- What can be read: the bytes under a path, or why there are none. -/
abbrev Files : Type := String → Except LoadError (List UInt8)

/-- Settings from what is read under a path, taken for a format. -/
def Settings.loadAs (files : Files) (path : String) (format : FileFormat) :
    Except LoadError Settings :=
  match files path with
  | .error error => .error error
  | .ok bytes => ofBytes format bytes

end TokenIntake
