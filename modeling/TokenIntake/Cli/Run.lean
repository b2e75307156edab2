import TokenIntake.Cli.Arguments
import TokenIntake.Config.Path
import TokenIntake.Log.Filter
import TokenIntake.Log.Setup

/-!
# Runs of the command line

A run checks one value. Its verdict is one line on the standard output and decides the
exit code. The log says what was checked, as far as the filter lets it. The log is set up
from the environment and the settings before anything is checked.
-/

namespace TokenIntake.Cli

/-- What a run leaves behind. -/
structure Output where
  exit : UInt32
  stdout : String
  log : List String
  error : Option String
  deriving DecidableEq, Repr

inductive Report where
  | started (kind : FieldKind)
  | accepted (kind : FieldKind)
  | rejected (kind : FieldKind) (error : String)
  deriving DecidableEq, Repr

namespace Report

/-- The part of the program that reports. -/
def target : String := "fractal_validate"

def level : Report → LogLevel
  | started _ => .debug
  | accepted _ => .info
  | rejected _ _ => .info

def text : Report → String
  | started kind => "validating value field=" ++ kind.label
  | accepted kind => "value accepted field=" ++ kind.label
  | rejected kind error => "value rejected field=" ++ kind.label ++ " error=" ++ error

def line (report : Report) : String :=
  report.level.name ++ " " ++ target ++ ": " ++ report.text

end Report

namespace Finding

/-- What is printed on a value that is not a number. -/
def notNumberMessage (name : String) (fault : Numeral.Fault) : String :=
  name ++ " is not a number: " ++ fault.message

def reports (kind : FieldKind) : Finding → List Report
  | accepted => [.accepted kind]
  | rejected rejection => [.rejected kind rejection.message]
  | cleaned _ => []
  | notNumber _ _ => []

/-- The output on a finding, with the lines of the log given. -/
def output (log : List String) : Finding → Output
  | accepted => ⟨0, "ok\n", log, none⟩
  | rejected rejection => ⟨1, rejection.message ++ "\n", log, none⟩
  | cleaned text => ⟨0, text ++ "\n", log, none⟩
  | notNumber name fault => ⟨1, "", log, some (notNumberMessage name fault)⟩

end Finding

namespace Invocation

/-- The settings of the file that is named, or the default ones. -/
def settings (files : Files) (invocation : Invocation) : Except LoadError Settings :=
  match invocation.config with
  | none => .ok .default
  | some path => Settings.loadFrom files path

/-- A filter that is given takes the place of the one of the settings. -/
def override (invocation : Invocation) (settings : Settings) : Settings :=
  match invocation.logFilter with
  | none => settings
  | some filter => { settings with logging := { settings.logging with filter := some filter } }

def loadSettings (files : Files) (invocation : Invocation) : Except LoadError Settings :=
  (invocation.settings files).map invocation.override

def reports (invocation : Invocation) : List Report :=
  let finding := invocation.kind.find invocation.value
  .started invocation.kind :: finding.reports invocation.kind

/-- The output of a check, with the log that was set up for it. -/
def check {logger : Logger Report} (log : Log logger) (invocation : Invocation) : Output :=
  (invocation.kind.find invocation.value).output (log.lines invocation.reports)

def run (logger : Logger Report) (json : JsonLines Report) (files : Files)
    (environment : Option String) (invocation : Invocation) : Output :=
  match invocation.loadSettings files with
  | .error error => ⟨1, "", [], some error.message⟩
  | .ok settings => invocation.check (logger.setUpFrom json environment settings.logging)

end Invocation

def Inquiry.answer : Inquiry → String
  | version => "fractal-validate 0.1.0\n"
  | help =>
    "Validate a Fractal Engine input field\n\n" ++
    "Usage: fractal-validate [OPTIONS] <FIELD> <VALUE>\n\n" ++
    "Arguments:\n" ++
    "  <FIELD>  Field type to validate [possible values: " ++
      ", ".intercalate (FieldKind.all.map FieldKind.name) ++ "]\n" ++
    "  <VALUE>  Raw value\n\n" ++
    "Options:\n" ++
    "      --config <CONFIG>          Config file (TOML, or JSON with a .json extension)\n" ++
    "      --log-filter <LOG_FILTER>  Log filter, overrides the config file\n" ++
    "  -h, --help                     Print help\n" ++
    "  -V, --version                  Print version\n"

/-- The output of what stands in for a check. -/
def Halt.output : Halt → Output
  | .usage error => ⟨2, "", [], some error.message⟩
  | .inquiry question => ⟨0, question.answer, [], none⟩

/-- The output for the arguments of a run, the files it can read and the filter of its
environment, in a build with the logger and the JSON lines. -/
def runWith (logger : Logger Report) (json : JsonLines Report) (files : Files)
    (environment : Option String) (arguments : List String) : Output :=
  match Invocation.ofArguments arguments with
  | .error halt => halt.output
  | .ok invocation => invocation.run logger json files environment

/-- Filters of levels and targets, read alike wherever they stand. -/
def levelLogger : Logger Report where
  Filter := LogFilter
  ofText := .ofText
  ofEnvironment := .ofText
  shows filter report := filter.enables Report.target report.level
  line := Report.line

/-- The output of the build without JSON lines, which is the default one. -/
def run (files : Files) (environment : Option String) (arguments : List String) : Output :=
  runWith levelLogger none files environment arguments

end TokenIntake.Cli
