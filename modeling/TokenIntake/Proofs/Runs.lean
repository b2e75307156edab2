import TokenIntake.Cli.Run
import TokenIntake.Proofs.CommandLines

/-!
# Runs on a value behind the end of options

A value behind `--` is never taken for an option, so a run on it is a check of that very value.
Settings and filters touch the log of a run and nothing else.
-/

namespace TokenIntake.Cli

namespace Invocation

/-- A file that is there is read by the format that its name tells. -/
theorem settings_of_file {files : Files} {path : String} {bytes : List UInt8}
    {format : FileFormat} {settings : Settings} (found : files path = .ok bytes)
    (named : FileFormat.ofPath path = format) (read : Settings.ofBytes format bytes = .ok settings)
    (filter : Option String) (kind : FieldKind) (value : String) :
    Invocation.settings files ⟨some path, filter, kind, value⟩ = .ok settings := by
  rw [Invocation.settings]
  dsimp only
  rw [Settings.loadFrom, Settings.loadAs, found]
  dsimp only
  rw [named, read]

/-- With settings that can be loaded the check is made, and its log is set up by them. -/
theorem run_of_settings {files : Files} {invocation : Invocation} {settings : Settings}
    (loads : invocation.settings files = .ok settings) (logger : Logger Report)
    (json : JsonLines Report) (environment : Option String) :
    invocation.run logger json files environment =
      invocation.check
        (logger.setUpFrom json environment (invocation.override settings).logging) := by
  rw [Invocation.run, loadSettings, loads]
  rfl

end Invocation

/-- The check that is asked for is made, under settings that can be loaded. -/
theorem runWith_of_asksFor {files : Files} {arguments : List String} {invocation : Invocation}
    {settings : Settings} (asks : AsksFor arguments invocation)
    (loads : invocation.settings files = .ok settings) (logger : Logger Report)
    (json : JsonLines Report) (environment : Option String) :
    runWith logger json files environment arguments =
      invocation.check
        (logger.setUpFrom json environment (invocation.override settings).logging) := by
  rw [runWith, Invocation.ofArguments_of_asksFor asks]
  exact Invocation.run_of_settings loads logger json environment

theorem asksFor_endOfOptions (kind : FieldKind) (value : String) :
    AsksFor [kind.name, "--", value] ⟨none, none, kind, value⟩ :=
  .valueBehind (.kind .nothing kind) value

/-- A run on a value behind the end of options puts out the finding on that value. -/
theorem run_endOfOptions (files : Files) (environment : Option String) (kind : FieldKind)
    (value : String) :
    ∃ log, run files environment [kind.name, "--", value] = (kind.find value).output log :=
  ⟨_, runWith_of_asksFor (asksFor_endOfOptions kind value) rfl levelLogger none environment⟩

end TokenIntake.Cli
