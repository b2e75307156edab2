import TokenIntake.Config.Path
import TokenIntake.Proofs.Layouts
import TokenIntake.Proofs.Runs

/-!
# Settings of the log

The log of a run can be set up in three places: in the environment, by an option and in a file of
settings. One of the three filters wins, and the log depends on nothing else of them. The verdict
depends on none. Of the logger it is only assumed that it reads a filter of the environment as it
reads any other one.
-/

namespace TokenIntake

namespace Logger

variable {Event : Type} {logger : Logger Event}

/-- The lines of JSON, if they are wanted and the build has them, and the ones for people else. -/
def lineFor (logger : Logger Event) (json : JsonLines Event) (wanted : Bool) : Event → String :=
  if wanted then json.getD logger.line else logger.line

private theorem setUpFrom_eq (json : JsonLines Event) (environment : Option String)
    (settings : LogSettings) : logger.setUpFrom json environment settings =
      ⟨logger.resolveFilter environment settings.filter,
        logger.lineFor json settings.jsonFormat⟩ := by
  obtain ⟨filter, jsonFormat⟩ := settings
  cases jsonFormat <;> cases json <;> rfl

/-- A build without JSON lines has the same lines under all settings. -/
private theorem lineFor_none (wanted : Bool) : logger.lineFor none wanted = logger.line :=
  ite_self _

end Logger

namespace Cli

/-- The filter that wins: the one of the environment, even if it is empty, else the one that is
given, else the one of the settings. -/
def winner : (environment given settings : Option String) → String
  | some filter, _, _ => filter
  | none, some filter, _ => filter
  | none, none, some filter => filter
  | none, none, none => "info"

/-- The two outputs say the same but for their logs. -/
structure Output.SameVerdict (output output' : Output) : Prop where
  exit : output.exit = output'.exit
  stdout : output.stdout = output'.stdout
  error : output.error = output'.error

/-- The settings that a run begins with. Without a file they are the default ones. A file has them
as JSON in any layout, if its name ends so, or as lines of TOML, or it has any other text that is
read as them. -/
inductive Configured (files : Files) : Option String → Settings → Prop where
  | absent : Configured files none .default
  | json {path text : String} {settings : Settings}
      (named : FileStore.LoadsJson (Path.lastName path) none)
      (found : files path = .ok (Utf8.ofString text))
      (layout : settings.Layout (Utf8.ofString text)) : Configured files (some path) settings
  | toml {path : String} {settings : Settings} {lastFeed : Bool}
      (named : ¬ FileStore.LoadsJson (Path.lastName path) none)
      (found : files path = .ok (Utf8.ofString (settings.tomlText lastFeed)))
      (noDelete : settings.NoDelete) : Configured files (some path) settings
  | other {path : String} {bytes : List UInt8} {settings : Settings}
      (found : files path = .ok bytes)
      (read : Settings.ofBytes (.ofPath path) bytes = .ok settings) :
      Configured files (some path) settings

/-! ## Loading and overriding -/

theorem Configured.settings_eq {files : Files} {invocation : Invocation} {settings : Settings}
    (configured : Configured files invocation.config settings) :
    invocation.settings files = .ok settings := by
  obtain ⟨config, filter, kind, value⟩ := invocation
  cases configured with
  | absent => rfl
  | json named found layout =>
    have isJson := FileFormat.ofName_eq_json_iff.mpr named
    exact Invocation.settings_of_file found isJson (Settings.ofBytes_of_layout layout) ..
  | @toml path _ _ named found noDelete =>
    have isToml : FileFormat.ofPath path = .toml := by
      cases format : FileFormat.ofPath path with
      | toml => rfl
      | json => exact absurd (FileFormat.ofName_eq_json_iff.mp format) named
    exact Invocation.settings_of_file found isToml (Settings.ofBytes_tomlText noDelete _) ..
  | other found read => exact Invocation.settings_of_file found rfl read ..

/-- The override and the order of the filters make the winner. -/
private theorem resolveFilter_override {logger : Logger Report}
    (alike : ∀ text, logger.ofEnvironment text = logger.ofText text) (environment : Option String)
    (invocation : Invocation) (settings : Settings) :
    logger.resolveFilter environment (invocation.override settings).logging.filter =
      logger.ofText (winner environment invocation.logFilter settings.logging.filter) := by
  obtain ⟨config, given, kind, value⟩ := invocation
  obtain ⟨⟨filter, jsonFormat⟩⟩ := settings
  cases environment with
  | some text => exact alike text
  | none => cases given <;> cases filter <;> rfl

private theorem jsonFormat_override (invocation : Invocation) (settings : Settings) :
    (invocation.override settings).logging.jsonFormat = settings.logging.jsonFormat := by
  obtain ⟨config, given, kind, value⟩ := invocation
  cases given <;> rfl

/-! ## Runs -/

/-- A finding is put out in the same way whatever is logged. -/
theorem Finding.sameVerdict_output (finding : Finding) (log log' : List String) :
    (finding.output log).SameVerdict (finding.output log') := by
  cases finding <;> exact ⟨rfl, rfl, rfl⟩

private theorem Finding.output_log (finding : Finding) (log : List String) :
    (finding.output log).log = log := by
  cases finding <;> rfl

section

variable {logger : Logger Report} {files : Files} {arguments : List String}
  {invocation : Invocation} {settings : Settings}

/-- A run logs what the winning filter shows of its reports, as JSON if the settings want it. -/
theorem log_runWith (alike : ∀ text, logger.ofEnvironment text = logger.ofText text)
    (asks : AsksFor arguments invocation)
    (configured : Configured files invocation.config settings) (json : JsonLines Report)
    (environment : Option String) :
    (runWith logger json files environment arguments).log =
      (invocation.reports.filter (logger.shows (logger.ofText
        (winner environment invocation.logFilter settings.logging.filter)))).map
          (logger.lineFor json settings.logging.jsonFormat) := by
  rw [runWith_of_asksFor asks configured.settings_eq, Invocation.check, Finding.output_log,
    Logger.setUpFrom_eq, resolveFilter_override alike, jsonFormat_override]
  rfl

/-- Whatever sets up the log, the verdict is the one of a run without any of it. In a build without
JSON lines the log is the one of a run whose environment has the winning filter. -/
theorem run_depends_on_winner (alike : ∀ text, logger.ofEnvironment text = logger.ofText text)
    (asks : AsksFor arguments invocation)
    (configured : Configured files invocation.config settings) (environment : Option String)
    (noFiles : Files) :
    let bare := [invocation.kind.name, "--", invocation.value]
    (∀ json : JsonLines Report, (runWith logger json files environment arguments).SameVerdict
        (runWith logger json noFiles none bare)) ∧
      (runWith logger none files environment arguments).log =
        (runWith logger none noFiles
          (some (winner environment invocation.logFilter settings.logging.filter)) bare).log := by
  intro bare
  have asks_bare : AsksFor bare ⟨none, none, invocation.kind, invocation.value⟩ :=
    asksFor_endOfOptions invocation.kind invocation.value
  constructor
  -- The check is the same, and a finding is put out apart from the lines of the log.
  · intro json
    rw [runWith_of_asksFor asks configured.settings_eq,
      runWith_of_asksFor asks_bare Configured.absent.settings_eq]
    exact Finding.sameVerdict_output _ _ _
  -- With the winner in the environment nothing else can win in the other run.
  · rw [log_runWith alike asks configured, log_runWith alike asks_bare .absent,
      Logger.lineFor_none, Logger.lineFor_none]
    rfl

end

/-- The filter of the settings wins, be they JSON or TOML, and so does an option over them. -/
theorem run_depends_on_winner_settings :
    let log := (run (fun _ => .error .noFile) (some "debug") ["title", "--", "-"]).log
    (run (fun _ => .ok (Utf8.ofString
        "\x7b\n  \"logging\": \x7b\n    \"filter\": \"debug\",\n    \"json_format\": true\n  \x7d\n\x7d"))
      none ["--config", "log.json", "title", "--", "-"]).log = log ∧
    (run (fun _ => .ok (Utf8.ofString "[logging]\nfilter = \"debug\"\njson_format = true\n"))
      none ["--config", "log.toml", "title", "--", "-"]).log = log ∧
    (run (fun _ => .ok (Utf8.ofString "[logging]\nfilter = \"debug\"\njson_format = true\n"))
      none ["--config", "log.toml", "--log-filter=off", "title", "--", "-"]).log =
        (run (fun _ => .error .noFile) (some "off") ["title", "--", "-"]).log := by
  have alike (text : String) : levelLogger.ofEnvironment text = levelLogger.ofText text := rfl
  let settings : Settings := ⟨⟨some "debug", true⟩⟩
  have json : settings.write =
      "\x7b\n  \"logging\": \x7b\n    \"filter\": \"debug\",\n    \"json_format\": true\n  \x7d\n\x7d" := by
    decide
  have toml : settings.tomlText true = "[logging]\nfilter = \"debug\"\njson_format = true\n" := by
    decide
  have noDelete : settings.NoDelete := by
    rintro _ ⟨⟩
    decide
  have notJson : ¬ FileStore.LoadsJson (Path.lastName "log.toml") none := fun named =>
    absurd (FileFormat.ofName_eq_json_iff.mpr named) (by decide)
  have option : ValueOption.logFilter.Written "off" ["--log-filter=off"] := by
    have text : "--log-filter=off" = ValueOption.logFilter.flag ++ "=" ++ "off" := by decide
    exact text ▸ .joined
  have file (path : String) (present : path ≠ "") (plain : NoOption path) :
      Asks ["--config", path] ⟨some path, none, none, none⟩ :=
    .config .nothing rfl present (.apart plain)
  rw [← json, ← toml]
  refine ⟨?_, ?_, ?_⟩
  · have asks : AsksFor ["--config", "log.json", "title", "--", "-"]
        ⟨some "log.json", none, .title, "-"⟩ :=
      .valueBehind (.kind (file "log.json" (by decide) (.inl (by decide))) .title) _
    have named : FileStore.LoadsJson (Path.lastName "log.json") none :=
      ⟨"log", by decide, by decide⟩
    exact (run_depends_on_winner alike asks
      (.json named rfl settings.layout_write) none (fun _ => .error .noFile)).2
  · have asks : AsksFor ["--config", "log.toml", "title", "--", "-"]
        ⟨some "log.toml", none, .title, "-"⟩ :=
      .valueBehind (.kind (file "log.toml" (by decide) (.inl (by decide))) .title) _
    exact (run_depends_on_winner alike asks
      (.toml notJson rfl noDelete) none (fun _ => .error .noFile)).2
  · have asks : AsksFor ["--config", "log.toml", "--log-filter=off", "title", "--", "-"]
        ⟨some "log.toml", some "off", .title, "-"⟩ :=
      .valueBehind (.kind (.logFilter (file "log.toml" (by decide) (.inl (by decide))) rfl option)
        .title) _
    exact (run_depends_on_winner alike asks
      (.toml notJson rfl noDelete) none (fun _ => .error .noFile)).2

/-! ## Files of a session -/

open FileStore (empty storeBefore)

/-- What is loaded from a file of a directory is what a run in that directory begins with. -/
private theorem configured_of_load {store : FileStore} {file : String} {settings : Settings}
    (bare : Path.Bare file) (loads : store.load file none = .ok settings) :
    Configured store.bytesAt (some file) settings := by
  rw [← bare.loadFrom_eq, Settings.loadFrom, Settings.loadAs] at loads
  split at loads
  next => cases loads
  next bytes found => exact .other found loads

theorem answer_load_eq_settings_iff {store : FileStore} {file : String}
    {format : Option FileFormat} {settings : Settings} :
    store.answer (.load file format) = .settings settings ↔
      store.load file format = .ok settings := by
  rw [FileStore.answer.eq_def]
  dsimp only
  cases store.load file format <;> simp

/-- In front of a step of a session that loads settings, a run on their file logs by them. -/
theorem log_runWith_in_session {logger : Logger Report}
    (alike : ∀ text, logger.ofEnvironment text = logger.ofText text)
    {steps : List FileStore.Step} {i : Nat} {file : String} {settings : Settings}
    (loads : steps[i]? = some (.load file none))
    (answered : (empty.session steps)[i]? = some (.settings settings)) (bare : Path.Bare file)
    {arguments : List String} {invocation : Invocation} (asks : AsksFor arguments invocation)
    (named : invocation.config = some file) (json : JsonLines Report)
    (environment : Option String) :
    (runWith logger json (storeBefore steps i).bytesAt environment arguments).log =
      (invocation.reports.filter (logger.shows (logger.ofText
        (winner environment invocation.logFilter settings.logging.filter)))).map
          (logger.lineFor json settings.logging.jsonFormat) := by
  rw [FileStore.session_getElem?, loads] at answered
  have loaded := answer_load_eq_settings_iff.mp (Option.some.inj answered)
  exact log_runWith alike asks (named ▸ configured_of_load bare loaded) json environment

end Cli

end TokenIntake
