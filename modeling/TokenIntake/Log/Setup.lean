import TokenIntake.Config.Settings

/-!
# Setting up the log

The filter of the log is the one of the environment, else the one that is asked for, else
`info`. The lines are for people to read, or JSON if the settings want it and the program
was built with it. How a filter is read, which events it shows and how a line looks is up
to the logger.
-/

namespace TokenIntake

/-- What the program needs of a logger. There are no spans, so a filter decides on every
event by itself. -/
structure Logger (Event : Type) where
  Filter : Type
  ofText : String → Filter
  ofEnvironment : String → Filter
  shows : Filter → Event → Bool
  line : Event → String

/-- The part that a build adds to a logger to have lines of JSON, if it does. -/
abbrev JsonLines (Event : Type) : Type := Option (Event → String)

/-- A log that prints the events that its filter shows. -/
structure Log {Event : Type} (logger : Logger Event) where
  filter : logger.Filter
  line : Event → String

def Log.lines {Event : Type} {logger : Logger Event} (log : Log logger) (events : List Event) :
    List String :=
  (events.filter (logger.shows log.filter)).map log.line

namespace Logger

variable {Event : Type} (logger : Logger Event)

/-- A filter in the environment counts even if it is empty. -/
def resolveFilter (environment asked : Option String) : logger.Filter :=
  match environment with
  | some filter => logger.ofEnvironment filter
  | none => logger.ofText (asked.getD "info")

def setUp (environment asked : Option String) : Log logger :=
  ⟨logger.resolveFilter environment asked, logger.line⟩

def setUpJson (jsonLine : Event → String) (environment asked : Option String) : Log logger :=
  ⟨logger.resolveFilter environment asked, jsonLine⟩

/-- A build without JSON lines has lines for people whatever the settings want. -/
def setUpFrom (json : JsonLines Event) (environment : Option String) (settings : LogSettings) :
    Log logger :=
  if settings.jsonFormat then
    match json with
    | some jsonLine => logger.setUpJson jsonLine environment settings.filter
    | none => logger.setUp environment settings.filter
  else logger.setUp environment settings.filter

end Logger

end TokenIntake
