import TokenIntake.Cli.FieldKind
import TokenIntake.Text.Terminal

/-!
# Arguments

The command line takes a kind of field and a value, in this order, and two options that
may stand anywhere before `--`. An argument is held back until the next one shows that it
is complete, so of two errors the one that settles first is reported.
-/

namespace TokenIntake.Cli

inductive ValueOption where
  | config
  | logFilter
  deriving DecidableEq, Repr

def ValueOption.usage : ValueOption → String
  | config => "--config <CONFIG>"
  | logFilter => "--log-filter <LOG_FILTER>"

/-- What can be asked for besides a check. -/
inductive Inquiry where
  | help
  | version
  deriving DecidableEq, Repr

def Inquiry.usage : Inquiry → String
  | help => "--help"
  | version => "--version"

inductive UsageError where
  | valueMissing (argument : String)
  | repeated (option : ValueOption)
  | unexpectedArgument (argument : String)
  | unexpectedValue (value : String) (inquiry : Inquiry)
  | unknownField (text : String)
  | incomplete
  deriving DecidableEq, Repr

/-- The error in words, without the hints that follow it. What the user wrote is shown
without control sequences. -/
def UsageError.message : UsageError → String
  | valueMissing argument => s!"a value is required for '{argument}' but none was supplied"
  | repeated option => s!"the argument '{option.usage}' cannot be used multiple times"
  | unexpectedArgument argument => s!"unexpected argument '{Terminal.plain argument}' found"
  | unexpectedValue value inquiry =>
    s!"unexpected value '{Terminal.plain value}' for '{inquiry.usage}' found; no more were expected"
  | unknownField text => s!"invalid value '{Terminal.plain text}' for '<FIELD>'"
  | incomplete => "the following required arguments were not provided:"

/-- What arguments ask for: a check of a value, with its options. -/
structure Invocation where
  config : Option String
  logFilter : Option String
  kind : FieldKind
  value : String
  deriving DecidableEq, Repr

inductive Halt where
  | usage (error : UsageError)
  | inquiry (question : Inquiry)
  deriving DecidableEq, Repr

inductive Argument where
  | endOfOptions
  | long (name : String) (value : Option String)
  | short (letter : Char)
  | plain
  deriving DecidableEq, Repr

/-- The form of an argument. A single `-` is plain, and of several letters behind one `-`
only the first counts. -/
def Argument.ofText : List Char → Argument
  | ['-', '-'] => .endOfOptions
  | '-' :: '-' :: rest =>
    match rest.span (· ≠ '=') with
    | (name, []) => .long (String.ofList name) none
    | (name, _ :: value) => .long (String.ofList name) (some (String.ofList value))
  | '-' :: letter :: _ => .short letter
  | _ => .plain

/-- An argument that is held back. -/
inductive Pending where
  | none
  | option (option : ValueOption) (value : Option String)
  | field (text : String)
  | value (text : String)
  deriving DecidableEq, Repr

structure Draft where
  config : Option String
  logFilter : Option String
  kind : Option FieldKind
  value : Option String
  positionals : Nat
  optionsEnded : Bool
  pending : Pending

namespace Draft

def start : Draft := ⟨none, none, none, none, 0, false, .none⟩

/-- Takes the value of an option, which is set once at most. -/
def setOption (draft : Draft) : ValueOption → String → Except UsageError Draft
  | .config, value =>
    if draft.config.isSome then .error (.repeated .config)
    else if value.isEmpty then .error (.valueMissing ValueOption.config.usage)
    else .ok { draft with config := some value }
  | .logFilter, value =>
    if draft.logFilter.isSome then .error (.repeated .logFilter)
    else .ok { draft with logFilter := some value }

def setField (draft : Draft) (text : String) : Except UsageError Draft :=
  if text.isEmpty then .error (.valueMissing "<FIELD>")
  else
    match FieldKind.ofName? text with
    | some kind => .ok { draft with kind := some kind }
    | none => .error (.unknownField text)

def settle (draft : Draft) : Except UsageError Draft :=
  let cleared := { draft with pending := .none }
  match draft.pending with
  | .none => .ok draft
  | .option option none => .error (.valueMissing option.usage)
  | .option option (some value) => cleared.setOption option value
  | .field text => cleared.setField text
  | .value text => .ok { cleared with value := some text }

/-- Holds an argument back, once the one before it is taken. -/
def hold (draft : Draft) (pending : Pending) : Except UsageError Draft :=
  draft.settle.map fun settled => { settled with pending := pending }

/-- An argument that is no option: the kind of field, then the value, then one too many. -/
def positional (draft : Draft) (text : String) : Except UsageError Draft :=
  match draft.positionals with
  | 0 => ({ draft with positionals := 1 } : Draft).hold (.field text)
  | 1 => ({ draft with positionals := 2 } : Draft).hold (.value text)
  | _ => .error (.unexpectedArgument text)

/-- An option. A value behind `=` completes it. -/
def option (draft : Draft) (option : ValueOption) : Option String → Except UsageError Draft
  | none => draft.hold (.option option none)
  | some value => draft.hold (.option option (some value)) >>= settle

/-- Answers an inquiry, unless what was held back is wrong. -/
def inquire (draft : Draft) (inquiry : Inquiry) : Halt :=
  match draft.settle with
  | .error error => .usage error
  | .ok _ => .inquiry inquiry

/-- Reads an inquiry, which takes no value. -/
def longInquiry (draft : Draft) (inquiry : Inquiry) : Option String → Halt
  | none => draft.inquire inquiry
  | some value => .usage (.unexpectedValue value inquiry)

def step (draft : Draft) (text : String) : Except Halt Draft :=
  if draft.optionsEnded then (draft.positional text).mapError .usage
  else
    match Argument.ofText text.toList with
    | .endOfOptions => .ok { draft with optionsEnded := true }
    | .long "config" value => (draft.option .config value).mapError .usage
    | .long "log-filter" value => (draft.option .logFilter value).mapError .usage
    | .long "help" value => .error (draft.longInquiry .help value)
    | .long "version" value => .error (draft.longInquiry .version value)
    | .long name _ => .error (.usage (.unexpectedArgument ("--" ++ name)))
    | .short 'h' => .error (draft.inquire .help)
    | .short 'V' => .error (draft.inquire .version)
    | .short letter => .error (.usage (.unexpectedArgument (String.ofList ['-', letter])))
    | .plain =>
      -- A plain argument completes an option that waits for its value.
      match draft.pending with
      | .option option none => .ok { draft with pending := .option option (some text) }
      | _ => (draft.positional text).mapError .usage

def finish (draft : Draft) : Except UsageError Invocation := do
  let settled ← draft.settle
  match settled.kind, settled.value with
  | some kind, some value => .ok ⟨settled.config, settled.logFilter, kind, value⟩
  | _, _ => .error .incomplete

end Draft

def Invocation.ofArguments (arguments : List String) : Except Halt Invocation := do
  let draft ← arguments.foldlM Draft.step .start
  draft.finish.mapError .usage

end TokenIntake.Cli
