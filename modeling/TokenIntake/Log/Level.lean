import TokenIntake.Number.Word
import TokenIntake.Text.Numeral

/-!
# Log levels

An event has a level, and a target is logged up to a level.
-/

namespace TokenIntake

/-- How much is logged, from nothing to everything. -/
inductive LogLevel where
  | off
  | error
  | warn
  | info
  | debug
  | trace
  deriving DecidableEq, Repr

namespace LogLevel

def rank : LogLevel → Nat
  | off => 0
  | error => 1
  | warn => 2
  | info => 3
  | debug => 4
  | trace => 5

def all : List LogLevel := [off, error, warn, info, debug, trace]

def name : LogLevel → String
  | off => "OFF"
  | error => "ERROR"
  | warn => "WARN"
  | info => "INFO"
  | debug => "DEBUG"
  | trace => "TRACE"

/-- A level by its place, or by its name in any case. -/
def ofText? (text : List Char) : Option LogLevel :=
  match Numeral.natural (Word.limit - 1) text with
  | .ok n => all.find? fun level => level.rank == n
  | .error _ => all.find? fun level => level.name.toList == text.map Char.toUpper

end LogLevel

end TokenIntake
