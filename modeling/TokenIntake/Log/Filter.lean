import TokenIntake.Log.Level
import TokenIntake.Text.Parts

/-!
# Filters of levels and targets

A filter is a list of directives between commas. A directive sets the level for the
targets that begin with a text, or for all of them. Of the directives that apply to a
target the one with the longest text decides, and of equally long ones the last.

The command line prints its log under such filters. Directives about spans and fields
are not among them. A part that has one is no directive here.
-/

namespace TokenIntake

structure Directive where
  target : Option (List Char)
  level : LogLevel
  deriving Repr

namespace Directive

/-- A directive starts with a letter, a digit or one of three marks. -/
def isStart (c : Char) : Bool :=
  c.isAlphanum || c == '-' || c == ':' || c == '_' || 0x80 ≤ c.toNat

/-- The directive of a text: a level, a target, or a target and its level. A target
alone is logged in full. -/
def ofText? (text : List Char) : Option Directive :=
  if (text.head?.map isStart).getD false then
    match text.span (· ≠ '=') with
    | (target, _ :: level) =>
      if level.isEmpty then some ⟨some target, .trace⟩
      else (LogLevel.ofText? level).map fun level => ⟨some target, level⟩
    | (text, []) =>
      match LogLevel.ofText? text with
      | some level => some ⟨none, level⟩
      | none => some ⟨some text, .trace⟩
  else none

def applies (directive : Directive) (target : List Char) : Bool :=
  (directive.target.getD []).isPrefixOf target

/-- How much a directive says about its targets: nothing, or the length of its text. -/
def weight (directive : Directive) : Nat :=
  match directive.target with
  | none => 0
  | some target => target.length + 1

end Directive

structure LogFilter where
  directives : List Directive
  deriving Repr

namespace LogFilter

/-- The filter of a text. A part that is no directive does not count, and without any
directive only errors are logged. -/
def ofText (text : String) : LogFilter :=
  match (Parts.split ',' text.toList).filterMap Directive.ofText? with
  | [] => ⟨[⟨none, .error⟩]⟩
  | directives => ⟨directives⟩

def deciding? (filter : LogFilter) (target : List Char) : Option Directive :=
  (filter.directives.filter (·.applies target)).foldl
    (fun best directive =>
      match best with
      | none => some directive
      -- Of equally long texts the later one wins.
      | some found => if found.weight ≤ directive.weight then some directive else some found)
    none

def enables (filter : LogFilter) (target : String) (level : LogLevel) : Bool :=
  match filter.deciding? target.toList with
  | none => false
  | some directive => level.rank ≤ directive.level.rank

end LogFilter

end TokenIntake
