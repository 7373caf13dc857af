import LetLang.Diagnostic.Basic
import LetLang.Session.Mode
import LetLang.Text.Quoted

/-! Log lines: what happened, how much it matters, and which part of the program says so.
When they arise is said where the parts are. -/
namespace LetLang.Log

inductive Level where
  | error
  | warn
  | info
  | debug
  | trace
deriving DecidableEq, Repr

def Level.rank : Level → Nat
  | error => 1
  | warn => 2
  | info => 3
  | debug => 4
  | trace => 5

def Level.title : Level → String
  | error => "ERROR"
  | warn => "WARN"
  | info => "INFO"
  | debug => "DEBUG"
  | trace => "TRACE"

/-- The least important level that is still kept; `none` keeps nothing. -/
abbrev Threshold := Option Level

namespace Threshold

/-- The threshold with the given name, in letters of either case. -/
def ofName? (name : String) : Option Threshold :=
  match name.map Char.toLower with
  | "off" => some none
  | "error" => some (some .error)
  | "warn" => some (some .warn)
  | "info" => some (some .info)
  | "debug" => some (some .debug)
  | "trace" => some (some .trace)
  | _ => none

def title : Threshold → String
  | none => "OFF"
  | some level => level.title

def admits : Threshold → Level → Bool
  | none, _ => false
  | some least, level => level.rank ≤ least.rank

end Threshold

inductive Origin where
  | scanner
  | parser
  | session
  | command
deriving DecidableEq, Repr

inductive Event where
  /-- A read failed, which ends the text of the source. -/
  | unreadable (source message : String)
  | scanned (source : String) (place : Location) (literal : String)
  | reported (source : String) (d : Diagnostic)
  /-- A fault at the place of the latest report, which is not reported. -/
  | repeated (source : String) (d : Diagnostic)
  | started (mode : Mode)
  | parsed (source : String)
deriving DecidableEq, Repr

namespace Event

def level : Event → Level
  | unreadable .. => .warn
  | scanned .. => .trace
  | reported .. | repeated .. => .debug
  | started _ | parsed _ => .info

def origin : Event → Origin
  | unreadable .. | scanned .. => .scanner
  | reported .. | repeated .. => .parser
  | started _ => .session
  | parsed _ => .command

def message : Event → String
  | unreadable source message => s!"failed to read from {source}: {message}"
  | scanned source place literal => s!"{source}:{place} scanned {Text.quote literal}"
  | reported source d => s!"{source}:{d}"
  | repeated source d => s!"{source}:{d} (token already reported)"
  | started mode => s!"starting REPL in {mode.title} mode"
  | parsed source => s!"Parsed {source}"

end Event

def keep (threshold : Threshold) (events : List Event) : List Event :=
  events.filter fun e => threshold.admits e.level

end LetLang.Log
