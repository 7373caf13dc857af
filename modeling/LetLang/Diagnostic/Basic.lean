import LetLang.Location
import LetLang.Token.Kind

/-! Diagnostics: what is wrong with a program, and where. None of them stops the reading. -/
namespace LetLang

inductive Fault where
  | unexpected (expected found : Kind)
  /-- No expression starts with this kind. -/
  | cannotStart (kind : Kind)
  /-- The kind binds, but nothing can be made of it behind an operand. -/
  | cannotContinue (kind : Kind)
  /-- An integer literal without a value in the language. -/
  | outOfRange (literal : String)
deriving DecidableEq, Repr

namespace Fault

def name : Fault → String
  | unexpected .. => "UnexpectedToken"
  | cannotStart _ => "NoPrefixParseFn"
  | cannotContinue _ => "NoInfixParseFn"
  | outOfRange _ => "IntegerParseError"

def message : Fault → String
  | unexpected expected found => s!"expected next token to be {expected}, got {found} instead"
  | cannotStart kind => s!"no prefix parse function for {kind}"
  | cannotContinue kind => s!"no infix parse function for {kind}"
  | outOfRange literal => s!"could not parse '{literal}' as integer literal"

/-- A hint for the reader of a report. There is none where the text just ends. -/
def hint? : Fault → Option String
  | f@(unexpected ..) => some f.message
  | cannotStart .endOfInput => none
  | cannotStart kind => some s!"`{kind}` cannot start an expression"
  | cannotContinue kind => some s!"`{kind}` cannot continue an expression"
  | outOfRange literal => some s!"Invalid integer: `{literal}`, is it above the integer limit?"

end Fault

structure Diagnostic where
  fault : Fault
  location : Location
deriving DecidableEq, Repr

instance : ToString Diagnostic where
  toString d := s!"{d.location}: {d.fault.message}"

end LetLang
