import LetLang.Grammar.Statement
import LetLang.Scanner.Basic

/-! The parser: a source, the tokens ahead, and what has been reported about it so far. Of
faults found at one place in a row only the first is reported. -/
namespace LetLang

/-- What a parser has done: a token taken off the text, or a fault that was reported, or
one that was not because its place had just been reported. -/
inductive Step where
  | pull
  | reported (d : Diagnostic)
  | repeated (d : Diagnostic)
deriving DecidableEq, Repr

structure Parser where
  source : Source
  ahead : List Token
  finish : Location
  /-- The reported diagnostics, latest first. -/
  reported : List Diagnostic
  /-- All steps, latest first. -/
  history : List Step
deriving DecidableEq, Repr

namespace Parser

open Grammar (Action Rule)

/-- A parser at the start of a source. It sees two tokens, which it has taken. -/
def ofSource (source : Source) : Parser :=
  let s := Scanner.ofSource source
  ⟨source, s.tokens, s.finish, [], [.pull, .pull]⟩

def current (p : Parser) : Token := p.ahead.headD (.finish p.finish)

def upcoming (p : Parser) : Token := p.ahead.tail.headD (.finish p.finish)

def diagnostics (p : Parser) : List Diagnostic := p.reported.reverse

/-- Reports a diagnostic, unless the latest one is for the same place. -/
def report (p : Parser) (d : Diagnostic) : Parser :=
  if p.reported.head?.map (·.location) = some d.location then
    { p with history := .repeated d :: p.history }
  else
    { p with reported := d :: p.reported, history := .reported d :: p.history }

def note (p : Parser) : Action → Parser
  | .pull => { p with history := .pull :: p.history }
  | .fault d => p.report d

/-- Lets a rule read on from the current token. -/
def run {α : Type} (rule : Rule α) (p : Parser) : Option α × Parser :=
  let r := rule p.finish p.ahead
  (r.value?, { r.trail.foldl note p with ahead := r.rest })

def advance (p : Parser) : Parser := (p.run Grammar.advance).2

@[simp] theorem ahead_advance (p : Parser) : p.advance.ahead = p.ahead.tail := rfl

@[simp] theorem reported_advance (p : Parser) : p.advance.reported = p.reported := rfl

/-- Whether the upcoming token is of the given kind. If so it becomes the current one, and
if not the parser reports that. -/
def expect (kind : Kind) (p : Parser) : Bool × Parser :=
  let (t?, p) := p.run (Grammar.expect kind)
  (t?.isSome, p)

def program (p : Parser) : Program × Parser :=
  let (program?, p) := p.run Grammar.program
  (program?.getD ⟨[]⟩, p)

theorem program_fst (p : Parser) :
    p.program.1 = ⟨(Grammar.statements p.finish p.ahead).1⟩ := rfl

theorem report_of_eq {p : Parser} {d latest : Diagnostic} {earlier : List Diagnostic}
    (h : p.reported = latest :: earlier) (hplace : latest.location = d.location) :
    (p.report d).reported = p.reported := by
  simp [report, h, hplace]

theorem report_of_ne {p : Parser} {d : Diagnostic}
    (h : p.reported.head?.map (·.location) ≠ some d.location) :
    (p.report d).reported = d :: p.reported := by
  simp [report, h]

end Parser

/-- The program in a source, and everything reported about it. -/
def parse (source : Source) : Program × List Diagnostic :=
  let (program, p) := (Parser.ofSource source).program
  (program, p.diagnostics)

end LetLang
