import LetLang.Command.Options
import LetLang.Session.Basic

/-! What the command does: it checks one file, or else holds a session on its input. -/
namespace LetLang.Command

open Log (Event)

structure Result where
  exitCode : UInt32
  output : List UInt8
  /-- The reports about a file that was checked. -/
  reports : List String
  log : List Event
  /-- Why the command could not do its work: the task that failed, then its cause. -/
  causes : List String
deriving DecidableEq, Repr

/-- The line with which the command says what it is. -/
def versionLine : String := "gibbon 0.1.0\n"

def greeting (user? : Option String) : String :=
  "Welcome to the gibbon interpreter " ++ user?.getD "there" ++ "!\n"

/-- Checks a file, given what opening it brought: prints its program, or else reports about
it. For the reports it is read once more, and then it must be text. -/
def check (name : String) (opened : Except Failure (List Delivery)) : Result :=
  match opened with
  | .error f => ⟨1, [], [], [], [s!"failed to open {name}", f.message]⟩
  | .ok deliveries =>
    let (program, p) := (Parser.ofSource ⟨name, deliveries⟩).program
    let log := p.log ++ [.parsed name]
    if p.diagnostics = [] then ⟨0, Utf8.encode s!"{program}\n", [], log, []⟩
    else match Delivery.readText deliveries with
      | .error f => ⟨1, [], [], log, [s!"failed to read {name}", f.message]⟩
      | .ok text => ⟨1, [], p.diagnostics.map fun d => d.report text name, log, []⟩

/-- Holds a session with a user. -/
def interact (mode : Mode) (user? : Option String) (input : List Delivery) : Result :=
  let o := Session.run mode none input
  let output := Utf8.encode (greeting user?) ++ o.output
  match o.failure? with
  | none => ⟨0, output, [], o.log, []⟩
  | some f => ⟨1, output, [], o.log, [f.message]⟩

/-- Does what the options say. `openFile` opens a file by its name. -/
def run (o : Options) (openFile : String → Except Failure (List Delivery))
    (user? : Option String) (input : List Delivery) : Result :=
  let r := match o.file? with
    | some name => check name (openFile name)
    | none => interact o.mode user? input
  { r with log := Log.keep o.threshold r.log }

end LetLang.Command
