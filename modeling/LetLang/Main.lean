import LetLang.Command.Run

/-! The command itself. Everything it decides is decided elsewhere; here files are opened,
lines are read as they come, and effects become output. -/
namespace LetLang.Command

def usage : String :=
  "Usage: gibbon [-v | -q] [--mode <tokens|ast>] [source file]\n" ++
  "\n" ++
  "  -v             more logging, can be repeated\n" ++
  "  -q             less logging, can be repeated\n" ++
  "  --mode <MODE>  what a session prints for every line: tokens (default) or ast\n" ++
  "  -h, --help     print this text\n" ++
  "  -V, --version  print the version\n"

def failureOf : IO.Error → Failure
  | .noFileOrDirectory .. => .notFound
  | .inappropriateType none _ _ => .isDirectory
  | .inappropriateType (some _) _ _ => .notDirectory
  | .permissionDenied _ code details => ⟨.other, s!"{details} (os error {code})"⟩
  | .invalidArgument _ code details => ⟨.other, s!"{details} (os error {code})"⟩
  | e => ⟨.other, toString e⟩

def readAll (file : IO.FS.Handle) : IO (List Delivery) := do
  try
    let bytes ← file.readBinToEnd
    return Delivery.ofBytes bytes.data.toList
  catch e => return [.failure (failureOf e)]

def openFile (name : String) : IO (Except Failure (List Delivery)) := do
  try
    let file ← IO.FS.Handle.mk name .read
    return .ok (← readAll file)
  catch e => return .error (failureOf e)

/-- Reads up to a line feed or the end. -/
partial def readLine (input : IO.FS.Stream) : IO (List Delivery) := do
  try
    let some b := (← input.read 1).data[0]? | return []
    if b = 0x0A then return [.byte b]
    return .byte b :: (← readLine input)
  catch e => return [.failure (failureOf e)]

def log (threshold : Log.Threshold) (e : Log.Event) : IO Unit := do
  if threshold.admits e.level then IO.eprintln s!"[{e.level.title}] {e.message}"

def perform (threshold : Log.Threshold) : Session.Effect → IO Unit
  | .write text => IO.print text
  | .log e => log threshold e

/-- Answers lines until there are no more, or until one cannot be read. -/
partial def converse (o : Options) (input output : IO.FS.Stream) : IO (Option Failure) := do
  IO.print Session.prompt
  output.flush
  match Session.lines (← readLine input) with
  | [] => return none
  | .error f :: _ => return some f
  | .ok line :: _ =>
    (Session.answer o.mode line).forM (perform o.threshold)
    converse o input output

def explain (causes : List String) : IO Unit := do
  match causes with
  | [] => return
  | first :: others =>
    IO.eprintln s!"Error: {first}"
    for cause in others do IO.eprintln s!"Caused by: {cause}"

/-- Checks a file and says what came of it. -/
def checkFile (o : Options) (name : String) : IO UInt32 := do
  let r := check name (← openFile name)
  for e in r.log do log o.threshold e
  (← IO.getStdout).write ⟨r.output.toArray⟩
  for report in r.reports do IO.eprint report
  explain r.causes
  return r.exitCode

/-- Holds a session on the standard streams. -/
def session (o : Options) : IO UInt32 := do
  IO.print (greeting (← IO.getEnv "USER"))
  log o.threshold (.started o.mode)
  match ← converse o (← IO.getStdin) (← IO.getStdout) with
  | none => return 0
  | some f =>
    explain [f.message]
    return 1

end LetLang.Command

open LetLang.Command in
def main (args : List String) : IO UInt32 := do
  match Options.ofArguments args with
  | .ok o =>
    match o.file? with
    | some name => checkFile o name
    | none => session o
  | .error .help =>
    IO.print usage
    return 0
  | .error .version =>
    IO.print versionLine
    return 0
  | .error (.misuse e) =>
    IO.eprintln s!"error: {e.message}"
    return 2
