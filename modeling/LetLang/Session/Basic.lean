import LetLang.Diagnostic.Report
import LetLang.Trace

/-! Sessions: lines come in, and each is answered for itself. A session is first a series of
effects, so that it can be performed with writers that have room for everything or not. -/
namespace LetLang.Session

open Log (Event)

def prompt : String := ">> "

/-- The name that reports and log lines give to every line. -/
def sourceName : String := "REPL"

def decode (bytes : List UInt8) : Except Failure String :=
  match Utf8.decode? bytes with
  | some text => .ok text
  | none => .error .notText

/-- The lines of an input, without line feeds and without one carriage return before each of
them. A failed read is the last line, in place of what it cut off. -/
def lines (input : List Delivery) : List (Except Failure String) :=
  go [] input
where
  /-- The same with the bytes of the line so far, last one first. -/
  go (behind : List UInt8) : List Delivery → List (Except Failure String)
    | [] => if behind = [] then [] else [decode behind.reverse]
    | .byte b :: rest =>
      if b = 0x0A then
        let line := if behind.head? = some 0x0D then behind.tail else behind
        decode line.reverse :: go [] rest
      else go (b :: behind) rest
    | .failure f :: rest => if f.isTransient then go behind rest else [.error f]

inductive Effect where
  | write (text : String)
  | log (event : Event)
deriving DecidableEq, Repr

/-- The effects of listing the tokens that a scanner brings. -/
def listing (source : Source) (s : Scanner) : List Effect :=
  if s.skipBlanks.rest = [] then (s.events source).map .log
  else (s.events source).map .log ++ .write s!"{s.next.1}\n" :: listing source s.next.2
termination_by s.rest.length
decreasing_by exact Scanner.length_next_lt ‹_›

def print (program : Program) (diagnostics : List Diagnostic) (line : String) : List String :=
  if diagnostics = [] then [s!"{program}\n"]
  else diagnostics.map fun d => d.report line sourceName

def answer (mode : Mode) (line : String) : List Effect :=
  let source := Source.ofText sourceName line
  match mode with
  | .tokens => source.opening.map .log ++ listing source (.ofSource source)
  | .program =>
    let (program, p) := (Parser.ofSource source).program
    p.log.map .log ++ (print program p.diagnostics line).map .write

/-- The effects of a session in order, and the failure that ends it. A prompt stands before
each line, and before the end. -/
def script (mode : Mode) : List (Except Failure String) → List Effect × Option Failure
  | [] => ([.write prompt], none)
  | .error f :: _ => ([.write prompt], some f)
  | .ok line :: rest =>
    let (effects, failure?) := script mode rest
    (.write prompt :: answer mode line ++ effects, failure?)

structure Outcome where
  output : List UInt8
  failure? : Option Failure
  log : List Event
deriving DecidableEq, Repr

/-- Performs effects with a writer that takes `room?` bytes, or any number of them. The write
that finds no room fills what there is, and nothing happens after it. -/
def perform (room? : Option Nat) (failure? : Option Failure) : List Effect → Outcome
  | [] => ⟨[], failure?, []⟩
  | .log event :: rest =>
    let o := perform room? failure? rest
    { o with log := event :: o.log }
  | .write text :: rest =>
    let bytes := Utf8.encode text
    match room? with
    | none =>
      let o := perform none failure? rest
      { o with output := bytes ++ o.output }
    | some room =>
      if bytes.length ≤ room then
        let o := perform (some (room - bytes.length)) failure? rest
        { o with output := bytes ++ o.output }
      else ⟨bytes.take room, some .writerFull, []⟩

def run (mode : Mode) (room? : Option Nat) (input : List Delivery) : Outcome :=
  let (effects, failure?) := script mode (lines input)
  perform room? failure? (.log (.started mode) :: effects)

end LetLang.Session
