import LetLang.Log

/-! Command line options. Arguments are read from left to right. A value stays pending until the
next argument that is understood, or the end, and is checked only then; an argument that is
not understood ends the reading at once, whatever is pending. -/
namespace LetLang.Command

structure Options where
  file? : Option String
  mode : Mode
  verbose : UInt8
  quiet : UInt8
deriving DecidableEq, Repr

/-- The threshold is one step above warnings for each demand for less, and one below for
each demand for more. -/
def Options.threshold (o : Options) : Log.Threshold :=
  match (o.verbose.toNat : Int) - o.quiet.toNat with
  | .negSucc 0 => some .error
  | .negSucc _ => none
  | .ofNat 0 => some .warn
  | .ofNat 1 => some .info
  | .ofNat 2 => some .debug
  | .ofNat _ => some .trace

inductive UsageError where
  /-- An option given twice, or beside one that it excludes. -/
  | conflict
  /-- A value that is missing, empty or none of those allowed. -/
  | invalidValue
  | unknownArgument
  /-- A value for an option that has none. -/
  | unwantedValue
deriving DecidableEq, Repr

def UsageError.message : UsageError → String
  | conflict => "an option is given twice, or beside one that it excludes"
  | invalidValue => "a value is missing, empty or not allowed"
  | unknownArgument => "an argument is not known"
  | unwantedValue => "an option has a value that it does not take"

/-- What ends the reading of arguments early. -/
inductive Stop where
  | help
  | version
  | misuse (e : UsageError)
deriving DecidableEq, Repr

/-- A value that has not been checked. -/
inductive Pending where
  | file (name : String)
  /-- The mode, whose value may still be missing. -/
  | mode (name? : Option String)
deriving DecidableEq, Repr

structure Draft where
  file? : Option String
  mode? : Option Mode
  verbose : UInt8
  quiet : UInt8
  pending? : Option Pending
  /-- Behind a double dash, where every argument is a file. -/
  filesOnly : Bool
deriving DecidableEq, Repr

namespace Draft

def empty : Draft := ⟨none, none, 0, 0, none, false⟩

def misuse {α : Type} (e : UsageError) : Except Stop α := .error (.misuse e)

def setMode (d : Draft) (name : String) : Except Stop Draft :=
  if d.mode?.isSome then misuse .conflict
  else match Mode.ofName? name with
    | some mode => .ok { d with mode? := some mode }
    | none => misuse .invalidValue

def close (d : Draft) : Except Stop Draft :=
  match d.pending? with
  | none => .ok d
  | some (.mode none) => misuse .invalidValue
  | some (.mode (some name)) => { d with pending? := none }.setMode name
  | some (.file name) =>
    if name = "" then misuse .invalidValue else .ok { d with pending? := none, file? := some name }

def countUp (n : UInt8) : UInt8 := if n = 255 then 255 else n + 1

def letter (d : Draft) : Char → Except Stop Draft
  | 'v' => do
    let d ← d.close
    return { d with verbose := countUp d.verbose }
  | 'q' => do
    let d ← d.close
    return { d with quiet := countUp d.quiet }
  | 'h' => do
    let _ ← d.close
    .error .help
  | 'V' => do
    let _ ← d.close
    .error .version
  | _ => misuse .unknownArgument

/-- Reads an argument with a double dash, given the name and the value attached to it. -/
def long (d : Draft) (name : String) (value? : Option String) : Except Stop Draft :=
  match name, value? with
  | "mode", none => do
    let d ← d.close
    return { d with pending? := some (.mode none) }
  | "mode", some value => do
    let d ← d.close
    d.setMode value
  | "help", none => do
    let _ ← d.close
    .error .help
  | "version", none => do
    let _ ← d.close
    .error .version
  | "help", some _ => misuse .unwantedValue
  | "version", some _ => misuse .unwantedValue
  | _, _ => misuse .unknownArgument

def hasFile (d : Draft) : Bool :=
  d.file?.isSome || (match d.pending? with
    | some (.file _) => true
    | _ => false)

/-- Reads an argument without a dash that is not the value of an option. -/
def file (d : Draft) (name : String) : Except Stop Draft :=
  if d.hasFile then misuse .unknownArgument
  else do
    let d ← d.close
    return { d with pending? := some (.file name) }

/-- The name of a double-dash argument, and the value behind the first equals sign. -/
def splitValue (cs : List Char) : String × Option String :=
  match cs.dropWhile (· ≠ '=') with
  | [] => (String.ofList cs, none)
  | _ :: value => (String.ofList (cs.takeWhile (· ≠ '=')), some (String.ofList value))

def argument (d : Draft) (arg : String) : Except Stop Draft :=
  if d.filesOnly then d.file arg
  else match arg.toList with
    | ['-', '-'] => .ok { d with filesOnly := true }
    | '-' :: '-' :: cs =>
      let (name, value?) := splitValue cs
      d.long name value?
    | '-' :: c :: cs => (c :: cs).foldlM letter d
    | _ =>
      if d.pending? = some (.mode none) then .ok { d with pending? := some (.mode (some arg)) }
      else d.file arg

def finish (d : Draft) : Except Stop Options := do
  let d ← d.close
  if d.verbose ≠ 0 ∧ d.quiet ≠ 0 then misuse .conflict
  else return ⟨d.file?, d.mode?.getD .tokens, d.verbose, d.quiet⟩

end Draft

def Options.ofArguments (args : List String) : Except Stop Options := do
  (← args.foldlM Draft.argument .empty).finish

end LetLang.Command
